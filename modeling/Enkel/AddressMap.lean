import Enkel.Progress

/-!
MapPages as an operation on partial maps from virtual to physical addresses.
As long as the list of free pages does not run empty, GetPhysicalAddress
refines the map in which the addresses of the call have been rebound, for every
state that the kernel builds from the empty PML4.
-/
namespace Enkel.Paging

open Outcome MemoryState KernelMemory

/-- A partial map from virtual to physical addresses. -/
abbrev AddressMap := ℕ → Option ℕ

/-- Rebind a range: to consecutive addresses, or to nothing when it is freed. -/
def mapRange (f : AddressMap) (v p size : ℕ) (newState : RangeState) : AddressMap := fun x =>
  if v ≤ x ∧ x < v + size then (if newState = .free then none else some (p + (x - v))) else f x

/-- The lookup in the tables gives what the map says. -/
def RefinesMap (k : KernelMemory) (f : AddressMap) : Prop :=
  ∀ x < 2 ^ 48, k.getPhysicalAddress x false = (f x).getD invalidAddress

/-- The map that a state stands for. -/
def addressMap (k : KernelMemory) : AddressMap := fun x => (frame k x).map fun f => f + x % 4096

theorem refinesMap_addressMap {k : KernelMemory} (hk : Ok k) : RefinesMap k (addressMap k) := by
  intro x _
  rw [getPhysicalAddress_eq_frame hk.tables]
  unfold addressMap
  cases frame k x <;> rfl

section Translation
variable {refill : Prop} {k kt k' : KernelMemory} {m : Mapping} {v p size : ℕ}

theorem Called.translation_freed (hc : Called False m v p size k kt k') (hk : Ok k)
    (hk' : Ok k') (hwrap : v + size < 2 ^ 64) (hm : m.newState = .free) {x : ℕ} (hlo : v ≤ x)
    (hhi : x < v + size) : k'.getPhysicalAddress x false = invalidAddress := by
  have hi := callTurns_pos_of_mem hc.virtual_page hc.size_mod hwrap hlo hhi
  have hvmod := hc.virtual_page.mod
  have hpmod := hc.physical_page.mod
  obtain ⟨-, -, hend⟩ := hc.bounds (by omega)
  have hH := hk.physical.lt
  have hp : PageAddress (p + 4096 * ((x - v) / 4096)) := ⟨by unfold Aligned; omega, by omega⟩
  rcases hc.mapped.written _ hi with hw | ⟨h, -⟩
  · rw [Mapping.leafEntry_free hm hp] at hw
    have hframe := frame_of_word_free hp hw
    rw [frame_congr (word_congr k' (show (v + 4096 * ((x - v) / 4096)) / 4096 = x / 4096 by omega))]
      at hframe
    rw [getPhysicalAddress_eq_frame hk'.tables, hframe]
    rfl
  · exact h.elim

/-- Off the range of the call every leaf word is as it was. -/
theorem Called.word_outside (hc : Called False m v p size k kt k') (hlt : size < 2 ^ 64) {x : ℕ}
    (hx : x < 2 ^ 48) (hout : ¬ (v ≤ x ∧ x < v + size)) : word k' x = word k x := by
  obtain ⟨physical, virt, hkt, -⟩ := hc.tags
  have hsame : word kt x = word k x := by
    rw [hkt]
    rfl
  rcases hc.mapped.env.words x hx with h | ⟨hlo, hhi⟩ | ⟨h, -⟩
  · exact h.trans hsame
  · rcases callTurns_spec hc.virtual_page hc.size_mod hlt with h | ⟨-, h⟩
    · omega
    · exact absurd ⟨hlo, by omega⟩ hout
  · exact h.elim

end Translation

/-- One call of MapPages without refills refines the map operation. -/
theorem Called.refinesMap {k kt k' : KernelMemory} {m : Mapping} {v p size : ℕ}
    (hc : Called False m v p size k kt k') (hk : Ok k) (hk' : Ok k') (hwrap : v + size < 2 ^ 64)
    {f : AddressMap} (hf : RefinesMap k f) : RefinesMap k' (mapRange f v p size m.newState) := by
  intro x hx
  unfold mapRange
  split_ifs with hin hfree
  · exact hc.translation_freed hk hk' hwrap hfree hin.1 hin.2
  · exact hc.translation_mapped hk hk' hwrap hfree hin.1 hin.2
  · rw [getPhysicalAddress_eq_frame hk'.tables, frame_congr (hc.word_outside (by omega) hx hin),
      ← getPhysicalAddress_eq_frame hk.tables]
    exact hf x hx

/-- The example machine with 16 pages above the gap, as it starts to map. -/
def smallStart : KernelMemory := machineStart 16 sixteen_pages

theorem boot_smallStart : Boot smallStart := boot_machineStart 16 (by decide)

end Enkel.Paging
