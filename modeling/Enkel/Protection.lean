import Enkel.AllocationRuns

/-!
VirtualProtect and the translation of addresses. The function asks for the frame of the first
page and maps the whole range anew from that frame on. So it changes attributes only when the
pages have consecutive frames, which a range that was remapped in part has not.
-/
namespace Enkel.Paging

open Outcome MemoryState KernelMemory

/-- The mapping of VirtualProtect. -/
def protectMapping (protectFlags : MemoryProtection) (pageFlags : PageFlags)
    (privilegeLevel : PrivilegeLevel) : Mapping :=
  { writable := decide (protectFlags = .readWrite)
    executable := decide (protectFlags = .execute)
    privilegeLevel := privilegeLevel
    newState := .used
    pageFlags := pageFlags }

theorem protectMapping_maps (protectFlags : MemoryProtection) (pageFlags : PageFlags)
    (privilegeLevel : PrivilegeLevel) :
    (protectMapping protectFlags pageFlags privilegeLevel).newState ≠ .free :=
  fun h => RangeState.noConfusion h

/-- The pages of the range are mapped to consecutive frames. -/
def Consecutive (k : KernelMemory) (address size : ℕ) : Prop :=
  ∀ x, address ≤ x → x < address + size →
    k.getPhysicalAddress x false = k.getPhysicalAddress address false + (x - address)

/-- Every address is translated in `k'` as it is in `k`. -/
def SameTranslation (k k' : KernelMemory) : Prop :=
  ∀ x < 2 ^ 48, k'.getPhysicalAddress x false = k.getPhysicalAddress x false

section Protect
variable {k k' : KernelMemory} {depth address size p : ℕ} {m : Mapping}

theorem tablesPresent_of_mapped (address size : ℕ) (hk : Ok k) (haligned : Aligned address) (hsize : size % 4096 = 0)
    (hend : address + size ≤ 2 ^ 48)
    (hmapped : ∀ x, address ≤ x → x < address + size →
      k.getPhysicalAddress x false ≠ invalidAddress) : TablesPresent k address size := by
  intro i hi
  rcases Nat.eq_zero_or_pos size with hzero | hpos
  · subst hzero
    unfold callTurns loopTurns add64 pageSize at hi
    omega
  · have hturns := callTurns_of_lt (v := address) ⟨haligned, by omega⟩ hsize (by omega)
    exact tableAt_of_frame
      ((getPhysicalAddress_ne_invalid hk.tables _).mp (hmapped _ (by omega) (by omega)))

/-- Off the range a call that needs no table changes no translation. -/
theorem Called.translation_outside {kt : KernelMemory} {v : ℕ}
    (hc : Called False m v p size k kt k') (hk : Ok k) (hk' : Ok k') (hlt : size < 2 ^ 64) {x : ℕ}
    (hx : x < 2 ^ 48) (hout : ¬ (v ≤ x ∧ x < v + size)) :
    k'.getPhysicalAddress x false = k.getPhysicalAddress x false := by
  rw [getPhysicalAddress_eq_frame hk'.tables, getPhysicalAddress_eq_frame hk.tables,
    frame_congr (hc.word_outside hlt hx hout)]

/-- Mapping a mapped range anew, from the frame of its first page on, changes no translation
exactly when its frames are consecutive. -/
theorem sameTranslation_iff {kt : KernelMemory}
    (hc : Called False m address (k.getPhysicalAddress address false) size k kt k') (hk : Ok k)
    (hk' : Ok k') (hm : m.newState ≠ .free) (hend : address + size ≤ 2 ^ 48) :
    SameTranslation k k' ↔ Consecutive k address size := by
  have hinside : ∀ x, address ≤ x → x < address + size → k'.getPhysicalAddress x false =
      k.getPhysicalAddress address false + (x - address) := fun x hlo hhi =>
    hc.translation_mapped hk hk' (by omega) hm hlo hhi
  constructor
  · intro h x hlo hhi
    rw [← h x (by omega), hinside x hlo hhi]
  · intro h x hx
    by_cases hin : address ≤ x ∧ x < address + size
    · rw [hinside x hin.1 hin.2, h x hin.1 hin.2]
    · exact hc.translation_outside hk hk' (by omega) hx hin

theorem virtualProtect_eq (hk : Running k) (protectFlags : MemoryProtection)
    (pageFlags : PageFlags) (privilegeLevel : PrivilegeLevel) :
    k.virtualProtect depth address size protectFlags pageFlags privilegeLevel =
      k.mapPages depth address (k.getPhysicalAddress address false) size
        (protectMapping protectFlags pageFlags privilegeLevel) := by
  rw [← getPhysicalAddress_live hk.ok hk.cr3]
  rfl

/-- On consecutive frames in the physical tree VirtualProtect returns, unless it runs out of
tree nodes. -/
theorem virtualProtect_consecutive (hk : Running k) (haligned : Aligned address)
    (hpos : 0 < size) (hsize : size % 4096 = 0) (hend : address + size ≤ pageMask)
    (hmapped : ∀ x, address ≤ x → x < address + size →
      k.getPhysicalAddress x false ≠ invalidAddress)
    (hframes : Consecutive k address size) (hpage : PageAddress (k.getPhysicalAddress address false))
    (hle : k.getPhysicalAddress address false + size ≤ k.physicalMemoryState.highestAddress)
    (protectFlags : MemoryProtection) (pageFlags : PageFlags) (privilegeLevel : PrivilegeLevel) :
    Meets Fault.NodeListEmpty (SameTranslation k)
      (k.virtualProtect depth address size protectFlags pageFlags privilegeLevel) := by
  have hend48 : address + size ≤ 2 ^ 48 := hend.trans (by decide)
  have htables := tablesPresent_of_mapped address size hk.ok haligned hsize hend48 hmapped
  have hturns := callTurns_of_lt (v := address) ⟨haligned, by omega⟩ hsize (by omega)
  rw [virtualProtect_eq hk]
  refine meets_mono (mapPages_enough_meets depth hk.ok (by omega) htables.enough) ?_ ?_
  · rintro e (hpool | ⟨-, hempty⟩ | ⟨⟨i, hi, hnot⟩, -⟩ | ⟨hargs, -⟩ | ⟨-, hvalid, -⟩)
    · exact hpool.elim False.elim fun h => h.1.elim
    · exact hempty
    · exact absurd (fun _ _ => ⟨protectMapping_maps _ _ _, by
        rw [hframes _ (by omega) (by omega), Nat.add_sub_cancel_left]⟩) hnot
    · exact absurd ⟨⟨haligned, by omega⟩, hpage, hsize⟩ hargs
    · exact absurd ⟨hpos, hle, hend⟩ hvalid
  · rintro k' ⟨hk', -, -, kt, hc⟩
    exact (sameTranslation_iff hc hk.ok hk' (protectMapping_maps _ _ _) hend48).mpr hframes

end Protect

/-- In every reachable state, a call of VirtualProtect on mapped pages that returns leaves the
translation of every address as it was exactly when the pages have consecutive frames. -/
theorem protect_keeps_translation_iff (k : KernelMemory) (hk : Reachable k)
    (depth address size : ℕ) (haligned : Aligned address) (hsize : size % 4096 = 0)
    (hend : address + size ≤ 2 ^ 48)
    (hmapped : ∀ x, address ≤ x → x < address + size →
      k.getPhysicalAddress x false ≠ invalidAddress)
    (protectFlags : MemoryProtection) (pageFlags : PageFlags) (privilegeLevel : PrivilegeLevel)
    (k' : KernelMemory)
    (h : k.virtualProtect depth address size protectFlags pageFlags privilegeLevel = .ok k') :
    SameTranslation k k' ↔ Consecutive k address size := by
  have hrun := hk.running
  have htables := tablesPresent_of_mapped address size hrun.ok haligned hsize hend hmapped
  rw [virtualProtect_eq hrun] at h
  obtain ⟨hk', -, -, kt, hc⟩ :=
    (mapPages_enough_meets depth hrun.ok (by omega) htables.enough).of_eq_ok h
  exact sameTranslation_iff hc hrun.ok hk' (protectMapping_maps _ _ _) hend

section Example

/-- On the example machine page 0xB01000 gets the first frame behind the gap; then the range
of two pages from 0xB00000 on is protected. -/
def protectTrees : Except Fault (MemoryState × MemoryState) := do
  let trees ← machineTrees 16
  let physical ← trees.1.tagRange 0x40200000 0x40201000 .used
  let virt ← trees.2.tagRange 0xB01000 0xB02000 .used
  let physical ← physical.tagRange 0xB00000 0xB02000 .used
  let virt ← virt.tagRange 0xB00000 0xB02000 .used
  return (physical, virt)

/-- The range after one of its pages was mapped to another frame, and after it was
protected. -/
structure Protected (k k' : KernelMemory) : Prop where
  reachable : Reachable k
  mapped : ∀ x, 0xB00000 ≤ x → x < 0xB02000 → k.getPhysicalAddress x false ≠ invalidAddress
  first : k.getPhysicalAddress 0xB00000 false = 0xB00000
  second : k.getPhysicalAddress 0xB01000 false = 0x40200000
  call : k.virtualProtect 0 0xB00000 0x2000 .readOnly pageFlagsNone .keep = .ok k'

theorem exists_protected : ∃ k k', Protected k k' := by
  have htrees : (errorOf protectTrees).isNone := by decide +kernel
  obtain ⟨r, htrees⟩ := exists_ok_of_errorOf (Option.isNone_iff_eq_none.mp htrees)
  unfold protectTrees at htrees
  obtain ⟨k0, hm, htrees⟩ := exists_machineRunning_of_bind 16 (by decide) htrees
  obtain ⟨physical, hp1, htrees⟩ := bind_eq_ok.mp htrees
  obtain ⟨virt, hv1, htrees⟩ := bind_eq_ok.mp htrees
  obtain ⟨physical', hp2, htrees⟩ := bind_eq_ok.mp htrees
  obtain ⟨virt', hv2, -⟩ := bind_eq_ok.mp htrees
  have hk0 := hm.reachable.running
  obtain ⟨k, hmap, hok, -, -, hc⟩ := mapPages_enough_ok 0 hk0.ok (m := readWriteMapping)
    (v := 0xB01000) (p := 0x40200000) ⟨by decide, by decide⟩ ⟨by decide, by decide⟩
    (show 0x1000 % 4096 = 0 by decide) (by decide)
    (fun i hi _ hpaging => by
      have hi : i < 1 := hi
      rw [hm.not_paging (by omega)] at hpaging
      cases hpaging) hp1 hv1 (hm.missing_le (by decide))
  have hreachable : Reachable k := .map hm.reachable (by decide) hmap
  have hk := hreachable.running
  have hinside : ∀ x, 0xB01000 ≤ x → x < 0xB02000 →
      k.getPhysicalAddress x false = 0x40200000 + (x - 0xB01000) := fun x hlo hhi =>
    hc.translation_mapped hk0.ok hok (by decide) (by decide) hlo (by omega)
  have houtside : ∀ x, x < 0xB01000 → k.getPhysicalAddress x false = x := fun x hx => by
    rw [hc.translation_outside hk0.ok hok (by decide) (by omega) (by omega),
      hm.identity x (by omega)]
  have hmapped : ∀ x, 0xB00000 ≤ x → x < 0xB02000 →
      k.getPhysicalAddress x false ≠ invalidAddress := fun x hlo hhi => by
    unfold invalidAddress
    by_cases hx : x < 0xB01000
    · rw [houtside x hx]
      omega
    · rw [hinside x (by omega) hhi]
      omega
  have hfirst := houtside 0xB00000 (by decide)
  obtain ⟨hphysical, hvirt⟩ := hc.trees_quiet
  have hpresent := tablesPresent_of_mapped 0xB00000 0x2000 hok (by decide) (by decide) (by decide)
    hmapped
  obtain ⟨k', hcall, -⟩ := mapPages_enough_ok 0 hok
    (m := protectMapping .readOnly pageFlagsNone .keep) (v := 0xB00000) (p := 0xB00000)
    ⟨by decide, by decide⟩ ⟨by decide, by decide⟩ (show 0x2000 % 4096 = 0 by decide) (by decide)
    (fun i hi _ hpaging => by
      have hi : i < 2 := hi
      rw [hc.paging_quiet.2, hm.not_paging (by omega)] at hpaging
      cases hpaging)
    (by rw [hphysical]; exact hp2) (by rw [hvirt]; exact hv2) hpresent.enough
  refine ⟨k, k', hreachable, hmapped, hfirst, hinside 0xB01000 le_rfl (by decide), ?_⟩
  rw [virtualProtect_eq hk, hfirst]
  exact hcall

theorem protect_keeps_translation_iff_remapped : ∃ k k', Reachable k ∧
    k.virtualProtect 0 0xB00000 0x2000 .readOnly pageFlagsNone .keep = .ok k' ∧
    (SameTranslation k k' ↔ Consecutive k 0xB00000 0x2000) := by
  obtain ⟨k, k', h⟩ := exists_protected
  exact ⟨k, k', h.reachable, h.call, protect_keeps_translation_iff k h.reachable 0 0xB00000 0x2000
    (by decide) (by decide) (by decide) h.mapped .readOnly pageFlagsNone .keep k' h.call⟩

/-- Protecting the range maps its second page back to the frame behind that of the first. -/
theorem protect_moves_page : ∃ k k', Reachable k ∧
    (∀ x, 0xB00000 ≤ x → x < 0xB02000 → k.getPhysicalAddress x false ≠ invalidAddress) ∧
    k.virtualProtect 0 0xB00000 0x2000 .readOnly pageFlagsNone .keep = .ok k' ∧
    ¬ SameTranslation k k' := by
  obtain ⟨k, k', h⟩ := exists_protected
  refine ⟨k, k', h.reachable, h.mapped, h.call, fun hsame => ?_⟩
  have hk := h.reachable.running
  have htables := tablesPresent_of_mapped 0xB00000 0x2000 hk.ok (by decide) (by decide) (by decide)
    h.mapped
  have hcall := h.call
  rw [virtualProtect_eq hk] at hcall
  obtain ⟨hk', -, -, kt, hc⟩ :=
    (mapPages_enough_meets 0 hk.ok (by decide) htables.enough).of_eq_ok hcall
  have hconsecutive := (sameTranslation_iff hc hk.ok hk' (by decide) (by decide)).mp hsame
  have hsecond := hconsecutive 0xB01000 (by decide) (by decide)
  rw [h.first, h.second] at hsecond
  exact absurd hsecond (by decide)

end Example

end Enkel.Paging
