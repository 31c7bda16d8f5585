import Enkel.FailedStart

/-!
What a run of a program has taken and not yet given back. As long as no list of free pages
is refilled, the ledger lists the blocks that VirtualAlloc has handed out; beside them
there are only those that rpmalloc keeps. When it is empty, all other pages are as they
were.
-/
namespace Enkel.Paging

open Outcome MemoryState KernelMemory

section Ledger
variable {k0 k k' : KernelMemory} {live live' : List Allocation} {a : Allocation} {size v : ℕ}
  {privilegeLevel : PrivilegeLevel} {pageFlags : PageFlags}

theorem AllocInv.perm (h : AllocInv k0 k live) (hperm : live.Perm live') : AllocInv k0 k live' :=
  { h with
    liveIn := fun a ha => h.liveIn a (hperm.mem_iff.mpr ha)
    apart := hperm.pairwise h.apart fun hab => Apart.symm hab
    virt := fun x hx => (h.virt x hx).imp id fun ⟨a, ha, hin⟩ => ⟨a, hperm.mem_iff.mp ha, hin⟩
    phys := fun x hx => (h.phys x hx).imp id fun ⟨a, ha, hin⟩ => ⟨a, hperm.mem_iff.mp ha, hin⟩ }

/-- An allocation that does not return null is one more on the list. -/
theorem AllocInv.of_virtualAlloc (h : AllocInv k0 k live) (hlt : size < 2 ^ 64) (hne : v ≠ 0)
    (halloc : k.virtualAlloc 0 size privilegeLevel pageFlags = .ok (v, k')) :
    AllocInv k0 k' (⟨v, k'.getPhysicalAddress v true, size⟩ :: live) := by
  obtain ⟨hok, hnew⟩ := (virtualAllocWith_found getPML4FreePage_zero_spec h.ok hlt privilegeLevel
    pageFlags).of_eq_ok halloc
  obtain ⟨p, kt, hf, hc⟩ := hnew hne
  have hstart := (firstFit_spec h.ok.virt hf.virt hne).2.2.2.2 v le_rfl (Or.inr rfl)
  exact h.alloc (hc.size_pos h.ok rfl hstart) hlt rfl hf hok hc

/-- The first block of the list is freed. -/
theorem AllocInv.of_virtualFree (h : AllocInv k0 k (a :: live)) (h0 : Ok k0)
    (hfree : k.virtualFree 0 a.address a.size = .ok k') : AllocInv k0 k' live := by
  have hkept := (h.virtualFree_meets List.mem_cons_self h0.live).of_eq_ok hfree
  rwa [List.erase_cons_head] at hkept

/-- VirtualFree makes no page anything but Free. -/
theorem virtualFree_free (hk : Ok k) (hfree : k.virtualFree 0 v size = .ok k') :
    (∀ x < k.physicalMemoryState.highestAddress,
      physState k x = .free → physState k' x = .free) ∧
      ∀ x < pageMask, virtState k x = .free → virtState k' x = .free := by
  unfold KernelMemory.virtualFree KernelMemory.mapPages at hfree
  rw [← mapPagesWith_mod] at hfree
  obtain ⟨-, -, -, kt, hc⟩ :=
    (mapPages_zero_meets hk (Nat.mod_lt _ (Nat.two_pow_pos 64))).of_eq_ok hfree
  constructor
  · intro x hx hstate
    rw [hc.physState_quiet, hc.phys_tagged hk hx]
    unfold tagged
    split_ifs
    · rfl
    · exact hstate
  · intro x hx hstate
    rw [hc.virtState_quiet, hc.virt_tagged hk hx]
    unfold tagged
    split_ifs
    · rfl
    · exact hstate

/-- What VirtualFree does to the trees. -/
def freeTrees (a : Allocation) (trees : MemoryState × MemoryState) :
    Except Fault (MemoryState × MemoryState) := do
  let physical ← trees.1.tagRange a.frame (a.frame + a.size) .free
  let virt ← trees.2.tagRange a.address (a.address + a.size) .free
  return (physical, virt)

/-- A run whose trees are known, with so many pages left for tables. -/
structure TreeRun (k0 k : KernelMemory) (trees : MemoryState × MemoryState)
    (live : List Allocation) (pages : ℕ) : Prop where
  inv : AllocInv k0 k live
  trees : (k.physicalMemoryState, k.virtualMemoryState) = trees
  pool : pages ≤ k.pagingFree.length

section TreeRun
variable {trees trees' : MemoryState × MemoryState} {pages p : ℕ}

/-- While there are pages for tables, an allocation does what it does to the trees. -/
theorem TreeRun.virtualAlloc (h : TreeRun k0 k trees live pages)
    (halloc : allocTrees size trees = .ok (v, p, trees')) (hmod : size % 4096 = 0)
    (hlt : size < 2 ^ 64) (hv : v ≠ 0) (hp : p ≠ 0)
    (hpool : 3 * (callTurns v size / 512 + 2) ≤ pages) (privilegeLevel : PrivilegeLevel)
    (pageFlags : PageFlags) :
    ∃ k', k.virtualAlloc 0 size privilegeLevel pageFlags = .ok (v, k') ∧
      TreeRun k0 k' trees' (⟨v, p, size⟩ :: live)
        (pages - 3 * (callTurns v size / 512 + 2)) := by
  have hpages := h.pool
  have hmissing : missingTables k v size ≤ 3 * (callTurns v size / 512 + 2) :=
    (missing_le_card _ _).trans (card_callPrefixes_le _ _)
  rw [← h.trees] at halloc
  obtain ⟨k', hrun, hk', hf, -, hlength, hc⟩ := virtualAlloc_enough_ok 0 h.inv.ok hmod halloc hv hp
    (by omega) privilegeLevel pageFlags
  obtain ⟨hphysical, hvirt, -⟩ := hc.mapped.env.steady id
  have hinv := h.inv.of_virtualAlloc hlt hv hrun
  have hpos := (hinv.liveIn _ List.mem_cons_self).size_pos
  have hframe : k'.getPhysicalAddress v true = p := by
    have hlt := hc.physical_page.lt
    rw [getPhysicalAddress_live hk' hinv.cr3,
      getPhysicalAddress_eq_iff hk'.tables hc.virtual_page.aligned (by omega)]
    exact hc.frame_found h.inv.ok hf rfl (i := 0) hpos
  rw [hframe] at hinv
  refine ⟨k', hrun, hinv, ?_, by omega⟩
  rw [hphysical, hvirt]
  rfl

theorem TreeRun.perm (h : TreeRun k0 k trees live pages) (hperm : live.Perm live') :
    TreeRun k0 k trees live' pages := { h with inv := h.inv.perm hperm }

/-- The tables of a live allocation exist. -/
theorem TreeRun.virtualFree (h : TreeRun k0 k trees (a :: live) pages) (h0 : Ok k0)
    (hfree : freeTrees a trees = .ok trees') :
    ∃ k', k.virtualFree 0 a.address a.size = .ok k' ∧ TreeRun k0 k' trees' live pages := by
  have hin := h.inv.liveIn a List.mem_cons_self
  have hle := hin.address_le
  have hfle := hin.frame_le
  have hpages := h.pool
  have hH := h.inv.ok.physical.lt
  rw [h.inv.highest] at hH
  unfold pageMask at hle
  have hturns : callTurns a.address a.size = a.size / 4096 :=
    callTurns_of_lt hin.address_page hin.size_mod (by omega)
  have htables : TablesPresent k a.address a.size := fun i hi => by
    apply tableAt_of_frame
    rw [hin.mapped i (by omega)]
    exact Option.some_ne_none _
  -- the pages of the allocation were Free before the run
  have hkeep : ∀ i < callTurns a.address a.size,
      k.keepsPagingPage freeMapping (a.address + 4096 * i) (a.frame + 4096 * i) := by
    intro i hi hset hpaging
    refine absurd (hin.virt _ (by omega) (by omega)).2 (h0.live (h.inv.paging.1.symm.trans hset) _
      (by unfold pageMask; omega) ((h.inv.paging.2 _).symm.trans hpaging))
  rw [← h.trees] at hfree
  obtain ⟨physical, hphysical, hfree⟩ := bind_eq_ok.mp hfree
  obtain ⟨virt, hvirt, hfree⟩ := bind_eq_ok.mp hfree
  cases hfree
  obtain ⟨k', hrun, hk', -, hlength, hc⟩ := mapPages_enough_ok 0 (m := freeMapping) h.inv.ok
    hin.address_page hin.frame_page hin.size_mod (by omega) hkeep
    (by rw [physicalEnd_of_lt hin.frame_page hin.size_mod (by omega)]; exact hphysical)
    (by rw [add64_of_lt (by omega)]; exact hvirt) htables.enough
  obtain ⟨hphysical', hvirt', -⟩ := hc.mapped.env.steady id
  have hnone : missingTables k a.address a.size = 0 := missing_callPrefixes_eq_zero htables
  have hinv := h.inv.free List.mem_cons_self rfl hk' hc
  rw [List.erase_cons_head] at hinv
  refine ⟨k', ?_, hinv, ?_, by omega⟩
  · unfold KernelMemory.virtualFree
    rw [hin.physical h.inv.ok h.inv.cr3]
    exact hrun
  · rw [hphysical', hvirt']
    rfl

end TreeRun

end Ledger

end Enkel.Paging

namespace Enkel.ProgramRun

open Outcome Paging
open BinaryRegistry (Name)
open VolumeCalls (System Devices Volume)

/-- What is out at the state `s` of a run from `s0`: the blocks `out`, and those that
rpmalloc has mapped meanwhile. -/
def Ledger (s0 s : State) (out : List Allocation) : Prop :=
  ∃ own, s.heapBlocks = own ++ s0.heapBlocks ∧ AllocInv s0.memory s.memory (out ++ own)

section Ledger
variable {s0 s : State} {out out' : List Allocation} {a : Allocation} {byteSize : ℕ}

theorem Ledger.start (h : Running s0.memory) : Ledger s0 s0 [] :=
  ⟨[], rfl, AllocRun.start.inv h.ok h.cr3⟩

theorem Ledger.perm (h : Ledger s0 s out) (hperm : out.Perm out') : Ledger s0 s out' := by
  obtain ⟨own, hown, hinv⟩ := h
  exact ⟨own, hown, hinv.perm (hperm.append_right own)⟩

/-- The files and the binaries do not matter. -/
theorem Ledger.congr {s' : State} (h : Ledger s0 s out) (hmemory : s'.memory = s.memory)
    (hblocks : s'.heapBlocks = s.heapBlocks) : Ledger s0 s' out := by
  obtain ⟨own, hown, hinv⟩ := h
  exact ⟨own, hblocks.trans hown, hmemory ▸ hinv⟩

theorem Ledger.virtualAlloc (h : Ledger s0 s out) (hlt : byteSize < 2 ^ 64) :
    Meets (fun _ => True)
      (fun r => ∃ frame, Ledger s0 r.2 (⟨r.1, frame, byteSize⟩ :: out))
      (State.virtualAlloc 0 byteSize s) := by
  obtain ⟨own, hown, hinv⟩ := h
  refine meets_bind (meets_self _) fun r hr => ?_
  refine meets_require (fun _ => trivial) fun hne => meets_pure ?_
  exact ⟨_, own, hown, hinv.of_virtualAlloc hlt hne (mapError_eq_ok.mp hr)⟩

theorem Ledger.virtualFree (h : Ledger s0 s (a :: out)) (h0 : Running s0.memory) :
    Meets (fun _ => True) (fun s' => Ledger s0 s' out)
      (State.virtualFree 0 a.address a.size s) := by
  obtain ⟨own, hown, hinv⟩ := h
  refine meets_bind (meets_self _) fun k hk => meets_pure ?_
  exact ⟨own, hown, hinv.of_virtualFree h0.ok (mapError_eq_ok.mp hk)⟩

theorem Ledger.rpMalloc (h : Ledger s0 s out) :
    Meets (fun _ => True) (fun r => Ledger s0 r.2 out) (State.rpMalloc 0 s) := by
  unfold State.rpMalloc
  cases s.grants with
  | nil => exact meets_error trivial
  | cons grant grants =>
    refine meets_bind (R := fun s' : State => Ledger s0 s' out) ?_ fun s' hs' => meets_pure hs'
    refine meets_foldlM (R := fun (s' : State) (_ : Unit) => Ledger s0 s' out)
      (g := fun t _ => t) (t := ()) _ (fun size hsize s' _ hs' => ?_) h
    obtain ⟨own, hown, hinv⟩ := hs'
    refine meets_bind (meets_self _) fun r hr => ?_
    refine meets_require (fun _ => trivial) fun hne => meets_pure ?_
    have hmore := hinv.of_virtualAlloc (grant.sizes_lt size hsize) hne (mapError_eq_ok.mp hr)
    refine ⟨⟨r.1, r.2.getPhysicalAddress r.1 true, size⟩ :: own, ?_, ?_⟩
    · exact congrArg (List.cons _) hown
    · exact hmore.perm List.perm_middle.symm

end Ledger

/-- Every page that was Free is Free again, but for those that rpmalloc has mapped. -/
def PagesBack (s s' : State) : Prop :=
  ∃ own, s'.heapBlocks = own ++ s.heapBlocks ∧
    (∀ x < s.memory.physicalMemoryState.highestAddress, physState s.memory x = .free →
      physState s'.memory x = .free ∨ ∃ b ∈ own, b.frame ≤ x ∧ x < b.frame + b.size) ∧
    ∀ x < pageMask, virtState s.memory x = .free →
      virtState s'.memory x = .free ∨ ∃ b ∈ own, b.address ≤ x ∧ x < b.address + b.size

section Back
variable {s s' s'' : State} {address byteSize depth : ℕ}

theorem Ledger.pagesBack (h : Ledger s s' []) : PagesBack s s' := by
  obtain ⟨own, hown, hinv⟩ := h
  rw [List.nil_append] at hinv
  refine ⟨own, hown, fun x hx hfree => ?_, fun x hx hfree => ?_⟩
  · exact (hinv.phys x hx).imp (fun heq => heq.trans hfree) id
  · exact (hinv.virt x hx).imp (fun heq => heq.trans hfree) id

/-- A block that was not taken in the run may be freed as well. -/
theorem Ledger.pagesBack_of_free (h : Ledger s s' [])
    (hfree : s'.virtualFree 0 address byteSize = .ok s'') : PagesBack s s'' := by
  have hok : Ok s'.memory := by
    obtain ⟨own, -, hinv⟩ := h
    exact hinv.ok
  have hhighest : s'.memory.physicalMemoryState.highestAddress =
      s.memory.physicalMemoryState.highestAddress := by
    obtain ⟨own, -, hinv⟩ := h
    exact hinv.highest
  obtain ⟨own, hown, hphys, hvirt⟩ := h.pagesBack
  obtain ⟨k, hk, hfree⟩ := bind_eq_ok.mp hfree
  obtain rfl := pure_eq_ok.mp hfree
  obtain ⟨hkphys, hkvirt⟩ := virtualFree_free hok (mapError_eq_ok.mp hk)
  refine ⟨own, hown, fun x hx hstate => ?_, fun x hx hstate => ?_⟩
  · exact (hphys x hx hstate).imp (hkphys x (hhighest ▸ hx)) id
  · exact (hvirt x hx hstate).imp (hkvirt x hx) id

end Back

end Enkel.ProgramRun
