import Mathlib.Data.List.Induction
import Mathlib.Data.List.Pairwise
import Enkel.BitFields
import Enkel.Outcome

/-!
The table of mounted volumes. Slashes in the root path select a page, and the
first empty slot of the page takes the volume. The handle packs page and slot
into bit fields of 3 bits each, while a page has 170 slots. Strings are the
code units before their NUL.
-/
namespace Enkel.VolumeSystem

open BitFields Outcome

abbrev volumesPerPage : ℕ := 170
abbrev maxSegments : ℕ := 8

def slash : ℕ := 0x2F

/-- How a function of the volume system can stop. -/
inductive Fault
  | assertion (message : String)
  /-- The array VolumeIndices is read at or after its end. -/
  | segmentsOutOfRange
  /-- A character after the NUL of the path is read. -/
  | pathOverread
deriving DecidableEq, Repr

/-- A slot of a page. The implementation is a pointer to a Volume, or null. -/
structure VolumeIndex (V : Type) where
  rootHash : ℕ
  volumeImplementation : Option V
  context : ℕ
deriving DecidableEq, Repr

/-- The array VolumeIndices: the slots of each page. -/
abbrev VolumeIndices (V : Type) := ℕ → ℕ → VolumeIndex V

def initializeVolumeSystem (V : Type) : VolumeIndices V := fun _ _ => ⟨0, none, 0⟩

namespace FileHandleMask

def fileHandle (handle : ℕ) : ℕ := field 1 21 handle
def volumePageIndex (handle : ℕ) : ℕ := field 22 3 handle
def volumeIndex (handle : ℕ) : ℕ := field 25 3 handle
def segments (handle : ℕ) : ℕ := field 28 3 handle

def setFileHandle (v handle : ℕ) : ℕ := setField 1 21 v handle
def setVolumePageIndex (v handle : ℕ) : ℕ := setField 22 3 v handle
def setVolumeIndex (v handle : ℕ) : ℕ := setField 25 3 v handle
def setSegments (v handle : ℕ) : ℕ := setField 28 3 v handle

end FileHandleMask

open FileHandleMask

structure MountPointHash where
  hash : ℕ
  segments : ℕ

/-- The number of slashes of a root path, clamped as in VolumeHashPath. -/
def segmentsOf (path : List ℕ) : ℕ :=
  if maxSegments < path.count slash then maxSegments - 1 else path.count slash

section Mount
variable {V : Type} (xxh64 : List ℕ → ℕ)

def volumeHashPath (path : List ℕ) : MountPointHash :=
  { hash := xxh64 path
    segments := segmentsOf path }

/-- The first slot of a page without an implementation. -/
def firstFree (page : ℕ → VolumeIndex V) : Option ℕ :=
  (List.range volumesPerPage).find? fun index => (page index).volumeImplementation.isNone

/-- MountVolume. The handle starts with the bits that its union happens to hold. -/
def mountVolume (uninitialised : ℕ) (volume : V) (rootPath : List ℕ) (volumeContext : ℕ)
    (pages : VolumeIndices V) : Except Fault (ℕ × VolumeIndices V) := do
  let rootHash := volumeHashPath xxh64 rootPath
  require (rootHash.segments < maxSegments) .segmentsOutOfRange
  match firstFree (pages rootHash.segments) with
  | none => throw (.assertion "No free volume slots")
  | some index =>
    let slot := { rootHash := rootHash.hash, volumeImplementation := some volume,
                  context := volumeContext }
    let handle := setFileHandle 0 uninitialised
    let handle := setVolumePageIndex 0 handle
    let handle := setVolumeIndex index handle
    let handle := setSegments rootHash.segments handle
    return (handle, Function.update pages rootHash.segments
      (Function.update (pages rootHash.segments) index slot))

/-- The page and the slot that a handle selects. -/
def selected (handle : ℕ) : ℕ × ℕ := (segments handle, volumeIndex handle)

def getVolumeIndex (pages : VolumeIndices V) (handle : ℕ) : VolumeIndex V :=
  pages (segments handle) (volumeIndex handle)

/-- UnmountVolume. The context of the slot stays. -/
def unmountVolume (handle : ℕ) (pages : VolumeIndices V) : VolumeIndices V :=
  Function.update pages (segments handle) (Function.update (pages (segments handle))
    (volumeIndex handle)
    { getVolumeIndex pages handle with
      rootHash := 0
      volumeImplementation := none })

/-- The arguments of a call of MountVolume. -/
structure MountCall (V : Type) where
  uninitialised : ℕ
  volume : V
  rootPath : List ℕ
  context : ℕ
deriving DecidableEq, Repr

/-- A mounted volume: its call, the handle returned and the slot that was filled. -/
structure Mounted (V : Type) where
  call : MountCall V
  handle : ℕ
  slot : ℕ × ℕ
deriving DecidableEq, Repr

/-- What MountVolume stores for a call. -/
def MountCall.entry (c : MountCall V) : VolumeIndex V :=
  ⟨xxh64 c.rootPath, some c.volume, c.context⟩

/-- The slot was empty, and is the only one that the call has changed. -/
structure Fills (c : MountCall V) (slot : ℕ × ℕ) (pages pages' : VolumeIndices V) : Prop where
  page_lt : slot.1 < maxSegments
  slot_lt : slot.2 < volumesPerPage
  empty : (pages slot.1 slot.2).volumeImplementation = none
  filled : pages' slot.1 slot.2 = c.entry xxh64
  other : ∀ s : ℕ × ℕ, s ≠ slot → pages' s.1 s.2 = pages s.1 s.2

/-- The states that successful calls of MountVolume reach, with what is mounted. -/
inductive MountRun : List (Mounted V) → VolumeIndices V → Prop
  | init : MountRun [] (initializeVolumeSystem V)
  | mount {mounts : List (Mounted V)} {pages pages' : VolumeIndices V} {c : MountCall V}
      {handle : ℕ} {slot : ℕ × ℕ} (hrun : MountRun mounts pages)
      (hmount : mountVolume xxh64 c.uninitialised c.volume c.rootPath c.context pages =
        .ok (handle, pages'))
      (hfills : Fills xxh64 c slot pages pages') :
      MountRun (mounts ++ [⟨c, handle, slot⟩]) pages'

/-- The handle for a slot, with the bits that no assignment sets. -/
def slotHandle (uninitialised page index : ℕ) : ℕ :=
  setSegments page (setVolumeIndex index (setVolumePageIndex 0 (setFileHandle 0 uninitialised)))

end Mount

section Handle
variable (uninitialised page index : ℕ)

theorem segments_slotHandle : segments (slotHandle uninitialised page index) = page % 8 :=
  field_setField 28 3 page _

theorem volumeIndex_slotHandle : volumeIndex (slotHandle uninitialised page index) = index % 8 :=
  (field_setField_of_le _ _ (by decide)).trans (field_setField 25 3 index _)

/-- A handle keeps three bits of the page and of the index. -/
theorem selected_slotHandle :
    selected (slotHandle uninitialised page index) = (page % 8, index % 8) := by
  unfold selected
  rw [segments_slotHandle, volumeIndex_slotHandle]

end Handle

section Spec
variable {V : Type} {xxh64 : List ℕ → ℕ} {pages pages' : VolumeIndices V} {c : MountCall V}
  {handle : ℕ} {slot : ℕ × ℕ}

theorem firstFree_eq_some {page : ℕ → VolumeIndex V} {index : ℕ} :
    firstFree page = some index ↔ index < volumesPerPage ∧
      (page index).volumeImplementation = none ∧
        ∀ j < index, (page j).volumeImplementation ≠ none := by
  unfold firstFree
  rw [List.find?_range_eq_some, Option.isNone_iff_eq_none, List.mem_range]
  constructor
  · rintro ⟨hnone, hlt, hbefore⟩
    refine ⟨hlt, hnone, fun j hj hempty => ?_⟩
    have := hbefore j hj
    simp [hempty] at this
  · rintro ⟨hlt, hnone, hbefore⟩
    refine ⟨hnone, hlt, fun j hj => ?_⟩
    have := hbefore j hj
    cases hslot : (page j).volumeImplementation with
    | none => exact absurd hslot this
    | some v => rfl

/-- What a call of MountVolume does that returns. -/
theorem mountVolume_eq_ok
    (h : mountVolume xxh64 c.uninitialised c.volume c.rootPath c.context pages =
      .ok (handle, pages')) :
    ∃ index, firstFree (pages (segmentsOf c.rootPath)) = some index ∧
      segmentsOf c.rootPath < maxSegments ∧
      handle = slotHandle c.uninitialised (segmentsOf c.rootPath) index ∧
      Fills xxh64 c (segmentsOf c.rootPath, index) pages pages' := by
  unfold mountVolume at h
  obtain ⟨u, hpage, h⟩ := bind_eq_ok.mp h
  rw [require_eq_ok] at hpage
  change segmentsOf c.rootPath < maxSegments at hpage
  change (match firstFree (pages (segmentsOf c.rootPath)) with
    | none => _
    | some index => _) = _ at h
  cases hfree : firstFree (pages (segmentsOf c.rootPath)) with
  | none =>
    rw [hfree] at h
    cases h
  | some index =>
    rw [hfree] at h
    cases h
    obtain ⟨hlt, hnone, -⟩ := firstFree_eq_some.mp hfree
    refine ⟨index, rfl, hpage, rfl, hpage, hlt, hnone, ?_, fun s hs => ?_⟩
    · change Function.update pages (segmentsOf c.rootPath) _ (segmentsOf c.rootPath) index = _
      rw [Function.update_self, Function.update_self]
      rfl
    · change Function.update pages (segmentsOf c.rootPath) _ s.1 s.2 = _
      by_cases hs1 : s.1 = segmentsOf c.rootPath
      · rw [hs1, Function.update_self]
        exact Function.update_of_ne (fun hs2 => hs (Prod.ext hs1 hs2)) _ _
      · rw [Function.update_of_ne hs1]

/-- Only one slot fits a call. -/
theorem Fills.unique {slot' : ℕ × ℕ} (h : Fills xxh64 c slot pages pages')
    (h' : Fills xxh64 c slot' pages pages') : slot = slot' := by
  by_contra hne
  have hfilled := h.filled
  rw [h'.other slot hne] at hfilled
  have hempty := h.empty
  rw [hfilled] at hempty
  cases hempty

end Spec

section Run
variable {V : Type} {xxh64 : List ℕ → ℕ} {mounts : List (Mounted V)} {pages : VolumeIndices V}

/-- The number of mounted volumes on a page. -/
def onPage (mounts : List (Mounted V)) (page : ℕ) : ℕ :=
  mounts.countP fun m => segmentsOf m.call.rootPath = page

/-- The slots of each page are filled from the first on, one for each volume. -/
structure TableInv (xxh64 : List ℕ → ℕ) (mounts : List (Mounted V)) (pages : VolumeIndices V) :
    Prop where
  page : ∀ m ∈ mounts, m.slot.1 = segmentsOf m.call.rootPath ∧ m.slot.1 < maxSegments
  index : ∀ m ∈ mounts, m.slot.2 < onPage mounts m.slot.1 ∧ m.slot.2 < volumesPerPage
  entry : ∀ m ∈ mounts, pages m.slot.1 m.slot.2 = m.call.entry xxh64
  handle : ∀ m ∈ mounts, m.handle = slotHandle m.call.uninitialised m.slot.1 m.slot.2
  occupied : ∀ p i, i < onPage mounts p → ∃ m ∈ mounts, m.slot = (p, i)
  empty : ∀ p i, onPage mounts p ≤ i →
    (pages p i).rootHash = 0 ∧ (pages p i).volumeImplementation = none
  distinct : mounts.Pairwise fun a b => a.slot ≠ b.slot

theorem onPage_append (m : Mounted V) (p : ℕ) : onPage (mounts ++ [m]) p =
    onPage mounts p + if segmentsOf m.call.rootPath = p then 1 else 0 := by
  unfold onPage
  rw [List.countP_append, List.countP_singleton]
  simp only [decide_eq_true_eq]

/-- The first free slot of a page is the one after its volumes. -/
theorem TableInv.firstFree (h : TableInv xxh64 mounts pages) {p index : ℕ}
    (hfree : firstFree (pages p) = some index) : index = onPage mounts p := by
  obtain ⟨-, hnone, hbefore⟩ := firstFree_eq_some.mp hfree
  rcases Nat.lt_trichotomy index (onPage mounts p) with hlt | heq | hgt
  · obtain ⟨m, hm, hslot⟩ := h.occupied p index hlt
    have hentry := h.entry m hm
    rw [hslot] at hentry
    rw [show pages p index = _ from hentry] at hnone
    cases hnone
  · exact heq
  · exact absurd (h.empty p _ le_rfl).2 (hbefore _ hgt)

/-- A call of MountVolume that returns keeps the invariant. -/
theorem TableInv.mount {pages' : VolumeIndices V} {c : MountCall V} {handle : ℕ} {slot : ℕ × ℕ}
    (h : TableInv xxh64 mounts pages)
    (hmount : mountVolume xxh64 c.uninitialised c.volume c.rootPath c.context pages =
      .ok (handle, pages')) (hfills : Fills xxh64 c slot pages pages') :
    TableInv xxh64 (mounts ++ [⟨c, handle, slot⟩]) pages' := by
  obtain ⟨index, hfree, hpage, hhandle, hfills'⟩ := mountVolume_eq_ok hmount
  obtain rfl := hfills.unique hfills'
  obtain rfl := h.firstFree hfree
  have hmono : ∀ s p, onPage mounts p ≤ onPage (mounts ++ [⟨c, handle, s⟩]) p := fun s p => by
    rw [onPage_append]
    omega
  have hnew : onPage (mounts ++ [⟨c, handle, (segmentsOf c.rootPath,
      onPage mounts (segmentsOf c.rootPath))⟩]) (segmentsOf c.rootPath) =
      onPage mounts (segmentsOf c.rootPath) + 1 := by
    rw [onPage_append, if_pos rfl]
  have hne : ∀ m ∈ mounts, m.slot ≠
      (segmentsOf c.rootPath, onPage mounts (segmentsOf c.rootPath)) := by
    intro m hm heq
    have hlt := (h.index m hm).1
    rw [heq] at hlt
    exact absurd hlt (lt_irrefl _)
  refine ⟨?_, ?_, ?_, ?_, fun p i hi => ?_, fun p i hi => ?_, ?_⟩
  · intro m hm
    rcases List.mem_append.mp hm with hm | hm
    · exact h.page m hm
    · obtain rfl := List.mem_singleton.mp hm
      exact ⟨rfl, hpage⟩
  · intro m hm
    rcases List.mem_append.mp hm with hm | hm
    · exact ⟨(h.index m hm).1.trans_le (hmono _ _), (h.index m hm).2⟩
    · obtain rfl := List.mem_singleton.mp hm
      exact ⟨by rw [hnew]; exact Nat.lt_succ_self _, hfills.slot_lt⟩
  · intro m hm
    rcases List.mem_append.mp hm with hm | hm
    · rw [hfills.other _ (hne m hm)]
      exact h.entry m hm
    · obtain rfl := List.mem_singleton.mp hm
      exact hfills.filled
  · intro m hm
    rcases List.mem_append.mp hm with hm | hm
    · exact h.handle m hm
    · obtain rfl := List.mem_singleton.mp hm
      exact hhandle
  · by_cases hold : i < onPage mounts p
    · obtain ⟨m, hm, hslot⟩ := h.occupied p i hold
      exact ⟨m, List.mem_append_left _ hm, hslot⟩
    · rw [onPage_append] at hi
      split_ifs at hi with hp
      · refine ⟨_, List.mem_append_right _ (List.mem_singleton_self _), ?_⟩
        dsimp only at hp ⊢
        rw [hp, show i = onPage mounts p by omega]
      · omega
  · rw [hfills.other (p, i)]
    · exact h.empty p i ((hmono _ p).trans hi)
    · rintro heq
      cases heq
      rw [hnew] at hi
      omega
  · rw [List.pairwise_append]
    refine ⟨h.distinct, List.pairwise_singleton _ _, fun m hm b hb => ?_⟩
    obtain rfl := List.mem_singleton.mp hb
    exact hne m hm

theorem MountRun.inv (h : MountRun xxh64 mounts pages) : TableInv xxh64 mounts pages := by
  induction h with
  | init =>
    refine ⟨?_, ?_, ?_, ?_, fun p i hi => ?_, fun p i _ => ⟨rfl, rfl⟩, List.Pairwise.nil⟩
    · intro m hm
      exact absurd hm List.not_mem_nil
    · intro m hm
      exact absurd hm List.not_mem_nil
    · intro m hm
      exact absurd hm List.not_mem_nil
    · intro m hm
      exact absurd hm List.not_mem_nil
    · exact absurd hi (Nat.not_lt_zero i)
  | mount hrun hmount hfills ih => exact ih.mount hmount hfills

/-- MountVolume returns as long as the page has a free slot. -/
theorem TableInv.exists_mount (h : TableInv xxh64 mounts pages) {c : MountCall V}
    (hpage : segmentsOf c.rootPath < maxSegments)
    (hroom : onPage mounts (segmentsOf c.rootPath) < volumesPerPage) :
    ∃ handle pages' slot, mountVolume xxh64 c.uninitialised c.volume c.rootPath c.context pages =
      .ok (handle, pages') ∧ Fills xxh64 c slot pages pages' := by
  have hfree : VolumeSystem.firstFree (pages (segmentsOf c.rootPath)) =
      some (onPage mounts (segmentsOf c.rootPath)) := by
    refine firstFree_eq_some.mpr ⟨hroom, (h.empty _ _ le_rfl).2, fun j hj hnone => ?_⟩
    obtain ⟨m, hm, hslot⟩ := h.occupied _ j hj
    have hentry := h.entry m hm
    rw [hslot] at hentry
    rw [show pages (segmentsOf c.rootPath) j = _ from hentry] at hnone
    cases hnone
  have hok : ∃ r, mountVolume xxh64 c.uninitialised c.volume c.rootPath c.context pages = .ok r := by
    unfold mountVolume volumeHashPath
    simp only [require_true hpage, ok_bind, hfree]
    exact ⟨_, rfl⟩
  obtain ⟨⟨handle, pages'⟩, hok⟩ := hok
  obtain ⟨index, -, -, -, hfills⟩ := mountVolume_eq_ok hok
  exact ⟨handle, pages', _, hok, hfills⟩

/-- Calls that no page is too small for can be made one after the other. -/
theorem exists_mountRun (xxh64 : List ℕ → ℕ) (calls : List (MountCall V))
    (hpage : ∀ c ∈ calls, segmentsOf c.rootPath < maxSegments)
    (hroom : ∀ p, (calls.countP fun c => segmentsOf c.rootPath = p) ≤ volumesPerPage) :
    ∃ mounts pages, MountRun xxh64 mounts pages ∧ mounts.map Mounted.call = calls := by
  induction calls using List.reverseRecOn with
  | nil => exact ⟨[], _, .init, rfl⟩
  | append_singleton calls c ih =>
    have hcount : ∀ p, (calls.countP fun c => segmentsOf c.rootPath = p) +
        (if segmentsOf c.rootPath = p then 1 else 0) ≤ volumesPerPage := by
      intro p
      have := hroom p
      rw [List.countP_append, List.countP_singleton] at this
      simpa only [decide_eq_true_eq] using this
    obtain ⟨mounts, pages, hrun, hcalls⟩ := ih (fun c hc => hpage c (List.mem_append_left _ hc))
      fun p => (Nat.le_add_right _ _).trans (hcount p)
    have honPage : onPage mounts (segmentsOf c.rootPath) < volumesPerPage := by
      have h := hcount (segmentsOf c.rootPath)
      rw [if_pos rfl, ← hcalls, List.countP_map] at h
      exact h
    obtain ⟨handle, pages', slot, hmount, hfills⟩ := hrun.inv.exists_mount
      (hpage c (List.mem_append_right _ (List.mem_singleton_self c))) honPage
    exact ⟨_, _, .mount hrun hmount hfills, by rw [List.map_append, hcalls]; rfl⟩

/-- A handle selects its slot when the index of the slot has no more than three bits. -/
theorem TableInv.selected_eq_iff (h : TableInv xxh64 mounts pages) {m : Mounted V}
    (hm : m ∈ mounts) : selected m.handle = m.slot ↔ m.slot.2 < 8 := by
  have hpage := (h.page m hm).2
  rw [h.handle m hm, selected_slotHandle, Nat.mod_eq_of_lt hpage, Prod.ext_iff]
  dsimp only
  omega

/-- After any sequence of calls of MountVolume that return: every handle selects
the slot that its call has filled, and no two the same slot, exactly when no
page has more than eight volumes. -/
theorem handles_select_slots_iff (xxh64 : List ℕ → ℕ) (mounts : List (Mounted V))
    (pages : VolumeIndices V) (h : MountRun xxh64 mounts pages) :
    ((∀ m ∈ mounts, selected m.handle = m.slot ∧
        getVolumeIndex pages m.handle = m.call.entry xxh64) ∧
      mounts.Pairwise fun a b => selected a.handle ≠ selected b.handle) ↔
    ∀ page, onPage mounts page ≤ 8 := by
  have hinv := h.inv
  constructor
  · rintro ⟨hall, -⟩ page
    by_contra hmany
    obtain ⟨m, hm, hslot⟩ := hinv.occupied page 8 (by omega)
    have hlt := (hinv.selected_eq_iff hm).mp (hall m hm).1
    rw [hslot] at hlt
    exact absurd hlt (lt_irrefl 8)
  · intro hfew
    have hall : ∀ m ∈ mounts, selected m.handle = m.slot := fun m hm =>
      (hinv.selected_eq_iff hm).mpr ((hinv.index m hm).1.trans_le (hfew _))
    refine ⟨fun m hm => ⟨hall m hm, ?_⟩, hinv.distinct.imp_of_mem fun ha hb hne => ?_⟩
    · rw [← hinv.entry m hm, ← hall m hm]
      rfl
    · rw [hall _ ha, hall _ hb]
      exact hne

end Run

/-- A volume at a root of one letter and a slash. -/
def letterCall (i : ℕ) : MountCall ℕ := ⟨0, i, [0x61 + i, slash], i⟩

theorem handles_select_slots_iff_two :
    ∃ (mounts : List (Mounted ℕ)) (pages : VolumeIndices ℕ),
      MountRun (fun path => path.headD 0) mounts pages ∧
      mounts.map Mounted.call = [letterCall 0, letterCall 1] ∧
      (((∀ m ∈ mounts, selected m.handle = m.slot ∧
          getVolumeIndex pages m.handle = m.call.entry fun path => path.headD 0) ∧
        mounts.Pairwise fun a b => selected a.handle ≠ selected b.handle) ↔
      ∀ page, onPage mounts page ≤ 8) := by
  obtain ⟨mounts, pages, hrun, hcalls⟩ := exists_mountRun (fun path => path.headD 0)
    [letterCall 0, letterCall 1] (by decide)
    fun p => List.countP_le_length.trans (by decide)
  exact ⟨mounts, pages, hrun, hcalls, handles_select_slots_iff _ mounts pages hrun⟩

/-- The handles of nine volumes at roots of one slash: the one in slot 8 selects slot 0. -/
theorem ninth_handle_selects_first :
    ∃ (mounts : List (Mounted ℕ)) (pages : VolumeIndices ℕ),
      MountRun (fun path => path.headD 0) mounts pages ∧
      mounts.map Mounted.call = (List.range 9).map letterCall ∧
      ∃ a ∈ mounts, ∃ b ∈ mounts, a.slot = (1, 0) ∧ b.slot = (1, 8) ∧
        selected a.handle = (1, 0) ∧ selected b.handle = (1, 0) := by
  obtain ⟨mounts, pages, hrun, hcalls⟩ := exists_mountRun (fun path => path.headD 0)
    ((List.range 9).map letterCall) (by decide)
    fun p => List.countP_le_length.trans (by decide)
  have hinv := hrun.inv
  have hnine : onPage mounts 1 = 9 := by
    have hcount : onPage mounts 1 =
        (mounts.map Mounted.call).countP fun c => segmentsOf c.rootPath = 1 := by
      rw [List.countP_map]
      rfl
    rw [hcount, hcalls]
    decide
  obtain ⟨a, ha, hslota⟩ := hinv.occupied 1 0 (by omega)
  obtain ⟨b, hb, hslotb⟩ := hinv.occupied 1 8 (by omega)
  refine ⟨mounts, pages, hrun, hcalls, a, ha, b, hb, hslota, hslotb, ?_, ?_⟩
  · rw [hinv.handle a ha, hslota, selected_slotHandle]
    rfl
  · rw [hinv.handle b hb, hslotb, selected_slotHandle]
    rfl

end Enkel.VolumeSystem
