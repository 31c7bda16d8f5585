import Mathlib.Data.List.Infix
import Mathlib.Data.List.Count
import Enkel.VolumeTable

/-!
The lookup of a path in the table of mounted volumes. BreakPath hashes the path
up to each slash. A match moves the pointer to the path, through a reference
that is meant to keep the best match so far, while index and length go on
counting in the path as it was.
-/
namespace Enkel.VolumeSystem

open BitFields Outcome FileHandleMask

/-- The variables of BreakPath: how far the pointer to the path has moved, the
slashes seen, and the handle of the last match. -/
structure Cursor where
  base : ℕ
  segments : ℕ
  handle : ℕ
deriving DecidableEq, Repr

/-- A character of the path or its NUL. -/
def readChar (path : List ℕ) (position : ℕ) : Except Fault ℕ :=
  match (path ++ [0])[position]? with
  | some char => .ok char
  | none => .error .pathOverread

section Lookup
variable {V : Type} (xxh64 : List ℕ → ℕ)

/-- What a match at slot `pageIndex` does. -/
def Cursor.hit (c : Cursor) (index pageIndex : ℕ) : Cursor :=
  let segments := if maxSegments < c.segments then maxSegments - 1 else c.segments
  { base := c.base + index
    segments := segments
    handle := setVolumeIndex pageIndex (setVolumePageIndex 0 (setSegments segments c.handle)) }

/-- The loop over the slots of a page, which stops at an empty slot. -/
def scanPage (page : ℕ → VolumeIndex V) (hash index : ℕ) : (slots pageIndex : ℕ) → Cursor → Cursor
  | 0, _, c => c
  | slots + 1, pageIndex, c =>
    if (page pageIndex).rootHash = hash then
      scanPage page hash index slots (pageIndex + 1) (c.hit index pageIndex)
    else if (page pageIndex).rootHash = 0 then
      c
    else
      scanPage page hash index slots (pageIndex + 1) c

/-- One turn of the loop over the characters. -/
def breakPathTurn (pages : VolumeIndices V) (path : List ℕ) (c : Cursor) (index : ℕ) :
    Except Fault Cursor := do
  let char ← readChar path (c.base + index)
  if char = slash then
    let segments := c.segments + 1
    require (segments < maxSegments) .segmentsOutOfRange
    return scanPage (pages segments) (xxh64 ((path.drop c.base).take (index + 1))) index
      volumesPerPage 0 { c with segments := segments }
  else
    return c

/-- BreakPath: the handle, and the position at which the rest of the path starts. -/
def breakPath (pages : VolumeIndices V) (path : List ℕ) : Except Fault (ℕ × ℕ) := do
  let c ← (List.range path.length).foldlM (breakPathTurn xxh64 pages path) ⟨0, 0, 0⟩
  return (c.handle, c.base)

end Lookup

section Scan
variable {V : Type} {page : ℕ → VolumeIndex V} {hash index n : ℕ}

theorem scanPage_base_le (slots pageIndex : ℕ) (c : Cursor) :
    c.base ≤ (scanPage page hash index slots pageIndex c).base := by
  induction slots generalizing pageIndex c with
  | zero => exact le_rfl
  | succ slots ih =>
    unfold scanPage
    split_ifs
    · exact (Nat.le_add_right c.base index).trans (ih (pageIndex + 1) (c.hit index pageIndex))
    · exact le_rfl
    · exact ih (pageIndex + 1) c

/-- The scan stops at a slot without a hash. -/
theorem scanPage_stop {slots pageIndex : ℕ} {c : Cursor} (hzero : (page pageIndex).rootHash = 0)
    (hhash : hash ≠ 0) : scanPage page hash index slots pageIndex c = c := by
  cases slots with
  | zero => rfl
  | succ slots =>
    unfold scanPage
    rw [if_neg (by rw [hzero]; exact hhash.symm), if_pos hzero]

/-- Without a match the scan changes nothing. -/
theorem scanPage_miss (slots pageIndex : ℕ) (c : Cursor)
    (hmiss : ∀ i < pageIndex + slots, pageIndex ≤ i → (page i).rootHash ≠ hash) :
    scanPage page hash index slots pageIndex c = c := by
  induction slots generalizing pageIndex with
  | zero => rfl
  | succ slots ih =>
    unfold scanPage
    rw [if_neg (hmiss pageIndex (by omega) le_rfl)]
    split_ifs
    · rfl
    · exact ih (pageIndex + 1) fun i hi hle => hmiss i (by omega) (by omega)

/-- A match that no empty slot precedes is found, and is the only one when no
other slot has the same hash. -/
theorem scanPage_hit (page : ℕ → VolumeIndex V) (hash index slot slots pageIndex : ℕ) (c : Cursor)
    (hlo : pageIndex ≤ slot)
    (hhi : slot < pageIndex + slots) (hhash : (page slot).rootHash = hash)
    (hbefore : ∀ i < slot, (page i).rootHash ≠ 0)
    (honly : ∀ i, (page i).rootHash = hash → i = slot) :
    scanPage page hash index slots pageIndex c = c.hit index slot := by
  induction slots generalizing pageIndex with
  | zero => omega
  | succ slots ih =>
    unfold scanPage
    by_cases heq : pageIndex = slot
    · rw [heq, if_pos hhash]
      refine scanPage_miss _ _ _ fun i _ hle hi => ?_
      have := honly i hi
      omega
    · rw [if_neg fun h => heq (honly _ h), if_neg (hbefore pageIndex (by omega))]
      exact ih (pageIndex + 1) (by omega) (by omega)

end Scan

section Assumptions
variable {V : Type}

/-- The roots end in a slash and differ; no root has more than seven slashes,
and fewer than eight of them have the same number. -/
structure RootsFit (mounts : List (Mounted V)) : Prop where
  ends : ∀ m ∈ mounts, m.call.rootPath.getLast? = some slash
  slashes : ∀ m ∈ mounts, m.call.rootPath.count slash ≤ 7
  distinct : mounts.Pairwise fun a b => a.call.rootPath ≠ b.call.rootPath
  few : ∀ page, onPage mounts page < 8

/-- The strings that are hashed: the roots and pieces of the path. -/
def Hashed (mounts : List (Mounted V)) (path s : List ℕ) : Prop :=
  (∃ m ∈ mounts, s = m.call.rootPath) ∨ s <:+: path

/-- The hash separates these strings, and is zero on none of them. -/
structure HashFits (xxh64 : List ℕ → ℕ) (mounts : List (Mounted V)) (path : List ℕ) : Prop where
  injective : ∀ a b, Hashed mounts path a → Hashed mounts path b → xxh64 a = xxh64 b → a = b
  ne_zero : ∀ a, Hashed mounts path a → xxh64 a ≠ 0

/-- What the lookup of a path relies on. -/
structure LookupFits (xxh64 : List ℕ → ℕ) (mounts : List (Mounted V)) (pages : VolumeIndices V)
    (path : List ℕ) : Prop where
  inv : TableInv xxh64 mounts pages
  roots : RootsFit mounts
  hash : HashFits xxh64 mounts path
  slashes : path.count slash ≤ 7

/-- Two handles agree in the fields that MountVolume and BreakPath set. -/
def SameHandle (a b : ℕ) : Prop :=
  fileHandle a = fileHandle b ∧ volumePageIndex a = volumePageIndex b ∧ selected a = selected b

end Assumptions

section Handles
variable (index pageIndex : ℕ) (c : Cursor)

theorem fileHandle_slotHandle (uninitialised page index : ℕ) :
    fileHandle (slotHandle uninitialised page index) = 0 := by
  unfold fileHandle slotHandle setSegments setVolumeIndex setVolumePageIndex setFileHandle
  rw [field_setField_of_le _ _ (by decide), field_setField_of_le _ _ (by decide),
    field_setField_of_le _ _ (by decide), field_setField]
  rfl

theorem volumePageIndex_slotHandle (uninitialised page index : ℕ) :
    volumePageIndex (slotHandle uninitialised page index) = 0 := by
  unfold volumePageIndex slotHandle setSegments setVolumeIndex setVolumePageIndex
  rw [field_setField_of_le _ _ (by decide), field_setField_of_le _ _ (by decide), field_setField]
  rfl

theorem fileHandle_hit : fileHandle (c.hit index pageIndex).handle = fileHandle c.handle := by
  unfold fileHandle Cursor.hit setSegments setVolumeIndex setVolumePageIndex
  dsimp only
  rw [field_setField_of_le _ _ (by decide), field_setField_of_le _ _ (by decide),
    field_setField_of_le _ _ (by decide)]

theorem volumePageIndex_hit : volumePageIndex (c.hit index pageIndex).handle = 0 := by
  unfold volumePageIndex Cursor.hit setVolumeIndex setVolumePageIndex
  dsimp only
  rw [field_setField_of_le _ _ (by decide), field_setField]
  rfl

theorem selected_hit : selected (c.hit index pageIndex).handle =
    ((c.hit index pageIndex).segments % 8, pageIndex % 8) := by
  unfold selected segments volumeIndex Cursor.hit setVolumeIndex setVolumePageIndex setSegments
  dsimp only
  rw [field_setField_of_ge _ _ (by decide), field_setField_of_ge _ _ (by decide), field_setField,
    field_setField]
  rfl

/-- A match leaves the handle of the slot. -/
theorem sameHandle_hit {c : Cursor} (hfile : fileHandle c.handle = 0) (hseg : c.segments ≤ 8)
    (uninitialised : ℕ) :
    SameHandle (c.hit index pageIndex).handle (slotHandle uninitialised c.segments pageIndex) := by
  have hsegments : (c.hit index pageIndex).segments = c.segments :=
    if_neg (by unfold maxSegments; omega)
  refine ⟨?_, ?_, ?_⟩
  · rw [fileHandle_hit, hfile, fileHandle_slotHandle]
  · rw [volumePageIndex_hit, volumePageIndex_slotHandle]
  · rw [selected_hit, selected_slotHandle, hsegments]

end Handles

section Turn
variable {V : Type} {xxh64 : List ℕ → ℕ} {mounts : List (Mounted V)} {pages : VolumeIndices V}
  {path : List ℕ} {c : Cursor} {index : ℕ}

theorem readChar_eq {i char : ℕ} (h : path[i]? = some char) : readChar path i = .ok char := by
  obtain ⟨hlt, -⟩ := List.getElem?_eq_some_iff.mp h
  unfold readChar
  rw [List.getElem?_append_left hlt, h]

theorem readChar_end : readChar path path.length = .ok 0 := by
  unfold readChar
  rw [List.getElem?_append_right le_rfl, Nat.sub_self]
  rfl

theorem readChar_after {i : ℕ} (h : path.length < i) : readChar path i = .error .pathOverread := by
  unfold readChar
  rw [List.getElem?_eq_none (by rw [List.length_append, List.length_singleton]; omega)]

/-- A turn that reads another character changes nothing. -/
theorem breakPathTurn_other (char : ℕ) (hread : readChar path (c.base + index) = .ok char)
    (hchar : char ≠ slash) : breakPathTurn xxh64 pages path c index = .ok c := by
  unfold breakPathTurn
  rw [hread, ok_bind, if_neg hchar]
  rfl

theorem breakPathTurn_slash (hread : path[c.base + index]? = some slash) (hseg : c.segments < 7) :
    breakPathTurn xxh64 pages path c index =
      .ok (scanPage (pages (c.segments + 1)) (xxh64 ((path.drop c.base).take (index + 1))) index
        volumesPerPage 0 { c with segments := c.segments + 1 }) := by
  unfold breakPathTurn
  rw [readChar_eq hread, ok_bind, if_pos rfl]
  refine bind_eq_ok.mpr ⟨(), require_true (by unfold maxSegments; omega), rfl⟩

theorem breakPathTurn_base_le {c' : Cursor} (h : breakPathTurn xxh64 pages path c index = .ok c') :
    c.base ≤ c'.base := by
  unfold breakPathTurn at h
  obtain ⟨char, -, h⟩ := bind_eq_ok.mp h
  split_ifs at h
  · obtain ⟨u, -, h⟩ := bind_eq_ok.mp h
    rw [← pure_eq_ok.mp h]
    exact scanPage_base_le volumesPerPage 0 { c with segments := c.segments + 1 }
  · rw [← pure_eq_ok.mp h]

theorem RootsFit.eq_of_root (h : RootsFit mounts) {m m' : Mounted V} (hm : m ∈ mounts)
    (hm' : m' ∈ mounts) (hroot : m'.call.rootPath = m.call.rootPath) : m' = m := by
  have : Std.Symm fun a b : Mounted V => a.call.rootPath ≠ b.call.rootPath := ⟨fun _ _ h => h.symm⟩
  by_contra hne
  exact h.distinct.forall hm' hm hne hroot

theorem segmentsOf_root (h : RootsFit mounts) {m : Mounted V} (hm : m ∈ mounts) :
    segmentsOf m.call.rootPath = m.call.rootPath.count slash := by
  have := h.slashes m hm
  exact if_neg (by unfold maxSegments; omega)

variable (hfits : LookupFits xxh64 mounts pages path)
include hfits

/-- A slot has the hash of a string when the volume there is mounted at it. -/
theorem LookupFits.rootHash_eq {p i : ℕ} {s : List ℕ} (hs : s <:+: path)
    (h : (pages p i).rootHash = xxh64 s) :
    ∃ m ∈ mounts, m.slot = (p, i) ∧ m.call.rootPath = s := by
  by_cases hi : i < onPage mounts p
  · obtain ⟨m, hm, hslot⟩ := hfits.inv.occupied p i hi
    refine ⟨m, hm, hslot, hfits.hash.injective _ _ (Or.inl ⟨m, hm, rfl⟩) (Or.inr hs) ?_⟩
    have hentry := hfits.inv.entry m hm
    rw [hslot] at hentry
    rw [← h, show pages p i = _ from hentry]
    rfl
  · rw [(hfits.inv.empty p i (by omega)).1] at h
    exact absurd h.symm (hfits.hash.ne_zero s (Or.inr hs))

/-- A turn that meets a mounted root moves the pointer to its last character. -/
theorem LookupFits.turn_match (index : ℕ) (hread : path[c.base + index]? = some slash)
    (hseg : c.segments < 7)
    {m : Mounted V} (hm : m ∈ mounts)
    (hroot : m.call.rootPath = (path.drop c.base).take (index + 1))
    (hpage : m.call.rootPath.count slash = c.segments + 1) (hfile : fileHandle c.handle = 0) :
    ∃ handle, breakPathTurn xxh64 pages path c index =
      .ok ⟨c.base + index, c.segments + 1, handle⟩ ∧ SameHandle handle m.handle := by
  have hinfix : (path.drop c.base).take (index + 1) <:+: path :=
    (List.take_prefix _ _).isInfix.trans (List.drop_suffix _ _).isInfix
  have hinv := hfits.inv
  have hslot : m.slot = (c.segments + 1, m.slot.2) := by
    rw [← hpage, ← segmentsOf_root hfits.roots hm, ← (hinv.page m hm).1]
  have hscan := scanPage_hit (pages (c.segments + 1)) (xxh64 ((path.drop c.base).take (index + 1)))
    index m.slot.2 volumesPerPage 0
    { c with segments := c.segments + 1 } (Nat.zero_le _)
    (by rw [Nat.zero_add]; exact (hinv.index m hm).2) ?_ ?_ ?_
  · rw [breakPathTurn_slash hread hseg, hscan]
    refine ⟨(Cursor.hit { c with segments := c.segments + 1 } index m.slot.2).handle, ?_, ?_⟩
    · unfold Cursor.hit
      rw [if_neg (by unfold maxSegments; dsimp only; omega)]
    · rw [hinv.handle m hm]
      have h := sameHandle_hit (c := { c with segments := c.segments + 1 }) index m.slot.2 hfile
        (by dsimp only; omega) m.call.uninitialised
      rw [show m.slot.1 = c.segments + 1 by rw [hslot]]
      exact h
  · have hentry := hinv.entry m hm
    rw [show m.slot.1 = c.segments + 1 by rw [hslot]] at hentry
    rw [hentry, ← hroot]
    rfl
  · intro i hi hzero
    obtain ⟨m', hm', hslot'⟩ := hinv.occupied (c.segments + 1) i (by
      have := (hinv.index m hm).1
      rw [show m.slot.1 = c.segments + 1 by rw [hslot]] at this
      omega)
    have hentry := hinv.entry m' hm'
    rw [hslot'] at hentry
    rw [show pages (c.segments + 1) i = _ from hentry] at hzero
    exact hfits.hash.ne_zero _ (Or.inl ⟨m', hm', rfl⟩) hzero
  · intro i hi
    obtain ⟨m', hm', hslot', hroot'⟩ := hfits.rootHash_eq hinfix hi
    rw [← hfits.roots.eq_of_root hm hm' (hroot'.trans hroot.symm), hslot']

/-- A turn at a slash that meets no mounted root counts the slash. -/
theorem LookupFits.turn_miss (hread : path[c.base + index]? = some slash) (hseg : c.segments < 7)
    (hmiss : ∀ m ∈ mounts, m.call.rootPath = (path.drop c.base).take (index + 1) →
      m.call.rootPath.count slash ≠ c.segments + 1) :
    breakPathTurn xxh64 pages path c index = .ok { c with segments := c.segments + 1 } := by
  rw [breakPathTurn_slash hread hseg, scanPage_miss]
  intro i _ _ hi
  have hinfix : (path.drop c.base).take (index + 1) <:+: path :=
    (List.take_prefix _ _).isInfix.trans (List.drop_suffix _ _).isInfix
  obtain ⟨m, hm, hslot, hroot⟩ := hfits.rootHash_eq hinfix hi
  refine hmiss m hm hroot ?_
  rw [← segmentsOf_root hfits.roots hm, ← (hfits.inv.page m hm).1, hslot]

end Turn

end Enkel.VolumeSystem
