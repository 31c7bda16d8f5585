import Enkel.LongestRoot

/-!
The pages of the volume table that a path selects. MountVolume clamps the number of slashes
only when it is greater than the number of pages, so eight slashes select the page after the
last one. BreakPath looks into the page of every slash before it clamps. Below that the three
bits of a handle hold the page.
-/
namespace Enkel.VolumeSystem

open BitFields Outcome FileHandleMask

section Bounds
variable {V : Type} (xxh64 : List ℕ → ℕ) (pages : VolumeIndices V)

/-- MountVolume takes a page of the array, and its handle names the page that it has filled. -/
structure MountInBounds (c : MountCall V) : Prop where
  page_lt : mountVolume xxh64 c.uninitialised c.volume c.rootPath c.context pages ≠
    .error .segmentsOutOfRange
  stored : ∀ handle pages',
    mountVolume xxh64 c.uninitialised c.volume c.rootPath c.context pages = .ok (handle, pages') →
      ∃ index, Fills xxh64 c (segments handle, index) pages pages'

/-- BreakPath has come to the character `index`, a slash, with the variables `c`. It looks into
the page `c.segments + 1`. -/
def Looks (path : List ℕ) (index : ℕ) (c : Cursor) : Prop :=
  index < path.length ∧ turns xxh64 pages path 0 index ⟨0, 0, 0⟩ = .ok c ∧
    readChar path (c.base + index) = .ok slash

/-- A match in a page that BreakPath looks into: the slot has the hash of the path so far. -/
def Matches (path : List ℕ) (index : ℕ) (c : Cursor) (slot : ℕ) : Prop :=
  Looks xxh64 pages path index c ∧
    (pages (c.segments + 1) slot).rootHash = xxh64 ((path.drop c.base).take (index + 1))

/-- BreakPath looks only into pages of the array, and a handle that it returns names the page
of a match. -/
structure BreakInBounds (path : List ℕ) : Prop where
  page_lt : ∀ index c, Looks xxh64 pages path index c → c.segments + 1 < maxSegments
  returned : ∀ handle base, breakPath xxh64 pages path = .ok (handle, base) → handle = 0 ∨
    ∃ index c slot, Matches xxh64 pages path index c slot ∧ segments handle = c.segments + 1

end Bounds

section Mount
variable {V : Type} {xxh64 : List ℕ → ℕ} {pages : VolumeIndices V} {c : MountCall V}

theorem segmentsOf_lt_iff (path : List ℕ) :
    segmentsOf path < maxSegments ↔ path.count slash ≠ 8 := by
  unfold segmentsOf maxSegments
  split_ifs <;> omega

theorem mountInBounds_iff : MountInBounds xxh64 pages c ↔ c.rootPath.count slash ≠ 8 := by
  rw [← segmentsOf_lt_iff]
  constructor
  · intro h
    by_contra hout
    refine h.page_lt ?_
    unfold mountVolume
    exact (congrArg (· >>= _) (if_neg hout)).trans rfl
  · intro hlt
    refine ⟨fun herror => ?_, fun handle pages' hmount => ?_⟩
    · unfold mountVolume at herror
      dsimp only at herror
      rw [show require ((volumeHashPath xxh64 c.rootPath).segments < maxSegments)
        Fault.segmentsOutOfRange = .ok () from if_pos hlt, ok_bind] at herror
      split at herror <;> cases herror
    · obtain ⟨index, -, -, rfl, hfills⟩ := mountVolume_eq_ok hmount
      refine ⟨index, ?_⟩
      rw [segments_slotHandle, Nat.mod_eq_of_lt hlt]
      exact hfills

end Mount

section Break
variable {V : Type} {xxh64 : List ℕ → ℕ} {pages : VolumeIndices V} {path : List ℕ}

theorem scanPage_segments_le {page : ℕ → VolumeIndex V} {hash index : ℕ} (slots pageIndex : ℕ)
    (c : Cursor) : (scanPage page hash index slots pageIndex c).segments ≤ c.segments := by
  induction slots generalizing pageIndex c with
  | zero => exact le_rfl
  | succ slots ih =>
    unfold scanPage
    split_ifs
    · refine (ih _ _).trans ?_
      unfold Cursor.hit maxSegments
      dsimp only
      split_ifs <;> omega
    · exact le_rfl
    · exact ih _ _

/-- After a scan of a page of the array the handle is the one before it, or that of a match. -/
theorem scanPage_handle {page : ℕ → VolumeIndex V} {hash index : ℕ} (slots pageIndex : ℕ)
    (c : Cursor) (hlt : c.segments < maxSegments) :
    (scanPage page hash index slots pageIndex c).handle = c.handle ∨
      ∃ slot, (page slot).rootHash = hash ∧
        segments (scanPage page hash index slots pageIndex c).handle = c.segments := by
  induction slots generalizing pageIndex c with
  | zero => exact Or.inl rfl
  | succ slots ih =>
    unfold scanPage
    split_ifs with hhash
    · have hkept : (c.hit index pageIndex).segments = c.segments := if_neg (by omega)
      have hstored : segments (c.hit index pageIndex).handle = c.segments := by
        have h := congrArg Prod.fst (selected_hit index pageIndex c)
        rw [hkept, Nat.mod_eq_of_lt hlt] at h
        exact h
      refine Or.inr ?_
      rcases ih (pageIndex + 1) (c.hit index pageIndex) (by rw [hkept]; exact hlt) with
        heq | ⟨slot, hslot, heq⟩
      · exact ⟨pageIndex, hhash, by rw [heq, hstored]⟩
      · exact ⟨slot, hslot, heq.trans hkept⟩
    · exact Or.inl rfl
    · exact ih _ _ hlt

/-- A turn that returns reads another character, or looks into a page of the array. -/
theorem breakPathTurn_cases {c c' : Cursor} {index : ℕ}
    (h : breakPathTurn xxh64 pages path c index = .ok c') : c' = c ∨
      (readChar path (c.base + index) = .ok slash ∧ c.segments + 1 < maxSegments ∧
        c' = scanPage (pages (c.segments + 1)) (xxh64 ((path.drop c.base).take (index + 1))) index
          volumesPerPage 0 { c with segments := c.segments + 1 }) := by
  unfold breakPathTurn at h
  obtain ⟨char, hread, h⟩ := bind_eq_ok.mp h
  split_ifs at h with hchar
  · obtain ⟨u, hlt, h⟩ := bind_eq_ok.mp h
    rw [require_eq_ok] at hlt
    rw [hchar] at hread
    exact Or.inr ⟨hread, hlt, (pure_eq_ok.mp h).symm⟩
  · exact Or.inl (pure_eq_ok.mp h).symm

theorem turns_succ_ok {k : ℕ} {c' : Cursor}
    (h : turns xxh64 pages path 0 (k + 1) ⟨0, 0, 0⟩ = .ok c') :
    ∃ c, turns xxh64 pages path 0 k ⟨0, 0, 0⟩ = .ok c ∧
      breakPathTurn xxh64 pages path c k = .ok c' := by
  rw [turns_add] at h
  obtain ⟨c, hturns, h⟩ := bind_eq_ok.mp h
  rw [turns_one, Nat.zero_add] at h
  exact ⟨c, hturns, h⟩

theorem readChar_slash {position : ℕ} (h : readChar path position = .ok slash) :
    path[position]? = some slash := by
  unfold readChar at h
  split at h
  · obtain rfl := Except.ok.inj h
    rename_i char heq
    by_cases hlt : position < path.length
    · rwa [List.getElem?_append_left hlt] at heq
    · obtain rfl : position = path.length := by
        obtain ⟨hbound, -⟩ := List.getElem?_eq_some_iff.mp heq
        rw [List.length_append, List.length_singleton] at hbound
        omega
      rw [List.getElem?_append_right le_rfl, Nat.sub_self] at heq
      cases heq
  · cases h

theorem count_take_mono (path : List ℕ) {i j : ℕ} (h : i ≤ j) :
    (path.take i).count slash ≤ (path.take j).count slash :=
  (List.take_sublist_take_left h).count_le slash

/-- The slashes counted are slashes of the path before the next character. -/
theorem segments_le_count {k : ℕ} {c : Cursor}
    (h : turns xxh64 pages path 0 k ⟨0, 0, 0⟩ = .ok c) :
    c.segments ≤ (path.take (c.base + k)).count slash := by
  induction k generalizing c with
  | zero =>
    obtain rfl := Except.ok.inj h
    exact Nat.zero_le _
  | succ k ih =>
    obtain ⟨c0, hturns, hturn⟩ := turns_succ_ok h
    have hle := ih hturns
    have hbase := breakPathTurn_base_le hturn
    rcases breakPathTurn_cases hturn with rfl | ⟨hread, -, hscan⟩
    · exact hle.trans (count_take_mono path (by omega))
    · have hsegments : c.segments ≤ c0.segments + 1 := by
        rw [hscan]
        exact scanPage_segments_le _ _ _
      have hcount := count_take_succ (readChar_slash hread)
      have hmono := count_take_mono path (show c0.base + k + 1 ≤ c.base + (k + 1) by omega)
      omega

/-- The handle after some turns is 0 or names the page of a match. -/
theorem turns_handle {k : ℕ} {c : Cursor} (hk : k ≤ path.length)
    (h : turns xxh64 pages path 0 k ⟨0, 0, 0⟩ = .ok c) : c.handle = 0 ∨
      ∃ index c' slot, Matches xxh64 pages path index c' slot ∧
        segments c.handle = c'.segments + 1 := by
  induction k generalizing c with
  | zero =>
    obtain rfl := Except.ok.inj h
    exact Or.inl rfl
  | succ k ih =>
    obtain ⟨c0, hturns, hturn⟩ := turns_succ_ok h
    rcases breakPathTurn_cases hturn with rfl | ⟨hread, hlt, hscan⟩
    · exact ih (by omega) hturns
    · rcases scanPage_handle volumesPerPage 0 { c0 with segments := c0.segments + 1 } hlt with
        heq | ⟨slot, hslot, heq⟩
      · rw [hscan, heq]
        exact ih (c := c0) (by omega) hturns
      · rw [hscan, heq]
        exact Or.inr ⟨k, c0, slot, ⟨⟨hk, hturns, hread⟩, hslot⟩, rfl⟩

theorem breakInBounds_of_count_le (xxh64 : List ℕ → ℕ) (pages : VolumeIndices V)
    (h : path.count slash ≤ 7) : BreakInBounds xxh64 pages path := by
  refine ⟨fun index c ⟨_, hturns, hread⟩ => ?_, fun handle base hbreak => ?_⟩
  · have hle := segments_le_count hturns
    have hcount := count_take_succ (readChar_slash hread)
    have hall := count_take_le path (c.base + index + 1)
    unfold maxSegments
    omega
  · rw [breakPath_eq] at hbreak
    obtain ⟨c, hturns, hreturn⟩ := bind_eq_ok.mp hbreak
    cases hreturn
    exact turns_handle le_rfl hturns

/-- A letter that occurs often enough has an occurrence after any smaller number of others. -/
theorem exists_count_take {path : List ℕ} (n : ℕ) (h : n < path.count slash) :
    ∃ i, path[i]? = some slash ∧ (path.take i).count slash = n := by
  induction path generalizing n with
  | nil => exact absurd h (Nat.not_lt_zero n)
  | cons char path ih =>
    by_cases hchar : char = slash
    · subst hchar
      cases n with
      | zero => exact ⟨0, rfl, rfl⟩
      | succ n =>
        rw [List.count_cons_self] at h
        obtain ⟨i, hi, hcount⟩ := ih n (Nat.lt_of_succ_lt_succ h)
        exact ⟨i + 1, hi, by rw [List.take_succ_cons, List.count_cons_self, hcount]⟩
    · rw [List.count_cons_of_ne hchar] at h
      obtain ⟨i, hi, hcount⟩ := ih n h
      exact ⟨i + 1, hi, by rw [List.take_succ_cons, List.count_cons_of_ne hchar, hcount]⟩

/-- With nothing mounted the loop counts the slashes of the path. -/
theorem turns_nothing_mounted {k : ℕ} (hk : k ≤ path.length)
    (hcount : (path.take k).count slash ≤ 7) :
    turns (fun _ => 1) (initializeVolumeSystem V) path 0 k ⟨0, 0, 0⟩ =
      .ok ⟨0, (path.take k).count slash, 0⟩ := by
  induction k with
  | zero => rfl
  | succ k ih =>
    have hmono := count_take_mono path (Nat.le_add_right k 1)
    rw [turns_add, ih (by omega) (by omega), ok_bind, turns_one, Nat.zero_add]
    obtain ⟨char, hchar⟩ : ∃ char, path[k]? = some char := ⟨_, List.getElem?_eq_getElem (by omega)⟩
    by_cases hslash : char = slash
    · rw [hslash] at hchar
      have hsucc := count_take_succ hchar
      rw [breakPathTurn_slash (by rw [Nat.zero_add]; exact hchar) (by dsimp only; omega),
        scanPage_stop rfl (by decide), hsucc]
    · rw [breakPathTurn_other char (by rw [Nat.zero_add]; exact readChar_eq hchar) hslash,
        count_take_succ_of_ne hchar hslash]

/-- The eighth slash leads out of the array. -/
theorem count_le_of_breakInBounds
    (h : BreakInBounds (fun _ => 1) (initializeVolumeSystem V) path) : path.count slash ≤ 7 := by
  by_contra hmany
  obtain ⟨i, hi, hcount⟩ := exists_count_take 7 (show 7 < path.count slash by omega)
  obtain ⟨hlt, -⟩ := List.getElem?_eq_some_iff.mp hi
  have hlt8 := h.page_lt i ⟨0, (path.take i).count slash, 0⟩
    ⟨hlt, turns_nothing_mounted hlt.le hcount.le, readChar_eq (by rw [Nat.zero_add]; exact hi)⟩
  rw [hcount] at hlt8
  exact absurd hlt8 (lt_irrefl 8)

end Break

/-- For which paths the pages that are selected exist, whatever is mounted: for MountVolume
those with any number of slashes but eight, for BreakPath those with at most seven. The run of
BreakPath is followed until it reads past the NUL. -/
theorem segments_in_bounds_iff (V : Type) [Inhabited V] (path : List ℕ) :
    ((∀ (xxh64 : List ℕ → ℕ) (pages : VolumeIndices V) (c : MountCall V), c.rootPath = path →
        MountInBounds xxh64 pages c) ↔ path.count slash ≠ 8) ∧
      ((∀ (xxh64 : List ℕ → ℕ) (pages : VolumeIndices V), BreakInBounds xxh64 pages path) ↔
        path.count slash ≤ 7) := by
  refine ⟨⟨fun h => ?_, fun h xxh64 pages c hc => ?_⟩, fun h => ?_, fun h xxh64 pages => ?_⟩
  · exact mountInBounds_iff.mp (h (fun _ => 1) (initializeVolumeSystem V) ⟨0, default, path, 0⟩ rfl)
  · rw [mountInBounds_iff, hc]
    exact h
  · exact count_le_of_breakInBounds (h _ _)
  · exact breakInBounds_of_count_le xxh64 pages h

/-- Eight slashes select the page after the last one in both functions. -/
theorem eight_slashes_out_of_range :
    ¬ MountInBounds (fun _ => 1) (initializeVolumeSystem ℕ) ⟨0, 0, List.replicate 8 slash, 0⟩ ∧
      ¬ BreakInBounds (fun _ => 1) (initializeVolumeSystem ℕ) (List.replicate 8 slash) := by
  refine ⟨fun h => mountInBounds_iff.mp h (by decide), fun h => ?_⟩
  exact absurd (count_le_of_breakInBounds h) (by decide)

end Enkel.VolumeSystem
