import Mathlib.Logic.Equiv.List
import Enkel.PathLookup

/-!
When BreakPath finds the longest mounted root. As long as nothing but the root
of one character matches, the pointer stays at the start of the path. A later
match moves it; unless that was the last character, or the second one, the loop
then reads on past the NUL.
-/
namespace Enkel.VolumeSystem

open BitFields Outcome FileHandleMask

section Turns
variable {V : Type} (xxh64 : List ℕ → ℕ) (pages : VolumeIndices V) (path : List ℕ)

/-- The turns of the loop from one index on. -/
def turns (start count : ℕ) (c : Cursor) : Except Fault Cursor :=
  (List.range' start count).foldlM (breakPathTurn xxh64 pages path) c

theorem turns_add (start j k : ℕ) (c : Cursor) : turns xxh64 pages path start (j + k) c =
    turns xxh64 pages path start j c >>= turns xxh64 pages path (start + j) k := by
  unfold turns
  rw [← List.range'_append_1, List.foldlM_append]

theorem turns_one (start : ℕ) (c : Cursor) :
    turns xxh64 pages path start 1 c = breakPathTurn xxh64 pages path c start := by
  unfold turns
  rw [List.range'_one, List.foldlM_cons]
  exact bind_pure _

theorem breakPath_eq : breakPath xxh64 pages path =
    turns xxh64 pages path 0 path.length ⟨0, 0, 0⟩ >>= fun c => pure (c.handle, c.base) := by
  unfold breakPath turns
  rw [List.range_eq_range']

end Turns

section Phases
variable {V : Type} {xxh64 : List ℕ → ℕ} {mounts : List (Mounted V)} {pages : VolumeIndices V}
  {path : List ℕ}

/-- When the pointer has moved by two characters and the loop goes on, it reads
past the NUL. -/
theorem turns_overread {start k : ℕ} {c c' : Cursor} (hbase : 2 ≤ c.base)
    (hend : start + (k + 1) = path.length) :
    turns xxh64 pages path start (k + 1) c ≠ .ok c' := by
  intro h
  induction k generalizing start c with
  | zero =>
    rw [turns_one] at h
    unfold breakPathTurn at h
    rw [readChar_after (by omega)] at h
    cases h
  | succ k ih =>
    rw [Nat.add_comm (k + 1) 1, turns_add, turns_one] at h
    obtain ⟨c1, hturn, h⟩ := bind_eq_ok.mp h
    exact ih (hbase.trans (breakPathTurn_base_le hturn)) (by omega) h

theorem count_take_succ {t : ℕ} (h : path[t]? = some slash) :
    (path.take (t + 1)).count slash = (path.take t).count slash + 1 := by
  rw [List.take_add_one, h, Option.toList_some, List.count_append, List.count_singleton_self]

theorem count_take_succ_of_ne {t char : ℕ} (h : path[t]? = some char) (hne : char ≠ slash) :
    (path.take (t + 1)).count slash = (path.take t).count slash := by
  rw [List.take_add_one, h, Option.toList_some, List.count_append,
    List.count_singleton, if_neg (by simpa using hne), Nat.add_zero]

theorem count_take_le (path : List ℕ) (t : ℕ) : (path.take t).count slash ≤ path.count slash :=
  (List.take_sublist t path).count_le slash

theorem root_eq_take {root : List ℕ} {t : ℕ} (h : root <+: path) (hlen : root.length = t) :
    root = path.take t := by
  rw [← hlen]
  exact List.prefix_iff_eq_take.mp h

variable (hfits : LookupFits xxh64 mounts pages path)
include hfits

theorem LookupFits.fileHandle {m : Mounted V} (hm : m ∈ mounts) : fileHandle m.handle = 0 := by
  rw [hfits.inv.handle m hm]
  exact fileHandle_slotHandle _ _ _

/-- A root ends in a slash of the path. -/
theorem LookupFits.slash_of_root {m : Mounted V} (hm : m ∈ mounts) {t : ℕ}
    (h : m.call.rootPath <+: path) (hlen : m.call.rootPath.length = t + 1) :
    path[t]? = some slash := by
  have hends := hfits.roots.ends m hm
  rw [List.getLast?_eq_getElem?, hlen, Nat.add_sub_cancel] at hends
  obtain ⟨rest, rfl⟩ := h
  rw [List.getElem?_append_left (by omega)]
  exact hends

/-- The loop up to the first match after the first character. -/
theorem LookupFits.first_phase (t : ℕ) (ht : t ≤ path.length)
    (hnone : ∀ m ∈ mounts, m.call.rootPath <+: path → 2 ≤ m.call.rootPath.length →
      t < m.call.rootPath.length) :
    ∃ handle, turns xxh64 pages path 0 t ⟨0, 0, 0⟩ =
        .ok ⟨0, (path.take t).count slash, handle⟩ ∧ FileHandleMask.fileHandle handle = 0 ∧
      ((handle = 0 ∧ ∀ m ∈ mounts, m.call.rootPath <+: path → t < m.call.rootPath.length) ∨
        ∃ m ∈ mounts, m.call.rootPath <+: path ∧ m.call.rootPath.length = 1 ∧
          SameHandle handle m.handle) := by
  induction t with
  | zero =>
    refine ⟨0, rfl, rfl, Or.inl ⟨rfl, fun m hm _ => ?_⟩⟩
    have hends := hfits.roots.ends m hm
    cases hroot : m.call.rootPath with
    | nil =>
      rw [hroot] at hends
      cases hends
    | cons a l => exact Nat.succ_pos _
  | succ t ih =>
    obtain ⟨handle, hturns, hfile, hhandle⟩ := ih (by omega) fun m hm hpre hlen =>
      (Nat.lt_succ_self t).trans (hnone m hm hpre hlen)
    rw [turns_add, hturns, ok_bind, turns_one, Nat.zero_add]
    obtain ⟨char, hchar⟩ : ∃ char, path[t]? = some char := ⟨_, List.getElem?_eq_getElem (by omega)⟩
    by_cases hslash : char = slash
    · rw [hslash] at hchar
      have hcount := count_take_succ hchar
      have hle := (count_take_le path (t + 1)).trans hfits.slashes
      have hread : path[(Cursor.mk 0 ((path.take t).count slash) handle).base + t]? = some slash := by
        rw [Nat.zero_add]
        exact hchar
      by_cases hmatch : ∃ m ∈ mounts, m.call.rootPath = path.take (t + 1)
      · obtain ⟨m, hm, hroot⟩ := hmatch
        have hpre : m.call.rootPath <+: path := by
          rw [hroot]
          exact List.take_prefix _ _
        have hlen : m.call.rootPath.length = t + 1 := by
          rw [hroot, List.length_take]
          omega
        have ht0 : t = 0 := by
          by_contra hne
          have := hnone m hm hpre (by omega)
          omega
        obtain ⟨handle', hturn, hsame⟩ := hfits.turn_match t hread (by dsimp only; omega) hm hroot
          (by dsimp only; rw [hroot, hcount]) hfile
        rw [hturn, hcount, ht0]
        exact ⟨handle', rfl, hsame.1.trans (hfits.fileHandle hm),
          Or.inr ⟨m, hm, hpre, by omega, hsame⟩⟩
      · rw [hfits.turn_miss hread (by dsimp only; omega) fun m hm hroot =>
          absurd ⟨m, hm, hroot⟩ hmatch, hcount]
        refine ⟨handle, rfl, hfile, hhandle.imp_left fun ⟨hzero, hlong⟩ => ⟨hzero, ?_⟩⟩
        intro m hm hpre
        have hlt := hlong m hm hpre
        by_contra hle
        exact hmatch ⟨m, hm, root_eq_take hpre (by omega)⟩
    · have hread : readChar path ((Cursor.mk 0 ((path.take t).count slash) handle).base + t) =
          .ok char := by
        rw [Nat.zero_add]
        exact readChar_eq hchar
      rw [breakPathTurn_other char hread hslash, count_take_succ_of_ne hchar hslash]
      refine ⟨handle, rfl, hfile, hhandle.imp_left fun ⟨hzero, hlong⟩ => ⟨hzero, ?_⟩⟩
      intro m hm hpre
      have hlt := hlong m hm hpre
      by_contra hle
      rw [hfits.slash_of_root hm hpre (t := t) (by omega)] at hchar
      exact hslash (Option.some.inj hchar).symm

/-- The first match after the first character moves the pointer to it. -/
theorem LookupFits.first_match {m : Mounted V} (hm : m ∈ mounts) {t : ℕ}
    (hpre : m.call.rootPath <+: path) (hlen : m.call.rootPath.length = t + 1)
    (hmin : ∀ m' ∈ mounts, m'.call.rootPath <+: path → 2 ≤ m'.call.rootPath.length →
      m.call.rootPath.length ≤ m'.call.rootPath.length) :
    ∃ handle, turns xxh64 pages path 0 (t + 1) ⟨0, 0, 0⟩ =
      .ok ⟨t, (path.take (t + 1)).count slash, handle⟩ ∧ SameHandle handle m.handle := by
  have hle := hpre.length_le
  obtain ⟨handle, hturns, hfile, -⟩ := hfits.first_phase t (by omega) fun m' hm' hpre' hlen' => by
    have := hmin m' hm' hpre' hlen'
    omega
  have hslash := hfits.slash_of_root hm hpre hlen
  have hcount := count_take_succ hslash
  have hcountle := (count_take_le path (t + 1)).trans hfits.slashes
  have hroot := root_eq_take hpre hlen
  obtain ⟨handle', hturn, hsame⟩ := hfits.turn_match t
    (c := ⟨0, (path.take t).count slash, handle⟩)
    (by rw [Nat.zero_add]; exact hslash) (by dsimp only; omega) hm hroot
    (by dsimp only; rw [hroot, hcount]) hfile
  refine ⟨handle', ?_, hsame⟩
  rw [turns_add, hturns, ok_bind, turns_one, Nat.zero_add, hturn, hcount, Nat.zero_add]

end Phases

section Second
variable {V : Type} {xxh64 : List ℕ → ℕ} {mounts : List (Mounted V)} {pages : VolumeIndices V}
  {x y z : ℕ} {rest : List ℕ}

theorem getElem?_rest (k : ℕ) : (x :: y :: z :: rest)[1 + (2 + k)]? = rest[k]? := by
  rw [show 1 + (2 + k) = k + 3 by omega]
  rfl

/-- A string of the path from its second character on matches in the second phase. -/
def SecondMatch (mounts : List (Mounted V)) (x y z : ℕ) (rest : List ℕ) (j : ℕ) : Prop :=
  ∃ m ∈ mounts, m.call.rootPath = y :: z :: rest.take (j + 1) ∧
    m.call.rootPath.count slash = [x, y].count slash + (rest.take (j + 1)).count slash

variable (hfits : LookupFits xxh64 mounts pages (x :: y :: z :: rest))
include hfits

theorem LookupFits.count_second {k : ℕ} :
    [x, y].count slash + (rest.take k).count slash ≤ 7 := by
  have h := hfits.slashes
  have hle := count_take_le rest k
  have hsplit : (x :: y :: z :: rest).count slash =
      [x, y].count slash + (z :: rest).count slash := by
    rw [← List.count_append]
    rfl
  have hz : rest.count slash ≤ (z :: rest).count slash :=
    (List.sublist_cons_self z rest).count_le slash
  omega

/-- With the pointer at the second character, the loop without another match. -/
theorem LookupFits.second_phase (handle k : ℕ) (hk : k ≤ rest.length)
    (hmiss : ∀ j < k, ¬ SecondMatch mounts x y z rest j) :
    turns xxh64 pages (x :: y :: z :: rest) 2 k ⟨1, [x, y].count slash, handle⟩ =
      .ok ⟨1, [x, y].count slash + (rest.take k).count slash, handle⟩ := by
  induction k with
  | zero => rfl
  | succ k ih =>
    rw [turns_add, ih (by omega) fun j hj => hmiss j (by omega), ok_bind, turns_one]
    obtain ⟨char, hchar⟩ : ∃ char, rest[k]? = some char := ⟨_, List.getElem?_eq_getElem (by omega)⟩
    have hget : (x :: y :: z :: rest)[1 + (2 + k)]? = some char := (getElem?_rest k).trans hchar
    by_cases hslash : char = slash
    · rw [hslash] at hchar hget
      have hcount := count_take_succ hchar
      have hle := hfits.count_second (k := k + 1)
      rw [hfits.turn_miss hget (by dsimp only; omega) fun m hm hroot heq => ?_]
      · rw [hcount, Nat.add_assoc]
      · refine hmiss k (by omega) ⟨m, hm, ?_, ?_⟩
        · rw [hroot]
          dsimp only
          rw [show 2 + k + 1 = k + 1 + 2 by omega]
          rfl
        · dsimp only at heq
          rw [heq, hcount, Nat.add_assoc]
    · rw [breakPathTurn_other char (readChar_eq hget) hslash, count_take_succ_of_ne hchar hslash]

/-- Without another match the last turn reads the NUL. -/
theorem LookupFits.second_through (handle : ℕ)
    (hnone : ¬ ∃ j < rest.length, SecondMatch mounts x y z rest j) :
    turns xxh64 pages (x :: y :: z :: rest) 2 (rest.length + 1) ⟨1, [x, y].count slash, handle⟩ =
      .ok ⟨1, [x, y].count slash + rest.count slash, handle⟩ := by
  rw [turns_add, hfits.second_phase handle rest.length le_rfl fun j hj hmatch => hnone ⟨j, hj, hmatch⟩,
    ok_bind, turns_one, breakPathTurn_other 0 ?_ (by decide), List.take_length]
  rw [show (1 : ℕ) + (2 + rest.length) = (x :: y :: z :: rest).length by
    simp only [List.length_cons]; omega]
  exact readChar_end

/-- With the pointer at the second character, another match ends past the NUL. -/
theorem LookupFits.second_match {handle j : ℕ} (hj : j < rest.length)
    (hmatch : SecondMatch mounts x y z rest j) (hfile : FileHandleMask.fileHandle handle = 0)
    (c' : Cursor) :
    turns xxh64 pages (x :: y :: z :: rest) 2 (rest.length + 1)
      ⟨1, [x, y].count slash, handle⟩ ≠ .ok c' := by
  classical
  have hex : ∃ j, SecondMatch mounts x y z rest j := ⟨j, hmatch⟩
  have hfirst : Nat.find hex ≤ j := Nat.find_le hmatch
  obtain ⟨m, hm, hroot, hcount⟩ := Nat.find_spec hex
  generalize hfind : Nat.find hex = i at *
  have hlen : m.call.rootPath.length = i + 3 := by
    rw [hroot, List.length_cons, List.length_cons, List.length_take]
    omega
  have hchar : rest[i]? = some slash := by
    have hends := hfits.roots.ends m hm
    rw [List.getLast?_eq_getElem?, hlen, hroot] at hends
    change (rest.take (i + 1))[i]? = some slash at hends
    rwa [List.getElem?_take_of_lt (Nat.lt_succ_self i)] at hends
  have hle := hfits.count_second (k := i + 1)
  have hsucc := count_take_succ hchar
  have hphase := hfits.second_phase handle i (by omega) fun l hl =>
    Nat.find_min hex (by rw [hfind]; exact hl)
  obtain ⟨handle', hturn, -⟩ := hfits.turn_match (2 + i)
    (c := ⟨1, [x, y].count slash + (rest.take i).count slash, handle⟩)
    ((getElem?_rest i).trans hchar) (by dsimp only; omega) hm
    (by
      rw [hroot, show 2 + i + 1 = i + 1 + 2 by omega]
      rfl)
    (by dsimp only; rw [hcount, hsucc, Nat.add_assoc]) hfile
  intro h
  rw [show rest.length + 1 = i + (1 + (rest.length - i)) by omega, turns_add, hphase, ok_bind,
    turns_add, turns_one, hturn, ok_bind] at h
  rw [show rest.length - i = rest.length - i - 1 + 1 by omega] at h
  refine turns_overread (by dsimp only; omega) ?_ h
  simp only [List.length_cons]
  omega

end Second

section Result
variable {V : Type}

/-- The lookup returns without reading past the NUL, with the handle of the
longest mounted root that starts the path, and the pointer at its last slash;
or with handle 0 and the whole path when there is none. -/
def ResolvesLongest (xxh64 : List ℕ → ℕ) (mounts : List (Mounted V)) (pages : VolumeIndices V)
    (path : List ℕ) : Prop :=
  ∃ handle position, breakPath xxh64 pages path = .ok (handle, position) ∧
    ((handle = 0 ∧ position = 0 ∧ ∀ m ∈ mounts, ¬ m.call.rootPath <+: path) ∨
      ∃ m ∈ mounts, m.call.rootPath <+: path ∧
        (∀ m' ∈ mounts, m'.call.rootPath <+: path →
          m'.call.rootPath.length ≤ m.call.rootPath.length) ∧
        SameHandle handle m.handle ∧ position + 1 = m.call.rootPath.length)

/-- The shortest mounted root that starts the path and has two characters or more. -/
def FirstMove (mounts : List (Mounted V)) (path : List ℕ) (m : Mounted V) : Prop :=
  m ∈ mounts ∧ m.call.rootPath <+: path ∧ 2 ≤ m.call.rootPath.length ∧
    ∀ m' ∈ mounts, m'.call.rootPath <+: path → 2 ≤ m'.call.rootPath.length →
      m.call.rootPath.length ≤ m'.call.rootPath.length

/-- The first root that moves the pointer is the whole path; or it has two
characters, no longer root starts the path, and none that BreakPath would take
for one starts at the second character. -/
def MovesHarmlessly (mounts : List (Mounted V)) (path : List ℕ) : Prop :=
  ∀ m, FirstMove mounts path m → m.call.rootPath = path ∨
    (m.call.rootPath.length = 2 ∧
      (∀ m' ∈ mounts, m'.call.rootPath <+: path → m'.call.rootPath.length ≤ 2) ∧
      ∀ m' ∈ mounts, m'.call.rootPath <+: path.drop 1 → 3 ≤ m'.call.rootPath.length →
        ¬ (path[0]? = some slash ↔ path[2]? = some slash))

theorem exists_firstMove {mounts : List (Mounted V)} {path : List ℕ} {m : Mounted V}
    (hm : m ∈ mounts) (hpre : m.call.rootPath <+: path) (hlen : 2 ≤ m.call.rootPath.length) :
    ∃ m, FirstMove mounts path m := by
  classical
  have hex : ∃ l, ∃ m ∈ mounts, m.call.rootPath <+: path ∧ 2 ≤ m.call.rootPath.length ∧
      m.call.rootPath.length = l := ⟨_, m, hm, hpre, hlen, rfl⟩
  obtain ⟨m0, hm0, hpre0, hlen0, heq⟩ := Nat.find_spec hex
  refine ⟨m0, hm0, hpre0, hlen0, fun m' hm' hpre' hlen' => ?_⟩
  rw [heq]
  exact Nat.find_min' hex ⟨m', hm', hpre', hlen', rfl⟩

/-- The matches of the second phase are the roots that start at the second
character, when the first and the third character are both slashes or both not. -/
theorem exists_secondMatch_iff {mounts : List (Mounted V)} {x y z : ℕ} {rest : List ℕ} :
    (∃ j < rest.length, SecondMatch mounts x y z rest j) ↔
      ∃ m ∈ mounts, m.call.rootPath <+: y :: z :: rest ∧ 3 ≤ m.call.rootPath.length ∧
        (x = slash ↔ z = slash) := by
  have hcount : ∀ l : List ℕ, (y :: z :: l).count slash = [x, y].count slash + l.count slash ↔
      (x = slash ↔ z = slash) := by
    intro l
    simp only [List.count_cons, List.count_nil, beq_iff_eq]
    split_ifs <;> simp_all <;> omega
  constructor
  · rintro ⟨j, hj, m, hm, hroot, heq⟩
    refine ⟨m, hm, ?_, ?_, ?_⟩
    · rw [hroot]
      exact List.prefix_append_right_inj [y, z] |>.mpr (List.take_prefix _ _)
    · rw [hroot, List.length_cons, List.length_cons, List.length_take]
      omega
    · rw [hroot] at heq
      exact (hcount _).mp heq
  · rintro ⟨m, hm, hpre, hlen, hiff⟩
    have hle := hpre.length_le
    simp only [List.length_cons] at hle
    have hroot : m.call.rootPath = y :: z :: rest.take (m.call.rootPath.length - 3 + 1) := by
      conv_lhs => rw [root_eq_take hpre (t := m.call.rootPath.length - 3 + 1 + 2) (by omega)]
      rfl
    have heq := (hcount (rest.take (m.call.rootPath.length - 3 + 1))).mpr hiff
    rw [← hroot] at heq
    exact ⟨m.call.rootPath.length - 3, by omega, m, hm, hroot, heq⟩

variable {xxh64 : List ℕ → ℕ} {mounts : List (Mounted V)} {pages : VolumeIndices V} {path : List ℕ}

/-- Without a root of two characters or more the pointer stays where it is. -/
theorem LookupFits.resolves_short (hfits : LookupFits xxh64 mounts pages path)
    (hshort : ∀ m ∈ mounts, m.call.rootPath <+: path → m.call.rootPath.length ≤ 1) :
    ResolvesLongest xxh64 mounts pages path := by
  obtain ⟨handle, hturns, -, hhandle⟩ := hfits.first_phase path.length le_rfl fun m hm hpre hlen => by
    have := hshort m hm hpre
    omega
  refine ⟨handle, 0, by rw [breakPath_eq, hturns]; rfl, ?_⟩
  rcases hhandle with ⟨hzero, hlong⟩ | ⟨m, hm, hpre, hlen, hsame⟩
  · refine Or.inl ⟨hzero, rfl, fun m hm hpre => ?_⟩
    have h1 := hlong m hm hpre
    have h2 := hpre.length_le
    omega
  · exact Or.inr ⟨m, hm, hpre, fun m' hm' hpre' => by rw [hlen]; exact hshort m' hm' hpre', hsame,
      by omega⟩

/-- The loop after the first match. -/
theorem breakPath_split {t : ℕ} {handle : ℕ} (hle : t + 1 ≤ path.length)
    (hturns : turns xxh64 pages path 0 (t + 1) ⟨0, 0, 0⟩ =
      .ok ⟨t, (path.take (t + 1)).count slash, handle⟩) :
    breakPath xxh64 pages path = turns xxh64 pages path (t + 1) (path.length - (t + 1))
      ⟨t, (path.take (t + 1)).count slash, handle⟩ >>= fun c => pure (c.handle, c.base) := by
  have hsum : path.length = (t + 1) + (path.length - (t + 1)) := by omega
  rw [breakPath_eq]
  conv_lhs => rw [hsum]
  rw [turns_add, hturns, ok_bind, Nat.zero_add]

theorem exists_three {l : List ℕ} (h : 2 < l.length) : ∃ x y z rest, l = x :: y :: z :: rest := by
  match l, h with
  | x :: y :: z :: rest, _ => exact ⟨x, y, z, rest, rfl⟩

/-- BreakPath finds the longest root exactly when its pointer does no harm. -/
theorem LookupFits.resolves_iff (hfits : LookupFits xxh64 mounts pages path) :
    ResolvesLongest xxh64 mounts pages path ↔ MovesHarmlessly mounts path := by
  constructor
  · rintro ⟨handle, position, hbreak, hres⟩ m ⟨hm, hpre, hlen, hmin⟩
    obtain ⟨t, ht⟩ : ∃ t, m.call.rootPath.length = t + 1 := ⟨m.call.rootPath.length - 1, by omega⟩
    have hle := hpre.length_le
    obtain ⟨handle', hturns, hsame⟩ := hfits.first_match hm hpre ht hmin
    by_cases hend : path.length = t + 1
    · exact Or.inl (hpre.eq_of_length (by omega))
    rw [breakPath_split (by omega) hturns] at hbreak
    obtain ⟨c', hrest, hbreak⟩ := bind_eq_ok.mp hbreak
    have ht1 : t = 1 := by
      by_contra hne
      rw [show path.length - (t + 1) = path.length - (t + 1) - 1 + 1 by omega] at hrest
      exact turns_overread (by dsimp only; omega) (by omega) hrest
    subst ht1
    obtain ⟨x, y, z, rest, rfl⟩ := exists_three (l := path) (by omega)
    change turns _ _ _ 2 (rest.length + 1) ⟨1, [x, y].count slash, handle'⟩ = _ at hrest
    have hnone : ¬ ∃ j < rest.length, SecondMatch mounts x y z rest j := by
      rintro ⟨j, hj, hmatch⟩
      exact hfits.second_match hj hmatch (hsame.1.trans (hfits.fileHandle hm)) c' hrest
    rw [hfits.second_through handle' hnone] at hrest
    cases hrest
    cases hbreak
    refine Or.inr ⟨ht, fun m' hm' hpre' => ?_, fun m' hm' hpre' hlen' hiff => ?_⟩
    · rcases hres with ⟨-, hzero, -⟩ | ⟨m1, hm1, hpre1, hmax, -, hlen1⟩
      · cases hzero
      · exact (hmax m' hm' hpre').trans hlen1.ge
    · refine hnone (exists_secondMatch_iff.mpr ⟨m', hm', hpre', hlen', ?_⟩)
      simpa using hiff
  · intro hharm
    by_cases hlong : ∃ m ∈ mounts, m.call.rootPath <+: path ∧ 2 ≤ m.call.rootPath.length
    · obtain ⟨m0, hm0, hpre0, hlen0⟩ := hlong
      obtain ⟨m, hfirst⟩ := exists_firstMove hm0 hpre0 hlen0
      obtain ⟨hm, hpre, hlen, hmin⟩ := hfirst
      obtain ⟨t, ht⟩ : ∃ t, m.call.rootPath.length = t + 1 := ⟨m.call.rootPath.length - 1, by omega⟩
      have hle := hpre.length_le
      obtain ⟨handle', hturns, hsame⟩ := hfits.first_match hm hpre ht hmin
      have hbreak := breakPath_split (by omega) hturns
      by_cases hend : path.length = t + 1
      · rw [hend, Nat.sub_self] at hbreak
        refine ⟨handle', t, hbreak, Or.inr ⟨m, hm, hpre, fun m' hm' hpre' => ?_, hsame, ht.symm⟩⟩
        have := hpre'.length_le
        omega
      · obtain ⟨htwo, hmax, hnone⟩ := (hharm m ⟨hm, hpre, hlen, hmin⟩).resolve_left fun heq =>
          hend (by rw [← ht, heq])
        obtain rfl : t = 1 := by omega
        obtain ⟨x, y, z, rest, rfl⟩ := exists_three (l := path) (by omega)
        have hnone' : ¬ ∃ j < rest.length, SecondMatch mounts x y z rest j := by
          rw [exists_secondMatch_iff]
          rintro ⟨m', hm', hpre', hlen', hiff⟩
          exact hnone m' hm' hpre' hlen' (by simpa using hiff)
        change _ = turns _ _ _ 2 (rest.length + 1) ⟨1, [x, y].count slash, handle'⟩ >>= _ at hbreak
        rw [hfits.second_through handle' hnone'] at hbreak
        refine ⟨handle', 1, hbreak, Or.inr ⟨m, hm, hpre, fun m' hm' hpre' => ?_, hsame, ht.symm⟩⟩
        rw [htwo]
        exact hmax m' hm' hpre'
    · refine hfits.resolves_short fun m hm hpre => ?_
      by_contra hlen
      exact hlong ⟨m, hm, hpre, by omega⟩

end Result

/-- A hash without collisions, and never zero. -/
def encodeHash (s : List ℕ) : ℕ := Encodable.encode s + 1

theorem hashFits_encodeHash {V : Type} (mounts : List (Mounted V)) (path : List ℕ) :
    HashFits encodeHash mounts path :=
  ⟨fun _ _ _ _ h => Encodable.encode_injective (Nat.succ_injective h), fun _ _ => Nat.succ_ne_zero _⟩

/-- The root "/dev/". -/
def deviceRoot : List ℕ := [slash, 0x64, 0x65, 0x76, slash]

theorem exists_deviceMount : ∃ (m : Mounted Unit) (pages : VolumeIndices Unit),
    MountRun encodeHash [m] pages ∧ m.call.rootPath = deviceRoot ∧ RootsFit [m] := by
  obtain ⟨mounts, pages, hrun, hcalls⟩ := exists_mountRun encodeHash
    [⟨0, (), deviceRoot, 0⟩] (by decide) fun p => List.countP_le_length.trans (by decide)
  obtain ⟨m, rfl, hcall⟩ := List.map_eq_singleton_iff.mp hcalls
  have hroot : m.call.rootPath = deviceRoot := by rw [hcall]
  refine ⟨m, pages, hrun, hroot, fun m' hm' => ?_, fun m' hm' => ?_, List.pairwise_singleton _ _,
    fun page => List.countP_le_length.trans_lt (by simp)⟩
  · rw [List.mem_singleton.mp hm', hroot]
    rfl
  · rw [List.mem_singleton.mp hm', hroot]
    decide

/-- For every table of mounted volumes and every path: BreakPath finds the
longest mounted root without reading past the NUL exactly when the first root
that moves its pointer does so at the end of the path, or without harm at the
second character. -/
theorem breakPath_longest_iff {V : Type} (xxh64 : List ℕ → ℕ) (mounts : List (Mounted V))
    (pages : VolumeIndices V) (hrun : MountRun xxh64 mounts pages) (hroots : RootsFit mounts)
    (path : List ℕ) (hslashes : path.count slash ≤ 7) (hhash : HashFits xxh64 mounts path) :
    ResolvesLongest xxh64 mounts pages path ↔ MovesHarmlessly mounts path :=
  LookupFits.resolves_iff ⟨hrun.inv, hroots, hhash, hslashes⟩

theorem breakPath_longest_iff_device :
    ∃ (m : Mounted Unit) (pages : VolumeIndices Unit), MountRun encodeHash [m] pages ∧
      (ResolvesLongest encodeHash [m] pages deviceRoot ↔ MovesHarmlessly [m] deviceRoot) := by
  obtain ⟨m, pages, hrun, -, hroots⟩ := exists_deviceMount
  exact ⟨m, pages, hrun, breakPath_longest_iff encodeHash [m] pages hrun hroots deviceRoot
    (by decide) (hashFits_encodeHash _ _)⟩

/-- With a volume at "/dev/", the lookup of "/dev/x" reads past the NUL. -/
theorem breakPath_overreads_device :
    ∃ (m : Mounted Unit) (pages : VolumeIndices Unit), MountRun encodeHash [m] pages ∧
      m.call.rootPath = deviceRoot ∧ RootsFit [m] ∧
      breakPath encodeHash pages (deviceRoot ++ [0x78]) = .error .pathOverread ∧
      ¬ ResolvesLongest encodeHash [m] pages (deviceRoot ++ [0x78]) := by
  obtain ⟨m, pages, hrun, hroot, hroots⟩ := exists_deviceMount
  have hfits : LookupFits encodeHash [m] pages (deviceRoot ++ [0x78]) :=
    ⟨hrun.inv, hroots, hashFits_encodeHash _ _, by decide⟩
  have hpre : m.call.rootPath <+: deviceRoot ++ [0x78] := by
    rw [hroot]
    exact List.prefix_append _ _
  obtain ⟨handle, hturns, -⟩ := hfits.first_match (List.mem_singleton_self m) (t := 4) hpre
    (by rw [hroot]; rfl) fun m' hm' _ _ => by rw [List.mem_singleton.mp hm']
  have hbreak : breakPath encodeHash pages (deviceRoot ++ [0x78]) = .error .pathOverread := by
    rw [breakPath_split (by decide) hturns]
    change turns _ _ _ 5 1 _ >>= _ = _
    rw [turns_one]
    unfold breakPathTurn
    rw [readChar_after (show 6 < 4 + 5 by decide)]
    rfl
  refine ⟨m, pages, hrun, hroot, hroots, hbreak, ?_⟩
  rintro ⟨handle, position, h, -⟩
  rw [hbreak] at h
  cases h

end Enkel.VolumeSystem
