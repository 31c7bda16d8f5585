import Mathlib.Algebra.Ring.Nat
import Mathlib.Data.List.Sort
import Mathlib.Data.List.Nodup
import Enkel.Outcome

/-!
The characters of a font and the search for one of them in bmfont.cpp. The table is searched
by halves, with both ends included, so the search of an empty table starts with the largest
number as its end.
-/
namespace Enkel.Fonts

open Outcome

/-- An entry of the table of a font. -/
structure BMFontChar where
  id : UInt32
  x : UInt16
  y : UInt16
  width : UInt16
  height : UInt16
  xOffset : Int16
  yOffset : Int16
  xAdvance : Int16
  page : UInt8
  channel : UInt8
deriving DecidableEq, Repr

inductive Fault
  /-- An entry behind the table is read. -/
  | outsideTable (index : ℕ)
  | endless
deriving DecidableEq, Repr

/-- A font whose TotalCharacters are those of the table. -/
structure BMFont where
  chars : List BMFontChar
  lineHeight : UInt16
  scaleW : UInt16
  /-- The pixels of the textures, by page and position. -/
  pageTexture : UInt8 → ℕ → UInt32
  length_lt : chars.length < 2 ^ 32

section FindGlyph
variable (chars : List BMFontChar) (id : UInt32)

/-- The loop of BMFont_FindGlyph. -/
def findLoop : (fuel start last : ℕ) → Except Fault (Option BMFontChar)
  | 0, _, _ => .error .endless
  | fuel + 1, start, last =>
    if start ≤ last then
      let mid := start + (last - start) / 2
      match chars[mid]? with
      | none => .error (.outsideTable mid)
      | some char =>
        if char.id = id then .ok (some char)
        else if char.id < id then findLoop fuel ((mid + 1) % 2 ^ 32) last
        else if mid = 0 then .ok none
        else findLoop fuel start (mid - 1)
    else
      .ok none

end FindGlyph

/-- BMFont_FindGlyph. The end of an empty table is one before zero. -/
def BMFont.findGlyph (font : BMFont) (id : UInt32) : Except Fault (Option BMFontChar) :=
  findLoop font.chars id (2 ^ 32 + 1) 0 ((font.chars.length + (2 ^ 32 - 1)) % 2 ^ 32)

/-- The Ids of the table are strictly increasing. -/
def BMFont.Sorted (font : BMFont) : Prop := font.chars.Pairwise fun c c' => c.id < c'.id

/-- The entry with an Id, if there is one. -/
def BMFont.glyph (font : BMFont) (id : UInt32) : Option BMFontChar :=
  font.chars.find? fun char => char.id = id

section Search
variable {chars : List BMFontChar} {id : UInt32} {start last fuel : ℕ}

theorem find_eq_some_of_sorted (hsorted : chars.Pairwise fun c c' => c.id < c'.id) {i : ℕ}
    {char : BMFontChar} (hi : chars[i]? = some char) (hid : char.id = id) :
    chars.find? (fun char => char.id = id) = some char := by
  have hmem : char ∈ chars := List.mem_of_getElem? hi
  induction chars generalizing i with
  | nil => cases hmem
  | cons c rest ih =>
    rw [List.pairwise_cons] at hsorted
    rw [List.find?_cons]
    rcases List.mem_cons.mp hmem with rfl | hrest
    · rw [decide_eq_true hid]
    · have hne : c.id ≠ id := fun heq => by
        have hlt := hsorted.1 char hrest
        rw [heq, hid] at hlt
        exact absurd hlt (by simp)
      rw [decide_eq_false hne]
      obtain ⟨j, hj⟩ := List.getElem?_of_mem hrest
      exact ih hsorted.2 hj hrest

/-- The entries that are not between the ends do not have the Id. -/
def Outside (chars : List BMFontChar) (id : UInt32) (start last : ℕ) : Prop :=
  ∀ i char, chars[i]? = some char → char.id = id → start ≤ i ∧ i ≤ last

theorem find_eq_none_of_outside (h : Outside chars id start last) (hempty : last < start) :
    chars.find? (fun char => char.id = id) = none := by
  rw [List.find?_eq_none]
  intro char hmem
  obtain ⟨i, hi⟩ := List.getElem?_of_mem hmem
  intro hid
  have hbetween := h i char hi (of_decide_eq_true hid)
  omega

theorem sorted_lt (hsorted : chars.Pairwise fun c c' => c.id < c'.id) {i j : ℕ}
    {c c' : BMFontChar} (hi : chars[i]? = some c) (hj : chars[j]? = some c') (hij : i < j) :
    c.id < c'.id := by
  obtain ⟨hilt, rfl⟩ := List.getElem?_eq_some_iff.mp hi
  obtain ⟨hjlt, rfl⟩ := List.getElem?_eq_some_iff.mp hj
  exact List.pairwise_iff_getElem.mp hsorted i j hilt hjlt hij

/-- The Ids order the places. -/
theorem place_lt (hsorted : chars.Pairwise fun c c' => c.id < c'.id) {i j : ℕ}
    {c c' : BMFontChar} (hi : chars[i]? = some c) (hj : chars[j]? = some c') (h : c.id < c'.id) :
    i < j := by
  rcases lt_trichotomy i j with hlt | rfl | hgt
  · exact hlt
  · cases hi.symm.trans hj
    exact absurd h (UInt32.lt_irrefl _)
  · exact absurd h (UInt32.lt_asymm (sorted_lt hsorted hj hi hgt))

/-- A turn of the search, at an entry between the ends. -/
theorem findLoop_turn (hlength : chars.length < 2 ^ 32) (hlast : last < chars.length)
    (hle : start ≤ last) : ∃ mid char, chars[mid]? = some char ∧ start ≤ mid ∧ mid ≤ last ∧
      findLoop chars id (fuel + 1) start last =
        if char.id = id then .ok (some char)
        else if char.id < id then findLoop chars id fuel (mid + 1) last
        else if mid = 0 then .ok none
        else findLoop chars id fuel start (mid - 1) := by
  obtain ⟨mid, hmid⟩ : ∃ mid, mid = start + (last - start) / 2 := ⟨_, rfl⟩
  have hlt : mid < chars.length := by omega
  obtain ⟨char, hchar⟩ : ∃ char, chars[mid]? = some char := ⟨_, List.getElem?_eq_getElem hlt⟩
  have hnext : (mid + 1) % 2 ^ 32 = mid + 1 := Nat.mod_eq_of_lt (by omega)
  refine ⟨mid, char, hchar, by omega, by omega, ?_⟩
  rw [findLoop, if_pos hle]
  simp only [← hmid, hchar, hnext]

theorem findLoop_end (hlt : last < start) : findLoop chars id (fuel + 1) start last = .ok none :=
  if_neg (not_le.mpr hlt)

/-- Each turn leaves out the entry in the middle and one side of it. -/
theorem findLoop_eq (hsorted : chars.Pairwise fun c c' => c.id < c'.id)
    (hlength : chars.length < 2 ^ 32) (hlast : last < chars.length) (hstart : start ≤ last + 1)
    (houtside : Outside chars id start last) (hfuel : last + 1 - start < fuel) :
    findLoop chars id fuel start last = .ok (chars.find? fun char => char.id = id) := by
  induction fuel generalizing start last with
  | zero => omega
  | succ fuel ih =>
    rcases Nat.lt_or_ge last start with hlt | hle
    · rw [findLoop_end hlt, find_eq_none_of_outside houtside hlt]
    · obtain ⟨mid, char, hchar, hlo, hhi, hturn⟩ :=
        @findLoop_turn chars id start last fuel hlength hlast hle
      rw [hturn]
      split_ifs with hid hless hzero
      · rw [find_eq_some_of_sorted hsorted hchar hid]
      · refine ih hlast (by omega) (fun i c hi hc => ?_) (by omega)
        have hbetween := houtside i c hi hc
        have hplace := place_lt hsorted hchar hi (hc ▸ hless)
        exact ⟨hplace, hbetween.2⟩
      · have hmore : id < char.id := (UInt32.lt_or_lt_of_ne hid).resolve_left hless
        rw [eq_comm, List.find?_eq_none.mpr]
        intro c hmem hc
        obtain ⟨i, hi⟩ := List.getElem?_of_mem hmem
        have hplace := place_lt hsorted hi hchar (of_decide_eq_true hc ▸ hmore)
        omega
      · have hmore : id < char.id := (UInt32.lt_or_lt_of_ne hid).resolve_left hless
        refine ih (by omega) (by omega) (fun i c hi hc => ?_) (by omega)
        have hbetween := houtside i c hi hc
        have hplace := place_lt hsorted hi hchar (hc ▸ hmore)
        exact ⟨hbetween.1, by omega⟩

/-- Whatever the order of the entries, the search ends, and what it returns is one of them. -/
theorem exists_findLoop (hlength : chars.length < 2 ^ 32) (hlast : last < chars.length)
    (hfuel : last + 1 - start < fuel) :
    ∃ found, findLoop chars id fuel start last = .ok found ∧
      ∀ char, found = some char → char ∈ chars := by
  induction fuel generalizing start last with
  | zero => omega
  | succ fuel ih =>
    rcases Nat.lt_or_ge last start with hlt | hle
    · exact ⟨none, findLoop_end hlt, fun c hc => nomatch hc⟩
    · obtain ⟨mid, char, hchar, hlo, hhi, hturn⟩ :=
        @findLoop_turn chars id start last fuel hlength hlast hle
      rw [hturn]
      split_ifs
      · exact ⟨some char, rfl, fun c hc => Option.some.inj hc ▸ List.mem_of_getElem? hchar⟩
      · exact ih hlast (by omega)
      · exact ⟨none, rfl, fun c hc => nomatch hc⟩
      · exact ih (by omega) (by omega)

end Search

/-- What a search has found; nothing when it has left the table. -/
def entryOf : Except Fault (Option BMFontChar) → Option BMFontChar
  | .ok found => found
  | .error _ => none

/-- The entry that BMFont_FindGlyph finds. -/
def BMFont.found (font : BMFont) (id : UInt32) : Option BMFontChar := entryOf (font.findGlyph id)

variable {font : BMFont}

theorem exists_findGlyph (hne : font.chars ≠ []) (id : UInt32) :
    ∃ found, font.findGlyph id = .ok found ∧ ∀ char, found = some char → char ∈ font.chars := by
  have hlength := font.length_lt
  have hpos : 0 < font.chars.length := List.length_pos_iff.mpr hne
  have hlast : (font.chars.length + (2 ^ 32 - 1)) % 2 ^ 32 = font.chars.length - 1 := by omega
  unfold BMFont.findGlyph
  rw [hlast]
  exact exists_findLoop hlength (by omega) (by omega)

theorem found_eq {id : UInt32} {found : Option BMFontChar} (h : font.findGlyph id = .ok found) :
    font.found id = found :=
  congrArg entryOf h

/-- The search of a table that is not empty. -/
theorem findGlyph_found (hne : font.chars ≠ []) (id : UInt32) :
    font.findGlyph id = .ok (font.found id) := by
  obtain ⟨found, hfound, -⟩ := exists_findGlyph hne id
  rw [found_eq hfound, hfound]

theorem mem_of_found (hne : font.chars ≠ []) {id : UInt32} {char : BMFontChar}
    (h : font.found id = some char) : char ∈ font.chars := by
  obtain ⟨found, hfound, hmem⟩ := exists_findGlyph hne id
  rw [found_eq hfound] at h
  exact hmem char h

/-- In a table that is not empty the entry is found. -/
theorem findGlyph_eq (hsorted : font.Sorted) (hne : font.chars ≠ []) (id : UInt32) :
    font.findGlyph id = .ok (font.glyph id) := by
  have hlength := font.length_lt
  have hpos : 0 < font.chars.length := List.length_pos_iff.mpr hne
  have hlast : (font.chars.length + (2 ^ 32 - 1)) % 2 ^ 32 = font.chars.length - 1 := by omega
  unfold BMFont.findGlyph
  rw [hlast]
  refine findLoop_eq hsorted hlength (by omega) (Nat.zero_le _) (fun i c hi _ => ?_) (by omega)
  have hi := (List.getElem?_eq_some_iff.mp hi).1
  omega

/-- The first entry that is read of an empty table is far behind it. -/
theorem findGlyph_empty (hempty : font.chars = []) (id : UInt32) :
    font.findGlyph id = .error (.outsideTable 0x7FFFFFFF) := by
  unfold BMFont.findGlyph
  rw [hempty]
  rfl

theorem found_eq_none (hempty : font.chars = []) (id : UInt32) : font.found id = none := by
  unfold BMFont.found
  rw [findGlyph_empty hempty]
  rfl

/-- BMFont_FindGlyph returns the entry with the Id, or the null pointer if there is none, and
reads entries of the table only, when the table is not empty. -/
theorem findGlyph_correct_iff (font : BMFont) (hsorted : font.Sorted) (id : UInt32) :
    font.findGlyph id = .ok (font.glyph id) ↔ font.chars ≠ [] := by
  constructor
  · intro h hempty
    rw [findGlyph_empty hempty] at h
    cases h
  · exact fun hne => findGlyph_eq hsorted hne id

/-- A character that is as wide as its advance. -/
def block (id : UInt32) (advance : Int16) : BMFontChar :=
  { id, x := 0, y := 0, width := advance.toUInt16, height := 1, xOffset := 0, yOffset := 0,
    xAdvance := advance, page := 0, channel := 15 }

/-- A font with a white texture. -/
def whiteFont (chars : List BMFontChar) (h : chars.length < 2 ^ 32) : BMFont :=
  { chars, lineHeight := 1, scaleW := 1, pageTexture := fun _ _ => 0xFFFFFFFF, length_lt := h }

theorem findGlyph_correct_iff_two :
    (whiteFont [block 65 5, block 66 6] (by decide)).findGlyph 66 =
        .ok ((whiteFont [block 65 5, block 66 6] (by decide)).glyph 66) ↔
      (whiteFont [block 65 5, block 66 6] (by decide)).chars ≠ [] :=
  findGlyph_correct_iff _ (by unfold BMFont.Sorted whiteFont; decide) 66

/-- The search of an empty table does not return the null pointer. -/
theorem empty_table_misread :
    (whiteFont [] (by decide)).findGlyph 65 ≠ .ok ((whiteFont [] (by decide)).glyph 65) := by
  intro h
  rw [findGlyph_empty rfl] at h
  cases h

end Enkel.Fonts
