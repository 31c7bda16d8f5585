import Mathlib.Data.List.Infix
import Mathlib.Data.List.TakeWhile
import Enkel.TextRender

/-!
What BMFont_Render knows where it comes to a character. A word is measured from its first
character, unless the offset of the word before it is still there: '\r' and '\n' do not count
it down, so the first character behind them is drawn as it comes, and the rest of its word is
measured for itself.
-/
namespace Enkel.Fonts

open Outcome Framebuffer

/-- What is known at a character. -/
inductive Mode
  /-- NextOffset is -1: what follows is measured. -/
  | fresh
  /-- NextOffset is the end of the word. -/
  | word
  /-- A word has ended, and '\r' has followed it. -/
  | carried
  /-- A line has just begun. -/
  | line
  /-- A line has just begun, and a space is skipped. -/
  | newline
deriving DecidableEq, Repr

namespace Mode

def after (m : Mode) (c : UInt16) : Mode :=
  if c = lineFeed then .newline
  else
    match m with
    | .fresh => if IsWhitespace c then .fresh else .word
    | .word => if c = carriageReturn then .carried else if IsWhitespace c then .fresh else .word
    | .carried => if c = carriageReturn then .carried else .fresh
    | .line => if c = carriageReturn then .line else .fresh
    | .newline => if c = carriageReturn ∨ c = space then .line else .fresh

def afterAll (m : Mode) (string : List UInt16) : Mode := string.foldl after m

/-- The character is not drawn. -/
def Skips (m : Mode) (c : UInt16) : Prop :=
  c = carriageReturn ∨ c = lineFeed ∨ (m = .newline ∧ c = space)

instance (m : Mode) (c : UInt16) : Decidable (m.Skips c) := inferInstanceAs (Decidable (_ ∨ _))

/-- The characters of a string that are drawn. -/
def drawnChars : (m : Mode) → List UInt16 → List UInt16
  | _, [] => []
  | m, c :: rest =>
    if m.Skips c then (m.after c).drawnChars rest else c :: (m.after c).drawnChars rest

/-- A character of a word is measured with the next one. -/
def Measures (m : Mode) : Prop := m = .fresh ∨ m = .word

instance (m : Mode) : Decidable m.Measures := inferInstanceAs (Decidable (_ ∨ _))

end Mode

/-- The characters up to the end of a word. -/
def wordOf (rest : List UInt16) : List UInt16 := rest.takeWhile fun c => ¬ IsWhitespace c

/-- No word is so long that its end is not an int. -/
def ShortWords (string : List UInt16) : Prop :=
  ∀ word, word <:+: string → (∀ c ∈ word, ¬ IsWhitespace c) → word.length < 2 ^ 31

/-- The counters at a character. -/
def Follows (m : Mode) (s : RenderState) : Prop :=
  match m with
  | .fresh => s.nextOffset = -1 ∧ s.breakAfterChar = -1
  | .word => s.nextOffset = (wordOf s.rest).length ∧
      (s.breakAfterChar = -1 ∨ 1 ≤ s.breakAfterChar ∧ s.breakAfterChar < (wordOf s.rest).length)
  | .carried => s.nextOffset = 0 ∧ s.breakAfterChar = -1
  | .line => s.nextOffset = 0 ∧ s.breakAfterChar = -1
  | .newline => False

section Words
variable {rest string word : List UInt16} {c : UInt16}

theorem isWhitespace_space : IsWhitespace space := Or.inl rfl

theorem isWhitespace_carriageReturn : IsWhitespace carriageReturn := Or.inr (Or.inr (Or.inl rfl))

theorem isWhitespace_lineFeed : IsWhitespace lineFeed := Or.inr (Or.inr (Or.inr rfl))

theorem ne_space (h : ¬ IsWhitespace c) : c ≠ space := fun heq => h (heq ▸ isWhitespace_space)

theorem ne_carriageReturn (h : ¬ IsWhitespace c) : c ≠ carriageReturn := fun heq =>
  h (heq ▸ isWhitespace_carriageReturn)

theorem ne_lineFeed (h : ¬ IsWhitespace c) : c ≠ lineFeed := fun heq =>
  h (heq ▸ isWhitespace_lineFeed)

theorem wordOf_cons_whitespace (h : IsWhitespace c) : wordOf (c :: rest) = [] := by
  unfold wordOf
  rw [List.takeWhile_cons, if_neg (by simpa using h)]

theorem wordOf_cons (h : ¬ IsWhitespace c) : wordOf (c :: rest) = c :: wordOf rest := by
  unfold wordOf
  rw [List.takeWhile_cons, if_pos (by simpa using h)]

/-- Where no word begins, none is long. -/
theorem length_wordOf_whitespace (hrest : rest = c :: string) (hc : IsWhitespace c) :
    (wordOf rest).length < 2 ^ 31 := by
  rw [hrest, wordOf_cons_whitespace hc]
  decide

theorem wordOf_append (hword : ∀ c ∈ word, ¬ IsWhitespace c) :
    wordOf (word ++ rest) = word ++ wordOf rest := by
  induction word with
  | nil => rfl
  | cons c word ih =>
    obtain ⟨hc, hword⟩ := List.forall_mem_cons.mp hword
    rw [List.cons_append, wordOf_cons hc, ih hword]
    rfl

theorem wordOf_isPrefix : wordOf rest <+: rest := List.takeWhile_prefix _

theorem not_isWhitespace_of_mem (h : c ∈ wordOf rest) : ¬ IsWhitespace c := by
  unfold wordOf at h
  simpa using List.mem_takeWhile_imp h

theorem take_wordOf : rest.take (wordOf rest).length = wordOf rest :=
  (List.prefix_iff_eq_take.mp wordOf_isPrefix).symm

theorem ShortWords.wordOf (h : ShortWords string) (hrest : rest <:+ string) :
    (wordOf rest).length < 2 ^ 31 :=
  h _ (wordOf_isPrefix.isInfix.trans hrest.isInfix) fun _ hc => not_isWhitespace_of_mem hc

theorem ShortWords.suffix {string : List UInt16} (h : ShortWords string)
    (hrest : rest <:+ string) : ShortWords rest :=
  fun word hword hall => h word (hword.trans hrest.isInfix) hall

/-- Behind '\n' only a space is not what it is at the start of a line. -/
theorem Mode.newline_of_ne (hc : c ≠ space) :
    (Mode.newline.Skips c ↔ Mode.line.Skips c) ∧ Mode.newline.after c = Mode.line.after c :=
  ⟨by simp [Mode.Skips, hc], by simp [Mode.after, hc]⟩

theorem Mode.of_after_word {m : Mode} (h : m.after c = .word) : m.Measures ∧ ¬ IsWhitespace c := by
  unfold Mode.after at h
  by_cases hfeed : c = lineFeed
  · rw [if_pos hfeed] at h
    cases h
  rw [if_neg hfeed] at h
  cases m with
  | fresh => exact ⟨Or.inl rfl, fun hc => by simp [hc] at h⟩
  | word => exact ⟨Or.inr rfl, fun hc => by simp [hc, ite_eq_iff] at h⟩
  | carried => simp [ite_eq_iff] at h
  | line => simp [ite_eq_iff] at h
  | newline => simp [ite_eq_iff] at h

/-- The loop of IndexOfWhitespace stops at the end of the word. -/
theorem whitespaceLoop_eq {index : ℕ} (h : index + (wordOf rest).length < 2 ^ 32) :
    whitespaceLoop rest index =
      .ok (if wordOf rest = rest then 2 ^ 64 - 1 else index + (wordOf rest).length) := by
  induction rest generalizing index with
  | nil => rfl
  | cons c rest ih =>
    unfold whitespaceLoop
    by_cases hc : IsWhitespace c
    · rw [if_pos hc, wordOf_cons_whitespace hc, if_neg (by simp)]
      rfl
    · rw [wordOf_cons hc] at h ⊢
      rw [List.length_cons] at h ⊢
      rw [if_neg hc, if_pos (by omega), ih (by omega)]
      simp only [List.cons.injEq, true_and]
      refine congrArg _ (if_congr Iff.rfl rfl ?_)
      omega

/-- What NextOffset becomes: the length of the word. -/
theorem nextOffset_eq (h : (wordOf rest).length < 2 ^ 31) :
    ∃ index, indexOfWhitespace rest = .ok index ∧
      (if int32 index = -1 then int32 rest.length else int32 index) = (wordOf rest).length := by
  refine ⟨_, whitespaceLoop_eq (by omega), ?_⟩
  by_cases hall : wordOf rest = rest
  · have hlast : int32 ((2 ^ 64 - 1 : ℕ) : ℤ) = -1 := by decide
    have hlength : (wordOf rest).length = rest.length := congrArg List.length hall
    rw [if_pos hall, if_pos hlast, hlength]
    exact int32_of_between (by omega) (by omega)
  · rw [if_neg hall, zero_add]
    have hint : int32 ((wordOf rest).length : ℤ) = (wordOf rest).length :=
      int32_of_between (by omega) (by omega)
    rw [hint, if_neg (by omega)]

end Words

/-- The glyph that is drawn for a character. -/
def BMFont.drawnGlyph (font : BMFont) (c : UInt16) : Option BMFontChar :=
  (font.found c.toUInt32).or (font.found 0xFFFD)

/-- The counters behind the look for the end of the next word. -/
def Looked (m : Mode) (s : RenderState) : Prop :=
  match m with
  | .word => s.nextOffset = (wordOf s.rest).length ∧
      (s.breakAfterChar = -1 ∨ 0 ≤ s.breakAfterChar ∧ s.breakAfterChar < (wordOf s.rest).length)
  | .carried => s.nextOffset = 0 ∧ s.breakAfterChar = -1
  | .line => s.nextOffset = 0 ∧ s.breakAfterChar = -1
  | .fresh => False
  | .newline => False

/-- The variables when a line has been begun for the next word. -/
def wrapped (font : BMFont) (returnX : ℤ) (s : RenderState) : RenderState :=
  newLine font returnX { s with nextOffset := (wordOf s.rest).length }

/-- The variables when the next word has been measured, and whether the loop goes on. -/
def measuredState (font : BMFont) (framebuffer : FramebufferLayout) (returnX : ℤ)
    (s : RenderState) : Measured → RenderState × Bool
  | .wide advanceChar =>
    ({ s with nextOffset := (wordOf s.rest).length, breakAfterChar := advanceChar }, false)
  | .length pixels =>
    if uint32 (s.startX + pixels) > framebuffer.width ∧ ¬ pixels > framebuffer.width then
      (wrapped font returnX s, true)
    else
      ({ s with nextOffset := (wordOf s.rest).length }, false)

/-- The variables when a word has been broken. -/
def broken (font : BMFont) (returnX : ℤ) (s : RenderState) : RenderState :=
  newLine font returnX { s with breakAfterChar := -1, nextOffset := -1 }

/-- The variables behind '\n'. -/
def lineEnded (font : BMFont) (returnX : ℤ) (s : RenderState) (rest : List UInt16) : RenderState :=
  newLine font returnX { s with
    breakAfterChar := -1, rest := rest.drop (if rest.head? = some space then 1 else 0),
    position := s.position + 1 + if rest.head? = some space then 1 else 0 }

/-- The variables behind a character that is drawn. -/
def drawnAt (s : RenderState) (glyph : BMFontChar) (rest : List UInt16) : RenderState where
  rest := rest
  position := s.position + 1
  startX := int32 (s.startX + glyph.xAdvance.toInt)
  startY := s.startY
  nextOffset := s.nextOffset - 1
  breakAfterChar := if 0 < s.breakAfterChar then s.breakAfterChar - 1 else -1
  drawn := s.drawn ++ [⟨s.position, glyph, s.startX, s.startY⟩]

section Turns
variable {font : BMFont} {framebuffer : FramebufferLayout} {returnX : ℤ} {s : RenderState}
  {m : Mode} {c : UInt16} {rest : List UInt16}

theorem turn_carriageReturn :
    turn font framebuffer returnX s carriageReturn rest =
      .ok (.next { s with rest := rest, position := s.position + 1 }) := rfl

theorem turn_eq (hc : c ≠ carriageReturn) :
    turn font framebuffer returnX s c rest = (do
      let (s', again) ← lookAhead font framebuffer returnX s
      if again then return .next s'
      drawChar font returnX s' c rest) := by
  unfold turn
  rw [if_neg hc]

theorem lookAhead_of_offset (h : s.nextOffset ≠ -1) :
    lookAhead font framebuffer returnX s = .ok (s, false) := by
  unfold lookAhead
  rw [if_pos h]
  rfl

/-- The look ahead at the beginning of a word. -/
theorem lookAhead_eq (h : s.nextOffset = -1) (hshort : (wordOf s.rest).length < 2 ^ 31)
    {measured : Measured}
    (hmeasure : measureLoop font framebuffer (wordOf s.rest) 0 0 = .ok measured) :
    lookAhead font framebuffer returnX s = .ok (measuredState font framebuffer returnX s measured) := by
  obtain ⟨index, hindex, hoffset⟩ := nextOffset_eq hshort
  unfold lookAhead
  rw [if_neg (not_not.mpr h), hindex, ok_bind]
  dsimp only
  rw [hoffset, Int.toNat_natCast, take_wordOf, hmeasure, ok_bind]
  cases measured with
  | wide advanceChar => rfl
  | length pixels =>
    unfold measuredState
    dsimp only
    split_ifs
    · rfl
    · rfl

section Measure
variable {word : List UInt16} {advanceChar length : ℕ}

theorem measureLoop_cons :
    measureLoop font framebuffer (c :: word) advanceChar length = (do
      match ← font.findGlyph c.toUInt32 with
      | none => measureLoop font framebuffer word (advanceChar + 1) length
      | some glyph =>
        if uint32 (length + glyph.xAdvance.toInt) > framebuffer.width then
          return .wide advanceChar
        else
          measureLoop font framebuffer word (advanceChar + 1)
            (uint32 (length + glyph.xAdvance.toInt))) := rfl

theorem measureLoop_none (hne : font.chars ≠ []) (h : font.found c.toUInt32 = none) :
    measureLoop font framebuffer (c :: word) advanceChar length =
      measureLoop font framebuffer word (advanceChar + 1) length := by
  rw [measureLoop_cons, findGlyph_found hne, h, ok_bind]

theorem measureLoop_wide (hne : font.chars ≠ []) {glyph : BMFontChar}
    (h : font.found c.toUInt32 = some glyph)
    (hwide : uint32 (length + glyph.xAdvance.toInt) > framebuffer.width) :
    measureLoop font framebuffer (c :: word) advanceChar length = .ok (.wide advanceChar) := by
  rw [measureLoop_cons, findGlyph_found hne, h, ok_bind]
  exact if_pos hwide

theorem measureLoop_fits (hne : font.chars ≠ []) {glyph : BMFontChar}
    (h : font.found c.toUInt32 = some glyph)
    (hfits : uint32 (length + glyph.xAdvance.toInt) ≤ framebuffer.width) :
    measureLoop font framebuffer (c :: word) advanceChar length =
      measureLoop font framebuffer word (advanceChar + 1)
        (uint32 (length + glyph.xAdvance.toInt)) := by
  rw [measureLoop_cons, findGlyph_found hne, h, ok_bind]
  exact if_neg (not_lt.mpr hfits)

/-- The loop ends, and a character that does not fit is one of the word. -/
theorem exists_measureLoop (hne : font.chars ≠ []) (word : List UInt16) (advanceChar length : ℕ) :
    ∃ measured, measureLoop font framebuffer word advanceChar length = .ok measured ∧
      ∀ j, measured = .wide j → advanceChar ≤ j ∧ j < advanceChar + word.length := by
  induction word generalizing advanceChar length with
  | nil => exact ⟨_, rfl, fun j hj => nomatch hj⟩
  | cons c word ih =>
    rw [List.length_cons]
    cases hfound : font.found c.toUInt32 with
    | none =>
      obtain ⟨measured, hmeasured, hwide⟩ := ih (advanceChar + 1) length
      refine ⟨measured, by rw [measureLoop_none hne hfound, hmeasured], fun j hj => ?_⟩
      have hbetween := hwide j hj
      omega
    | some glyph =>
      by_cases hfits : uint32 (length + glyph.xAdvance.toInt) ≤ framebuffer.width
      · obtain ⟨measured, hmeasured, hwide⟩ :=
          ih (advanceChar + 1) (uint32 (length + glyph.xAdvance.toInt))
        refine ⟨measured, by rw [measureLoop_fits hne hfound hfits, hmeasured], fun j hj => ?_⟩
        have hbetween := hwide j hj
        omega
      · refine ⟨_, measureLoop_wide hne hfound (not_le.mp hfits), fun j hj => ?_⟩
        cases hj
        omega

end Measure

theorem glyphFor_eq (hne : font.chars ≠ []) : glyphFor font c = .ok (font.drawnGlyph c) := by
  unfold glyphFor BMFont.drawnGlyph
  rw [findGlyph_found hne, ok_bind]
  cases font.found c.toUInt32 with
  | none =>
    rw [Option.none_or]
    exact findGlyph_found hne _
  | some glyph => rfl

theorem Follows.looked (h : Follows m s) (hm : m ≠ .fresh) : Looked m s := by
  cases m with
  | fresh => exact absurd rfl hm
  | word => exact ⟨h.1, h.2.imp_right fun hb => ⟨by omega, hb.2⟩⟩
  | carried => exact h
  | line => exact h
  | newline => exact h

/-- A break is counted down in a word only. -/
theorem Follows.eq_word (h : Follows m s) (hbreak : s.breakAfterChar = 1) : m = .word := by
  cases m with
  | word => rfl
  | fresh => exact absurd (hbreak.symm.trans h.2) (by decide)
  | carried => exact absurd (hbreak.symm.trans h.2) (by decide)
  | line => exact absurd (hbreak.symm.trans h.2) (by decide)
  | newline => exact absurd h id

theorem drawChar_broken (h : s.breakAfterChar = 1) :
    drawChar font returnX s c rest = .ok (.next (broken font returnX s)) := by
  unfold drawChar
  rw [if_pos ⟨by omega, by rw [h]; decide⟩]
  rfl

/-- The counters are in the range of an int, and zero where no word is. -/
theorem Looked.counters (h : Looked m s) (hrest : s.rest = c :: rest)
    (hshort : (wordOf s.rest).length < 2 ^ 31) :
    (-1 ≤ s.breakAfterChar ∧ s.breakAfterChar < 2 ^ 31) ∧
      (0 ≤ s.nextOffset ∧ s.nextOffset < 2 ^ 31) ∧
      (IsWhitespace c → s.breakAfterChar = -1 ∧ s.nextOffset = 0) := by
  cases m with
  | fresh => exact absurd h id
  | word =>
    obtain ⟨hoffset, hbreak⟩ := h
    refine ⟨by omega, by omega, fun hc => ?_⟩
    rw [hrest, wordOf_cons_whitespace hc, List.length_nil] at hoffset hbreak
    exact ⟨by omega, hoffset⟩
  | carried => exact ⟨by rw [h.2]; omega, by rw [h.1]; omega, fun _ => ⟨h.2, h.1⟩⟩
  | line => exact ⟨by rw [h.2]; omega, by rw [h.1]; omega, fun _ => ⟨h.2, h.1⟩⟩
  | newline => exact absurd h id

/-- The counters of a character that is not broken before. -/
theorem Looked.drawChar (h : Looked m s) (hrest : s.rest = c :: rest)
    (hshort : (wordOf s.rest).length < 2 ^ 31) (hbreak : s.breakAfterChar ≠ 1) :
    ¬ (s.breakAfterChar ≠ -1 ∧ int32 (s.breakAfterChar - 1) = 0) ∧
      (if s.breakAfterChar ≠ -1 then int32 (s.breakAfterChar - 1) else s.breakAfterChar) =
        (if 0 < s.breakAfterChar then s.breakAfterChar - 1 else -1) ∧
      (if s.nextOffset ≠ -1 then int32 (s.nextOffset - 1) else s.nextOffset) =
        s.nextOffset - 1 := by
  obtain ⟨hbounds, hoffset, -⟩ := h.counters hrest hshort
  rw [int32_of_between (by omega) (by omega), int32_of_between (by omega) (by omega)]
  refine ⟨by omega, ?_, if_pos (by omega)⟩
  split_ifs <;> omega

theorem drawChar_lineFeed (h : Looked m s) (hrest : s.rest = lineFeed :: rest)
    (hshort : (wordOf s.rest).length < 2 ^ 31) :
    Fonts.drawChar font returnX s lineFeed rest = .ok (.next (lineEnded font returnX s rest)) := by
  have hbreak := ((h.counters hrest hshort).2.2 (by decide)).1
  obtain ⟨hnot, -⟩ := h.drawChar hrest hshort (by omega)
  unfold Fonts.drawChar
  rw [if_neg hnot, if_pos rfl]
  rfl

theorem drawChar_drawn (hne : font.chars ≠ []) (h : Looked m s) (hrest : s.rest = c :: rest)
    (hshort : (wordOf s.rest).length < 2 ^ 31) (hbreak : s.breakAfterChar ≠ 1)
    (hc : c ≠ lineFeed) {glyph : BMFontChar} (hglyph : font.drawnGlyph c = some glyph) :
    Fonts.drawChar font returnX s c rest = .ok (.next (drawnAt s glyph rest)) := by
  obtain ⟨hnot, hbreakAfter, hoffset⟩ := h.drawChar hrest hshort hbreak
  unfold Fonts.drawChar
  rw [if_neg hnot, if_neg hc, glyphFor_eq hne, hglyph, ok_bind]
  simp only [hbreakAfter, hoffset]
  rfl

theorem drawChar_done (hne : font.chars ≠ []) (h : Looked m s) (hrest : s.rest = c :: rest)
    (hshort : (wordOf s.rest).length < 2 ^ 31) (hbreak : s.breakAfterChar ≠ 1)
    (hc : c ≠ lineFeed) (hglyph : font.drawnGlyph c = none) :
    ∃ s', Fonts.drawChar font returnX s c rest = .ok (.done s') := by
  obtain ⟨hnot, -⟩ := h.drawChar hrest hshort hbreak
  unfold Fonts.drawChar
  rw [if_neg hnot, if_neg hc, glyphFor_eq hne, hglyph, ok_bind]
  exact ⟨_, rfl⟩

/-- The counters behind a character that is drawn. -/
theorem follows_drawnAt (h : Looked m s) (hrest : s.rest = c :: rest)
    (hbreak : s.breakAfterChar ≠ 1) (hreturn : c ≠ carriageReturn) (hfeed : c ≠ lineFeed)
    (glyph : BMFontChar) : Follows (m.after c) (drawnAt s glyph rest) := by
  cases m with
  | fresh => exact absurd h id
  | word =>
    obtain ⟨hoffset, hbreakAfter⟩ := h
    by_cases hc : IsWhitespace c
    · have hafter : Mode.word.after c = .fresh := by simp [Mode.after, hfeed, hreturn, hc]
      rw [hrest, wordOf_cons_whitespace hc] at hoffset hbreakAfter
      rw [hafter]
      simp only [List.length_nil] at hoffset hbreakAfter
      refine ⟨?_, if_neg (by omega)⟩
      simp only [drawnAt, hoffset]
      rfl
    · have hafter : Mode.word.after c = .word := by simp [Mode.after, hfeed, hreturn, hc]
      rw [hrest, wordOf_cons hc, List.length_cons] at hoffset hbreakAfter
      rw [hafter]
      refine ⟨?_, ?_⟩
      · simp only [drawnAt]
        omega
      · simp only [drawnAt]
        split_ifs <;> omega
  | carried =>
    have hafter : Mode.carried.after c = .fresh := by simp [Mode.after, hfeed, hreturn]
    rw [hafter]
    refine ⟨?_, if_neg (by rw [h.2]; decide)⟩
    simp only [drawnAt, h.1]
    rfl
  | line =>
    have hafter : Mode.line.after c = .fresh := by simp [Mode.after, hfeed, hreturn]
    rw [hafter]
    refine ⟨?_, if_neg (by rw [h.2]; decide)⟩
    simp only [drawnAt, h.1]
    rfl
  | newline => exact absurd h id

/-- The counters behind '\n'. -/
theorem follows_lineEnded (h : Looked m s) (hrest : s.rest = lineFeed :: rest)
    (hshort : (wordOf s.rest).length < 2 ^ 31) :
    Follows .line (lineEnded font returnX s rest) :=
  ⟨((h.counters hrest hshort).2.2 (by decide)).2, rfl⟩

/-- The counters behind '\r'. -/
theorem follows_carriageReturn (h : Follows m s) (hrest : s.rest = carriageReturn :: rest) :
    Follows (m.after carriageReturn) { s with rest := rest, position := s.position + 1 } := by
  cases m with
  | fresh => exact h
  | word =>
    obtain ⟨hoffset, hbreak⟩ := h
    rw [hrest, wordOf_cons_whitespace (by decide), List.length_nil] at hoffset hbreak
    exact ⟨hoffset, by simp only; omega⟩
  | carried => exact h
  | line => exact h
  | newline => exact absurd h id

theorem turn_of_lookAhead (hc : c ≠ carriageReturn) {s' : RenderState}
    (h : lookAhead font framebuffer returnX s = .ok (s', false)) :
    turn font framebuffer returnX s c rest = drawChar font returnX s' c rest := by
  rw [turn_eq hc, h, ok_bind]
  exact if_neg Bool.false_ne_true

theorem turn_wrapped (hc : c ≠ carriageReturn) {s' : RenderState}
    (h : lookAhead font framebuffer returnX s = .ok (s', true)) :
    turn font framebuffer returnX s c rest = .ok (.next s') := by
  rw [turn_eq hc, h, ok_bind]
  exact if_pos rfl

theorem renderLoop_cons (h : s.rest = c :: rest) (fuel : ℕ) :
    renderLoop font framebuffer returnX (fuel + 1) s = (do
      match ← turn font framebuffer returnX s c rest with
      | .next s => renderLoop font framebuffer returnX fuel s
      | .done s => return s) := by
  obtain ⟨rest', position, startX, startY, nextOffset, breakAfterChar, drawn⟩ := s
  obtain rfl : rest' = c :: rest := h
  rfl

end Turns

end Enkel.Fonts
