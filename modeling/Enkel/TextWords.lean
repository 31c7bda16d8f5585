import Enkel.TextModes

/-!
Whole words of BMFont_Render: which glyphs are drawn for a word, and what the loop does with a
word that it draws from one end to the other. A word that has been measured is drawn where it
fits; one that is too wide for the screen is broken, and starts again at the left.
-/
namespace Enkel.Fonts

open Outcome Framebuffer

/-- The columns that a glyph takes; none if there is none. -/
def advanceOf : Option BMFontChar → ℤ
  | some glyph => glyph.xAdvance.toInt
  | none => 0

/-- The advance of what is drawn for a character. -/
def BMFont.drawnAdvance (font : BMFont) (c : UInt16) : ℤ := advanceOf (font.drawnGlyph c)

/-- The total rendered advance. -/
def BMFont.totalAdvance (font : BMFont) (word : List UInt16) : ℤ :=
  (word.map font.drawnAdvance).sum

/-- The glyphs of a word, one behind the other. -/
def rowOf (font : BMFont) : (position : ℕ) → (x y : ℤ) → (word : List UInt16) → List Drawn
  | _, _, _, [] => []
  | position, x, y, c :: word =>
    (font.drawnGlyph c).toList.map (⟨position, ·, x, y⟩) ++
      rowOf font (position + 1) (x + font.drawnAdvance c) y word

/-- Every advance is positive, and there is a glyph for what the font does not have. -/
structure Complete (font : BMFont) : Prop where
  positive : ∀ char ∈ font.chars, 0 < char.xAdvance.toInt
  replacement : font.found 0xFFFD ≠ none

section Rows
variable {font : BMFont} {c : UInt16} {word : List UInt16} {position : ℕ} {x y : ℤ} {d : Drawn}

theorem Complete.ne_nil (h : Complete font) : font.chars ≠ [] := fun hempty =>
  h.replacement (found_eq_none hempty _)

theorem Complete.found_pos (h : Complete font) {id : UInt32} {glyph : BMFontChar}
    (hfound : font.found id = some glyph) :
    0 < glyph.xAdvance.toInt ∧ glyph.xAdvance.toInt < 2 ^ 15 :=
  ⟨h.positive glyph (mem_of_found h.ne_nil hfound), glyph.xAdvance.toInt_lt⟩

theorem Complete.exists_drawnGlyph (h : Complete font) (c : UInt16) :
    ∃ glyph id, font.drawnGlyph c = some glyph ∧ font.found id = some glyph := by
  obtain ⟨replacement, hreplacement⟩ := Option.ne_none_iff_exists'.mp h.replacement
  unfold BMFont.drawnGlyph
  cases hfound : font.found c.toUInt32 with
  | none =>
    rw [Option.none_or]
    exact ⟨replacement, _, hreplacement, hreplacement⟩
  | some glyph =>
    rw [Option.some_or]
    exact ⟨glyph, _, rfl, hfound⟩

theorem Complete.drawnGlyph (h : Complete font) (c : UInt16) :
    ∃ glyph, font.drawnGlyph c = some glyph ∧ font.drawnAdvance c = glyph.xAdvance.toInt ∧
      0 < glyph.xAdvance.toInt ∧ glyph.xAdvance.toInt < 2 ^ 15 := by
  obtain ⟨glyph, id, hglyph, hfound⟩ := h.exists_drawnGlyph c
  exact ⟨glyph, hglyph, congrArg advanceOf hglyph, h.found_pos hfound⟩

theorem totalAdvance_nil : font.totalAdvance [] = 0 := rfl

theorem totalAdvance_cons :
    font.totalAdvance (c :: word) = font.drawnAdvance c + font.totalAdvance word :=
  List.sum_cons

theorem Complete.drawnAdvance_pos (h : Complete font) (c : UInt16) :
    0 < font.drawnAdvance c ∧ font.drawnAdvance c < 2 ^ 15 := by
  obtain ⟨glyph, -, hadvance, hbounds⟩ := h.drawnGlyph c
  rwa [hadvance]

theorem Complete.totalAdvance_nonneg (h : Complete font) (word : List UInt16) :
    0 ≤ font.totalAdvance word := by
  induction word with
  | nil => exact le_rfl
  | cons c word ih =>
    have hpos := (h.drawnAdvance_pos c).1
    rw [totalAdvance_cons]
    omega

theorem rowOf_cons {glyph : BMFontChar} (hglyph : font.drawnGlyph c = some glyph) :
    rowOf font position x y (c :: word) =
      ⟨position, glyph, x, y⟩ :: rowOf font (position + 1) (x + glyph.xAdvance.toInt) y word := by
  have hadvance : font.drawnAdvance c = glyph.xAdvance.toInt := congrArg advanceOf hglyph
  rw [rowOf, hglyph, hadvance]
  rfl

theorem Complete.rowOf_positions (h : Complete font) (word : List UInt16) (position : ℕ)
    (x y : ℤ) :
    (rowOf font position x y word).map Drawn.position = List.range' position word.length ∧
      (rowOf font position x y word).map (fun d => some d.glyph) = word.map font.drawnGlyph := by
  induction word generalizing position x with
  | nil => exact ⟨rfl, rfl⟩
  | cons c word ih =>
    obtain ⟨glyph, hglyph, -⟩ := h.drawnGlyph c
    obtain ⟨hpositions, hglyphs⟩ := ih (position + 1) (x + glyph.xAdvance.toInt)
    rw [rowOf_cons hglyph, List.map_cons, List.map_cons, hpositions, hglyphs, List.length_cons, List.map_cons,
      hglyph]
    exact ⟨List.range'_succ.symm, rfl⟩

/-- Where the glyphs of a row are. -/
theorem Complete.mem_rowOf (h : Complete font) (hd : d ∈ rowOf font position x y word) :
    (position ≤ d.position ∧ d.position < position + word.length) ∧ d.y = y ∧ x ≤ d.x ∧
      d.x + d.glyph.xAdvance.toInt ≤ x + font.totalAdvance word := by
  induction word generalizing position x with
  | nil => cases hd
  | cons c word ih =>
    obtain ⟨glyph, hglyph, hadvance, hpos, -⟩ := h.drawnGlyph c
    have hrest := h.totalAdvance_nonneg word
    rw [rowOf_cons hglyph] at hd
    rw [List.length_cons, totalAdvance_cons, hadvance]
    rcases List.mem_cons.mp hd with rfl | hd
    · exact ⟨⟨le_rfl, by simp only; omega⟩, rfl, le_rfl, by simp only; omega⟩
    · obtain ⟨hposition, hy, hx, hle⟩ := ih hd
      exact ⟨⟨by omega, by omega⟩, hy, by omega, by omega⟩

end Rows

/-- BMFont_Render ends from a state with these variables. -/
def Leads (font : BMFont) (framebuffer : FramebufferLayout) (returnX : ℤ) (s last : RenderState) :
    Prop :=
  ∃ fuel, renderLoop font framebuffer returnX fuel s = .ok last

/-- The variables behind a word that is drawn without a break. -/
def behind (font : BMFont) (s : RenderState) (word after : List UInt16) : RenderState where
  rest := after
  position := s.position + word.length
  startX := s.startX + font.totalAdvance word
  startY := s.startY
  nextOffset := 0
  breakAfterChar := -1
  drawn := s.drawn ++ rowOf font s.position s.startX s.startY word

section Drawing
variable {font : BMFont} {framebuffer : FramebufferLayout} {returnX : ℤ} {s last : RenderState}
  {c : UInt16} {word after rest : List UInt16} {m : Mode}

/-- At the end of the string the loop ends. -/
theorem renderLoop_nil (hrest : s.rest = []) {fuel : ℕ}
    (h : renderLoop font framebuffer returnX fuel s = .ok last) : last = s := by
  obtain ⟨rest, position, startX, startY, nextOffset, breakAfterChar, drawn⟩ := s
  obtain rfl : rest = [] := hrest
  cases fuel with
  | zero => cases h
  | succ fuel => exact (Except.ok.inj h).symm

theorem leads_of_turn (hrest : s.rest = c :: rest) {s' : RenderState}
    (hturn : turn font framebuffer returnX s c rest = .ok (.next s'))
    (h : Leads font framebuffer returnX s last) : Leads font framebuffer returnX s' last := by
  obtain ⟨fuel, hlast⟩ := h
  cases fuel with
  | zero => cases hlast
  | succ fuel =>
    rw [renderLoop_cons hrest, hturn] at hlast
    exact ⟨fuel, hlast⟩

/-- A glyph that is drawn goes on to the right. -/
theorem drawnAt_startX (hx : 0 ≤ s.startX) {glyph : BMFontChar} (hpos : 0 < glyph.xAdvance.toInt)
    (hlt : s.startX + glyph.xAdvance.toInt < 2 ^ 31) :
    (drawnAt s glyph rest).startX = s.startX + glyph.xAdvance.toInt :=
  int32_of_between (by omega) (by omega)

/-- A word is drawn to its end when no break is set. -/
theorem leads_word (hcomplete : Complete font) (hrest : s.rest = word ++ after)
    (hword : ∀ c ∈ word, ¬ IsWhitespace c) (hafter : wordOf after = [])
    (hoffset : s.nextOffset = word.length) (hbreak : s.breakAfterChar = -1) (hx : 0 ≤ s.startX)
    (hlt : s.startX + font.totalAdvance word < 2 ^ 31) (hshort : word.length < 2 ^ 31)
    (h : Leads font framebuffer returnX s last) :
    Leads font framebuffer returnX (behind font s word after) last := by
  induction word generalizing s with
  | nil =>
    have hsame : behind font s [] after = s := by
      obtain ⟨rest, position, startX, startY, nextOffset, breakAfterChar, drawn⟩ := s
      obtain rfl : rest = after := hrest
      obtain rfl : nextOffset = 0 := hoffset
      obtain rfl : breakAfterChar = -1 := hbreak
      simp [behind, rowOf, totalAdvance_nil]
    rwa [hsame]
  | cons c word ih =>
    obtain ⟨hc, hword'⟩ := List.forall_mem_cons.mp hword
    obtain ⟨glyph, hglyph, hadvance, hpos, -⟩ := hcomplete.drawnGlyph c
    have hnonneg := hcomplete.totalAdvance_nonneg word
    rw [List.length_cons] at hoffset hshort
    rw [totalAdvance_cons, hadvance] at hlt
    have hrest' : s.rest = c :: (word ++ after) := hrest
    have hwordOf : wordOf s.rest = c :: word := by
      rw [hrest, wordOf_append hword, hafter, List.append_nil]
    have hlooked : Looked .word s := by
      refine ⟨?_, Or.inl hbreak⟩
      rw [hwordOf, List.length_cons]
      exact hoffset
    have hdraw : drawChar font returnX s c (word ++ after) = .ok (.next (drawnAt s glyph (word ++ after))) :=
      drawChar_drawn hcomplete.ne_nil hlooked hrest' (by rw [hwordOf, List.length_cons]; exact hshort)
        (by omega) (ne_lineFeed hc) hglyph
    have hnext := leads_of_turn hrest' ((turn_of_lookAhead (ne_carriageReturn hc)
      (lookAhead_of_offset (by omega))).trans hdraw) h
    have hstart := @drawnAt_startX s (word ++ after) hx glyph hpos (by omega)
    have hbehind : behind font (drawnAt s glyph (word ++ after)) word after =
        behind font s (c :: word) after := by
      unfold behind
      rw [rowOf_cons hglyph, totalAdvance_cons, hadvance, hstart, ← add_assoc, List.length_cons]
      simp [drawnAt, add_assoc, add_comm 1]
    rw [← hbehind]
    refine ih rfl hword' ?_ ?_ (by omega) (by omega) (by omega) hnext
    · simp only [drawnAt]
      omega
    · simp only [drawnAt]
      rw [hbreak]
      rfl

theorem leads_of_same (hrest : s.rest = c :: rest) {s' : RenderState} (hsame : s'.rest = s.rest)
    (hturn : turn font framebuffer returnX s c rest = turn font framebuffer returnX s' c rest)
    (h : Leads font framebuffer returnX s last) : Leads font framebuffer returnX s' last := by
  obtain ⟨fuel, hlast⟩ := h
  cases fuel with
  | zero => cases hlast
  | succ fuel =>
    rw [renderLoop_cons hrest, hturn] at hlast
    exact ⟨fuel + 1, by rw [renderLoop_cons (hsame.trans hrest), hlast]⟩

/-- What is measured of a word that fits on the screen: no more than what is drawn of it, and
all of it when the font has its characters. -/
theorem measureLoop_length (hcomplete : Complete font) {advanceChar length : ℕ}
    (hfits : length + font.totalAdvance word ≤ framebuffer.width) :
    ∃ pixels : ℕ, measureLoop font framebuffer word advanceChar length = .ok (.length pixels) ∧
      (pixels : ℤ) ≤ length + font.totalAdvance word ∧
      ((∀ c ∈ word, font.found c.toUInt32 ≠ none) →
        (pixels : ℤ) = length + font.totalAdvance word) := by
  have hwidth := framebuffer.width_lt
  induction word generalizing advanceChar length with
  | nil =>
    rw [totalAdvance_nil]
    exact ⟨length, rfl, by omega, fun _ => by omega⟩
  | cons c word ih =>
    have hnonneg := hcomplete.totalAdvance_nonneg word
    have hpos := (hcomplete.drawnAdvance_pos c).1
    rw [totalAdvance_cons] at hfits ⊢
    cases hfound : font.found c.toUInt32 with
    | none =>
      obtain ⟨pixels, hpixels, hle, -⟩ := @ih (advanceChar + 1) length (by omega)
      rw [measureLoop_none hcomplete.ne_nil hfound]
      exact ⟨pixels, hpixels, by omega, fun hall =>
        absurd hfound (hall c List.mem_cons_self)⟩
    | some glyph =>
      have hdrawn : font.drawnGlyph c = some glyph := by
        unfold BMFont.drawnGlyph
        rw [hfound, Option.some_or]
      have hadvance : font.drawnAdvance c = glyph.xAdvance.toInt := congrArg advanceOf hdrawn
      rw [hadvance] at hfits hpos ⊢
      have hsum : (uint32 (length + glyph.xAdvance.toInt) : ℤ) = length + glyph.xAdvance.toInt := by
        unfold uint32
        omega
      obtain ⟨pixels, hpixels, hle, heq⟩ :=
        @ih (advanceChar + 1) (uint32 (length + glyph.xAdvance.toInt)) (by omega)
      rw [measureLoop_fits hcomplete.ne_nil hfound (by omega)]
      refine ⟨pixels, hpixels, by omega, fun hall => ?_⟩
      rw [heq (List.forall_mem_cons.mp hall).2, hsum]
      omega

/-- The loop has come to the end of a word, with what is drawn of it and a column up to a
bound. -/
structure Passes (font : BMFont) (framebuffer : FramebufferLayout) (bound : ℤ) (m : Mode)
    (s last : RenderState) (word after : List UInt16) (row : List Drawn) (s' : RenderState) :
    Prop where
  leads : Leads font framebuffer 0 s' last
  rest : s'.rest = after
  position : s'.position = s.position + word.length
  follows : Follows (m.afterAll word) s'
  drawn : s'.drawn = s.drawn ++ row
  positions : ∀ d ∈ row, s.position ≤ d.position ∧ d.position < s.position + word.length
  columns : 0 ≤ s'.startX ∧ s'.startX ≤ bound

/-- A word is what comes next, up to its end. -/
structure AtWord (s : RenderState) (word after : List UInt16) : Prop where
  rest : s.rest = word ++ after
  not_whitespace : ∀ c ∈ word, ¬ IsWhitespace c
  wordOf_after : wordOf after = []
  length_lt : word.length < 2 ^ 31

theorem AtWord.wordOf_rest (h : AtWord s word after) : wordOf s.rest = word := by
  rw [h.rest, wordOf_append h.not_whitespace, h.wordOf_after, List.append_nil]

theorem AtWord.length (h : AtWord s word after) : (wordOf s.rest).length < 2 ^ 31 := by
  rw [h.wordOf_rest]
  exact h.length_lt

theorem AtWord.tail (h : AtWord s (c :: word) after) (glyph : BMFontChar) :
    AtWord (drawnAt s glyph (word ++ after)) word after := by
  have hlength := h.length_lt
  rw [List.length_cons] at hlength
  exact ⟨rfl, (List.forall_mem_cons.mp h.not_whitespace).2, h.wordOf_after, by omega⟩

theorem AtWord.of_rest (h : AtWord s word after) {s' : RenderState} (hrest : s'.rest = s.rest) :
    AtWord s' word after :=
  ⟨hrest.trans h.rest, h.not_whitespace, h.wordOf_after, h.length_lt⟩

theorem Mode.after_of_word (hc : ¬ IsWhitespace c) :
    m.after c = if m.Measures then .word else .fresh := by
  cases m <;>
    simp [Mode.after, Mode.Measures, ne_lineFeed hc, ne_carriageReturn hc, ne_space hc, hc]

theorem Mode.afterAll_word (hword : ∀ c ∈ word, ¬ IsWhitespace c) :
    Mode.word.afterAll word = .word := by
  induction word with
  | nil => rfl
  | cons c word ih =>
    obtain ⟨hc, hword⟩ := List.forall_mem_cons.mp hword
    have hafter : Mode.word.after c = .word := by
      rw [Mode.after_of_word hc]
      rfl
    have hcons : Mode.word.afterAll (c :: word) = (Mode.word.after c).afterAll word := rfl
    rw [hcons, hafter, ih hword]

theorem Mode.afterAll_measures (hne : word ≠ []) (hword : ∀ c ∈ word, ¬ IsWhitespace c)
    (hm : m.Measures) : m.afterAll word = .word := by
  cases word with
  | nil => exact absurd rfl hne
  | cons c word =>
    obtain ⟨hc, hword⟩ := List.forall_mem_cons.mp hword
    have hcons : m.afterAll (c :: word) = (m.after c).afterAll word := rfl
    rw [hcons, Mode.after_of_word hc, if_pos hm, Mode.afterAll_word hword]

/-- What is behind a word is what is behind the rest of it. -/
theorem Passes.of_same {bound : ℤ} {row : List Drawn} {s₁ s' : RenderState}
    (h : Passes font framebuffer bound m s₁ last word after row s')
    (hposition : s₁.position = s.position) (hdrawn : s₁.drawn = s.drawn) {m' : Mode}
    (hm : m.afterAll word = m'.afterAll word) :
    Passes font framebuffer bound m' s last word after row s' := by
  refine ⟨h.leads, h.rest, ?_, hm ▸ h.follows, ?_, ?_, h.columns⟩
  · rw [h.position, hposition]
  · rw [h.drawn, hdrawn]
  · exact hposition ▸ h.positions

/-- A character of a word is drawn, and then the rest of it. -/
theorem Passes.of_tail {bound : ℤ} {row : List Drawn} {s₁ s' : RenderState} {glyph : BMFontChar}
    (h : Passes font framebuffer bound m (drawnAt s₁ glyph rest) last word after row s')
    (hposition : s₁.position = s.position) (hdrawn : s₁.drawn = s.drawn) {m' : Mode}
    (hm : m = m'.after c) :
    Passes font framebuffer bound m' s last (c :: word) after
      (⟨s₁.position, glyph, s₁.startX, s₁.startY⟩ :: row) s' := by
  refine ⟨h.leads, h.rest, ?_, ?_, ?_, fun d hd => ?_, h.columns⟩
  · rw [h.position, List.length_cons]
    simp only [drawnAt]
    omega
  · have hfollows := h.follows
    rw [hm] at hfollows
    exact hfollows
  · rw [h.drawn]
    simp only [drawnAt, hdrawn, List.append_assoc, List.cons_append, List.nil_append]
  · rw [List.length_cons]
    rcases List.mem_cons.mp hd with rfl | hd
    · exact ⟨hposition.ge, by simp only; omega⟩
    · have hbetween := h.positions d hd
      simp only [drawnAt] at hbetween
      omega

theorem passes_unbroken (hcomplete : Complete font) (hat : AtWord s word after)
    (hoffset : s.nextOffset = word.length) (hbreak : s.breakAfterChar = -1) (hx : 0 ≤ s.startX)
    {bound : ℤ} (hle : s.startX + font.totalAdvance word ≤ bound) (hbound : bound < 2 ^ 31)
    (h : Leads font framebuffer 0 s last) :
    Passes font framebuffer bound .word s last word after
      (rowOf font s.position s.startX s.startY word) (behind font s word after) where
  leads := leads_word hcomplete hat.rest hat.not_whitespace hat.wordOf_after hoffset hbreak hx
    (by omega) hat.length_lt h
  rest := rfl
  position := rfl
  follows := by
    rw [Mode.afterAll_word hat.not_whitespace]
    refine ⟨?_, Or.inl rfl⟩
    have hrest : (behind font s word after).rest = after := rfl
    rw [hrest, hat.wordOf_after]
    rfl
  drawn := rfl
  positions := fun _ hd => (hcomplete.mem_rowOf hd).1
  columns := ⟨add_nonneg hx (hcomplete.totalAdvance_nonneg word), hle⟩

theorem passes_of_same (hcomplete : Complete font) (hat : AtWord s word after)
    (hwidth : framebuffer.width < 2 ^ 31) {s₁ : RenderState} (hrest : s₁.rest = s.rest)
    (hposition : s₁.position = s.position) (hdrawn : s₁.drawn = s.drawn)
    (hoffset : s₁.nextOffset = word.length) (hbreak : s₁.breakAfterChar = -1)
    (hx : 0 ≤ s₁.startX) (hfits : s₁.startX + font.totalAdvance word ≤ framebuffer.width)
    (hm : Mode.word.afterAll word = m.afterAll word)
    (h : Leads font framebuffer 0 s₁ last) :
    Passes font framebuffer framebuffer.width m s last word after
      (rowOf font s.position s₁.startX s₁.startY word) (behind font s₁ word after) := by
  have hpasses := passes_unbroken hcomplete (hat.of_rest hrest) hoffset hbreak hx hfits
    (by omega) h
  rw [hposition] at hpasses
  exact hpasses.of_same hposition hdrawn hm

theorem AtWord.ne_carriageReturn (h : AtWord s (c :: word) after) : c ≠ carriageReturn :=
  Fonts.ne_carriageReturn (h.not_whitespace c List.mem_cons_self)

theorem AtWord.ne_lineFeed (h : AtWord s (c :: word) after) : c ≠ lineFeed :=
  Fonts.ne_lineFeed (h.not_whitespace c List.mem_cons_self)

theorem AtWord.afterAll (h : AtWord s (c :: word) after) :
    Mode.word.afterAll (c :: word) = Mode.fresh.afterAll (c :: word) := by
  rw [Mode.afterAll_word h.not_whitespace,
    Mode.afterAll_measures (List.cons_ne_nil _ _) h.not_whitespace (Or.inl rfl)]

theorem uint32_add {x : ℤ} {pixels : ℕ} (hx : 0 ≤ x) (hlt : x < 2 ^ 31) (hpixels : pixels < 2 ^ 31) :
    (uint32 (x + pixels) : ℤ) = x + pixels := by
  unfold uint32
  omega

/-- A word that is measured to fit behind what is there is drawn there. -/
theorem exists_passes_here (hcomplete : Complete font) (hat : AtWord s (c :: word) after)
    (hfollows : Follows .fresh s) (hx : 0 ≤ s.startX) (hwidth : framebuffer.width < 2 ^ 31)
    {pixels : ℕ} (hmeasure : measureLoop font framebuffer (c :: word) 0 0 = .ok (.length pixels))
    (hhere : s.startX + pixels ≤ framebuffer.width)
    (hfits : s.startX + font.totalAdvance (c :: word) ≤ framebuffer.width)
    (h : Leads font framebuffer 0 s last) :
    ∃ s', Passes font framebuffer framebuffer.width .fresh s last (c :: word) after
      (rowOf font s.position s.startX s.startY (c :: word)) s' := by
  have hc := hat.ne_carriageReturn
  have hword := hat.wordOf_rest
  have hlook := @lookAhead_eq font framebuffer 0 s hfollows.1 hat.length _ (by rw [hword, hmeasure])
  have hsum := uint32_add hx (by omega) (show pixels < 2 ^ 31 by omega)
  simp only [measuredState] at hlook
  rw [if_neg (by omega)] at hlook
  obtain ⟨s₁, hs₁⟩ : ∃ s₁ : RenderState, s₁ = { s with nextOffset := (wordOf s.rest).length } :=
    ⟨_, rfl⟩
  have hoffset₁ : s₁.nextOffset = (c :: word).length := by rw [hs₁, ← hword]
  have hrest₁ : s₁.rest = s.rest := by rw [hs₁]
  have hx₁ : s₁.startX = s.startX := by rw [hs₁]
  have hy₁ : s₁.startY = s.startY := by rw [hs₁]
  rw [← hs₁] at hlook
  have hagain := @lookAhead_of_offset font framebuffer 0 s₁ (by omega)
  have hturn : turn font framebuffer 0 s c (word ++ after) =
      turn font framebuffer 0 s₁ c (word ++ after) :=
    (turn_of_lookAhead hc hlook).trans (turn_of_lookAhead hc hagain).symm
  have hleads := leads_of_same hat.rest hrest₁ hturn h
  have hpasses := passes_of_same hcomplete hat hwidth hrest₁ (by rw [hs₁]) (by rw [hs₁]) hoffset₁
    (by rw [hs₁]; exact hfollows.2) (by omega) (by omega) hat.afterAll hleads
  rw [hx₁, hy₁] at hpasses
  exact ⟨_, hpasses⟩

/-- A word is drawn in one row on the screen. -/
def Placed (font : BMFont) (framebuffer : FramebufferLayout) (m : Mode) (s last : RenderState)
    (word after : List UInt16) : Prop :=
  ∃ x y s', 0 ≤ x ∧ x + font.totalAdvance word ≤ framebuffer.width ∧
    Passes font framebuffer framebuffer.width m s last word after
      (rowOf font s.position x y word) s'

/-- A word that has been measured is drawn in one row on the screen when it is not wider than
it has been measured, where the loop is. -/
theorem placed_measured (hcomplete : Complete font) (hat : AtWord s (c :: word) after)
    (hfollows : Follows .fresh s) (hx : 0 ≤ s.startX)
    (hlt : s.startX < 2 ^ 31) (hwidth : framebuffer.width < 2 ^ 31)
    (hfits : font.totalAdvance (c :: word) ≤ framebuffer.width) {pixels : ℕ}
    (hmeasure : measureLoop font framebuffer (c :: word) 0 0 = .ok (.length pixels))
    (hle : (pixels : ℤ) ≤ font.totalAdvance (c :: word))
    (hplace : s.startX + pixels ≤ framebuffer.width →
      s.startX + font.totalAdvance (c :: word) ≤ framebuffer.width)
    (h : Leads font framebuffer 0 s last) :
    Placed font framebuffer .fresh s last (c :: word) after := by
  have hc := hat.ne_carriageReturn
  have hword := hat.wordOf_rest
  by_cases hhere : s.startX + pixels ≤ framebuffer.width
  · obtain ⟨s', hpasses⟩ := exists_passes_here hcomplete hat hfollows hx hwidth hmeasure hhere
      (hplace hhere) h
    exact ⟨_, _, s', hx, hplace hhere, hpasses⟩
  · -- the word starts a line
    have hlook := @lookAhead_eq font framebuffer 0 s hfollows.1 hat.length _
      (by rw [hword, hmeasure])
    have hsum := uint32_add hx hlt (show pixels < 2 ^ 31 by omega)
    simp only [measuredState] at hlook
    rw [if_pos (by omega)] at hlook
    have hleads := leads_of_turn hat.rest (turn_wrapped hc hlook) h
    have hstart : (wrapped font 0 s).startX = 0 := rfl
    have hoffset : ((wordOf s.rest).length : ℤ) = (c :: word).length := by rw [hword]
    have hpasses := passes_of_same hcomplete hat hwidth (by rfl) (by rfl) (by rfl) (by exact hoffset)
      (by exact hfollows.2) (by rw [hstart]) (by rw [hstart]; omega) hat.afterAll hleads
    exact ⟨_, _, _, by rw [hstart], by rw [hstart]; omega, hpasses⟩

/-- A character that is drawn without a look ahead. -/
theorem leads_drawnAt (hcomplete : Complete font) (hlooked : Looked m s)
    (hat : AtWord s (c :: word) after) (hbreak : s.breakAfterChar ≠ 1) :
    ∃ glyph, (font.drawnGlyph c = some glyph ∧ font.drawnAdvance c = glyph.xAdvance.toInt ∧
        0 < glyph.xAdvance.toInt) ∧
      drawChar font 0 s c (word ++ after) = .ok (.next (drawnAt s glyph (word ++ after))) ∧
      Follows (m.after c) (drawnAt s glyph (word ++ after)) := by
  obtain ⟨glyph, hglyph, hadvance, hpos, -⟩ := hcomplete.drawnGlyph c
  exact ⟨glyph, ⟨hglyph, hadvance, hpos⟩,
    drawChar_drawn hcomplete.ne_nil hlooked hat.rest hat.length hbreak hat.ne_lineFeed hglyph,
    follows_drawnAt hlooked hat.rest hbreak hat.ne_carriageReturn hat.ne_lineFeed glyph⟩

/-- A word at the start of a line is drawn there: its first character without a look ahead,
and the rest of it fits behind it. -/
theorem placed_line (hcomplete : Complete font) (hat : AtWord s (c :: word) after)
    (hfollows : Follows .line s) (hx : s.startX = 0) (hwidth : framebuffer.width < 2 ^ 31)
    (hfits : font.totalAdvance (c :: word) ≤ framebuffer.width)
    (h : Leads font framebuffer 0 s last) :
    Placed font framebuffer .line s last (c :: word) after := by
  have hlooked : Looked .line s := hfollows
  obtain ⟨glyph, ⟨hglyph, hadvance, hpos⟩, hdraw, hnext⟩ :=
    leads_drawnAt hcomplete hlooked hat (by rw [hfollows.2]; decide)
  have hnonneg := hcomplete.totalAdvance_nonneg word
  have hafter : Mode.line.after c = .fresh := Mode.after_of_word (hat.not_whitespace c List.mem_cons_self)
  have hlook := @lookAhead_of_offset font framebuffer 0 s (by rw [hfollows.1]; decide)
  have hleads := leads_of_turn hat.rest ((turn_of_lookAhead hat.ne_carriageReturn hlook).trans hdraw) h
  rw [totalAdvance_cons, hadvance] at hfits
  have hstart := @drawnAt_startX s (word ++ after) hx.ge glyph hpos (by omega)
  rw [hafter] at hnext
  have hpasses : ∃ s', Passes font framebuffer framebuffer.width .fresh
      (drawnAt s glyph (word ++ after)) last word after
      (rowOf font (s.position + 1) (s.startX + glyph.xAdvance.toInt) s.startY word) s' := by
    cases word with
    | nil =>
      refine ⟨_, hleads, rfl, rfl, hnext, by simp [rowOf], by simp [rowOf], ?_⟩
      rw [hstart]
      omega
    | cons d word =>
      obtain ⟨pixels, hmeasure, hle, -⟩ :=
        @measureLoop_length font framebuffer (d :: word) hcomplete 0 0 (by omega)
      have hhere := exists_passes_here hcomplete (hat.tail glyph) hnext (by omega) hwidth hmeasure
        (by omega) (by omega) hleads
      rw [hstart] at hhere
      exact hhere
  obtain ⟨s', hpasses⟩ := hpasses
  refine ⟨s.startX, s.startY, s', hx.ge, ?_, ?_⟩
  · rw [totalAdvance_cons, hadvance]
    omega
  · rw [rowOf_cons hglyph]
    exact hpasses.of_tail rfl rfl hafter.symm

/-- Whatever is measured of a word and wherever it is broken, its glyphs are drawn, and the
column does not go on by more than they take. -/
theorem exists_passes (hcomplete : Complete font) (fuel : ℕ) {bound : ℤ} (hbound : bound < 2 ^ 31)
    (hat : AtWord s word after) (hfollows : Follows m s) (hx : 0 ≤ s.startX)
    (hle : s.startX + font.totalAdvance word ≤ bound)
    (h : renderLoop font framebuffer 0 fuel s = .ok last) :
    ∃ row s', Passes font framebuffer bound m s last word after row s' := by
  induction fuel generalizing s word m with
  | zero => cases h
  | succ fuel ih =>
    cases word with
    | nil =>
      rw [totalAdvance_nil] at hle
      exact ⟨[], s, ⟨fuel + 1, h⟩, hat.rest, rfl, hfollows, (List.append_nil _).symm, by simp,
        hx, by omega⟩
    | cons c word =>
      have hc := hat.ne_carriageReturn
      have hcw := hat.not_whitespace c List.mem_cons_self
      have hnonneg := hcomplete.totalAdvance_nonneg (c :: word)
      have hrest : s.rest = c :: (word ++ after) := hat.rest
      rw [renderLoop_cons hrest] at h
      -- the character is drawn, by variables that have looked ahead
      have hdrawn : ∀ s₁ m₁, Looked m₁ s₁ → s₁.rest = s.rest → s₁.position = s.position →
          s₁.drawn = s.drawn → s₁.startX = s.startX → s₁.breakAfterChar ≠ 1 →
          m₁.after c = m.after c →
          turn font framebuffer 0 s c (word ++ after) = drawChar font 0 s₁ c (word ++ after) →
          ∃ row s', Passes font framebuffer bound m s last (c :: word) after row s' := by
        intro s₁ m₁ hlooked hrest₁ hposition₁ hdrawn₁ hx₁ hbreak hafter hturn
        obtain ⟨glyph, ⟨-, hadvance, hpos⟩, hdraw, hnext⟩ :=
          leads_drawnAt hcomplete hlooked (hat.of_rest hrest₁) hbreak
        have hword := hcomplete.totalAdvance_nonneg word
        rw [totalAdvance_cons, hadvance] at hle
        have hstart := @drawnAt_startX s₁ (word ++ after) (by omega) glyph hpos (by omega)
        rw [hturn, hdraw] at h
        obtain ⟨row, s', hpasses⟩ :=
          ih ((hat.of_rest hrest₁).tail glyph) hnext (by omega) (by omega) h
        exact ⟨_, s', hpasses.of_tail hposition₁ hdrawn₁ hafter⟩
      -- the loop is at the same character again, on the next line
      have hagain : ∀ s₁ m₁, Follows m₁ s₁ → s₁.rest = s.rest → s₁.position = s.position →
          s₁.drawn = s.drawn → s₁.startX = 0 →
          m₁.afterAll (c :: word) = m.afterAll (c :: word) →
          turn font framebuffer 0 s c (word ++ after) = .ok (.next s₁) →
          ∃ row s', Passes font framebuffer bound m s last (c :: word) after row s' := by
        intro s₁ m₁ hfollows₁ hrest₁ hposition₁ hdrawn₁ hx₁ hafter hturn
        rw [hturn] at h
        obtain ⟨row, s', hpasses⟩ := ih (hat.of_rest hrest₁) hfollows₁ hx₁.ge (by omega) h
        exact ⟨row, s', hpasses.of_same hposition₁ hdrawn₁ hafter⟩
      by_cases hm : m = .fresh
      · subst hm
        have hafter : Mode.word.after c = Mode.fresh.after c := by
          rw [Mode.after_of_word hcw, Mode.after_of_word hcw]
          rfl
        obtain ⟨measured, hmeasure, hwide⟩ :=
          @exists_measureLoop font framebuffer hcomplete.ne_nil (wordOf s.rest) 0 0
        have hlook := @lookAhead_eq font framebuffer 0 s hfollows.1 hat.length _ hmeasure
        cases measured with
        | wide j =>
          have hlt := (hwide j rfl).2
          have hturn : turn font framebuffer 0 s c (word ++ after) = _ :=
            turn_of_lookAhead hc hlook
          by_cases hone : j = 1
          · subst hone
            exact hagain (broken font 0 _) .fresh ⟨rfl, rfl⟩ rfl rfl rfl rfl rfl
              (hturn.trans (drawChar_broken rfl))
          · refine hdrawn { s with nextOffset := (wordOf s.rest).length, breakAfterChar := j }
              .word ⟨rfl, Or.inr ⟨?_, ?_⟩⟩ rfl rfl rfl rfl ?_ hafter hturn
            · simp only; omega
            · simp only; omega
            · simp only; omega
        | length pixels =>
          simp only [measuredState] at hlook
          split_ifs at hlook
          · exact hagain (wrapped font 0 s) .word ⟨rfl, Or.inl hfollows.2⟩ rfl rfl rfl rfl hat.afterAll
              (turn_wrapped hc hlook)
          · exact hdrawn { s with nextOffset := (wordOf s.rest).length } .word
              ⟨rfl, Or.inl hfollows.2⟩ rfl rfl rfl rfl (by simp only; rw [hfollows.2]; decide)
              hafter (turn_of_lookAhead hc hlook)
      · have hlooked := hfollows.looked hm
        have hoffset := (hlooked.counters hat.rest hat.length).2.1
        have hlook := @lookAhead_of_offset font framebuffer 0 s (by omega)
        have hturn : turn font framebuffer 0 s c (word ++ after) = _ :=
          turn_of_lookAhead hc hlook
        by_cases hbreak : s.breakAfterChar = 1
        · have hmode := hfollows.eq_word hbreak
          exact hagain (broken font 0 s) .fresh ⟨rfl, rfl⟩ rfl rfl rfl rfl
            (hmode ▸ hat.afterAll.symm) (hturn.trans (drawChar_broken hbreak))
        · exact hdrawn s m hlooked rfl rfl rfl rfl hbreak rfl hturn

end Drawing

end Enkel.Fonts
