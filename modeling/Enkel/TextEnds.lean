import Mathlib.Data.List.Chain
import Enkel.TextModes

/-!
When BMFont_Render returns. A word that is wider than the screen is broken before the first
character that does not fit, but not behind its first character: BreakAfterChar is counted
down before it is tested, so a break behind the first character comes before it is drawn, and
the loop is back where it was. Two characters that do not fit on the screen together hang the
loop where they are measured as the first of a word or of what is left of it.
-/
namespace Enkel.Fonts

open Outcome Framebuffer

/-- Two characters fit on the screen together, as they are measured. -/
def Fit (font : BMFont) (framebuffer : FramebufferLayout) (c d : UInt16) : Prop :=
  ∀ glyph glyph', font.found c.toUInt32 = some glyph → font.found d.toUInt32 = some glyph' →
    glyph.xAdvance.toInt + glyph'.xAdvance.toInt ≤ framebuffer.width

/-- Neighbours in a word fit on the screen together, where the first of them is measured and
everything before it is drawn. -/
def PairsFit (font : BMFont) (framebuffer : FramebufferLayout) (m : Mode)
    (string : List UInt16) : Prop :=
  ∀ before c d after, string = before ++ c :: d :: after →
    ¬ IsWhitespace c → ¬ IsWhitespace d → (m.afterAll before).Measures →
    (∀ a ∈ m.drawnChars before, font.drawnGlyph a ≠ none) → Fit font framebuffer c d

/-- BMFont_Render returns. -/
def Ends (font : BMFont) (framebuffer : FramebufferLayout) (returnX : ℤ) (s : RenderState) :
    Prop :=
  ∃ fuel last, renderLoop font framebuffer returnX fuel s = .ok last

section Pairs
variable {font : BMFont} {framebuffer : FramebufferLayout} {m : Mode} {c : UInt16}
  {rest : List UInt16}

theorem pairsFit_nil : PairsFit font framebuffer m [] := by
  intro before c d after h
  simp at h

/-- The pairs from a character on. -/
theorem pairsFit_cons :
    PairsFit font framebuffer m (c :: rest) ↔
      (∀ d after, rest = d :: after → ¬ IsWhitespace c → ¬ IsWhitespace d → m.Measures →
        Fit font framebuffer c d) ∧
      (m.Skips c ∨ font.drawnGlyph c ≠ none → PairsFit font framebuffer (m.after c) rest) := by
  constructor
  · intro h
    refine ⟨fun d after hrest hc hd hm => ?_, fun hdrawn before c' d after hrest hc hd hm hall => ?_⟩
    · exact h [] c d after (congrArg _ hrest) hc hd hm fun a ha => absurd ha (by simp [Mode.drawnChars])
    · refine h (c :: before) c' d after (congrArg _ hrest) hc hd hm fun a ha => ?_
      unfold Mode.drawnChars at ha
      split_ifs at ha with hskips
      · exact hall a ha
      · rcases List.mem_cons.mp ha with rfl | ha
        · exact hdrawn.resolve_left hskips
        · exact hall a ha
  · rintro ⟨hhead, htail⟩ before c' d after hstring hc hd hm hall
    cases before with
    | nil =>
      obtain ⟨rfl, hrest⟩ := List.cons.inj hstring
      exact hhead d after hrest hc hd hm
    | cons first before =>
      obtain ⟨rfl, hrest⟩ := List.cons.inj hstring
      have hskips : m.Skips c ∨ font.drawnGlyph c ≠ none := by
        by_contra hnot
        push Not at hnot
        refine hall c ?_ hnot.2
        unfold Mode.drawnChars
        rw [if_neg hnot.1]
        exact List.mem_cons_self
      refine htail hskips before c' d after hrest hc hd hm fun a ha => hall a ?_
      unfold Mode.drawnChars
      split_ifs
      · exact ha
      · exact List.mem_cons_of_mem _ ha

/-- Behind '\n' one space is skipped. -/
theorem pairsFit_newline :
    PairsFit font framebuffer .newline rest ↔
      PairsFit font framebuffer .line (rest.drop (if rest.head? = some space then 1 else 0)) := by
  cases rest with
  | nil => exact iff_of_true pairsFit_nil pairsFit_nil
  | cons c rest =>
    by_cases hc : c = space
    · subst hc
      rw [pairsFit_cons]
      exact ⟨fun h => h.2 (Or.inl (Or.inr (Or.inr ⟨rfl, rfl⟩))),
        fun h => ⟨fun d after _ hspace => absurd (Or.inl rfl) hspace, fun _ => h⟩⟩
    · have hhead : (c :: rest).head? ≠ some space := fun h => hc (Option.some.inj h)
      obtain ⟨hskips, hafter⟩ := Mode.newline_of_ne hc
      have hmeasures : Mode.newline.Measures ↔ Mode.line.Measures := by decide
      rw [if_neg hhead, List.drop_zero, pairsFit_cons, pairsFit_cons, hskips, hafter, hmeasures]

theorem pairsFit_carriageReturn :
    PairsFit font framebuffer m (carriageReturn :: rest) ↔
      PairsFit font framebuffer (m.after carriageReturn) rest := by
  have hskips : m.Skips carriageReturn := Or.inl rfl
  rw [pairsFit_cons, forall_prop_of_true (Or.inl hskips)]
  exact and_iff_right fun d after _ hreturn => absurd isWhitespace_carriageReturn hreturn

/-- A word that is looked at again is the one that has been measured. -/
theorem pairsFit_fresh (hc : c ≠ carriageReturn) :
    PairsFit font framebuffer .fresh (c :: rest) ↔ PairsFit font framebuffer .word (c :: rest) := by
  have hskips : Mode.fresh.Skips c ↔ Mode.word.Skips c := by simp [Mode.Skips]
  have hafter : Mode.fresh.after c = Mode.word.after c := by simp [Mode.after, hc]
  have hmeasures : Mode.fresh.Measures ↔ Mode.word.Measures := by decide
  rw [pairsFit_cons, pairsFit_cons, hskips, hafter, hmeasures]

end Pairs

section Measure
variable {font : BMFont} {framebuffer : FramebufferLayout} {c d : UInt16} {word : List UInt16}
  {advanceChar length : ℕ} {measured : Measured}

/-- The advances are positive, and no glyph is wider than the screen. -/
def Advances (font : BMFont) (framebuffer : FramebufferLayout) : Prop :=
  ∀ char ∈ font.chars, 0 < char.xAdvance.toInt ∧ char.xAdvance.toInt ≤ framebuffer.width

/-- How many characters of a word fit, from a character of it on. -/
def Measured.reach (measured : Measured) (advanceChar : ℕ) (word : List UInt16) : ℕ :=
  match measured with
  | .wide j => j - advanceChar
  | .length _ => word.length

theorem fit_of_wide (h : 2 ^ 16 ≤ framebuffer.width) : Fit font framebuffer c d := by
  intro glyph glyph' _ _
  have hglyph := glyph.xAdvance.toInt_lt
  have hglyph' := glyph'.xAdvance.toInt_lt
  omega

theorem reach_cons (hne : font.chars ≠ [])
    (h : measureLoop font framebuffer word (advanceChar + 1) length = .ok measured) :
    measured.reach advanceChar (c :: word) = measured.reach (advanceChar + 1) word + 1 := by
  obtain ⟨measured', hmeasured, hwide⟩ :=
    @exists_measureLoop font framebuffer hne word (advanceChar + 1) length
  obtain rfl : measured = measured' := Except.ok.inj (h.symm.trans hmeasured)
  cases measured with
  | wide j =>
    have hbetween := hwide j rfl
    simp only [Measured.reach]
    omega
  | length pixels => rfl

/-- The sum does not leave the 32 bits on a narrow screen. -/
theorem uint32_length (hnarrow : framebuffer.width < 2 ^ 16)
    (hlength : length ≤ framebuffer.width) {glyph : BMFontChar} (hpos : 0 < glyph.xAdvance.toInt) :
    (uint32 (length + glyph.xAdvance.toInt) : ℤ) = length + glyph.xAdvance.toInt := by
  have hglyph := glyph.xAdvance.toInt_lt
  unfold uint32
  omega

/-- Characters that have been measured fit, and so do the neighbours among them. -/
theorem measureLoop_pairs (hne : font.chars ≠ []) (hadvances : Advances font framebuffer)
    (hnarrow : framebuffer.width < 2 ^ 16) (hlength : length ≤ framebuffer.width)
    (h : measureLoop font framebuffer word advanceChar length = .ok measured) :
    (word.take (measured.reach advanceChar word)).IsChain (Fit font framebuffer) ∧
      ∀ c rest, word = c :: rest → 0 < measured.reach advanceChar word →
        ∀ glyph, font.found c.toUInt32 = some glyph →
          length + glyph.xAdvance.toInt ≤ framebuffer.width := by
  induction word generalizing advanceChar length with
  | nil => exact ⟨by simp, fun c rest hword => nomatch hword⟩
  | cons c word ih =>
    cases hfound : font.found c.toUInt32 with
    | none =>
      rw [measureLoop_none hne hfound] at h
      obtain ⟨hchain, -⟩ := ih hlength h
      rw [reach_cons hne h, List.take_succ_cons, List.isChain_cons]
      refine ⟨⟨fun d _ glyph glyph' hc => ?_, hchain⟩, fun c' rest hword _ glyph hglyph => ?_⟩
      · rw [hfound] at hc
        cases hc
      · cases hword
        rw [hfound] at hglyph
        cases hglyph
    | some glyph =>
      have hadvance := hadvances glyph (mem_of_found hne hfound)
      have hsum := uint32_length hnarrow hlength hadvance.1
      by_cases hfits : uint32 (length + glyph.xAdvance.toInt) ≤ framebuffer.width
      · rw [measureLoop_fits hne hfound hfits] at h
        obtain ⟨hchain, hhead⟩ := ih hfits h
        rw [reach_cons hne h, List.take_succ_cons, List.isChain_cons]
        refine ⟨⟨fun d hd g g' hg hg' => ?_, hchain⟩, fun c' rest hword _ g hg => ?_⟩
        · obtain ⟨rest, hrest⟩ := List.head?_eq_some_iff.mp hd
          cases hg.symm.trans hfound
          cases word with
          | nil => simp at hrest
          | cons d' word =>
            cases hreach : measured.reach (advanceChar + 1) (d' :: word) with
            | zero =>
              rw [hreach] at hrest
              cases hrest
            | succ n =>
              rw [hreach, List.take_succ_cons] at hrest
              cases hrest
              have hnext := hhead d word rfl (by omega) g' hg'
              omega
        · cases hword
          cases hg.symm.trans hfound
          omega
      · rw [measureLoop_wide hne hfound (not_le.mp hfits)] at h
        cases h
        have hreach : (Measured.wide advanceChar).reach advanceChar (c :: word) = 0 :=
          Nat.sub_self advanceChar
        rw [hreach]
        exact ⟨by simp, fun _ _ _ hpos => absurd hpos (lt_irrefl 0)⟩

/-- What is measured behind a character does not end before it. -/
theorem measureLoop_ne_wide (hne : font.chars ≠ []) {j : ℕ} (hj : j < advanceChar) :
    measureLoop font framebuffer word advanceChar length ≠ .ok (.wide j) := by
  intro h
  obtain ⟨measured, hmeasured, hwide⟩ :=
    @exists_measureLoop font framebuffer hne word advanceChar length
  cases h.symm.trans hmeasured
  have hbetween := hwide j rfl
  omega

/-- The sum of two advances does not leave the 32 bits. -/
theorem uint32_advances {glyph glyph' : BMFontChar} (h : 0 < glyph.xAdvance.toInt)
    (h' : 0 < glyph'.xAdvance.toInt) :
    (uint32 ((0 : ℕ) + glyph.xAdvance.toInt) : ℤ) = glyph.xAdvance.toInt ∧
      (uint32 (uint32 ((0 : ℕ) + glyph.xAdvance.toInt) + glyph'.xAdvance.toInt) : ℤ) =
        glyph.xAdvance.toInt + glyph'.xAdvance.toInt ∧
      (uint32 ((0 : ℕ) + glyph'.xAdvance.toInt) : ℤ) = glyph'.xAdvance.toInt := by
  have hglyph := glyph.xAdvance.toInt_lt
  have hglyph' := glyph'.xAdvance.toInt_lt
  unfold uint32
  omega

/-- The first character of a word fits. -/
theorem measureLoop_pos (hne : font.chars ≠ []) (hadvances : Advances font framebuffer) {j : ℕ}
    (h : measureLoop font framebuffer word 0 0 = .ok (.wide j)) : 0 < j := by
  by_contra hzero
  obtain rfl : j = 0 := by omega
  cases word with
  | nil => cases h
  | cons c word =>
    cases hfound : font.found c.toUInt32 with
    | none =>
      rw [measureLoop_none hne hfound] at h
      exact measureLoop_ne_wide hne (by omega) h
    | some glyph =>
      obtain ⟨hpos, hle⟩ := hadvances glyph (mem_of_found hne hfound)
      have hsum := (uint32_advances hpos hpos).1
      rw [measureLoop_fits hne hfound (by omega)] at h
      exact measureLoop_ne_wide hne (by omega) h

/-- A word is broken behind its first character when the first two do not fit. -/
theorem measureLoop_one_iff (hne : font.chars ≠ []) (hadvances : Advances font framebuffer) :
    measureLoop font framebuffer (c :: d :: word) 0 0 = .ok (.wide 1) ↔
      ¬ Fit font framebuffer c d := by
  unfold Fit
  cases hc : font.found c.toUInt32 with
  | none =>
    rw [measureLoop_none hne hc]
    refine iff_of_false ?_ (not_not.mpr fun _ _ h => nomatch h)
    cases hd : font.found d.toUInt32 with
    | none =>
      rw [measureLoop_none hne hd]
      exact measureLoop_ne_wide hne (by omega)
    | some glyph' =>
      obtain ⟨hpos, hle⟩ := hadvances glyph' (mem_of_found hne hd)
      have hsum := (uint32_advances hpos hpos).1
      rw [measureLoop_fits hne hd (by omega)]
      exact measureLoop_ne_wide hne (by omega)
  | some glyph =>
    obtain ⟨hpos, hle⟩ := hadvances glyph (mem_of_found hne hc)
    have hfirst := (uint32_advances hpos hpos).1
    rw [measureLoop_fits hne hc (by omega)]
    cases hd : font.found d.toUInt32 with
    | none =>
      rw [measureLoop_none hne hd]
      exact iff_of_false (measureLoop_ne_wide hne (by omega))
        (not_not.mpr fun _ _ _ h => nomatch h)
    | some glyph' =>
      obtain ⟨hpos', hle'⟩ := hadvances glyph' (mem_of_found hne hd)
      obtain ⟨-, hboth, -⟩ := uint32_advances hpos hpos'
      have hfit : (∀ g g', some glyph = some g → some glyph' = some g' →
          g.xAdvance.toInt + g'.xAdvance.toInt ≤ framebuffer.width) ↔
          glyph.xAdvance.toInt + glyph'.xAdvance.toInt ≤ framebuffer.width :=
        ⟨fun h => h glyph glyph' rfl rfl, fun h g g' hg hg' => by cases hg; cases hg'; exact h⟩
      rw [hfit]
      by_cases hsum : glyph.xAdvance.toInt + glyph'.xAdvance.toInt ≤ framebuffer.width
      · rw [measureLoop_fits hne hd (by omega)]
        exact iff_of_false (measureLoop_ne_wide hne (by omega)) (not_not.mpr hsum)
      · rw [measureLoop_wide hne hd (by omega)]
        exact iff_of_true rfl hsum

end Measure

section Loop
variable {font : BMFont} {framebuffer : FramebufferLayout} {returnX : ℤ} {s : RenderState}
  {m : Mode} {c d : UInt16} {rest : List UInt16}

theorem ends_nil (h : s.rest = []) : Ends font framebuffer returnX s := by
  obtain ⟨rest, position, startX, startY, nextOffset, breakAfterChar, drawn⟩ := s
  obtain rfl : rest = [] := h
  exact ⟨1, _, rfl⟩

/-- What has to end behind a turn. -/
def Turn.Ends (font : BMFont) (framebuffer : FramebufferLayout) (returnX : ℤ) : Turn → Prop
  | .next s => Fonts.Ends font framebuffer returnX s
  | .done _ => True

theorem ends_cons (h : s.rest = c :: rest) :
    Ends font framebuffer returnX s ↔
      ∃ t, turn font framebuffer returnX s c rest = .ok t ∧ t.Ends font framebuffer returnX := by
  constructor
  · rintro ⟨fuel, last, hlast⟩
    cases fuel with
    | zero => cases hlast
    | succ fuel =>
      rw [renderLoop_cons h] at hlast
      obtain ⟨t, ht, hlast⟩ := bind_eq_ok.mp hlast
      refine ⟨t, ht, ?_⟩
      cases t with
      | next s' => exact ⟨fuel, last, hlast⟩
      | done s' => trivial
  · rintro ⟨t, ht, hends⟩
    cases t with
    | next s' =>
      obtain ⟨fuel, last, hlast⟩ := hends
      exact ⟨fuel + 1, last, by rw [renderLoop_cons h, ht]; exact hlast⟩
    | done s' => exact ⟨1, s', by rw [renderLoop_cons h, ht]; rfl⟩

theorem ends_of_turn (h : s.rest = c :: rest) {t : Turn}
    (ht : turn font framebuffer returnX s c rest = .ok t) :
    Ends font framebuffer returnX s ↔ t.Ends font framebuffer returnX := by
  rw [ends_cons h]
  refine ⟨fun ⟨t', ht', hends⟩ => ?_, fun hends => ⟨t, ht, hends⟩⟩
  cases ht'.symm.trans ht
  exact hends

/-- How many characters of the word are drawn before it is broken. -/
def reachOf (s : RenderState) : ℕ :=
  if 0 < s.breakAfterChar then s.breakAfterChar.toNat else (wordOf s.rest).length

/-- The characters that are drawn before the word is broken fit in pairs. -/
def Kept (font : BMFont) (framebuffer : FramebufferLayout) (s : RenderState) : Prop :=
  ((wordOf s.rest).take (reachOf s)).IsChain (Fit font framebuffer)

theorem take_reachOf (hrest : s.rest = c :: rest) (hc : ¬ IsWhitespace c)
    (hbreak : s.breakAfterChar ≠ 1) (glyph : BMFontChar) :
    (wordOf s.rest).take (reachOf s) =
      c :: (wordOf rest).take (reachOf (drawnAt s glyph rest)) := by
  have hreach : reachOf s = reachOf (drawnAt s glyph rest) + 1 := by
    unfold reachOf
    simp only [drawnAt]
    rw [hrest, wordOf_cons hc, List.length_cons]
    split_ifs <;> omega
  rw [hreach, hrest, wordOf_cons hc, List.take_succ_cons]

/-- The next character fits with the one that is drawn. -/
theorem Kept.head (h : Kept font framebuffer s) (hrest : s.rest = c :: d :: rest)
    (hc : ¬ IsWhitespace c) (hd : ¬ IsWhitespace d) (hbreak : s.breakAfterChar ≠ 1) :
    Fit font framebuffer c d := by
  unfold Kept at h
  have hreach : 2 ≤ reachOf s := by
    unfold reachOf
    rw [hrest, wordOf_cons hc, wordOf_cons hd]
    simp only [List.length_cons]
    split_ifs <;> omega
  obtain ⟨n, hn⟩ := Nat.exists_eq_add_of_le hreach
  rw [hn, add_comm, hrest, wordOf_cons hc, wordOf_cons hd, List.take_succ_cons,
    List.take_succ_cons, List.isChain_cons_cons] at h
  exact h.1

theorem Kept.tail (h : Kept font framebuffer s) (hrest : s.rest = c :: rest)
    (hc : ¬ IsWhitespace c) (hbreak : s.breakAfterChar ≠ 1) (glyph : BMFontChar) :
    Kept font framebuffer (drawnAt s glyph rest) := by
  unfold Kept at h ⊢
  rw [take_reachOf hrest hc hbreak glyph] at h
  exact h.tail

/-- A word is kept together as far as it has been measured. -/
def Ready (font : BMFont) (framebuffer : FramebufferLayout) (m : Mode) (s : RenderState) : Prop :=
  Follows m s ∧ (m = .word → Kept font framebuffer s)

/-- A character that the word is not broken before. -/
theorem drawChar_ends (hne : font.chars ≠ []) (hlooked : Looked m s)
    (hkept : m = .word → Kept font framebuffer s) (hrest : s.rest = c :: rest)
    (hshort : ShortWords s.rest) (hbreak : s.breakAfterChar ≠ 1) (hc : c ≠ carriageReturn)
    (ih : ∀ m' s', s'.rest.length ≤ rest.length → Ready font framebuffer m' s' →
      ShortWords s'.rest → (Ends font framebuffer returnX s' ↔ PairsFit font framebuffer m' s'.rest)) :
    (∃ t, drawChar font returnX s c rest = .ok t ∧ t.Ends font framebuffer returnX) ↔
      PairsFit font framebuffer m (c :: rest) := by
  have hword := hshort.wordOf (List.suffix_refl _)
  have hsuffix : ShortWords rest := hshort.suffix (hrest ▸ List.suffix_cons c rest)
  have hunique : ∀ {t}, drawChar font returnX s c rest = .ok t →
      ((∃ t, drawChar font returnX s c rest = .ok t ∧ t.Ends font framebuffer returnX) ↔
        t.Ends font framebuffer returnX) := fun ht =>
    ⟨fun ⟨t', ht', hends⟩ => Except.ok.inj (ht'.symm.trans ht) ▸ hends, fun hends => ⟨_, ht, hends⟩⟩
  have hhead : ∀ d after, rest = d :: after → ¬ IsWhitespace c → ¬ IsWhitespace d →
      m.Measures → Fit font framebuffer c d := by
    intro d after heq hcw hdw hm
    have hmode : m = .word := hm.resolve_left fun hfresh => by rw [hfresh] at hlooked; exact hlooked
    exact (hkept hmode).head (hrest.trans (congrArg _ heq)) hcw hdw hbreak
  rw [pairsFit_cons, and_iff_right hhead]
  by_cases hfeed : c = lineFeed
  · subst hfeed
    have hskips : m.Skips lineFeed := Or.inr (Or.inl rfl)
    rw [hunique (drawChar_lineFeed hlooked hrest hword), forall_prop_of_true (Or.inl hskips)]
    refine (ih .line _ ?_ ⟨follows_lineEnded hlooked hrest hword, nofun⟩ ?_).trans ?_
    · exact (List.drop_suffix _ _).length_le
    · exact hsuffix.suffix (List.drop_suffix _ _)
    · exact pairsFit_newline.symm
  · have hskips : ¬ m.Skips c := by
      rintro (h | h | ⟨rfl, -⟩)
      · exact hc h
      · exact hfeed h
      · exact hlooked
    rw [or_iff_right hskips]
    cases hglyph : font.drawnGlyph c with
    | none =>
      obtain ⟨s', hs'⟩ := @drawChar_done _ returnX _ _ _ _ hne hlooked hrest hword hbreak hfeed hglyph
      rw [hunique hs']
      exact iff_of_true trivial fun h => absurd rfl h
    | some glyph =>
      rw [hunique (drawChar_drawn hne hlooked hrest hword hbreak hfeed hglyph),
        forall_prop_of_true (by simp)]
      refine ih (m.after c) _ le_rfl ⟨follows_drawnAt hlooked hrest hbreak hc hfeed glyph,
        fun hafter => ?_⟩ hsuffix
      obtain ⟨hm, hcw⟩ := Mode.of_after_word hafter
      have hmode : m = .word := hm.resolve_left fun hfresh => by rw [hfresh] at hlooked; exact hlooked
      exact (hkept hmode).tail hrest hcw hbreak glyph

theorem exists_of_length_wordOf (h : 1 < (wordOf (c :: rest)).length) :
    ¬ IsWhitespace c ∧ ∃ d rest', rest = d :: rest' ∧ ¬ IsWhitespace d := by
  have hc : ¬ IsWhitespace c := fun hc => by
    rw [wordOf_cons_whitespace hc] at h
    cases h
  rw [wordOf_cons hc, List.length_cons] at h
  refine ⟨hc, ?_⟩
  cases rest with
  | nil => exact absurd h (by decide)
  | cons d rest =>
    refine ⟨d, rest, rfl, fun hd => ?_⟩
    rw [wordOf_cons_whitespace hd] at h
    exact absurd h (by decide)

/-- The state behind the look ahead at a word, when the line goes on. -/
theorem kept_measured (hne : font.chars ≠ []) (hadvances : Advances font framebuffer)
    {measured : Measured}
    (h : measureLoop font framebuffer (wordOf s.rest) 0 0 = .ok measured) :
    ((wordOf s.rest).take (measured.reach 0 (wordOf s.rest))).IsChain (Fit font framebuffer) := by
  rcases lt_or_ge framebuffer.width (2 ^ 16) with hnarrow | hwide
  · exact (measureLoop_pairs hne hadvances hnarrow (Nat.zero_le _) h).1
  · exact (List.pairwise_of_forall fun c d => fit_of_wide hwide).isChain

/-- Where the first two characters of what is left do not fit together, the loop does not go
on. -/
theorem not_ends_of_unfit (hne : font.chars ≠ []) (hadvances : Advances font framebuffer)
    (hrest : s.rest = c :: d :: rest) (hc : ¬ IsWhitespace c) (hd : ¬ IsWhitespace d)
    (hunfit : ¬ Fit font framebuffer c d) (hshort : (wordOf s.rest).length < 2 ^ 31)
    (h : Follows .fresh s) : ¬ Ends font framebuffer returnX s := by
  rintro ⟨fuel, last, hlast⟩
  induction fuel generalizing s with
  | zero => cases hlast
  | succ fuel ih =>
    have hmeasure : measureLoop font framebuffer (wordOf s.rest) 0 0 = .ok (.wide 1) := by
      rw [hrest, wordOf_cons hc, wordOf_cons hd]
      exact (measureLoop_one_iff hne hadvances).mpr hunfit
    have hlook := @lookAhead_eq font framebuffer returnX s h.1 hshort _ hmeasure
    obtain ⟨s', hturn, hrest', hfresh⟩ : ∃ s',
        turn font framebuffer returnX s c (d :: rest) = .ok (.next s') ∧ s'.rest = s.rest ∧
          Follows .fresh s' :=
      ⟨_, (turn_of_lookAhead (ne_carriageReturn hc) hlook).trans (drawChar_broken rfl), rfl, rfl, rfl⟩
    rw [renderLoop_cons hrest, hturn] at hlast
    exact @ih s' (hrest'.trans hrest) (hrest' ▸ hshort) hfresh hlast

/-- A word that fits on a line is drawn, on this line or the next one. -/
theorem exists_looked (hrest : s.rest = c :: rest) (hc : c ≠ carriageReturn)
    (hshort : (wordOf s.rest).length < 2 ^ 31) (h : Follows .fresh s) {pixels : ℕ}
    (hmeasure : measureLoop font framebuffer (wordOf s.rest) 0 0 = .ok (.length pixels)) :
    ∃ s' : RenderState, s'.rest = s.rest ∧ Looked .word s' ∧ s'.breakAfterChar = -1 ∧
      (Ends font framebuffer returnX s ↔
        ∃ t, drawChar font returnX s' c rest = .ok t ∧ t.Ends font framebuffer returnX) := by
  have hlook := @lookAhead_eq font framebuffer returnX s h.1 hshort _ hmeasure
  simp only [measuredState] at hlook
  split_ifs at hlook
  · -- the loop comes back to the same character behind the end of the line
    have hoffset : (wrapped font returnX s).nextOffset = (wordOf s.rest).length := rfl
    have hagain := @lookAhead_of_offset font framebuffer returnX (wrapped font returnX s) (by omega)
    have hrest' : (wrapped font returnX s).rest = c :: rest := hrest
    refine ⟨wrapped font returnX s, rfl, ⟨rfl, Or.inl h.2⟩, h.2,
      (ends_of_turn hrest (turn_wrapped hc hlook)).trans ((ends_cons hrest').trans ?_)⟩
    rw [turn_of_lookAhead hc hagain]
  · refine ⟨{ s with nextOffset := (wordOf s.rest).length }, rfl, ⟨rfl, Or.inl h.2⟩, h.2,
      (ends_cons hrest).trans ?_⟩
    rw [turn_of_lookAhead hc hlook]

/-- At a word that is measured next. -/
theorem ends_fresh (hne : font.chars ≠ []) (hadvances : Advances font framebuffer)
    (hrest : s.rest = c :: rest) (hshort : ShortWords s.rest) (hc : c ≠ carriageReturn)
    (h : Follows .fresh s)
    (ih : ∀ m' s', s'.rest.length ≤ rest.length → Ready font framebuffer m' s' →
      ShortWords s'.rest →
        (Ends font framebuffer returnX s' ↔ PairsFit font framebuffer m' s'.rest)) :
    Ends font framebuffer returnX s ↔ PairsFit font framebuffer .fresh (c :: rest) := by
  have hword := hshort.wordOf (List.suffix_refl _)
  obtain ⟨measured, hmeasure, hwide⟩ :=
    @exists_measureLoop font framebuffer hne (wordOf s.rest) 0 0
  have hlook := @lookAhead_eq font framebuffer returnX s h.1 hword _ hmeasure
  have hkept := kept_measured hne hadvances hmeasure
  rw [pairsFit_fresh hc]
  -- a line is begun or not, the word is looked at as it has been measured
  have hdraw : ∀ s' : RenderState, s'.rest = s.rest → Looked .word s' →
      Kept font framebuffer s' → s'.breakAfterChar ≠ 1 →
      ((∃ t, drawChar font returnX s' c rest = .ok t ∧ t.Ends font framebuffer returnX) ↔
        PairsFit font framebuffer .word (c :: rest)) := fun s' heq hlooked hkept' hbreak =>
    drawChar_ends hne hlooked (fun _ => hkept') (heq.trans hrest) (heq ▸ hshort) hbreak hc ih
  cases measured with
  | wide j =>
    have hpos := measureLoop_pos hne hadvances hmeasure
    have hlt := (hwide j rfl).2
    by_cases hone : j = 1
    · -- the break comes before the first character
      subst hone
      rw [hrest] at hlt
      have htwo : 1 < (wordOf (c :: rest)).length := by omega
      obtain ⟨hcw, d, rest', rfl, hdw⟩ := exists_of_length_wordOf htwo
      have hunfit : ¬ Fit font framebuffer c d := by
        rw [hrest, wordOf_cons hcw, wordOf_cons hdw] at hmeasure
        exact (measureLoop_one_iff hne hadvances).mp hmeasure
      refine iff_of_false (not_ends_of_unfit hne hadvances hrest hcw hdw hunfit hword h) fun hfit => ?_
      exact hunfit ((pairsFit_cons.mp hfit).1 d rest' rfl hcw hdw (Or.inr rfl))
    · rw [ends_cons hrest, turn_of_lookAhead hc hlook]
      refine hdraw _ rfl ⟨rfl, Or.inr ⟨?_, ?_⟩⟩ ?_ ?_
      · simp only; omega
      · simp only; omega
      · unfold Kept
        have hreach : reachOf { s with nextOffset := (wordOf s.rest).length, breakAfterChar := j } = j := by
          unfold reachOf
          simp only
          rw [if_pos (by omega)]
          rfl
        rw [hreach]
        exact hkept
      · simp only; omega
  | length pixels =>
    obtain ⟨s', hrest', hlooked, hbreak, hends⟩ :=
      @exists_looked _ _ returnX _ _ _ hrest hc hword h _ hmeasure
    have hkept' : Kept font framebuffer s' := by
      unfold Kept reachOf
      rw [hbreak, if_neg (by omega), hrest']
      exact hkept
    exact hends.trans (hdraw s' hrest' hlooked hkept' (by omega))

/-- The loop ends from a state exactly when the pairs that it comes to fit. -/
theorem ends_iff_pairsFit (hne : font.chars ≠ []) (hadvances : Advances font framebuffer)
    (hready : Ready font framebuffer m s) (hshort : ShortWords s.rest) :
    Ends font framebuffer returnX s ↔ PairsFit font framebuffer m s.rest := by
  obtain ⟨n, hn⟩ : ∃ n, s.rest.length = n := ⟨_, rfl⟩
  induction n using Nat.strong_induction_on generalizing m s with
  | _ n ih =>
  cases hrest : s.rest with
  | nil => exact iff_of_true (ends_nil hrest) pairsFit_nil
  | cons c rest =>
    have hless : ∀ m' s', s'.rest.length ≤ rest.length → Ready font framebuffer m' s' →
        ShortWords s'.rest →
          (Ends font framebuffer returnX s' ↔ PairsFit font framebuffer m' s'.rest) := by
      intro m' s' hle hready' hshort'
      refine ih s'.rest.length ?_ hready' hshort' rfl
      rw [← hn, hrest, List.length_cons]
      omega
    by_cases hc : c = carriageReturn
    · subst hc
      have hready' : Ready font framebuffer (m.after carriageReturn)
          { s with rest := rest, position := s.position + 1 } :=
        ⟨follows_carriageReturn hready.1 hrest, fun hafter =>
          absurd isWhitespace_carriageReturn (Mode.of_after_word hafter).2⟩
      rw [pairsFit_carriageReturn]
      exact (ends_of_turn hrest turn_carriageReturn).trans
        (hless _ _ le_rfl hready' (hshort.suffix (hrest ▸ List.suffix_cons _ _)))
    · by_cases hm : m = .fresh
      · subst hm
        exact ends_fresh hne hadvances hrest hshort hc hready.1 hless
      · have hlooked := hready.1.looked hm
        have hoffset := (hlooked.counters hrest (hshort.wordOf (List.suffix_refl _))).2.1
        have hlook := @lookAhead_of_offset font framebuffer returnX s (by omega)
        by_cases hbreak : s.breakAfterChar = 1
        · -- the word is broken, and what is left of it is measured again
          have hturn := (turn_of_lookAhead hc hlook).trans (@drawChar_broken _ returnX _ _ rest hbreak)
          rw [hready.1.eq_word hbreak, ← pairsFit_fresh hc]
          exact (ends_of_turn hrest hturn).trans
            (@ends_fresh _ _ _ (broken font returnX s) _ _ hne hadvances hrest hshort hc ⟨rfl, rfl⟩
              hless)
        · rw [ends_cons hrest, turn_of_lookAhead hc hlook]
          exact drawChar_ends hne hlooked hready.2 hrest hshort hbreak hc hless

/-- Where a font has no glyph, the search for one leaves its table. -/
theorem not_drawn_of_empty (hempty : font.chars = []) (hlooked : Looked m s)
    (hrest : s.rest = c :: rest) (hshort : (wordOf s.rest).length < 2 ^ 31)
    (hbreak : s.breakAfterChar ≠ 1) (hc : c ≠ lineFeed) (t : Turn) :
    drawChar font returnX s c rest ≠ .ok t := by
  obtain ⟨hnot, -⟩ := hlooked.drawChar hrest hshort hbreak
  unfold Fonts.drawChar glyphFor
  rw [if_neg hnot, if_neg hc, findGlyph_empty hempty]
  intro h
  cases h

theorem not_turn_of_empty (hempty : font.chars = []) (hrest : s.rest = c :: rest)
    (hc : ¬ IsWhitespace c) (hshort : (wordOf s.rest).length < 2 ^ 31)
    (hoffset : s.nextOffset = -1) (t : Turn) :
    turn font framebuffer returnX s c rest ≠ .ok t := by
  obtain ⟨index, hindex, hnext⟩ := nextOffset_eq hshort
  intro ht
  rw [turn_eq (ne_carriageReturn hc)] at ht
  obtain ⟨looked, hlook, -⟩ := bind_eq_ok.mp ht
  unfold lookAhead at hlook
  rw [if_neg (not_not.mpr hoffset), hindex, ok_bind] at hlook
  dsimp only at hlook
  rw [hnext, Int.toNat_natCast, take_wordOf, hrest, wordOf_cons hc] at hlook
  obtain ⟨measured, hmeasure, -⟩ := bind_eq_ok.mp hlook
  rw [measureLoop_cons, findGlyph_empty hempty] at hmeasure
  cases hmeasure

theorem Mode.drawnChars_newline :
    Mode.newline.drawnChars rest =
      Mode.line.drawnChars (rest.drop (if rest.head? = some space then 1 else 0)) := by
  cases rest with
  | nil => rfl
  | cons c rest =>
    by_cases hc : c = space
    · subst hc
      rfl
    · have hhead : (c :: rest).head? ≠ some space := fun h => hc (Option.some.inj h)
      obtain ⟨hskips, hafter⟩ := Mode.newline_of_ne hc
      rw [if_neg hhead, List.drop_zero]
      unfold Mode.drawnChars
      rw [hafter, if_congr hskips rfl rfl]

/-- Without a glyph only a string of which nothing is drawn is rendered. -/
theorem ends_iff_of_empty (hempty : font.chars = []) (hm : m = .fresh ∨ m = .line)
    (h : Follows m s) (hshort : ShortWords s.rest) :
    Ends font framebuffer returnX s ↔ m.drawnChars s.rest = [] := by
  obtain ⟨n, hn⟩ : ∃ n, s.rest.length = n := ⟨_, rfl⟩
  induction n using Nat.strong_induction_on generalizing m s with
  | _ n ih =>
  have hword := hshort.wordOf (List.suffix_refl _)
  cases hrest : s.rest with
  | nil => exact iff_of_true (ends_nil hrest) rfl
  | cons c rest =>
    have hless : ∀ m' s', s'.rest <:+ rest → (m' = .fresh ∨ m' = .line) → Follows m' s' →
        (Ends font framebuffer returnX s' ↔ m'.drawnChars s'.rest = []) := by
      intro m' s' hsuffix hm' hfollows
      have hlength := hsuffix.length_le
      refine ih s'.rest.length ?_ hm' hfollows (hshort.suffix (hsuffix.trans ?_)) rfl
      · rw [← hn, hrest, List.length_cons]
        omega
      · rw [hrest]
        exact List.suffix_cons c rest
    unfold Mode.drawnChars
    by_cases hc : c = carriageReturn
    · subst hc
      have hafter : m.after carriageReturn = m := by rcases hm with rfl | rfl <;> rfl
      have hfollows := @follows_carriageReturn _ _ rest h hrest
      rw [hafter] at hfollows
      have hskips : m.Skips carriageReturn := Or.inl rfl
      rw [if_pos hskips, hafter]
      exact (ends_of_turn hrest turn_carriageReturn).trans
        (hless m _ (List.suffix_refl rest) hm hfollows)
    · have hskips : m.Skips c ↔ c = lineFeed := by
        rcases hm with rfl | rfl <;> simp [Mode.Skips, hc]
      by_cases hmeasured : m = .fresh ∧ ¬ IsWhitespace c
      · -- the first search is that of the look ahead
        obtain ⟨rfl, hcw⟩ := hmeasured
        rw [if_neg (hskips.not.mpr (ne_lineFeed hcw))]
        refine iff_of_false ?_ (List.cons_ne_nil _ _)
        rintro ⟨fuel, last, hlast⟩
        cases fuel with
        | zero => cases hlast
        | succ fuel =>
          rw [renderLoop_cons hrest] at hlast
          obtain ⟨t, ht, -⟩ := bind_eq_ok.mp hlast
          exact not_turn_of_empty hempty hrest hcw hword h.1 t ht
      · obtain ⟨m', s', hrest', hlooked, hbreak, hends⟩ : ∃ m' s', s'.rest = s.rest ∧
            Looked m' s' ∧ s'.breakAfterChar = -1 ∧ (Ends font framebuffer returnX s ↔
              ∃ t, drawChar font returnX s' c rest = .ok t ∧
                t.Ends font framebuffer returnX) := by
          rcases hm with rfl | rfl
          · have hcw : IsWhitespace c := not_not.mp fun hcw => hmeasured ⟨rfl, hcw⟩
            have hmeasure : measureLoop font framebuffer (wordOf s.rest) 0 0 = .ok (.length 0) := by
              rw [hrest, wordOf_cons_whitespace hcw]
              rfl
            exact ⟨.word, exists_looked hrest hc hword h hmeasure⟩
          · refine ⟨.line, s, rfl, h, h.2, (ends_cons hrest).trans ?_⟩
            rw [turn_of_lookAhead hc (lookAhead_of_offset (by rw [h.1]; decide))]
        have hword' := hrest' ▸ hword
        have hsame := hrest'.trans hrest
        by_cases hfeed : c = lineFeed
        · subst hfeed
          have hdraw := @drawChar_lineFeed font returnX s' _ rest hlooked hsame hword'
          have hafter : m.after lineFeed = .newline := if_pos rfl
          rw [if_pos (hskips.mpr rfl), hafter, Mode.drawnChars_newline, hends]
          refine Iff.trans ?_ (hless .line (lineEnded font returnX s' rest) (List.drop_suffix _ _)
            (Or.inr rfl) (follows_lineEnded hlooked hsame hword'))
          constructor
          · intro hdrawn
            obtain ⟨t, ht, h⟩ := hdrawn
            cases ht.symm.trans hdraw
            exact h
          · intro h
            exact ⟨_, hdraw, h⟩
        · rw [if_neg (hskips.not.mpr hfeed), hends]
          refine iff_of_false ?_ (List.cons_ne_nil _ _)
          rintro ⟨t, ht, -⟩
          exact not_drawn_of_empty hempty hlooked hsame hword' (by omega) hfeed t ht

theorem pairsFit_of_empty (hempty : font.chars = []) (string : List UInt16) :
    PairsFit font framebuffer m string := by
  intro before c d after _ _ _ _ _ glyph glyph' hglyph
  rw [found_eq_none hempty] at hglyph
  cases hglyph

end Loop

/-- BMFont_Render returns exactly when the pairs that are measured as the first of what is
left of a word fit on the screen, and when a font without a glyph has nothing to draw. -/
theorem renders_iff (font : BMFont) (framebuffer : FramebufferLayout) (returnX : ℤ)
    (string : List UInt16) (startX startY : ℤ) (hadvances : Advances font framebuffer)
    (hshort : ShortWords string) :
    (∃ last, Renders font framebuffer returnX string startX startY last) ↔
      PairsFit font framebuffer .fresh string ∧
        (font.chars = [] → Mode.fresh.drawnChars string = []) := by
  have hends : (∃ last, Renders font framebuffer returnX string startX startY last) ↔
      Ends font framebuffer returnX (.start string startX startY) := exists_comm
  have hfollows : Follows .fresh (.start string startX startY) := ⟨rfl, rfl⟩
  rw [hends]
  by_cases hempty : font.chars = []
  · rw [forall_prop_of_true hempty, and_iff_right (pairsFit_of_empty hempty string)]
    exact ends_iff_of_empty hempty (Or.inl rfl) hfollows hshort
  · rw [and_iff_left fun h => absurd h hempty]
    exact ends_iff_pairsFit hempty hadvances ⟨hfollows, nofun⟩ hshort

/-- A screen that is ten columns wide. -/
def tenColumns : FramebufferLayout := ⟨10, 10, 40, by decide, by decide, by decide⟩

/-- A font of two glyphs that are six columns wide. -/
def sixWide : BMFont := whiteFont [block 65 6, block 66 6] (by decide)

theorem advances_sixWide : Advances sixWide tenColumns := by
  intro char hchar
  have hmem : char = block 65 6 ∨ char = block 66 6 := by simpa [sixWide, whiteFont] using hchar
  rcases hmem with rfl | rfl <;> decide

theorem shortWords_pair : ShortWords [65, 66] := fun word hword _ => by
  have hlength := hword.length_le
  simp only [List.length_cons, List.length_nil] at hlength
  omega

theorem renders_iff_pair :
    (∃ last, Renders sixWide tenColumns 0 [65, 66] 0 0 last) ↔
      PairsFit sixWide tenColumns .fresh [65, 66] ∧
        (sixWide.chars = [] → Mode.fresh.drawnChars [65, 66] = []) :=
  renders_iff sixWide tenColumns 0 [65, 66] 0 0 advances_sixWide shortWords_pair

/-- Two glyphs of six columns on a screen of ten: the line is ended over and over again. -/
theorem pair_not_rendered : ¬ ∃ last, Renders sixWide tenColumns 0 [65, 66] 0 0 last := by
  rintro ⟨last, fuel, hlast⟩
  have hne : sixWide.chars ≠ [] := List.cons_ne_nil _ _
  have hunfit : ¬ Fit sixWide tenColumns 65 66 := fun hfit =>
    absurd (hfit (block 65 6) (block 66 6) (by decide) (by decide)) (by decide)
  exact not_ends_of_unfit hne advances_sixWide rfl (by decide) (by decide) hunfit (by decide)
    ⟨rfl, rfl⟩ ⟨fuel, last, hlast⟩

end Enkel.Fonts
