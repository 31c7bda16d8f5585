import Mathlib.Algebra.Order.BigOperators.Group.List
import Enkel.TextWords

/-!
Which words BMFont_Render keeps on one line of the screen. What is measured of a word is what
is drawn of it when the font has its characters, and it is measured as a whole unless '\r'
comes between it and the word before it. The words that are too wide for the screen are where
the column can leave the screen, and with it the int that it is kept in.
-/
namespace Enkel.Fonts

open Outcome Framebuffer

/-- A maximal run of characters that are not whitespace. -/
structure IsWord (string before word after : List UInt16) : Prop where
  string_eq : string = before ++ (word ++ after)
  ne_nil : word ≠ []
  not_whitespace : ∀ c ∈ word, ¬ IsWhitespace c
  before_ends : ∀ c ∈ before.getLast?, IsWhitespace c
  after_starts : ∀ c ∈ after.head?, IsWhitespace c

/-- What is drawn for a part of the string. -/
def drawnIn (drawn : List Drawn) (start length : ℕ) : List Drawn :=
  drawn.filter fun d => start ≤ d.position ∧ d.position < start + length

/-- The glyphs of a word are drawn, on one line and inside of the screen. -/
structure OnLine (font : BMFont) (framebuffer : FramebufferLayout) (start : ℕ)
    (word : List UInt16) (drawn : List Drawn) : Prop where
  positions : (drawnIn drawn start word.length).map Drawn.position = List.range' start word.length
  glyphs : (drawnIn drawn start word.length).map (fun d => some d.glyph) =
    word.map font.drawnGlyph
  line : ∃ y, ∀ d ∈ drawnIn drawn start word.length, d.y = y
  columns : ∀ d ∈ drawnIn drawn start word.length,
    0 ≤ d.x ∧ d.x + d.glyph.xAdvance.toInt ≤ framebuffer.width

/-- Every word that is not wider than the screen is drawn on one line. -/
def KeepsWords (font : BMFont) (framebuffer : FramebufferLayout) (string : List UInt16)
    (drawn : List Drawn) : Prop :=
  ∀ before word after, IsWord string before word after →
    font.totalAdvance word ≤ framebuffer.width →
      OnLine font framebuffer before.length word drawn

/-- The columns that a word can take beyond the screen, with the whitespace before it. -/
def excess (font : BMFont) (framebuffer : FramebufferLayout) (word : List UInt16) : ℤ :=
  if font.totalAdvance word > framebuffer.width then font.totalAdvance word + 2 ^ 15 else 0

/-- The columns that the words that are wider than the screen can take. -/
def wideAdvance (font : BMFont) (framebuffer : FramebufferLayout) (string : List UInt16) : ℤ :=
  ((string.splitOnP fun c => IsWhitespace c).map (excess font framebuffer)).sum

/-- The words that are not wider than the screen are measured as they are drawn: they do not
follow another word with '\r' between them only, and those that do not start a line have no
character that the font does not have. The words are not so long, or so wide, that a counter
or a column leaves its int. -/
structure MeasuresWords (font : BMFont) (framebuffer : FramebufferLayout) (string : List UInt16) :
    Prop where
  short : ShortWords string
  apart : ∀ before word after, IsWord string before word after →
    font.totalAdvance word ≤ framebuffer.width → Mode.fresh.afterAll before ≠ .carried
  found : ∀ before word after, IsWord string before word after →
    font.totalAdvance word ≤ framebuffer.width → (Mode.fresh.afterAll before).Measures →
      ∀ c ∈ word, font.found c.toUInt32 ≠ none
  columns : framebuffer.width + 2 ^ 16 + wideAdvance font framebuffer string < 2 ^ 31

section Words
variable {font : BMFont} {framebuffer : FramebufferLayout} {c : UInt16}
  {string before word after rest : List UInt16} {drawn more : List Drawn} {start n p : ℕ}

theorem wordOf_of_head (h : ∀ c ∈ after.head?, IsWhitespace c) : wordOf after = [] := by
  cases after with
  | nil => rfl
  | cons c after => exact wordOf_cons_whitespace (h c rfl)

theorem IsWord.wordOf (h : IsWord string before word after) : wordOf (word ++ after) = word := by
  rw [wordOf_append h.not_whitespace, wordOf_of_head h.after_starts, List.append_nil]

/-- A word that starts at a place is what comes there. -/
theorem IsWord.eq_of_length (h : IsWord string before word after) {before' : List UInt16}
    (hstring : string = before' ++ rest) (hlength : before.length = before'.length) :
    before = before' ∧ rest = word ++ after ∧ word = Fonts.wordOf rest := by
  obtain ⟨hbefore, hrest⟩ := List.append_inj (h.string_eq.symm.trans hstring) hlength
  exact ⟨hbefore, hrest.symm, by rw [← hrest, h.wordOf]⟩

/-- A word does not start inside of another one. -/
theorem IsWord.le_start (h : IsWord string before word after) {before' word' after' : List UInt16}
    (hstring : string = before' ++ (word' ++ after')) (hword : ∀ c ∈ word', ¬ IsWhitespace c)
    (hlt : before'.length < before.length) : before'.length + word'.length ≤ before.length := by
  by_contra hinside
  obtain ⟨n, hn⟩ := Nat.exists_eq_add_of_lt hlt
  have hbefore : before = before' ++ word'.take (n + 1) := by
    have hprefix : before <+: before' ++ (word' ++ after') := ⟨word ++ after, by
      rw [← hstring, ← h.string_eq]⟩
    rw [List.prefix_iff_eq_take.mp hprefix, hn, List.take_append, List.take_of_length_le (by omega),
      show before'.length + n + 1 - before'.length = n + 1 by omega, List.take_append_of_le_length (by omega)]
  have hne : word'.take (n + 1) ≠ [] := by
    intro hnil
    rw [hnil, List.append_nil] at hbefore
    rw [hbefore] at hlt
    omega
  have hlast : (word'.take (n + 1)).getLast hne ∈ before.getLast? := by
    rw [hbefore, List.getLast?_append_of_ne_nil _ hne]
    exact List.getLast?_eq_some_getLast hne
  exact hword _ (List.mem_of_mem_take (List.getLast_mem hne)) (h.before_ends _ hlast)

theorem excess_nil : excess font framebuffer [] = 0 :=
  if_neg (by rw [totalAdvance_nil]; omega)

theorem Complete.excess_nonneg (h : Complete font) (word : List UInt16) :
    0 ≤ excess font framebuffer word := by
  have hnonneg := h.totalAdvance_nonneg word
  unfold excess
  split_ifs <;> omega

theorem Complete.wideAdvance_nonneg (h : Complete font) (string : List UInt16) :
    0 ≤ wideAdvance font framebuffer string := by
  unfold wideAdvance
  refine List.sum_nonneg fun a ha => ?_
  obtain ⟨word, -, rfl⟩ := List.mem_map.mp ha
  exact h.excess_nonneg word

/-- A word, and what is behind the character that ends it. -/
theorem wideAdvance_append_cons (hword : ∀ c ∈ word, ¬ IsWhitespace c) (hc : IsWhitespace c) :
    wideAdvance font framebuffer (word ++ c :: rest) =
      excess font framebuffer word + wideAdvance font framebuffer rest := by
  unfold wideAdvance
  rw [List.splitOnP_append_cons_of_forall_mem (fun a ha => decide_eq_false (hword a ha)) c
    (decide_eq_true hc), List.map_cons, List.sum_cons]

theorem wideAdvance_whitespace (hc : IsWhitespace c) :
    wideAdvance font framebuffer (c :: rest) = wideAdvance font framebuffer rest := by
  have h := @wideAdvance_append_cons font framebuffer c [] rest (by simp) hc
  rwa [List.nil_append, excess_nil, zero_add] at h

theorem wideAdvance_word (hword : ∀ c ∈ word, ¬ IsWhitespace c) (hafter : wordOf after = []) :
    wideAdvance font framebuffer (word ++ after) =
      excess font framebuffer word + wideAdvance font framebuffer after := by
  cases after with
  | nil =>
    unfold wideAdvance
    rw [List.append_nil, List.splitOnP_eq_singleton fun a ha => decide_eq_false (hword a ha),
      List.splitOnP_nil, List.map_singleton, List.map_singleton, List.sum_singleton,
      List.sum_singleton, excess_nil, add_zero]
  | cons c after =>
    have hc : IsWhitespace c := by
      by_contra hc
      rw [wordOf_cons hc] at hafter
      cases hafter
    rw [wideAdvance_append_cons hword hc, wideAdvance_whitespace hc]

/-- What is drawn outside of a part of the string does not count for it. -/
theorem drawnIn_append_left (h : ∀ d ∈ more, start + n ≤ d.position) :
    drawnIn (drawn ++ more) start n = drawnIn drawn start n := by
  have hnone : drawnIn more start n = [] := List.filter_eq_nil_iff.mpr fun d hd hin => by
    have hout := h d hd
    have hin' := of_decide_eq_true hin
    omega
  unfold drawnIn at hnone ⊢
  rw [List.filter_append, hnone, List.append_nil]

theorem drawnIn_append_right (h : ∀ d ∈ drawn, d.position < start) :
    drawnIn (drawn ++ more) start n = drawnIn more start n := by
  have hnone : drawnIn drawn start n = [] := List.filter_eq_nil_iff.mpr fun d hd hin => by
    have hout := h d hd
    have hin' := of_decide_eq_true hin
    omega
  unfold drawnIn at hnone ⊢
  rw [List.filter_append, hnone, List.nil_append]

theorem OnLine.append (h : OnLine font framebuffer start word drawn)
    (hmore : ∀ d ∈ more, start + word.length ≤ d.position) :
    OnLine font framebuffer start word (drawn ++ more) := by
  have hsame := @drawnIn_append_left drawn more start word.length hmore
  exact ⟨by rw [hsame]; exact h.positions, by rw [hsame]; exact h.glyphs,
    by rw [hsame]; exact h.line, by rw [hsame]; exact h.columns⟩

theorem OnLine.prepend (h : OnLine font framebuffer start word more)
    (hdrawn : ∀ d ∈ drawn, d.position < start) :
    OnLine font framebuffer start word (drawn ++ more) := by
  have hsame := @drawnIn_append_right drawn more start word.length hdrawn
  exact ⟨by rw [hsame]; exact h.positions, by rw [hsame]; exact h.glyphs,
    by rw [hsame]; exact h.line, by rw [hsame]; exact h.columns⟩

/-- A row on the screen is on a line. -/
theorem onLine_rowOf (hcomplete : Complete font) {x y : ℤ} (hx : 0 ≤ x)
    (hfits : x + font.totalAdvance word ≤ framebuffer.width) :
    OnLine font framebuffer start word (rowOf font start x y word) := by
  have hall : drawnIn (rowOf font start x y word) start word.length = rowOf font start x y word := by
    unfold drawnIn
    rw [List.filter_eq_self]
    exact fun d hd => decide_eq_true (hcomplete.mem_rowOf hd).1
  obtain ⟨hpositions, hglyphs⟩ := hcomplete.rowOf_positions word start x y
  refine ⟨by rw [hall, hpositions], by rw [hall, hglyphs], ⟨y, fun d hd => ?_⟩, fun d hd => ?_⟩
  · rw [hall] at hd
    exact (hcomplete.mem_rowOf hd).2.1
  · rw [hall] at hd
    obtain ⟨-, -, hleft, hright⟩ := hcomplete.mem_rowOf hd
    exact ⟨hx.trans hleft, hright.trans hfits⟩

end Words

/-- BMFont_Render has come to the end of a word or to a character between words. -/
structure AtBreak (font : BMFont) (framebuffer : FramebufferLayout) (string before : List UInt16)
    (m : Mode) (s : RenderState) : Prop where
  string_eq : string = before ++ s.rest
  position : s.position = before.length
  follows : Follows m s
  mode : m = Mode.fresh.afterAll before ∨
    (m = .line ∧ Mode.fresh.afterAll before = .newline ∧ s.rest.head? ≠ some space)
  word : wordOf s.rest ≠ [] → ∀ c ∈ before.getLast?, IsWhitespace c
  line : m = .line → s.startX = 0
  startX_nonneg : 0 ≤ s.startX
  startX_le : s.startX + wideAdvance font framebuffer s.rest ≤ framebuffer.width +
    wideAdvance font framebuffer string + if m = .fresh then 2 ^ 15 else 0
  rest_le : wideAdvance font framebuffer s.rest ≤ wideAdvance font framebuffer string

/-- The loop goes on from one break to the next, and draws what is between them. -/
structure Segment (font : BMFont) (framebuffer : FramebufferLayout) (string : List UInt16)
    (s last : RenderState) (row : List Drawn) (s' : RenderState) : Prop where
  leads : Leads font framebuffer 0 s' last
  drawn : s'.drawn = s.drawn ++ row
  shorter : s'.rest.length < s.rest.length
  positions : ∀ d ∈ row, s.position ≤ d.position ∧ d.position < s'.position
  atBreak : ∃ before m, AtBreak font framebuffer string before m s'
  words : ∀ before word after, IsWord string before word after →
    font.totalAdvance word ≤ framebuffer.width → s.position ≤ before.length →
    before.length < s'.position → before.length + word.length ≤ s'.position ∧
      OnLine font framebuffer before.length word row

section Segments
variable {font : BMFont} {framebuffer : FramebufferLayout} {s last : RenderState} {m : Mode}
  {c : UInt16} {string before word after rest : List UInt16}

theorem Mode.afterAll_append (m : Mode) (left right : List UInt16) :
    m.afterAll (left ++ right) = (m.afterAll left).afterAll right := List.foldl_append

theorem forall_mem_getLast_concat (hc : IsWhitespace c) :
    ∀ d ∈ (before ++ [c]).getLast?, IsWhitespace d := by
  intro d hd
  rw [List.getLast?_concat] at hd
  cases hd
  exact hc

/-- The mode behind a character. -/
theorem AtBreak.next_mode (h : AtBreak font framebuffer string before m s) (hrest : s.rest = c :: rest) :
    m.after c = Mode.fresh.afterAll (before ++ [c]) := by
  rw [Mode.afterAll_append]
  rcases h.mode with hm | ⟨hline, hnewline, hspace⟩
  · rw [← hm]
    rfl
  · have hc : c ≠ space := fun heq => hspace (by rw [hrest, heq]; rfl)
    rw [hnewline, hline]
    simp [Mode.afterAll, Mode.after, hc]

/-- No word starts at whitespace. -/
theorem AtBreak.not_word (h : AtBreak font framebuffer string before m s)
    (hrest : s.rest = c :: rest) (hc : IsWhitespace c) {before' word after : List UInt16}
    (hword : IsWord string before' word after) : before'.length ≠ s.position := by
  intro hlength
  obtain ⟨-, -, hwordOf⟩ := hword.eq_of_length h.string_eq (hlength.trans h.position)
  rw [hrest, wordOf_cons_whitespace hc] at hwordOf
  exact hword.ne_nil hwordOf

theorem AtBreak.string_snoc (h : AtBreak font framebuffer string before m s)
    (hrest : s.rest = c :: rest) : string = before ++ [c] ++ rest := by
  rw [h.string_eq, hrest, List.append_assoc]
  rfl

theorem segment_carriageReturn (h : AtBreak font framebuffer string before m s)
    (hrest : s.rest = carriageReturn :: rest) (hleads : Leads font framebuffer 0 s last) :
    ∃ s', Segment font framebuffer string s last [] s' := by
  have hwhite := isWhitespace_carriageReturn
  have hwide := @wideAdvance_whitespace font framebuffer _ rest hwhite
  have hle := h.startX_le
  have hrestLe := h.rest_le
  rw [hrest, hwide] at hle hrestLe
  refine ⟨{ s with rest := rest, position := s.position + 1 },
    leads_of_turn hrest turn_carriageReturn hleads, (List.append_nil _).symm, ?_, by simp,
    ⟨before ++ [carriageReturn], m.after carriageReturn, ?_⟩, ?_⟩
  · rw [hrest]
    exact Nat.lt_succ_self _
  · refine ⟨h.string_snoc hrest, ?_, follows_carriageReturn h.follows hrest,
      Or.inl (h.next_mode hrest), ?_, ?_, h.startX_nonneg, ?_, hrestLe⟩
    · simp [h.position]
    · exact fun _ => forall_mem_getLast_concat hwhite
    · intro hline
      refine h.line ?_
      cases m with
      | line => rfl
      | newline => exact absurd h.follows id
      | fresh => cases hline
      | word => cases hline
      | carried => cases hline
    · cases m with
      | newline => exact absurd h.follows id
      | fresh => exact hle
      | word => exact hle
      | carried => exact hle
      | line => exact hle
  · intro before' word after hword hfits hge hlt
    have hne := h.not_word hrest hwhite hword
    simp only at hlt
    omega

/-- The variables that a character between words is drawn with. -/
structure LookedAt (font : BMFont) (framebuffer : FramebufferLayout) (m : Mode)
    (s last : RenderState) (c : UInt16) (rest : List UInt16) (m₁ : Mode) (s₁ : RenderState) :
    Prop where
  looked : Looked m₁ s₁
  rest_eq : s₁.rest = c :: rest
  position : s₁.position = s.position
  drawn : s₁.drawn = s.drawn
  unbroken : s₁.breakAfterChar = -1
  after : m₁.after c = m.after c
  startX_nonneg : 0 ≤ s₁.startX
  startX_le : m = .fresh → s₁.startX ≤ framebuffer.width
  startX_eq : m ≠ .fresh → s₁.startX = s.startX
  leads : ∀ s', drawChar font 0 s₁ c rest = .ok (.next s') → Leads font framebuffer 0 s' last

theorem exists_lookedAt (hrest : s.rest = c :: rest) (hc : IsWhitespace c)
    (hreturn : c ≠ carriageReturn) (hfollows : Follows m s) (hx : 0 ≤ s.startX)
    (hlt : s.startX < 2 ^ 31) (hleads : Leads font framebuffer 0 s last) :
    ∃ m₁ s₁, LookedAt font framebuffer m s last c rest m₁ s₁ := by
  have hword : wordOf s.rest = [] := by rw [hrest, wordOf_cons_whitespace hc]
  have hshort := length_wordOf_whitespace hrest hc
  by_cases hm : m = .fresh
  · subst hm
    have hmeasure : measureLoop font framebuffer (wordOf s.rest) 0 0 = .ok (.length 0) := by
      rw [hword]
      rfl
    have hlook := @lookAhead_eq font framebuffer 0 s hfollows.1 hshort _ hmeasure
    have hafter : Mode.word.after c = Mode.fresh.after c := by simp [Mode.after, hreturn]
    have hsum := uint32_add hx hlt (show 0 < 2 ^ 31 by decide)
    simp only [measuredState] at hlook
    split_ifs at hlook with hnext
    · -- a line is begun for the character
      have hwrapped := leads_of_turn hrest (turn_wrapped hreturn hlook) hleads
      have hrest' : (wrapped font 0 s).rest = c :: rest := hrest
      have hoffset : (wrapped font 0 s).nextOffset = (wordOf s.rest).length := rfl
      have hagain := @lookAhead_of_offset font framebuffer 0 (wrapped font 0 s) (by omega)
      refine ⟨.word, wrapped font 0 s, ⟨rfl, Or.inl hfollows.2⟩, hrest, rfl, rfl, hfollows.2, hafter,
        le_rfl, fun _ => Int.natCast_nonneg _, fun hne => absurd rfl hne, fun s' hdraw => ?_⟩
      exact leads_of_turn hrest' ((turn_of_lookAhead hreturn hagain).trans hdraw) hwrapped
    · refine ⟨.word, { s with nextOffset := (wordOf s.rest).length }, ⟨rfl, Or.inl hfollows.2⟩, hrest,
        rfl, rfl, hfollows.2, hafter, hx, fun _ => ?_, fun hne => absurd rfl hne,
        fun s' hdraw => ?_⟩
      · simp only
        omega
      · exact leads_of_turn hrest ((turn_of_lookAhead hreturn hlook).trans hdraw) hleads
  · have hlooked := hfollows.looked hm
    obtain ⟨-, hoffset, hbreak⟩ := hlooked.counters hrest hshort
    have hlook := @lookAhead_of_offset font framebuffer 0 s (by omega)
    exact ⟨m, s, hlooked, hrest, rfl, rfl, (hbreak hc).1, rfl, hx, fun hfresh => absurd hfresh hm,
      fun _ => rfl, fun s' hdraw =>
        leads_of_turn hrest ((turn_of_lookAhead hreturn hlook).trans hdraw) hleads⟩

theorem segment_lineFeed (h : AtBreak font framebuffer string before m s)
    (hrest : s.rest = lineFeed :: rest) (hlt : s.startX < 2 ^ 31)
    (hleads : Leads font framebuffer 0 s last) :
    ∃ s', Segment font framebuffer string s last [] s' := by
  have hwhite := isWhitespace_lineFeed
  have hwide := @wideAdvance_whitespace font framebuffer _ rest hwhite
  have hrestLe := h.rest_le
  rw [hrest, hwide] at hrestLe
  obtain ⟨m₁, s₁, hat⟩ := exists_lookedAt hrest hwhite (by decide) h.follows h.startX_nonneg hlt hleads
  have hshort := length_wordOf_whitespace hat.rest_eq hwhite
  have hnext := hat.leads _ (drawChar_lineFeed hat.looked hat.rest_eq hshort)
  have hfollows := @follows_lineEnded font 0 _ _ rest hat.looked hat.rest_eq hshort
  have hposition : s₁.position = before.length := hat.position.trans h.position
  have hnewline : Mode.fresh.afterAll (before ++ [lineFeed]) = .newline := by
    rw [Mode.afterAll_append]
    rfl
  have hdrawn : (lineEnded font 0 s₁ rest).drawn = s.drawn ++ [] :=
    hat.drawn.trans (List.append_nil _).symm
  by_cases hspace : rest.head? = some space
  · -- one space is skipped
    obtain ⟨rest', rfl⟩ := List.head?_eq_some_iff.mp hspace
    have hwhite' := isWhitespace_space
    have hwide' := @wideAdvance_whitespace font framebuffer _ rest' hwhite'
    rw [hwide'] at hrestLe
    have hend : (lineEnded font 0 s₁ (space :: rest')).rest = rest' := by simp [lineEnded, newLine]
    have hplace : (lineEnded font 0 s₁ (space :: rest')).position = s.position + 2 := by
      simp [lineEnded, newLine, hat.position]
    refine ⟨_, hnext, hdrawn, ?_, by simp, ⟨before ++ [lineFeed] ++ [space], .line, ?_⟩, ?_⟩
    · rw [hend, hrest]
      simp only [List.length_cons]
      omega
    · refine ⟨?_, ?_, hfollows, Or.inl ?_, ?_, fun _ => rfl, le_rfl, ?_, ?_⟩
      · rw [hend, h.string_snoc hrest]
        simp
      · rw [hplace, h.position]
        simp
      · rw [Mode.afterAll_append, hnewline]
        rfl
      · exact fun _ => forall_mem_getLast_concat hwhite'
      · have hzero : (lineEnded font 0 s₁ (space :: rest')).startX = 0 := rfl
        rw [hend, hzero, if_neg (by decide)]
        omega
      · rw [hend]
        exact hrestLe
    · intro before' word after hword hfits hge hlt'
      have hne := h.not_word hrest hwhite hword
      rw [hplace] at hlt'
      obtain ⟨-, -, hwordOf⟩ := hword.eq_of_length (h.string_snoc hrest)
        (by rw [List.length_append, List.length_singleton, ← h.position]; omega)
      rw [wordOf_cons_whitespace hwhite'] at hwordOf
      exact absurd hwordOf hword.ne_nil
  · have hend : (lineEnded font 0 s₁ rest).rest = rest := by simp [lineEnded, newLine, hspace]
    have hplace : (lineEnded font 0 s₁ rest).position = s.position + 1 := by
      simp [lineEnded, newLine, hspace, hat.position]
    refine ⟨_, hnext, hdrawn, ?_, by simp, ⟨before ++ [lineFeed], .line, ?_⟩, ?_⟩
    · rw [hend, hrest]
      exact Nat.lt_succ_self _
    · refine ⟨?_, ?_, hfollows, Or.inr ⟨rfl, hnewline, ?_⟩, ?_, fun _ => rfl, le_rfl, ?_, ?_⟩
      · rw [hend]
        exact h.string_snoc hrest
      · rw [hplace, h.position]
        simp
      · rw [hend]
        exact hspace
      · exact fun _ => forall_mem_getLast_concat hwhite
      · have hzero : (lineEnded font 0 s₁ rest).startX = 0 := rfl
        rw [hend, hzero, if_neg (by decide)]
        omega
      · rw [hend]
        exact hrestLe
    · intro before' word after hword hfits hge hlt'
      have hne := h.not_word hrest hwhite hword
      rw [hplace] at hlt'
      omega

/-- Behind a space or a tab the next word is measured. -/
theorem after_of_space (h : Looked m s) (hc : IsWhitespace c) (hreturn : c ≠ carriageReturn)
    (hfeed : c ≠ lineFeed) : m.after c = .fresh := by
  cases m with
  | fresh => exact absurd h id
  | word => simp [Mode.after, hfeed, hreturn, hc]
  | carried => simp [Mode.after, hfeed, hreturn]
  | line => simp [Mode.after, hfeed, hreturn]
  | newline => exact absurd h id

/-- A space or a tab is drawn. -/
theorem segment_space (hcomplete : Complete font) (h : AtBreak font framebuffer string before m s)
    (hcolumns : framebuffer.width + 2 ^ 16 + wideAdvance font framebuffer string < 2 ^ 31)
    (hrest : s.rest = c :: rest) (hc : IsWhitespace c) (hreturn : c ≠ carriageReturn)
    (hfeed : c ≠ lineFeed) (hlt : s.startX < 2 ^ 31)
    (hleads : Leads font framebuffer 0 s last) :
    ∃ row s', Segment font framebuffer string s last row s' := by
  have hwide := @wideAdvance_whitespace font framebuffer _ rest hc
  have hle := h.startX_le
  have hrestLe := h.rest_le
  rw [hrest, hwide] at hle hrestLe
  obtain ⟨m₁, s₁, hat⟩ := exists_lookedAt hrest hc hreturn h.follows h.startX_nonneg hlt hleads
  have hshort := length_wordOf_whitespace hat.rest_eq hc
  have hbreak : s₁.breakAfterChar ≠ 1 := by
    rw [hat.unbroken]
    decide
  obtain ⟨glyph, hglyph, -, hpos, hadvance⟩ := hcomplete.drawnGlyph c
  have hnext := hat.leads _
    (drawChar_drawn hcomplete.ne_nil hat.looked hat.rest_eq hshort hbreak hfeed hglyph)
  have hfollows := follows_drawnAt hat.looked hat.rest_eq hbreak hreturn hfeed glyph
  have hfresh : m.after c = .fresh := by
    rw [← hat.after]
    exact after_of_space hat.looked hc hreturn hfeed
  rw [hat.after, hfresh] at hfollows
  -- the column is inside of the screen, or no further than a word has left it
  have hx : s₁.startX + wideAdvance font framebuffer rest ≤
      framebuffer.width + wideAdvance font framebuffer string := by
    by_cases hm : m = .fresh
    · have hinside := hat.startX_le hm
      omega
    · rw [if_neg hm] at hle
      rw [hat.startX_eq hm]
      omega
  have hnonneg := @Complete.wideAdvance_nonneg font framebuffer hcomplete rest
  have hstart := @drawnAt_startX s₁ rest hat.startX_nonneg glyph hpos (by omega)
  have hx0 := hat.startX_nonneg
  refine ⟨[⟨s₁.position, glyph, s₁.startX, s₁.startY⟩], _, hnext, ?_, ?_, ?_,
    ⟨before ++ [c], .fresh, ?_⟩, ?_⟩
  · simp only [drawnAt, hat.drawn]
  · simp only [drawnAt, hrest, List.length_cons]
    omega
  · intro d hd
    rw [List.mem_singleton.mp hd]
    simp only [drawnAt, hat.position]
    omega
  · refine ⟨h.string_snoc hrest, ?_, hfollows, Or.inl ?_, ?_, fun hline => absurd hline (by decide), ?_, ?_,
      hrestLe⟩
    · simp [drawnAt, hat.position, h.position]
    · rw [← h.next_mode hrest, hfresh]
    · exact fun _ => forall_mem_getLast_concat hc
    · rw [hstart]
      omega
    · rw [hstart, if_pos rfl]
      simp only [drawnAt]
      omega
  · intro before' word after hword hfits hge hlt'
    have hne := h.not_word hrest hc hword
    simp only [drawnAt, hat.position] at hlt'
    omega

/-- The word that comes next is one of the string. -/
theorem AtBreak.isWord (h : AtBreak font framebuffer string before m s) (hne : wordOf s.rest ≠ [])
    (hshort : ShortWords string) : ∃ after, IsWord string before (wordOf s.rest) after ∧
      AtWord s (wordOf s.rest) after := by
  obtain ⟨after, hafter⟩ := @wordOf_isPrefix s.rest
  have hwhite : ∀ c ∈ after.head?, IsWhitespace c := by
    intro c hc
    by_contra hcw
    obtain ⟨after', rfl⟩ := List.head?_eq_some_iff.mp hc
    have hlonger : wordOf (wordOf s.rest ++ c :: after') = wordOf s.rest ++ wordOf (c :: after') :=
      wordOf_append fun _ => not_isWhitespace_of_mem
    rw [hafter, wordOf_cons hcw] at hlonger
    have hlength := congrArg List.length hlonger
    rw [List.length_append, List.length_cons] at hlength
    omega
  have hsuffix : s.rest <:+ string := ⟨before, h.string_eq.symm⟩
  exact ⟨after, ⟨by rw [hafter, ← h.string_eq], hne, fun _ => not_isWhitespace_of_mem, h.word hne,
    hwhite⟩, ⟨hafter.symm, fun _ => not_isWhitespace_of_mem, wordOf_of_head hwhite,
    hshort.wordOf hsuffix⟩⟩

theorem Mode.afterAll_of_word (hword : ∀ c ∈ word, ¬ IsWhitespace c) (hne : word ≠ []) :
    m.afterAll word = .word ∨ m.afterAll word = .fresh := by
  obtain ⟨c, word, rfl⟩ := List.exists_cons_of_ne_nil hne
  obtain ⟨hc, hword⟩ := List.forall_mem_cons.mp hword
  have hcons : m.afterAll (c :: word) = (m.after c).afterAll word := rfl
  rw [hcons, Mode.after_of_word hc]
  split_ifs
  · exact Or.inl (Mode.afterAll_word hword)
  · cases word with
    | nil => exact Or.inr rfl
    | cons d word =>
      exact Or.inl (Mode.afterAll_measures (List.cons_ne_nil _ _) hword (Or.inl rfl))

/-- The mode behind a word. -/
theorem AtBreak.afterAll_word (h : AtBreak font framebuffer string before m s)
    (hword : ∀ c ∈ word, ¬ IsWhitespace c) (hne : word ≠ []) :
    m.afterAll word = Mode.fresh.afterAll (before ++ word) := by
  rw [Mode.afterAll_append]
  rcases h.mode with hm | ⟨hline, hnewline, -⟩
  · rw [← hm]
  · obtain ⟨c, word, rfl⟩ := List.exists_cons_of_ne_nil hne
    have hc := hword c List.mem_cons_self
    have hcons : ∀ m : Mode, m.afterAll (c :: word) = (m.after c).afterAll word := fun _ => rfl
    rw [hnewline, hline, hcons, hcons, Mode.after_of_word hc, Mode.after_of_word hc]
    rfl

/-- What is drawn of a word is drawn up to the next break. -/
theorem segment_of_passes (hcomplete : Complete font)
    (h : AtBreak font framebuffer string before m s) (hword : IsWord string before word after)
    (hat : AtWord s word after) {bound : ℤ} {row : List Drawn} {s' : RenderState}
    (hpasses : Passes font framebuffer bound m s last word after row s')
    (hbound : bound + wideAdvance font framebuffer after ≤
      framebuffer.width + wideAdvance font framebuffer string)
    (honLine : font.totalAdvance word ≤ framebuffer.width →
      OnLine font framebuffer before.length word row) :
    Segment font framebuffer string s last row s' := by
  have hwide := @wideAdvance_word font framebuffer word after hat.not_whitespace hat.wordOf_after
  have hexcess := @Complete.excess_nonneg font framebuffer hcomplete word
  have hpos : 0 < word.length := List.length_pos_iff.mpr hword.ne_nil
  have hrestLe := h.rest_le
  rw [hat.rest, hwide] at hrestLe
  refine ⟨hpasses.leads, hpasses.drawn, ?_, fun d hd => ?_, ⟨before ++ word, m.afterAll word, ?_⟩, ?_⟩
  · rw [hpasses.rest, hat.rest, List.length_append]
    omega
  · rw [hpasses.position]
    exact hpasses.positions d hd
  · refine ⟨?_, ?_, hpasses.follows, Or.inl (h.afterAll_word hword.not_whitespace hword.ne_nil), ?_,
      ?_, hpasses.columns.1, ?_, ?_⟩
    · rw [hpasses.rest, List.append_assoc]
      exact hword.string_eq
    · rw [hpasses.position, h.position, List.length_append]
    · rw [hpasses.rest]
      exact fun hne => absurd hat.wordOf_after hne
    · intro hline
      rcases @Mode.afterAll_of_word m word hword.not_whitespace hword.ne_nil with hm | hm
      · exact nomatch hline.symm.trans hm
      · exact nomatch hline.symm.trans hm
    · have hright := hpasses.columns.2
      rw [hpasses.rest]
      split_ifs <;> omega
    · rw [hpasses.rest]
      omega
  · intro before' word' after' hword' hfits hge hlt
    rw [hpasses.position] at hlt ⊢
    have hposition := h.position
    have hlength : before'.length = before.length := by
      by_contra hne
      have hle := hword'.le_start hword.string_eq hword.not_whitespace (by omega)
      omega
    obtain ⟨-, -, hword₁⟩ := hword'.eq_of_length h.string_eq hlength
    obtain rfl : word' = word := hword₁.trans hat.wordOf_rest
    rw [hlength]
    exact ⟨by omega, honLine hfits⟩

/-- A word is not behind another one. -/
theorem AtBreak.ne_word (h : AtBreak font framebuffer string before m s)
    (hbefore : ∀ c ∈ before.getLast?, IsWhitespace c) : m ≠ .word := by
  rintro rfl
  rcases h.mode with hm | ⟨hline, -⟩
  · rcases List.eq_nil_or_concat before with rfl | ⟨before', c, rfl⟩
    · cases hm
    · rw [List.concat_eq_append, Mode.afterAll_append] at hm
      refine (Mode.of_after_word hm.symm).2 (hbefore c ?_)
      rw [List.concat_eq_append, List.getLast?_concat]
      rfl
  · cases hline

/-- A word that is not wider than the screen is drawn in one row. -/
theorem placed_word (hcomplete : Complete font) (hmeasures : MeasuresWords font framebuffer string)
    (h : AtBreak font framebuffer string before m s) (hword : IsWord string before word after)
    (hat : AtWord s word after) (hlt : s.startX < 2 ^ 31)
    (hfits : font.totalAdvance word ≤ framebuffer.width) (hleads : Leads font framebuffer 0 s last) :
    Placed font framebuffer m s last word after := by
  have hwidth : framebuffer.width < 2 ^ 31 := by
    have hcolumns := hmeasures.columns
    have hnonneg := @Complete.wideAdvance_nonneg font framebuffer hcomplete string
    omega
  have hmode := h.mode
  have hfollows := h.follows
  have hx := h.startX_nonneg
  have hline := h.line
  have hnotWord := h.ne_word hword.before_ends
  obtain ⟨c, word, rfl⟩ := List.exists_cons_of_ne_nil hword.ne_nil
  cases m with
  | word => exact absurd rfl hnotWord
  | newline => exact absurd hfollows id
  | carried =>
    rcases hmode with hm | ⟨hm, -⟩
    · exact absurd hm.symm (hmeasures.apart _ _ _ hword hfits)
    · cases hm
  | line => exact placed_line hcomplete hat hfollows (hline rfl) hwidth hfits hleads
  | fresh =>
    rcases hmode with hm | ⟨hm, -⟩
    · have hfound := hmeasures.found _ _ _ hword hfits (hm ▸ Or.inl rfl)
      obtain ⟨pixels, hmeasure, hle, heq⟩ :=
        @measureLoop_length font framebuffer (c :: word) hcomplete 0 0 (by omega)
      have hexact := heq hfound
      exact placed_measured hcomplete hat hfollows hx hlt hwidth hfits hmeasure (by omega)
        (fun hhere => by omega) hleads
    · cases hm

theorem segment_word (hcomplete : Complete font) (hmeasures : MeasuresWords font framebuffer string)
    (h : AtBreak font framebuffer string before m s) (hne : wordOf s.rest ≠ [])
    (hlt : s.startX < 2 ^ 31) (hleads : Leads font framebuffer 0 s last) :
    ∃ row s', Segment font framebuffer string s last row s' := by
  obtain ⟨after, hword, hat⟩ := h.isWord hne hmeasures.short
  obtain ⟨word, hwordOf⟩ : ∃ word, word = wordOf s.rest := ⟨_, rfl⟩
  rw [← hwordOf] at hword hat
  have hwide := @wideAdvance_word font framebuffer word after hat.not_whitespace hat.wordOf_after
  have hexcess := @Complete.excess_nonneg font framebuffer hcomplete word
  have hafter := @Complete.wideAdvance_nonneg font framebuffer hcomplete after
  have hle := h.startX_le
  have hrestLe := h.rest_le
  rw [hat.rest, hwide] at hle hrestLe
  by_cases hfits : font.totalAdvance word ≤ framebuffer.width
  · obtain ⟨x, y, s', hx, hright, hpasses⟩ :=
      placed_word hcomplete hmeasures h hword hat hlt hfits hleads
    refine ⟨_, s', segment_of_passes hcomplete h hword hat hpasses (by omega) fun _ => ?_⟩
    rw [← h.position]
    exact onLine_rowOf hcomplete hx hright
  · obtain ⟨fuel, hlast⟩ := hleads
    have hcolumns := hmeasures.columns
    have hexcessEq : excess font framebuffer word = font.totalAdvance word + 2 ^ 15 :=
      if_pos (not_le.mp hfits)
    have hbound : s.startX + font.totalAdvance word + wideAdvance font framebuffer after ≤
        framebuffer.width + wideAdvance font framebuffer string := by
      rw [hexcessEq] at hle
      split_ifs at hle <;> omega
    obtain ⟨row, s', hpasses⟩ := exists_passes hcomplete fuel (by omega) hat h.follows
      h.startX_nonneg le_rfl hlast
    exact ⟨row, s', segment_of_passes hcomplete h hword hat hpasses hbound fun hle' =>
      absurd hle' hfits⟩

/-- The loop comes from every break to the next one. -/
theorem exists_segment (hcomplete : Complete font) (hmeasures : MeasuresWords font framebuffer string)
    (h : AtBreak font framebuffer string before m s) (hne : s.rest ≠ [])
    (hleads : Leads font framebuffer 0 s last) :
    ∃ row s', Segment font framebuffer string s last row s' := by
  have hcolumns := hmeasures.columns
  have hnonneg := @Complete.wideAdvance_nonneg font framebuffer hcomplete s.rest
  have hle := h.startX_le
  have hlt : s.startX < 2 ^ 31 := by
    split_ifs at hle <;> omega
  obtain ⟨c, rest, hrest⟩ := List.exists_cons_of_ne_nil hne
  by_cases hc : IsWhitespace c
  · by_cases hreturn : c = carriageReturn
    · subst hreturn
      exact ⟨[], segment_carriageReturn h hrest hleads⟩
    · by_cases hfeed : c = lineFeed
      · subst hfeed
        exact ⟨[], segment_lineFeed h hrest hlt hleads⟩
      · exact segment_space hcomplete h hcolumns hrest hc hreturn hfeed hlt hleads
  · refine segment_word hcomplete hmeasures h ?_ hlt hleads
    rw [hrest, wordOf_cons hc]
    exact List.cons_ne_nil _ _

/-- What is drawn from a break on: glyphs of the characters behind it, with every word that is
not wider than the screen on one line. -/
theorem drawn_from (hcomplete : Complete font) (hmeasures : MeasuresWords font framebuffer string)
    (h : AtBreak font framebuffer string before m s) (hleads : Leads font framebuffer 0 s last) :
    ∃ more, last.drawn = s.drawn ++ more ∧ (∀ d ∈ more, s.position ≤ d.position) ∧
      ∀ before word after, IsWord string before word after →
        font.totalAdvance word ≤ framebuffer.width → s.position ≤ before.length →
          OnLine font framebuffer before.length word more := by
  obtain ⟨n, hn⟩ : ∃ n, s.rest.length = n := ⟨_, rfl⟩
  induction n using Nat.strong_induction_on generalizing before m s with
  | _ n ih =>
  by_cases hrest : s.rest = []
  · refine ⟨[], ?_, by simp, fun before' word after hword _ hge => ?_⟩
    · obtain ⟨fuel, hlast⟩ := hleads
      rw [renderLoop_nil hrest hlast, List.append_nil]
    · have hlength := congrArg List.length (h.string_eq.symm.trans hword.string_eq)
      have hpos : 0 < word.length := List.length_pos_iff.mpr hword.ne_nil
      have hposition := h.position
      rw [hrest] at hlength
      simp only [List.length_append, List.length_nil] at hlength
      omega
  · obtain ⟨row, s', hsegment⟩ := exists_segment hcomplete hmeasures h hrest hleads
    obtain ⟨before', m', h'⟩ := hsegment.atBreak
    obtain ⟨more, hmore, hpositions, hwords⟩ :=
      ih s'.rest.length (hn ▸ hsegment.shorter) h' hsegment.leads rfl
    have hforward : s.position < s'.position := by
      have hlength := congrArg List.length (h.string_eq.symm.trans h'.string_eq)
      have hshorter := hsegment.shorter
      rw [List.length_append, List.length_append, ← h.position, ← h'.position] at hlength
      omega
    refine ⟨row ++ more, ?_, fun d hd => ?_, fun before word after hword hfits hge => ?_⟩
    · rw [hmore, hsegment.drawn, List.append_assoc]
    · rcases List.mem_append.mp hd with hd | hd
      · exact (hsegment.positions d hd).1
      · exact hforward.le.trans (hpositions d hd)
    · by_cases hhere : before.length < s'.position
      · obtain ⟨hend, honLine⟩ := hsegment.words before word after hword hfits hge hhere
        exact honLine.append fun d hd => hend.trans (hpositions d hd)
      · have honLine := hwords before word after hword hfits (not_lt.mp hhere)
        exact honLine.prepend fun d hd => (hsegment.positions d hd).2.trans_le (not_lt.mp hhere)

end Segments

section Example

theorem ten_lt : 10 < 2 ^ 32 := by decide

theorem forty_lt : 40 < 2 ^ 32 := by decide

/-- A screen that is ten columns wide. -/
def tenWide : FramebufferLayout := ⟨10, 10, 40, ten_lt, ten_lt, forty_lt⟩

/-- The letter A and the replacement character, five columns each. -/
def fiveWide : BMFont := whiteFont [block 65 5, block 0xFFFD 5] (by decide)

theorem complete_fiveWide : Complete fiveWide := by
  refine ⟨fun char hchar => ?_, by decide⟩
  have hmem : char = block 65 5 ∨ char = block 0xFFFD 5 := by
    simpa [fiveWide, whiteFont] using hchar
  rcases hmem with rfl | rfl <;> decide

theorem isWord_letter {before word after : List UInt16} (h : IsWord [65] before word after) :
    before = [] ∧ word = [65] := by
  have hlength := congrArg List.length h.string_eq
  have hpos : 0 < word.length := List.length_pos_iff.mpr h.ne_nil
  simp only [List.length_append, List.length_cons, List.length_nil] at hlength
  obtain rfl : before = [] := List.length_eq_zero_iff.mp (by omega)
  obtain rfl : after = [] := List.length_eq_zero_iff.mp (by omega)
  exact ⟨rfl, by simpa using h.string_eq.symm⟩

theorem measuresWords_letter : MeasuresWords fiveWide tenWide [65] where
  short word hword _ := by
    have hlength := hword.length_le
    simp only [List.length_cons, List.length_nil] at hlength
    omega
  apart before word after hword _ := by
    rw [(isWord_letter hword).1]
    decide
  found before word after hword _ _ c hc := by
    rw [(isWord_letter hword).2] at hc
    rw [List.mem_singleton.mp hc]
    decide
  columns := by
    have hwide : wideAdvance fiveWide tenWide [65] = 0 := by decide
    rw [hwide]
    decide

theorem renders_letter : ∃ last, Renders fiveWide tenWide 0 [65] 0 0 last :=
  ⟨_, 2, rfl⟩

end Example

end Enkel.Fonts
