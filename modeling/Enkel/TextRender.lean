import Enkel.GlyphTable
import Enkel.PixelRows

/-!
How a string is drawn: BMFont_Render. Where a word begins, the word is measured, and the line
is ended before it when it does not fit behind what is there. A word that is wider than the
screen is broken: BreakAfterChar counts the characters up to the break, NextOffset those up to
the end of the word. The word is measured without the characters that the font does not have,
which are drawn as 0xFFFD.
-/
namespace Enkel.Fonts

open Outcome Framebuffer

abbrev space : UInt16 := 0x20
abbrev tab : UInt16 := 0x09
abbrev carriageReturn : UInt16 := 0x0D
abbrev lineFeed : UInt16 := 0x0A

/-- The characters that IndexOfWhitespace stops at. -/
def IsWhitespace (c : UInt16) : Prop := c = space ∨ c = tab ∨ c = carriageReturn ∨ c = lineFeed

instance (c : UInt16) : Decidable (IsWhitespace c) := inferInstanceAs (Decidable (_ ∨ _))

/-- The loop of IndexOfWhitespace. The index is a uint32_t: behind the last one it is at the
start of the string again. -/
def whitespaceLoop : (rest : List UInt16) → (index : ℕ) → Except Fault ℕ
  | [], _ => .ok (2 ^ 64 - 1)
  | c :: rest, index =>
    if IsWhitespace c then .ok index
    else if index + 1 < 2 ^ 32 then whitespaceLoop rest (index + 1)
    else .error .endless

/-- IndexOfWhitespace with the offset 0; the largest size_t is -1. -/
def indexOfWhitespace (input : List UInt16) : Except Fault ℕ := whitespaceLoop input 0

/-- A glyph that is drawn for the character at a position of the string, and the column and
the row that its offsets are added to. -/
structure Drawn where
  position : ℕ
  glyph : BMFontChar
  x : ℤ
  y : ℤ
deriving DecidableEq, Repr

/-- The variables of BMFont_Render: the string from a position on, and what is drawn. -/
structure RenderState where
  rest : List UInt16
  position : ℕ
  startX : ℤ
  startY : ℤ
  nextOffset : ℤ
  breakAfterChar : ℤ
  drawn : List Drawn

/-- How a turn of the loop ends. -/
inductive Turn
  | next (s : RenderState)
  | done (s : RenderState)

/-- How the loop that measures a word ends. -/
inductive Measured
  | wide (advanceChar : ℕ)
  | length (pixels : ℕ)
deriving DecidableEq, Repr

section Render
variable (font : BMFont) (framebuffer : FramebufferLayout) (returnX : ℤ)

/-- The loop that calculates the length of the next word. -/
def measureLoop : (word : List UInt16) → (advanceChar length : ℕ) → Except Fault Measured
  | [], _, length => .ok (.length length)
  | char :: word, advanceChar, length => do
    match ← font.findGlyph char.toUInt32 with
    | none => measureLoop word (advanceChar + 1) length
    | some glyph =>
      if uint32 (length + glyph.xAdvance.toInt) > framebuffer.width then
        return .wide advanceChar
      else
        measureLoop word (advanceChar + 1) (uint32 (length + glyph.xAdvance.toInt))

def newLine (s : RenderState) : RenderState :=
  { s with startX := returnX, startY := int32 (s.startY + font.lineHeight.toNat) }

/-- The look for the end of the next word. The loop goes on at once when a new line is begun
for the word. -/
def lookAhead (s : RenderState) : Except Fault (RenderState × Bool) := do
  if s.nextOffset ≠ -1 then
    return (s, false)
  let index ← indexOfWhitespace s.rest
  let nextOffset := if int32 index = -1 then int32 s.rest.length else int32 index
  match ← measureLoop font framebuffer (s.rest.take nextOffset.toNat) 0 0 with
  | .wide advanceChar =>
    return ({ s with nextOffset := nextOffset, breakAfterChar := advanceChar }, false)
  | .length pixels =>
    if uint32 (s.startX + pixels) > framebuffer.width ∧ ¬ pixels > framebuffer.width then
      return (newLine font returnX { s with nextOffset := nextOffset }, true)
    else
      return ({ s with nextOffset := nextOffset }, false)

/-- The glyph of a character, or else of 0xFFFD. -/
def glyphFor (char : UInt16) : Except Fault (Option BMFontChar) := do
  match ← font.findGlyph char.toUInt32 with
  | some glyph => return some glyph
  | none => font.findGlyph 0xFFFD

/-- What follows the label escapeLongString. -/
def drawChar (s : RenderState) (char : UInt16) (rest : List UInt16) : Except Fault Turn := do
  if s.breakAfterChar ≠ -1 ∧ int32 (s.breakAfterChar - 1) = 0 then
    return .next (newLine font returnX { s with breakAfterChar := -1, nextOffset := -1 })
  let breakAfterChar :=
    if s.breakAfterChar ≠ -1 then int32 (s.breakAfterChar - 1) else s.breakAfterChar
  if char = lineFeed then
    let skipped := if rest.head? = some space then 1 else 0
    return .next (newLine font returnX { s with
      breakAfterChar := -1, rest := rest.drop skipped, position := s.position + 1 + skipped })
  match ← glyphFor font char with
  | none => return .done { s with breakAfterChar := breakAfterChar }
  | some glyph =>
    return .next
      { rest, position := s.position + 1,
        startX := int32 (s.startX + glyph.xAdvance.toInt), startY := s.startY,
        nextOffset := if s.nextOffset ≠ -1 then int32 (s.nextOffset - 1) else s.nextOffset,
        breakAfterChar := breakAfterChar,
        drawn := s.drawn ++ [⟨s.position, glyph, s.startX, s.startY⟩] }

/-- A turn of the loop at a character. -/
def turn (s : RenderState) (char : UInt16) (rest : List UInt16) : Except Fault Turn := do
  if char = carriageReturn then
    return .next { s with rest := rest, position := s.position + 1 }
  let (s, again) ← lookAhead font framebuffer returnX s
  if again then
    return .next s
  drawChar font returnX s char rest

def renderLoop : (fuel : ℕ) → RenderState → Except Fault RenderState
  | 0, _ => .error .endless
  | fuel + 1, s =>
    match s.rest with
    | [] => .ok s
    | char :: rest => do
      match ← turn font framebuffer returnX s char rest with
      | .next s => renderLoop fuel s
      | .done s => return s

end Render

/-- The variables at the start of BMFont_Render. -/
def RenderState.start (string : List UInt16) (startX startY : ℤ) : RenderState :=
  { rest := string, position := 0, startX, startY, nextOffset := -1, breakAfterChar := -1,
    drawn := [] }

/-- BMFont_Render draws the string with the font and returns. -/
def Renders (font : BMFont) (framebuffer : FramebufferLayout) (returnX : ℤ) (string : List UInt16)
    (startX startY : ℤ) (last : RenderState) : Prop :=
  ∃ fuel, renderLoop font framebuffer returnX fuel (.start string startX startY) = .ok last

end Enkel.Fonts
