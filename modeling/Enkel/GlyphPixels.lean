import Enkel.GlyphTable
import Enkel.PixelRows

/-!
How a character is drawn: its pixels are taken from a channel of the texture of its page, and
those that are not zero are written to the framebuffer, column by column. What lies outside
of the framebuffer is skipped before the position is computed.
-/
namespace Enkel.Fonts

open Framebuffer

structure BMFontColor where
  red : UInt8
  green : UInt8
  blue : UInt8
deriving DecidableEq, Repr

/-- The bits of a word of the texture that belong to a channel, and where they start. -/
def channelMask (channel : UInt8) : UInt32 × UInt32 :=
  if channel = 1 then (0x000000FF, 0)
  else if channel = 2 then (0x0000FF00, 8)
  else if channel = 4 then (0x00FF0000, 16)
  else if channel = 8 then (0xFF000000, 24)
  else (0xFFFFFF00, 0)

section RenderGlyph
variable (font : BMFont) (glyph : BMFontChar) (framebuffer : FramebufferLayout)
  (startX startY : ℤ) (color : BMFontColor)

/-- The value of a pixel of a character. -/
def glyphChannel (glyphX glyphY : ℕ) : UInt32 :=
  let readPos := ((glyphY + glyph.y.toNat) * font.scaleW.toNat + glyphX + glyph.x.toNat) % 2 ^ 32
  (font.pageTexture glyph.page readPos &&& (channelMask glyph.channel).1) >>>
    (channelMask glyph.channel).2

def glyphColor (channel : UInt32) : UInt32 :=
  let redChannel := color.red.toUInt32 * channel / 255
  let greenChannel := color.green.toUInt32 * channel / 255
  let blueChannel := color.blue.toUInt32 * channel / 255
  blueChannel ||| (greenChannel <<< 8) ||| (redChannel <<< 16)

/-- BMFont_RenderGlyph: the positions that it writes, and the colors. -/
def renderGlyph : List (ℕ × UInt32) :=
  (List.range glyph.width.toNat).flatMap fun (glyphX : ℕ) =>
    if int32 (glyphX + startX) < 0 then []
    else if int32 (glyphX + startX) ≥ int32 framebuffer.width then []
    else (List.range glyph.height.toNat).flatMap fun (glyphY : ℕ) =>
      if int32 (glyphY + startY) < 0 then []
      else if int32 (glyphY + startY) ≥ int32 framebuffer.height then []
      else if glyphChannel font glyph glyphX glyphY ≠ 0 then
        [(uint32 (int32 (glyphY + startY) * framebuffer.quadPitch + glyphX + startX),
          glyphColor color (glyphChannel font glyph glyphX glyphY))]
      else []

/-- A pixel of the character that is not zero is shifted to a pixel of the framebuffer. -/
structure Shifted (glyphX glyphY position : ℕ) : Prop where
  x_lt : glyphX < glyph.width.toNat
  y_lt : glyphY < glyph.height.toNat
  set : glyphChannel font glyph glyphX glyphY ≠ 0
  pixel : framebuffer.Pixel (glyphY + startY) (glyphX + startX) position

end RenderGlyph

/-- Which positions are written, by the tests of the loops. -/
theorem mem_renderGlyph {font : BMFont} {glyph : BMFontChar} {framebuffer : FramebufferLayout}
    {startX startY : ℤ} {color : BMFontColor} {w : ℕ × UInt32} :
    w ∈ renderGlyph font glyph framebuffer startX startY color ↔
      ∃ glyphX < glyph.width.toNat, (¬ int32 (glyphX + startX) < 0 ∧
          ¬ int32 (glyphX + startX) ≥ int32 framebuffer.width) ∧
        ∃ glyphY < glyph.height.toNat, (¬ int32 (glyphY + startY) < 0 ∧
          ¬ int32 (glyphY + startY) ≥ int32 framebuffer.height) ∧
        glyphChannel font glyph glyphX glyphY ≠ 0 ∧
        w = (uint32 (int32 (glyphY + startY) * framebuffer.quadPitch + glyphX + startX),
          glyphColor color (glyphChannel font glyph glyphX glyphY)) := by
  unfold renderGlyph
  simp only [List.mem_flatMap, List.mem_range, List.mem_ite_nil_left, List.mem_ite_nil_right,
    List.mem_singleton, and_assoc]

/-- BMFont_RenderGlyph writes pixels of the framebuffer only, and they are the pixels of the
character that are not zero, shifted and clipped. -/
theorem renderGlyph_pixels (font : BMFont) (glyph : BMFontChar) (framebuffer : FramebufferLayout)
    (startX startY : ℤ) (color : BMFontColor)
    (hwidth : framebuffer.width ≤ framebuffer.pitch / 4)
    (hsize : framebuffer.height * (framebuffer.pitch / 4) < 2 ^ 31)
    (hx : -2 ^ 31 ≤ startX ∧ startX + glyph.width.toNat ≤ 2 ^ 31)
    (hy : -2 ^ 31 ≤ startY ∧ startY + glyph.height.toNat ≤ 2 ^ 31) :
    (∀ w ∈ renderGlyph font glyph framebuffer startX startY color,
      ∃ row column, framebuffer.Pixel row column w.1 ∧
        w.1 < framebuffer.height * (framebuffer.pitch / 4)) ∧
    ∀ w, w ∈ renderGlyph font glyph framebuffer startX startY color ↔
      ∃ glyphX glyphY, Shifted font glyph framebuffer startX startY glyphX glyphY w.1 ∧
        w.2 = glyphColor color (glyphChannel font glyph glyphX glyphY) := by
  have hwide : framebuffer.width ≤ framebuffer.quadPitch := hwidth
  have hmem : ∀ w, w ∈ renderGlyph font glyph framebuffer startX startY color ↔
      ∃ glyphX glyphY, Shifted font glyph framebuffer startX startY glyphX glyphY w.1 ∧
        w.2 = glyphColor color (glyphChannel font glyph glyphX glyphY) := by
    intro w
    rw [mem_renderGlyph]
    constructor
    · rintro ⟨glyphX, hxlt, hcolumn, glyphY, hylt, hrow, hset, rfl⟩
      rw [column_iff hwidth (by omega) (by omega)] at hcolumn
      rw [row_iff hsize (by omega) (by omega) (by omega)] at hrow
      rw [int32_of_between (by omega) (by omega), add_assoc]
      exact ⟨glyphX, glyphY, ⟨hxlt, hylt, hset, (pixel_iff hwidth hsize).mpr ⟨hrow, hcolumn, rfl⟩⟩,
        rfl⟩
    · rintro ⟨glyphX, glyphY, ⟨hxlt, hylt, hset, hpixel⟩, hcolor⟩
      obtain ⟨hrow, hcolumn, hposition⟩ := (pixel_iff hwidth hsize).mp hpixel
      refine ⟨glyphX, hxlt, (column_iff hwidth (by omega) (by omega)).mpr hcolumn, glyphY, hylt,
        (row_iff hsize (by omega) (by omega) (by omega)).mpr hrow, hset, ?_⟩
      rw [int32_of_between (by omega) (by omega), add_assoc]
      exact Prod.ext hposition hcolor
  refine ⟨fun w hw => ?_, hmem⟩
  obtain ⟨glyphX, glyphY, hshifted, -⟩ := (hmem w).mp hw
  exact ⟨_, _, hshifted.pixel, hshifted.pixel.position_lt hwidth⟩

/-- A character at the left edge, of which one column is cut off. -/
theorem renderGlyph_pixels_left :
    (∀ w ∈ renderGlyph (whiteFont [block 65 3] (by decide)) (block 65 3)
        ⟨4, 2, 20, by decide, by decide, by decide⟩ (-1) 1 ⟨255, 0, 0⟩,
      ∃ row column, FramebufferLayout.Pixel ⟨4, 2, 20, by decide, by decide, by decide⟩ row column
          w.1 ∧ w.1 < 2 * (20 / 4)) ∧
    ∀ w, w ∈ renderGlyph (whiteFont [block 65 3] (by decide)) (block 65 3)
        ⟨4, 2, 20, by decide, by decide, by decide⟩ (-1) 1 ⟨255, 0, 0⟩ ↔
      ∃ glyphX glyphY, Shifted (whiteFont [block 65 3] (by decide)) (block 65 3)
          ⟨4, 2, 20, by decide, by decide, by decide⟩ (-1) 1 glyphX glyphY w.1 ∧
        w.2 = glyphColor ⟨255, 0, 0⟩ (glyphChannel (whiteFont [block 65 3] (by decide))
          (block 65 3) glyphX glyphY) :=
  renderGlyph_pixels _ _ _ _ _ _ (by decide) (by decide) (by decide) (by decide)

end Enkel.Fonts
