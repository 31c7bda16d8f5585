import Enkel.PixelRows

/-!
How a picture is drawn. Its rows are stored from the bottom to the top. The row that is
tested against the framebuffer is the stored one, and the row that is written is the one
below the flipped one.
-/
namespace Enkel.Textures

open Framebuffer

inductive AlignImage
  | topLeft
  | middle
  | rightBottom
deriving DecidableEq, Repr

/-- A picture, by its size and its words, which follow the header of 18 bytes. -/
structure TGAImage where
  width : ℕ
  height : ℕ
  texture : ℕ → UInt32
  width_lt : width < 2 ^ 16
  height_lt : height < 2 ^ 16

/-- What an alignment takes from the position: Left and Top nothing, Right and Bottom the
whole size. -/
def alignOffset (size : ℕ) : AlignImage → ℕ
  | .topLeft => 0
  | .middle => size / 2
  | .rightBottom => size

/-- The arguments of RenderTGA. -/
structure Placement where
  startX : ℤ
  startY : ℤ
  alignX : AlignImage
  alignY : AlignImage
  transparent : Bool

/-- A pixel of the picture and the position where it is drawn. -/
structure Draw where
  x : ℕ
  y : ℕ
  position : ℕ
deriving DecidableEq, Repr

section RenderTGA
variable (framebuffer : FramebufferLayout) (image : TGAImage) (placement : Placement)

/-- The bits of a word that are a color; the others are its transparency. -/
def transparentMask : UInt32 := if placement.transparent then 0x00FFFFFF else 0xFFFFFFFF

def texel (x y : ℕ) : UInt32 := image.texture ((y * image.width + x) % 2 ^ 32)

/-- The color of a pixel, which is drawn if it is not zero. -/
def textureChannel (x y : ℕ) : UInt32 := texel image x y &&& transparentMask placement

/-- The first column and the first row of the rectangle that the alignment selects. -/
def left : ℤ := placement.startX - alignOffset image.width placement.alignX
def top : ℤ := placement.startY - alignOffset image.height placement.alignY

/-- StartX and StartY after the alignment. -/
def alignedX : ℤ := int32 (left image placement)
def alignedY : ℤ := int32 (top image placement)

/-- The loops of RenderTGA, from the last stored row to the first. -/
def draws : List Draw :=
  (List.range image.height).reverse.flatMap fun (y : ℕ) =>
    if int32 (y + alignedY image placement) < 0 then []
    else if int32 (y + alignedY image placement) ≥ int32 framebuffer.height then []
    else (List.range image.width).flatMap fun (x : ℕ) =>
      if int32 (x + alignedX image placement) < 0 then []
      else if int32 (x + alignedX image placement) ≥ int32 framebuffer.width then []
      else if textureChannel image placement x y ≠ 0 then
        [⟨x, y, uint32 (int32 (image.height - y + alignedY image placement) *
          framebuffer.quadPitch + x + alignedX image placement)⟩]
      else []

def blendColourComponent (src dst alpha : UInt8) : UInt8 :=
  UInt8.ofNat ((src.toNat * alpha.toNat + dst.toNat * (255 - alpha.toNat)) / 255)

def applyTransparency (color : UInt32) (alpha : UInt8) (background : UInt32) : UInt32 :=
  let component (shift : UInt32) : UInt32 :=
    (blendColourComponent (color >>> shift).toUInt8 (background >>> shift).toUInt8 alpha).toUInt32
  (component 16 <<< 16) ||| (component 8 <<< 8) ||| component 0

/-- What a pixel does to the word that it is drawn to. -/
def drawnColor (x y : ℕ) (background : UInt32) : UInt32 :=
  let transparency := (texel image x y &&& ~~~ transparentMask placement) >>> 24
  if transparency ≠ 0 then
    applyTransparency (textureChannel image placement x y) transparency.toUInt8 background
  else textureChannel image placement x y

/-- RenderTGA. -/
def renderTGA (words : ℕ → UInt32) : ℕ → UInt32 :=
  (draws framebuffer image placement).foldl (fun words draw =>
    Function.update words draw.position
      (drawnColor image placement draw.x draw.y (words draw.position))) words

/-- The pixels that are to be drawn, flipped inside of the rectangle that the alignment
selects and clipped to the framebuffer. -/
structure Expected (draw : Draw) : Prop where
  x_lt : draw.x < image.width
  y_lt : draw.y < image.height
  set : textureChannel image placement draw.x draw.y ≠ 0
  pixel : framebuffer.Pixel (top image placement + (image.height - 1 - draw.y))
    (left image placement + draw.x) draw.position

/-- What is drawn are the expected pixels, and each of them in its place. -/
def DrawsFlipped : Prop :=
  ∀ draw, draw ∈ draws framebuffer image placement ↔ Expected framebuffer image placement draw

/-- Each pixel that is not zero is left or right of the framebuffer, or both its stored row
and its flipped row are above or below it. -/
def Hidden : Prop :=
  ∀ x < image.width, ∀ y < image.height, textureChannel image placement x y ≠ 0 →
    0 ≤ left image placement + x → left image placement + x < framebuffer.width →
    ¬ (0 ≤ top image placement + y ∧ top image placement + y < int32 framebuffer.height) ∧
    ¬ (0 ≤ top image placement + (image.height - 1 - y) ∧
      top image placement + (image.height - 1 - y) < framebuffer.height)

end RenderTGA

section Draws
variable {framebuffer : FramebufferLayout} {image : TGAImage} {placement : Placement}

/-- Which pixels are drawn, by the tests of the loops. -/
theorem mem_draws {draw : Draw} :
    draw ∈ draws framebuffer image placement ↔
      ∃ y < image.height, (¬ int32 (y + alignedY image placement) < 0 ∧
          ¬ int32 (y + alignedY image placement) ≥ int32 framebuffer.height) ∧
        ∃ x < image.width, (¬ int32 (x + alignedX image placement) < 0 ∧
          ¬ int32 (x + alignedX image placement) ≥ int32 framebuffer.width) ∧
        textureChannel image placement x y ≠ 0 ∧
        draw = ⟨x, y, uint32 (int32 (image.height - y + alignedY image placement) *
          framebuffer.quadPitch + x + alignedX image placement)⟩ := by
  unfold draws
  simp only [List.mem_flatMap, List.mem_reverse, List.mem_range, List.mem_ite_nil_left,
    List.mem_ite_nil_right, List.mem_singleton, and_assoc]

/-- The row that is written is one more than the row of the expected position. -/
theorem position_ne {row column : ℤ} {position : ℕ} (hpos : 0 < framebuffer.quadPitch)
    (h : framebuffer.Pixel row column position) :
    uint32 (int32 (row + 1) * framebuffer.quadPitch + column) ≠ position := by
  intro heq
  have hpitch := framebuffer.quadPitch_lt
  have hmod : (int32 (row + 1) * framebuffer.quadPitch + column) % 2 ^ 32 =
      ((row + 1) * framebuffer.quadPitch + column) % 2 ^ 32 := by
    rw [Int.add_emod, Int.mul_emod, int32_emod, ← Int.mul_emod, ← Int.add_emod]
  have hposition := h.position_eq
  unfold uint32 at heq
  rw [hmod, add_mul, one_mul] at heq
  omega

/-- The rectangle is in the range of numbers of 32 bits. -/
def InRange (image : TGAImage) (placement : Placement) : Prop :=
  (-2 ^ 31 ≤ left image placement ∧ left image placement + image.width ≤ 2 ^ 31) ∧
    -2 ^ 31 ≤ top image placement ∧ top image placement + image.height ≤ 2 ^ 31

/-- Where the pixels are drawn: one row below the flipped one, if the stored row is visible. -/
theorem mem_draws_iff (hwidth : framebuffer.width ≤ framebuffer.quadPitch)
    (hrange : InRange image placement) {draw : Draw} :
    draw ∈ draws framebuffer image placement ↔
      draw.x < image.width ∧ draw.y < image.height ∧
      textureChannel image placement draw.x draw.y ≠ 0 ∧
      (0 ≤ left image placement + draw.x ∧ left image placement + draw.x < framebuffer.width) ∧
      (0 ≤ top image placement + draw.y ∧
        top image placement + draw.y < int32 framebuffer.height) ∧
      draw.position = uint32 (int32 (top image placement + (image.height - 1 - draw.y) + 1) *
        framebuffer.quadPitch + (left image placement + draw.x)) := by
  obtain ⟨hx, hy⟩ := hrange
  have hleft : ∀ x : ℕ, x < image.width → alignedX image placement = left image placement :=
    fun x hxlt => int32_of_between hx.1 (by omega)
  have htop : ∀ y : ℕ, y < image.height → alignedY image placement = top image placement :=
    fun y hylt => int32_of_between hy.1 (by omega)
  have hstored : ∀ y : ℕ, y < image.height → ((¬ int32 (y + alignedY image placement) < 0 ∧
      ¬ int32 (y + alignedY image placement) ≥ int32 framebuffer.height) ↔
        0 ≤ top image placement + y ∧ top image placement + y < int32 framebuffer.height) := by
    intro y hylt
    rw [htop y hylt, add_comm (y : ℤ),
      int32_of_between (v := top image placement + y) (by omega) (by omega)]
    omega
  have hcolumn : ∀ x : ℕ, x < image.width → ((¬ int32 (x + alignedX image placement) < 0 ∧
      ¬ int32 (x + alignedX image placement) ≥ int32 framebuffer.width) ↔
        0 ≤ left image placement + x ∧ left image placement + x < framebuffer.width) := by
    intro x hxlt
    rw [hleft x hxlt, add_comm (x : ℤ)]
    exact column_iff hwidth (by omega) (by omega)
  have hposition : ∀ x y : ℕ, x < image.width → y < image.height →
      uint32 (int32 (image.height - y + alignedY image placement) * framebuffer.quadPitch + x +
        alignedX image placement) = uint32 (int32 (top image placement + (image.height - 1 - y) + 1) *
          framebuffer.quadPitch + (left image placement + x)) := by
    intro x y hxlt hylt
    rw [hleft x hxlt, htop y hylt, add_assoc _ (x : ℤ), add_comm (x : ℤ)]
    congr 4
    ring
  rw [mem_draws]
  constructor
  · rintro ⟨y, hylt, hrow, x, hxlt, hcol, hset, rfl⟩
    exact ⟨hxlt, hylt, hset, (hcolumn x hxlt).mp hcol, (hstored y hylt).mp hrow,
      hposition x y hxlt hylt⟩
  · obtain ⟨x, y, position⟩ := draw
    rintro ⟨hxlt, hylt, hset, hcol, hrow, hpos⟩
    refine ⟨y, hylt, (hstored y hylt).mpr hrow, x, hxlt, (hcolumn x hxlt).mpr hcol, hset, ?_⟩
    rw [hposition x y hxlt hylt]
    exact congrArg _ hpos

end Draws

/-- RenderTGA writes pixels of the framebuffer only, and draws the picture flipped in its
rectangle, when no pixel is drawn and none has to be. -/
theorem drawsFlipped_iff (framebuffer : FramebufferLayout) (image : TGAImage)
    (placement : Placement) (hwidth : framebuffer.width ≤ framebuffer.pitch / 4)
    (hrange : InRange image placement) :
    DrawsFlipped framebuffer image placement ↔ Hidden framebuffer image placement := by
  have hmem := @mem_draws_iff _ _ _ hwidth hrange
  constructor
  · intro hflipped x hxlt y hylt hset hleft hright
    have hpos : 0 < framebuffer.quadPitch := by
      unfold FramebufferLayout.quadPitch
      omega
    refine ⟨fun hstored => ?_, fun hrow => ?_⟩
    · -- the pixel is drawn, one row too low
      obtain ⟨draw, hdraw⟩ : ∃ draw : Draw, draw = ⟨x, y, uint32 (int32 (top image placement +
        (image.height - 1 - y) + 1) * framebuffer.quadPitch + (left image placement + x))⟩ :=
        ⟨_, rfl⟩
      have hdrawn : draw ∈ draws framebuffer image placement := by
        rw [hmem, hdraw]
        exact ⟨hxlt, hylt, hset, ⟨hleft, hright⟩, hstored, rfl⟩
      have hexpected := (hflipped draw).mp hdrawn
      rw [hdraw] at hexpected
      exact position_ne hpos hexpected.pixel rfl
    · -- the pixel has to be drawn in its row
      obtain ⟨position, hposition⟩ : ∃ position : ℕ, (position : ℤ) = (top image placement +
          (image.height - 1 - y)) * framebuffer.quadPitch + (left image placement + x) := by
        have hnonneg := mul_nonneg hrow.1 (Int.natCast_nonneg framebuffer.quadPitch)
        exact ⟨_, Int.toNat_of_nonneg (by omega)⟩
      have hexpected : Expected framebuffer image placement ⟨x, y, position⟩ :=
        ⟨hxlt, hylt, hset, ⟨hrow.1, hrow.2, hleft, hright, hposition⟩⟩
      obtain ⟨-, -, -, -, -, hwritten⟩ := hmem.mp ((hflipped _).mpr hexpected)
      exact position_ne hpos hexpected.pixel hwritten.symm
  · intro hhidden draw
    constructor
    · intro hdrawn
      obtain ⟨hxlt, hylt, hset, hcolumn, hstored, -⟩ := hmem.mp hdrawn
      exact absurd hstored (hhidden _ hxlt _ hylt hset hcolumn.1 hcolumn.2).1
    · intro hexpected
      have hpixel := hexpected.pixel
      exact absurd ⟨hpixel.row_nonneg, hpixel.row_lt⟩ (hhidden _ hexpected.x_lt _ hexpected.y_lt
        hexpected.set hpixel.column_nonneg hpixel.column_lt).2

/-- A white picture of two rows and one column. -/
def whiteColumn : TGAImage := ⟨1, 2, fun _ => 0xFFFFFFFF, by decide, by decide⟩

def smallScreen : FramebufferLayout := ⟨2, 2, 8, by decide, by decide, by decide⟩

/-- Far to the right nothing is drawn. -/
theorem drawsFlipped_iff_right :
    DrawsFlipped smallScreen whiteColumn ⟨5, 0, .topLeft, .topLeft, false⟩ ↔
      Hidden smallScreen whiteColumn ⟨5, 0, .topLeft, .topLeft, false⟩ :=
  drawsFlipped_iff _ _ _ (by decide) (by unfold InRange; decide)

/-- A picture that fills the screen is drawn one row too low, with its last row outside. -/
theorem picture_too_low :
    ¬ DrawsFlipped smallScreen whiteColumn ⟨0, 0, .topLeft, .topLeft, false⟩ := by
  intro h
  have hdrawn : (⟨0, 0, 4⟩ : Draw) ∈
      draws smallScreen whiteColumn ⟨0, 0, .topLeft, .topLeft, false⟩ := by decide +kernel
  have hpixel := ((h _).mp hdrawn).pixel
  have hlt := hpixel.position_lt (by decide)
  exact absurd hlt (by decide)

end Enkel.Textures
