import Mathlib.Data.Int.Init
import Enkel.Progress

/-!
The hooks through which rpmalloc gets its memory. RPMallocMap asks for one more span
when its pointer has to be aligned to spans, and hands the skipped bytes out as a
scaled offset. RPMallocUnmap goes back by the offset, and frees the size without the
span that was added.
-/
namespace Enkel.SpanMapping

open Outcome MemoryState Paging KernelMemory

/-- What rpmalloc_initialize_config sets for every page size. -/
def memoryMapGranularity : ℕ := 4096

/-- Only spans are aligned, and only when they are larger than the granularity. -/
def padding (spanSize size : ℕ) : ℕ :=
  if spanSize ≤ size ∧ memoryMapGranularity < spanSize then spanSize else 0

/-- The size of the block that RPMallocMap asks VirtualAlloc for. -/
def blockSize (spanSize size : ℕ) : ℕ := add64 size (padding spanSize size)

/-- RPMallocMap: the pointer and the offset, which it leaves as it is without padding. The mask
of the spans keeps the bits above those of `spanSize - 1`. -/
def rpMallocMap (depth spanSize size offset : ℕ) (k : KernelMemory) :
    Except Fault ((ℕ × ℕ) × KernelMemory) := do
  require (pageSize ≤ size) (.assertion .rpMallocMap "Invalid mmap size")
  let (ptr, k) ← k.virtualAlloc depth (blockSize spanSize size) .kernel pageFlagsNone
  require (ptr ≠ 0) (.assertion .rpMallocMap "Failed to map virtual memory block")
  if padding spanSize size ≠ 0 then do
    let finalPadding := sub64 (padding spanSize size) (ptr &&& (spanSize - 1))
    require (finalPadding ≤ spanSize) (.assertion .rpMallocMap "Internal failure in padding")
    require (finalPadding ≤ padding spanSize size)
      (.assertion .rpMallocMap "Internal failure in padding")
    require (finalPadding % 8 = 0) (.assertion .rpMallocMap "Internal failure in padding")
    let ptr := add64 ptr finalPadding
    require (size < spanSize ∨ ptr &&& (spanSize - 1) = 0)
      (.assertion .rpMallocMap "Internal failure in padding")
    return ((ptr, finalPadding / 8), k)
  else do
    require (size < spanSize ∨ ptr &&& (spanSize - 1) = 0)
      (.assertion .rpMallocMap "Internal failure in padding")
    return ((ptr, offset), k)

/-- An address less an offset that is taken for a signed number of 32 bits. -/
def offsetBack (address offset : ℕ) : ℕ :=
  ((address + Int.bmod (-(Int.bmod offset (2 ^ 32))) (2 ^ 32)) % 2 ^ 64).toNat

/-- RPMallocUnmap. A full release of a padded block adds the span to `release`, which is not
used after that: VirtualFree gets `size`. -/
def rpMallocUnmap (depth address size offset release : ℕ) (k : KernelMemory) :
    Except Fault KernelMemory := do
  require (release ≠ 0 ∨ offset = 0) (.assertion .rpMallocUnmap "Invalid unmap size")
  require (release = 0 ∨ pageSize ≤ release) (.assertion .rpMallocUnmap "Invalid unmap size")
  require (pageSize ≤ size) (.assertion .rpMallocUnmap "Invalid unmap size")
  let address := if release ≠ 0 ∧ offset ≠ 0 then offsetBack address (offset * 8 % 2 ^ 64)
    else address
  k.virtualFree depth address size

/-- A block of virtual pages is mapped to a block of frames, all of them Used, and holds no page
of a paging structure. -/
structure Holds (k : KernelMemory) (block frames size : ℕ) : Prop where
  block_page : PageAddress block
  frames_page : PageAddress frames
  block_le : block + size ≤ pageMask
  frames_le : frames + size ≤ k.physicalMemoryState.highestAddress
  mapped : ∀ i, 4096 * i < size → frame k (block + 4096 * i) = some (frames + 4096 * i)
  virt : ∀ x, block ≤ x → x < block + size → virtState k x = .used
  phys : ∀ x, frames ≤ x → x < frames + size → physState k x = .used
  not_paging : ∀ x, block ≤ x → x < block + size → k.isPagingPage x = false

/-- Between the two states the pages of a block and its frames become Free, and no other page
changes its state. -/
structure Frees (k k' : KernelMemory) (block frames size : ℕ) : Prop where
  virt : ∀ x < pageMask,
    virtState k' x = if block ≤ x ∧ x < block + size then .free else virtState k x
  phys : ∀ x < k.physicalMemoryState.highestAddress,
    physState k' x = if frames ≤ x ∧ x < frames + size then .free else physState k x

/-- A power of two multiple of the page size. -/
def IsSpanSize (spanSize : ℕ) : Prop := ∃ j < 52, spanSize = 2 ^ (12 + j)

section Map
variable {depth spanSize size offset block pointer offset' : ℕ} {k k₁ : KernelMemory}

/-- How far RPMallocMap moves the pointer of a padded block. -/
def finalPadding (spanSize block : ℕ) : ℕ := spanSize - block % spanSize

theorem IsSpanSize.and_eq (h : IsSpanSize spanSize) (a : ℕ) :
    a &&& (spanSize - 1) = a % spanSize := by
  obtain ⟨j, -, rfl⟩ := h
  exact Nat.and_two_pow_sub_one_eq_mod a (12 + j)

theorem IsSpanSize.pos (h : IsSpanSize spanSize) : 0 < spanSize := by
  obtain ⟨j, -, rfl⟩ := h
  exact Nat.two_pow_pos _

theorem IsSpanSize.dvd (h : IsSpanSize spanSize) : 4096 ∣ spanSize := by
  obtain ⟨j, -, rfl⟩ := h
  exact pow_dvd_pow 2 (Nat.le_add_right 12 j)

theorem IsSpanSize.le (h : IsSpanSize spanSize) : spanSize ≤ 2 ^ 63 := by
  obtain ⟨j, hj, rfl⟩ := h
  exact Nat.pow_le_pow_right (by decide) (by omega)

/-- The moved pointer is the next multiple of the span size. -/
theorem add_finalPadding (h : IsSpanSize spanSize) (block : ℕ) :
    block + finalPadding spanSize block = spanSize * (block / spanSize + 1) := by
  have hdiv := Nat.div_add_mod block spanSize
  have hlt := Nat.mod_lt block h.pos
  unfold finalPadding
  rw [Nat.mul_succ]
  omega

theorem finalPadding_bounds (h : IsSpanSize spanSize) (block : ℕ) :
    0 < finalPadding spanSize block ∧ finalPadding spanSize block ≤ spanSize := by
  have hlt := Nat.mod_lt block h.pos
  unfold finalPadding
  omega

theorem finalPadding_mod (h : IsSpanSize spanSize) (hblock : block % 4096 = 0) :
    finalPadding spanSize block % 8 = 0 := by
  have height : 8 ∣ spanSize := Dvd.dvd.trans (by decide) h.dvd
  have hmod := Nat.mod_mod_of_dvd block height
  unfold finalPadding
  omega

/-- RPMallocMap fails none of its own assertions when VirtualAlloc gives it a block. -/
theorem rpMallocMap_eq (hspan : IsSpanSize spanSize) (hsize : pageSize ≤ size)
    (halloc : k.virtualAlloc depth (blockSize spanSize size) .kernel pageFlagsNone =
      .ok (block, k₁)) (hne : block ≠ 0) (hblock : PageAddress block) :
    rpMallocMap depth spanSize size offset k =
      .ok (if padding spanSize size = 0 then (block, offset)
        else (block + finalPadding spanSize block, finalPadding spanSize block / 8), k₁) := by
  have hspan_le := hspan.le
  have hmod := hblock.mod
  have hlt := hblock.lt
  unfold rpMallocMap
  rw [require_true hsize, ok_bind, halloc, ok_bind]
  dsimp only
  rw [require_true hne, ok_bind]
  by_cases hzero : padding spanSize size = 0
  · rw [if_neg (not_not.mpr hzero), if_pos hzero, require_true, ok_bind]
    · rfl
    · rw [hspan.and_eq]
      by_cases hle : spanSize ≤ size
      · -- a span without padding is a page
        have hgranularity : ¬memoryMapGranularity < spanSize := by
          intro hgt
          unfold padding at hzero
          rw [if_pos ⟨hle, hgt⟩] at hzero
          exact hspan.pos.ne' hzero
        have hpage := Nat.le_of_dvd hspan.pos hspan.dvd
        have heq : spanSize = 4096 := by
          unfold memoryMapGranularity at hgranularity
          omega
        rw [heq]
        exact Or.inr hmod
      · exact Or.inl (by omega)
  · have hpadding : padding spanSize size = spanSize := by
      unfold padding at hzero ⊢
      split_ifs at hzero ⊢
      · rfl
      · exact absurd rfl hzero
    obtain ⟨-, hle⟩ := finalPadding_bounds hspan block
    have hfinal : sub64 (padding spanSize size) (block &&& (spanSize - 1)) =
        finalPadding spanSize block := by
      have hlt := Nat.mod_lt block hspan.pos
      rw [hpadding, hspan.and_eq, sub64_of_le hlt.le (by omega)]
      rfl
    have hptr : add64 block (finalPadding spanSize block) = block + finalPadding spanSize block :=
      add64_of_lt (by omega)
    have haligned : (block + finalPadding spanSize block) &&& (spanSize - 1) = 0 := by
      rw [hspan.and_eq, add_finalPadding hspan, Nat.mul_mod_right]
    rw [if_pos hzero, if_neg hzero, hfinal, require_true hle, ok_bind,
      require_true (by rw [hpadding]; exact hle), ok_bind,
      require_true (finalPadding_mod hspan hmod), ok_bind, hptr, require_true (Or.inr haligned),
      ok_bind]
    rfl

end Map

end Enkel.SpanMapping
