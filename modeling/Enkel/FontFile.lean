import Enkel.PixelRows
import Enkel.ReadTraces

/-!
The loader of font files. A file is a header and a row of blocks. The size of a block is a
number with a sign, which moves the pointer and the remaining size, a number without one, by
as much in the other direction. Neither is compared with anything.
-/
namespace Enkel.FontFile

open Outcome Framebuffer
open Trace Traced

/-- What BMFont_Load does with a range of the file, which starts at an offset: it reads it, or
it records a table there. -/
inductive Access
  | read (offset size : ℤ)
  | table (offset size : ℤ)
deriving DecidableEq, Repr

inductive Stop
  /-- The loop has not ended yet. -/
  | running
deriving DecidableEq, Repr

abbrev Accesses := Traced Access Stop

abbrev sizeofHeader : ℤ := 4
abbrev sizeofBlock : ℤ := 5
abbrev sizeofInfo : ℤ := 15
abbrev sizeofCommon : ℤ := 15
abbrev sizeofChar : ℕ := 20
abbrev sizeofKerningPair : ℕ := 10

/-- The fields of BMFont that BMFont_Load sets, with offsets for pointers. -/
structure BMFont where
  totalCharacters : ℕ
  totalKerningPairs : ℕ
  header : Option ℤ
  info : Option ℤ
  common : Option ℤ
  chars : Option ℤ
  kerningPairs : Option ℤ
deriving DecidableEq, Repr

def BMFont.empty : BMFont := ⟨0, 0, none, none, none, none, none⟩

section Load
variable (file : ℤ → UInt8)

def blockId (block : ℤ) : ℕ := (file block).toNat

/-- The field Size of a block. -/
def blockSize (block : ℤ) : ℤ :=
  int32 ((file (block + 1)).toNat + 2 ^ 8 * (file (block + 2)).toNat +
    2 ^ 16 * (file (block + 3)).toNat + 2 ^ 24 * (file (block + 4)).toNat)

/-- The number of entries in so many bytes: a quotient of 64 bits, kept in 32. -/
def entries (size : ℤ) (sizeofEntry : ℕ) : ℕ := (size % 2 ^ 64).toNat / sizeofEntry % 2 ^ 32

/-- The switch over the Id of a block, whose contents start at an offset. -/
def record (block offset : ℤ) (font : BMFont) : Accesses BMFont :=
  match blockId file block with
  | 1 => do
    note (.table offset sizeofInfo)
    return { font with info := some offset }
  | 2 => do
    note (.table offset sizeofCommon)
    return { font with common := some offset }
  | 4 => do
    let total := entries (blockSize file block) sizeofChar
    note (.table offset (total * sizeofChar))
    return { font with
      totalCharacters := total
      chars := some offset }
  | 5 => do
    let total := entries (blockSize file block) sizeofKerningPair
    note (.table offset (total * sizeofKerningPair))
    return { font with
      totalKerningPairs := total
      kerningPairs := some offset }
  | _ => return font

/-- The loop over the blocks. -/
def loadLoop : (fuel : ℕ) → (fileDataPtr : ℤ) → (fileSize : ℕ) → BMFont → Accesses BMFont
  | 0, _, _, _ => silent (.error .running)
  | fuel + 1, fileDataPtr, fileSize, font =>
    if fileSize > sizeofBlock then do
      let block := fileDataPtr
      let fileSize := uint32 (fileSize - sizeofBlock)
      note (.read block sizeofBlock)
      let font ← record file block (fileDataPtr + sizeofBlock) font
      loadLoop fuel (fileDataPtr + sizeofBlock + blockSize file block)
        (uint32 (fileSize - blockSize file block)) font
    else
      return font

/-- BMFont_Load, for so many turns of its loop. -/
def load (fileSize fuel : ℕ) : Accesses BMFont := do
  note (.table 0 sizeofHeader)
  loadLoop file fuel sizeofHeader (uint32 (fileSize - sizeofHeader))
    { BMFont.empty with header := some 0 }

/-- A range that lies in the file. -/
def Inside (total : ℕ) : Access → Prop
  | .read offset size => 0 ≤ offset ∧ offset + size ≤ total
  | .table offset size => 0 ≤ offset ∧ offset + size ≤ total

/-- BMFont_Load ends, and what it reads and records lies in the file. -/
def Bounded (total : ℕ) : Prop :=
  ∃ fuel font, (load file total fuel).result = .ok font ∧ (load file total fuel).All (Inside total)

/-- The size that a block needs for the table that is recorded. -/
def tableSize (block : ℤ) : ℤ :=
  match blockId file block with
  | 1 => sizeofInfo
  | 2 => sizeofCommon
  | 4 => entries (blockSize file block) sizeofChar * sizeofChar
  | 5 => entries (blockSize file block) sizeofKerningPair * sizeofKerningPair
  | _ => 0

/-- The blocks from an offset on end in the file: each starts in it with its table, and the
last one is followed by five bytes or less. -/
inductive Chain (total : ℕ) : ℤ → Prop
  | last {offset : ℤ} (hend : (total - offset) % 2 ^ 32 ≤ sizeofBlock) : Chain total offset
  | block {offset : ℤ} (hstart : 0 ≤ offset) (hblock : offset + sizeofBlock < total)
      (htable : offset + sizeofBlock + tableSize file offset ≤ total)
      (hrest : Chain total (offset + sizeofBlock + blockSize file offset)) : Chain total offset

end Load

section Loop
variable {file : ℤ → UInt8} {total : ℕ} {offset : ℤ} {font : BMFont}

/-- The remaining size is the distance to the end, in 32 bits. -/
theorem uint32_sub (total : ℕ) (a b : ℤ) : uint32 (uint32 (total - a) - b) = uint32 (total - (a + b)) := by
  unfold uint32
  omega

theorem note_table_inside {size : ℤ} (font : BMFont) (hoffset : 0 ≤ offset) :
    (do note (.table offset size); return font : Accesses BMFont).All (Inside total) ↔
      offset + size ≤ total := by
  rw [all_unit_bind, all_note]
  exact ⟨fun h => h.1.2, fun h => ⟨⟨hoffset, h⟩, fun _ => all_pure _⟩⟩

/-- What a block records lies in the file when its table does. -/
theorem record_inside {block : ℤ} (hoffset : 0 ≤ offset) (hle : offset ≤ total) :
    (∃ font', (record file block offset font).result = .ok font') ∧
      ((record file block offset font).All (Inside total) ↔
        offset + tableSize file block ≤ total) := by
  unfold record tableSize
  split
  · exact ⟨⟨_, rfl⟩, note_table_inside _ hoffset⟩
  · exact ⟨⟨_, rfl⟩, note_table_inside _ hoffset⟩
  · exact ⟨⟨_, rfl⟩, note_table_inside _ hoffset⟩
  · exact ⟨⟨_, rfl⟩, note_table_inside _ hoffset⟩
  · exact ⟨⟨_, rfl⟩, iff_of_true (all_pure _) (by omega)⟩

theorem uint32_cast (v : ℤ) : (uint32 v : ℤ) = v % 2 ^ 32 := by
  unfold uint32
  omega

/-- A turn of the loop, with the remaining size as the distance to the end. -/
theorem loadLoop_succ {fuel : ℕ} :
    loadLoop file (fuel + 1) offset (uint32 (total - offset)) font =
      if (uint32 (total - offset) : ℤ) > sizeofBlock then do
        note (.read offset sizeofBlock)
        let font ← record file offset (offset + sizeofBlock) font
        loadLoop file fuel (offset + sizeofBlock + blockSize file offset)
          (uint32 (total - (offset + sizeofBlock + blockSize file offset))) font
      else
        return font := by
  have hsize : uint32 (uint32 (uint32 (total - offset) - sizeofBlock) - blockSize file offset) =
      uint32 (total - (offset + sizeofBlock + blockSize file offset)) := by
    rw [uint32_sub, uint32_sub, add_assoc]
  rw [← hsize]
  rfl

/-- The loop at a block: the block is read, and with what it records it has to be in the
file. -/
theorem loadLoop_block {fuel : ℕ} (hmore : sizeofBlock < (total - offset) % 2 ^ 32) :
    (∃ font', (loadLoop file (fuel + 1) offset (uint32 (total - offset)) font).result = .ok font' ∧
        (loadLoop file (fuel + 1) offset (uint32 (total - offset)) font).All (Inside total)) ↔
      (0 ≤ offset ∧ offset + sizeofBlock ≤ total) ∧
        offset + sizeofBlock + tableSize file offset ≤ total ∧
        ∃ font1 font', (record file offset (offset + sizeofBlock) font).result = .ok font1 ∧
          (loadLoop file fuel (offset + sizeofBlock + blockSize file offset)
            (uint32 (total - (offset + sizeofBlock + blockSize file offset))) font1).result =
              .ok font' ∧
          (loadLoop file fuel (offset + sizeofBlock + blockSize file offset)
            (uint32 (total - (offset + sizeofBlock + blockSize file offset))) font1).All
              (Inside total) := by
  have hblock : sizeofBlock = 5 := rfl
  rw [loadLoop_succ, if_pos (by rw [uint32_cast]; exact hmore), result_bind, result_note, ok_bind,
    all_unit_bind, all_note, result_note]
  constructor
  · rintro ⟨font', hresult, hread, hall⟩
    have hread : 0 ≤ offset ∧ offset + sizeofBlock ≤ total := hread
    rw [result_bind] at hresult
    obtain ⟨font1, hrecord, hrest⟩ := bind_eq_ok.mp hresult
    obtain ⟨hrecordAll, hrestAll⟩ := all_bind.mp (hall rfl)
    have htable := (record_inside (by omega) hread.2).2.mp hrecordAll
    exact ⟨hread, htable, font1, font', hrecord, hrest, hrestAll font1 hrecord⟩
  · rintro ⟨hread, htable, font1, font', hrecord, hrest, hrestAll⟩
    refine ⟨font', ?_, hread, fun _ => all_bind.mpr ⟨?_, fun font2 hfont2 => ?_⟩⟩
    · rw [result_bind, hrecord, ok_bind, hrest]
    · exact (record_inside (by omega) hread.2).2.mpr htable
    · cases hrecord.symm.trans hfont2
      exact hrestAll

theorem loadLoop_last {fuel : ℕ} (hend : (total - offset) % 2 ^ 32 ≤ sizeofBlock) :
    loadLoop file (fuel + 1) offset (uint32 (total - offset)) font = pure font := by
  rw [loadLoop_succ, if_neg (by rw [uint32_cast]; exact not_lt.mpr hend)]

/-- The loop ends in the file when the blocks do. -/
theorem loadLoop_iff (htotal : total < 2 ^ 32) :
    (∃ fuel font', (loadLoop file fuel offset (uint32 (total - offset)) font).result = .ok font' ∧
      (loadLoop file fuel offset (uint32 (total - offset)) font).All (Inside total)) ↔
      Chain file total offset := by
  constructor
  · rintro ⟨fuel, font', hresult, hall⟩
    induction fuel generalizing offset font font' with
    | zero => cases hresult
    | succ fuel ih =>
      rcases le_or_gt ((total - offset) % 2 ^ 32) sizeofBlock with hend | hmore
      · exact .last hend
      · obtain ⟨hread, htable, font1, font2, -, hrest, hrestAll⟩ :=
          (loadLoop_block hmore).mp ⟨font', hresult, hall⟩
        refine .block hread.1 ?_ htable (ih _ hrest hrestAll)
        have hblock : sizeofBlock = 5 := rfl
        omega
  · intro hchain
    induction hchain generalizing font with
    | last hend => exact ⟨1, font, by rw [loadLoop_last hend]; rfl, by
        rw [loadLoop_last hend]
        exact all_pure _⟩
    | @block offset hstart hblock htable hrest ih =>
      have hsize : sizeofBlock = 5 := rfl
      have hmore : sizeofBlock < (total - offset) % 2 ^ 32 := by omega
      have hbehind : 0 ≤ offset + sizeofBlock := by omega
      obtain ⟨⟨font1, hrecord⟩, -⟩ := @record_inside file total _ font offset hbehind hblock.le
      obtain ⟨fuel, font', hloop, hall⟩ := @ih font1
      exact ⟨fuel + 1, (loadLoop_block hmore).mpr
        ⟨⟨hstart, hblock.le⟩, htable, font1, font', hrecord, hloop, hall⟩⟩

theorem Bounded.chain (h : Bounded file total) (htotal : total < 2 ^ 32) :
    4 ≤ total ∧ Chain file total 4 := by
  obtain ⟨fuel, font, hresult, hall⟩ := h
  have hheader : sizeofHeader = 4 := rfl
  unfold load at hresult hall
  rw [result_bind, result_note, ok_bind] at hresult
  rw [all_unit_bind, all_note] at hall
  have hinside : (0 : ℤ) ≤ 0 ∧ 0 + sizeofHeader ≤ total := hall.1
  exact ⟨by omega, (loadLoop_iff htotal).mp ⟨fuel, font, hresult, hall.2 rfl⟩⟩

theorem Chain.bounded (h : Chain file total 4) (htotal : total < 2 ^ 32) (hle : 4 ≤ total) :
    Bounded file total := by
  obtain ⟨fuel, font, hresult, hall⟩ :=
    (@loadLoop_iff file total 4 { BMFont.empty with header := some 0 } htotal).mpr h
  have hinside : (0 : ℤ) ≤ 0 ∧ 0 + sizeofHeader ≤ total := by
    have hheader : sizeofHeader = 4 := rfl
    omega
  refine ⟨fuel, font, ?_, ?_⟩
  · unfold load
    rw [result_bind, result_note, ok_bind]
    exact hresult
  · unfold load
    rw [all_unit_bind, all_note]
    exact ⟨hinside, fun _ => hall⟩

end Loop

/-- BMFont_Load ends and stays in the file when the header is in it and the blocks behind it
end in it. -/
theorem bounded_iff (file : ℤ → UInt8) (fileSize : UInt32) :
    Bounded file fileSize.toNat ↔ 4 ≤ fileSize.toNat ∧ Chain file fileSize.toNat 4 :=
  ⟨fun h => h.chain fileSize.toNat_lt, fun h => h.2.bounded fileSize.toNat_lt h.1⟩

/-- A header, and a block whose contents are said to start before it. -/
def endlessFile : ℤ → UInt8
  | 4 => 9
  | 5 => 0xFB
  | 6 => 0xFF
  | 7 => 0xFF
  | 8 => 0xFF
  | _ => 0

/-- A block of the size -5 is followed by itself. -/
theorem endless_not_bounded : ¬ Bounded endlessFile 16 := by
  intro hbounded
  obtain ⟨-, hchain⟩ := hbounded.chain (by decide)
  obtain ⟨offset, hoffset⟩ : ∃ offset : ℤ, offset = 4 := ⟨_, rfl⟩
  have hsize : blockSize endlessFile 4 = -5 := by decide
  have hblock : sizeofBlock = 5 := rfl
  rw [← hoffset] at hchain
  induction hchain with
  | last hend =>
    rw [hoffset] at hend
    omega
  | block _ _ _ _ ih =>
    refine ih ?_
    rw [hoffset, hsize]
    rfl

end Enkel.FontFile
