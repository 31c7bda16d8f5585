import Enkel.SegmentBounds

/-!
How the bootloader places the kernel. PrepareKernel asks the firmware for the pages from the
lowest to the highest address of the segments to load, and fills them from the image of the
file. It reads the headers from the image while it writes, so the kernel arrives intact only
because the pages that the firmware gives are not those of the image.
-/
namespace Enkel.KernelImage

open Outcome ByteMemory Elf

/-- The messages of the calls of Halt. -/
inductive Stopped
  | notElf
  | notElf64
  | notAmd64
  | unableToAllocate
  | addressUnavailable
deriving DecidableEq, Repr

/-- SpecialMemoryLocation_KernelBinary. -/
structure KernelBinary where
  virtualStart : ℕ
  physicalStart : ℕ
  byteSize : ℕ
deriving DecidableEq, Repr

/-- One turn of the first loop, over the lowest and the highest address. -/
def scanHeader (range : ℕ × ℕ) (h : Phdr) : ℕ × ℕ :=
  if h.pType ≠ ptLoad then range
  else
    (if h.pVaddr < range.1 then h.pVaddr else range.1,
      if range.2 < add64 h.pVaddr h.pMemsz then add64 h.pVaddr h.pMemsz else range.2)

def kernelRange (headers : List Phdr) : ℕ × ℕ := headers.foldl scanHeader (2 ^ 64 - 1, 0)

def pageCount (range : ℕ × ℕ) : ℕ := sub64 range.2 range.1 / pageSize + 1

section Load
variable (elfStart programHeader : ℕ)

def loadSection (h : Phdr) (m : Memory) : Memory :=
  memset (add64 h.pVaddr h.pFilesz) 0 (sub64 h.pMemsz h.pFilesz)
    (memcpy h.pVaddr (add64 elfStart h.pOffset) h.pFilesz m)

/-- One turn of the second loop, with the header as it is in memory by then. -/
def loadTurn (i : ℕ) (m : Memory) : Memory :=
  let h := readPhdr m.bytes (add64 programHeader (sizeofPhdr * i))
  if h.pType ≠ ptLoad then m else loadSection elfStart h m

def loadLoop : (fuel i : ℕ) → Memory → Memory
  | 0, _, m => m
  | fuel + 1, i, m =>
    if i < ePhnum m.bytes elfStart then loadLoop fuel (i + 1) (loadTurn elfStart programHeader i m)
    else m

end Load

/-- PrepareKernel: the entry, the location of the kernel and the memory. AllocatePages of the
firmware gets a number of pages and an address; `none` is an error. -/
def prepareKernel (allocatePages : ℕ → ℕ → Option ℕ) (elfStart : ℕ) (m : Memory) :
    Except Stopped (ℕ × KernelBinary × Memory) := do
  let programHeader := add64 elfStart (ePhoff m.bytes elfStart)
  require (m.bytes elfStart = 0x7F ∧ m.bytes (add64 elfStart 1) = 0x45 ∧
    m.bytes (add64 elfStart 2) = 0x4C ∧ m.bytes (add64 elfStart 3) = 0x46) .notElf
  require (m.bytes (add64 elfStart 4) = 2) .notElf64
  require (eMachine m.bytes elfStart = 62) .notAmd64
  let range := kernelRange (segments m.bytes elfStart)
  match allocatePages (pageCount range) range.1 with
  | none => throw .unableToAllocate
  | some kernelStart =>
    let binary := ⟨kernelStart, kernelStart, pageCount range * pageSize % 2 ^ 64⟩
    require (kernelStart = range.1) .addressUnavailable
    let m := loadLoop elfStart programHeader loopBound 0 m
    return (eEntry m.bytes elfStart, binary, m)

/-- The segments that are loaded. -/
def loads (b : ℕ → UInt8) (elfStart : ℕ) : List Phdr :=
  (segments b elfStart).filter fun h => h.pType = ptLoad

/-- The segment is linked to this address. -/
def Holds (a : ℕ) (h : Phdr) : Prop := h.pVaddr ≤ a ∧ a < h.pVaddr + h.pMemsz

instance (a : ℕ) (h : Phdr) : Decidable (Holds a h) := inferInstanceAs (Decidable (_ ∧ _))

/-- The byte of a segment: from the file, and zero behind what the file has. -/
def segmentByte (b : ℕ → UInt8) (elfStart a : ℕ) (h : Phdr) : UInt8 :=
  if a - h.pVaddr < h.pFilesz then b (elfStart + h.pOffset + (a - h.pVaddr)) else 0

/-- The memory as the kernel is linked: the last segment at an address decides. -/
def linkedByte (b : ℕ → UInt8) (elfStart a : ℕ) : UInt8 :=
  (((loads b elfStart).reverse.find? fun h => Holds a h).map (segmentByte b elfStart a)).getD (b a)

/-- A kernel that the linker has made: the tables and the contents are in the file, and the
segments are placed without wrapping around. -/
structure IsKernelFile (b : ℕ → UInt8) (elfStart size : ℕ) : Prop where
  file : elfStart + size ≤ 2 ^ 64
  header : 64 ≤ size
  table : ePhoff b elfStart + sizeofPhdr * ePhnum b elfStart ≤ size
  contents : ∀ h ∈ loads b elfStart, h.pOffset + h.pFilesz ≤ size
  sizes : ∀ h ∈ loads b elfStart, h.pFilesz ≤ h.pMemsz
  placed : ∀ h ∈ loads b elfStart, h.pVaddr + h.pMemsz < 2 ^ 64

section Range
variable {headers : List Phdr} {h : Phdr}

theorem scanHeader_le (range : ℕ × ℕ) (h : Phdr) :
    (scanHeader range h).1 ≤ range.1 ∧ range.2 ≤ (scanHeader range h).2 := by
  unfold scanHeader
  split_ifs <;> omega

theorem foldl_scanHeader_le (headers : List Phdr) (range : ℕ × ℕ) :
    (headers.foldl scanHeader range).1 ≤ range.1 ∧
      range.2 ≤ (headers.foldl scanHeader range).2 := by
  induction headers generalizing range with
  | nil => exact ⟨le_rfl, le_rfl⟩
  | cons h headers ih =>
    obtain ⟨hlow, hhigh⟩ := ih (scanHeader range h)
    obtain ⟨hlow', hhigh'⟩ := scanHeader_le range h
    exact ⟨hlow.trans hlow', hhigh'.trans hhigh⟩

/-- Every segment that is loaded lies in the range. -/
theorem kernelRange_spec (hmem : h ∈ headers) (hload : h.pType = ptLoad)
    (hplaced : h.pVaddr + h.pMemsz < 2 ^ 64) :
    (kernelRange headers).1 ≤ h.pVaddr ∧ h.pVaddr + h.pMemsz ≤ (kernelRange headers).2 := by
  unfold kernelRange
  obtain ⟨before, after, rfl⟩ := List.append_of_mem hmem
  rw [List.foldl_append, List.foldl_cons]
  obtain ⟨range, hrange⟩ : ∃ range, range = before.foldl scanHeader (2 ^ 64 - 1, 0) := ⟨_, rfl⟩
  rw [← hrange]
  obtain ⟨hlow, hhigh⟩ := foldl_scanHeader_le after (scanHeader range h)
  have hone : (scanHeader range h).1 ≤ h.pVaddr ∧
      h.pVaddr + h.pMemsz ≤ (scanHeader range h).2 := by
    unfold scanHeader
    rw [if_neg (not_not.mpr hload), add64, Nat.mod_eq_of_lt hplaced]
    dsimp only
    split_ifs <;> omega
  exact ⟨hlow.trans hone.1, hone.2.trans hhigh⟩

theorem foldl_scanHeader_lt (headers : List Phdr) {range : ℕ × ℕ} (hrange : range.2 < 2 ^ 64) :
    (headers.foldl scanHeader range).2 < 2 ^ 64 := by
  induction headers generalizing range with
  | nil => exact hrange
  | cons h headers ih =>
    apply ih
    unfold scanHeader add64
    split_ifs <;> omega

/-- The pages that are asked for hold the range. -/
theorem le_pageCount {range : ℕ × ℕ} (hle : range.1 ≤ range.2) (hlt : range.2 < 2 ^ 64) :
    range.2 < range.1 + pageCount range * pageSize := by
  unfold pageCount
  rw [sub64_of_le hle hlt]
  unfold pageSize
  omega

end Range

/-- A segment that the loader has no reason to stumble over. -/
structure Loadable (elfStart size : ℕ) (h : Phdr) : Prop where
  contents : h.pOffset + h.pFilesz ≤ size
  sizes : h.pFilesz ≤ h.pMemsz
  placed : h.pVaddr + h.pMemsz < 2 ^ 64
  apart : h.pVaddr + h.pMemsz ≤ elfStart ∨ elfStart + size ≤ h.pVaddr

section Segment
variable {elfStart size a : ℕ} {b : ℕ → UInt8} {h : Phdr} {m : Memory}

/-- The contents of a segment are copied from the image. -/
theorem copy_segment (hfile : elfStart + size ≤ 2 ^ 64) (hload : Loadable elfStart size h)
    (ha : a < 2 ^ 64) : copyBytes h.pVaddr (add64 elfStart h.pOffset) h.pFilesz b a =
      if h.pVaddr ≤ a ∧ a < h.pVaddr + h.pFilesz then
        b (elfStart + h.pOffset + (a - h.pVaddr)) else b a := by
  obtain ⟨hcontents, hsizes, hplaced, hapart⟩ := hload
  rcases Nat.eq_zero_or_pos h.pFilesz with hzero | hpos
  · rw [hzero, if_neg (by omega)]
    rfl
  · have hsource : add64 elfStart h.pOffset = elfStart + h.pOffset := Nat.mod_eq_of_lt (by omega)
    rw [hsource, copyBytes_eq (by omega) ha]
    · by_cases hin : h.pVaddr ≤ a ∧ a < h.pVaddr + h.pFilesz
      · rw [if_pos hin, if_pos ((offset_lt_iff (by omega) ha).mpr hin), offset_of_le hin.1 ha,
          Nat.mod_eq_of_lt (by omega)]
      · rw [if_neg hin, if_neg fun hlt => hin ((offset_lt_iff (by omega) ha).mp hlt)]
    · intro i hi j hj
      rw [Nat.mod_eq_of_lt (by omega), Nat.mod_eq_of_lt (by omega)]
      omega

/-- What the file does not have of a segment is set to zero. -/
theorem clear_segment (hload : Loadable elfStart size h) (ha : a < 2 ^ 64) :
    setBytes (add64 h.pVaddr h.pFilesz) 0 (sub64 h.pMemsz h.pFilesz) b a =
      if h.pVaddr + h.pFilesz ≤ a ∧ a < h.pVaddr + h.pMemsz then 0 else b a := by
  obtain ⟨-, hsizes, hplaced, -⟩ := hload
  have hstart : add64 h.pVaddr h.pFilesz = h.pVaddr + h.pFilesz := Nat.mod_eq_of_lt (by omega)
  have hiff : offset (h.pVaddr + h.pFilesz) a < h.pMemsz - h.pFilesz ↔
      h.pVaddr + h.pFilesz ≤ a ∧ a < h.pVaddr + h.pMemsz := by
    rw [offset_lt_iff (by omega) ha]
    omega
  rw [sub64_of_le hsizes (by omega), hstart, setBytes_eq (by omega) ha]
  by_cases hin : h.pVaddr + h.pFilesz ≤ a ∧ a < h.pVaddr + h.pMemsz
  · rw [if_pos hin, if_pos (hiff.mpr hin)]
  · rw [if_neg hin, if_neg fun hlt => hin (hiff.mp hlt)]

/-- Loading a segment puts its bytes where it is linked to. -/
theorem loadSection_bytes (hfile : elfStart + size ≤ 2 ^ 64) (hload : Loadable elfStart size h)
    (ha : a < 2 ^ 64) : (loadSection elfStart h m).bytes a =
      if Holds a h then segmentByte m.bytes elfStart a h else m.bytes a := by
  have hsizes := hload.sizes
  change setBytes _ 0 _ (copyBytes h.pVaddr (add64 elfStart h.pOffset) h.pFilesz m.bytes) a = _
  rw [clear_segment hload ha, copy_segment hfile hload ha]
  by_cases hin : Holds a h
  · rw [if_pos hin]
    unfold Holds at hin
    unfold segmentByte
    split_ifs <;> first | rfl | omega
  · rw [if_neg hin]
    unfold Holds at hin
    split_ifs <;> first | rfl | omega

theorem loadSection_log : (loadSection elfStart h m).log = m.log ++
    [(h.pVaddr, h.pFilesz), (add64 h.pVaddr h.pFilesz, sub64 h.pMemsz h.pFilesz)] := by
  show m.log ++ _ ++ _ = _
  rw [List.append_assoc]
  rfl

end Segment

/-- What a header does to a byte. -/
def place (b : ℕ → UInt8) (elfStart a : ℕ) (byte : UInt8) (h : Phdr) : UInt8 :=
  if h.pType = ptLoad ∧ Holds a h then segmentByte b elfStart a h else byte

/-- The last header that concerns a byte decides. -/
theorem foldl_place (b : ℕ → UInt8) (elfStart a : ℕ) (headers : List Phdr) (byte : UInt8) :
    headers.foldl (place b elfStart a) byte =
      ((((headers.filter fun h => h.pType = ptLoad).reverse.find? fun h => Holds a h).map
        (segmentByte b elfStart a)).getD byte) := by
  induction headers generalizing byte with
  | nil => rfl
  | cons h headers ih =>
    rw [List.foldl_cons, ih, List.filter_cons]
    unfold place
    by_cases hload : h.pType = ptLoad
    · -- the first header decides only where no later one does
      rw [if_pos (decide_eq_true hload), List.reverse_cons, List.find?_append]
      cases ((headers.filter fun h => h.pType = ptLoad).reverse.find? fun h => Holds a h) with
      | none => by_cases hin : Holds a h <;> simp [hload, hin]
      | some later => rfl
    · rw [if_neg fun heq => hload (of_decide_eq_true heq), if_neg fun hboth => hload hboth.1]

section Loop
variable {elfStart size : ℕ} {b : ℕ → UInt8} {m : Memory} {i : ℕ}

/-- The memory of the image is as the firmware has read it. -/
def SameImage (elfStart size : ℕ) (b b' : ℕ → UInt8) : Prop :=
  ∀ a, elfStart ≤ a → a < elfStart + size → b' a = b a

theorem SameImage.readWord_eq {b' : ℕ → UInt8} {off n : ℕ} (hsame : SameImage elfStart size b b')
    (hfile : elfStart + size ≤ 2 ^ 64) (hoff : off + n ≤ size) :
    readWord b' (elfStart + off) n = readWord b (elfStart + off) n := by
  apply readWord_congr
  intro k hk
  rw [Nat.mod_eq_of_lt (by omega)]
  exact hsame _ (by omega) (by omega)

/-- The header of the image that a turn finds. -/
theorem SameImage.readPhdr_eq {b' : ℕ → UInt8} {off : ℕ} (hsame : SameImage elfStart size b b')
    (hfile : elfStart + size ≤ 2 ^ 64) (hoff : off + sizeofPhdr ≤ size) :
    readPhdr b' (elfStart + off) = readPhdr b (elfStart + off) := by
  have hsizeof : sizeofPhdr = 56 := rfl
  have hfield : ∀ field < 56, add64 (elfStart + off) field = elfStart + (off + field) := by
    intro field hlt
    rw [add64, Nat.mod_eq_of_lt (by omega), Nat.add_assoc]
  unfold readPhdr
  rw [hfield 8 (by omega), hfield 16 (by omega), hfield 32 (by omega), hfield 40 (by omega),
    hfield 48 (by omega), hsame.readWord_eq hfile (by omega), hsame.readWord_eq hfile (by omega),
    hsame.readWord_eq hfile (by omega), hsame.readWord_eq hfile (by omega),
    hsame.readWord_eq hfile (by omega), hsame.readWord_eq hfile (by omega)]

/-- The header that turn `i` finds in the file. -/
def header (b : ℕ → UInt8) (elfStart i : ℕ) : Phdr :=
  readPhdr b (add64 (add64 elfStart (ePhoff b elfStart)) (sizeofPhdr * i))

theorem header_mem (hi : i < ePhnum b elfStart)
    (hload : (header b elfStart i).pType = ptLoad) : header b elfStart i ∈ loads b elfStart := by
  unfold loads
  rw [List.mem_filter]
  refine ⟨?_, decide_eq_true hload⟩
  unfold segments
  exact List.mem_map.mpr ⟨i, List.mem_range.mpr hi, rfl⟩

theorem drop_segments (hi : i < ePhnum b elfStart) :
    (segments b elfStart).drop i =
      header b elfStart i :: (segments b elfStart).drop (i + 1) := by
  have hlength : i < (segments b elfStart).length := by
    unfold segments
    rwa [List.length_map, List.length_range]
  have hget : (segments b elfStart)[i] = header b elfStart i := by
    simp only [segments, header, List.getElem_map, List.getElem_range]
  rw [List.drop_eq_getElem_cons hlength, hget]

section Turn
variable {a start blockSize : ℕ} (hfile : IsKernelFile b elfStart size)
  (hloadable : ∀ h ∈ loads b elfStart, Loadable elfStart size h)
include hfile

theorem readPhdr_of_same (hsame : SameImage elfStart size b m.bytes)
    (hi : i < ePhnum b elfStart) :
    readPhdr m.bytes (add64 (add64 elfStart (ePhoff b elfStart)) (sizeofPhdr * i)) =
      header b elfStart i := by
  obtain ⟨hfit, hheader, htable, -⟩ := hfile
  have hlast : sizeofPhdr * (i + 1) ≤ sizeofPhdr * ePhnum b elfStart := Nat.mul_le_mul_left _ hi
  unfold sizeofPhdr at hlast htable ⊢
  have haddress : add64 (add64 elfStart (ePhoff b elfStart)) (56 * i) =
      elfStart + (ePhoff b elfStart + 56 * i) := by
    unfold add64
    rw [Nat.mod_eq_of_lt (show elfStart + ePhoff b elfStart < 2 ^ 64 by omega),
      Nat.mod_eq_of_lt (by omega), Nat.add_assoc]
  have hoff : ePhoff b elfStart + 56 * i + sizeofPhdr ≤ size := by
    unfold sizeofPhdr
    omega
  unfold header
  rw [haddress, hsame.readPhdr_eq hfit hoff]

theorem ePhnum_of_same (hsame : SameImage elfStart size b m.bytes) :
    ePhnum m.bytes elfStart = ePhnum b elfStart := by
  obtain ⟨hfit, hheader, -⟩ := hfile
  unfold ePhnum add64
  rw [Nat.mod_eq_of_lt (by omega), hsame.readWord_eq hfit (by omega)]

theorem eEntry_of_same (hsame : SameImage elfStart size b m.bytes) :
    eEntry m.bytes elfStart = eEntry b elfStart := by
  obtain ⟨hfit, hheader, -⟩ := hfile
  unfold eEntry add64
  rw [Nat.mod_eq_of_lt (by omega), hsame.readWord_eq hfit (by omega)]

include hloadable

/-- A turn places the bytes of its header. -/
theorem loadTurn_bytes (hsame : SameImage elfStart size b m.bytes) (hi : i < ePhnum b elfStart)
    (ha : a < 2 ^ 64) :
    (loadTurn elfStart (add64 elfStart (ePhoff b elfStart)) i m).bytes a =
      place b elfStart a (m.bytes a) (header b elfStart i) := by
  unfold loadTurn place
  rw [readPhdr_of_same hfile hsame hi]
  dsimp only
  by_cases hload : (header b elfStart i).pType = ptLoad
  · have hone := hloadable _ (header_mem hi hload)
    rw [if_neg (not_not.mpr hload), loadSection_bytes hfile.file hone ha]
    by_cases hin : Holds a (header b elfStart i)
    · rw [if_pos hin, if_pos ⟨hload, hin⟩]
      unfold segmentByte
      split_ifs with hlt
      · have hcontents := hone.contents
        exact hsame _ (by omega) (by omega)
      · rfl
    · rw [if_neg hin, if_neg fun hboth => hin hboth.2]
  · rw [if_pos hload, if_neg fun hboth => hload hboth.1]

/-- The image is not where the kernel goes. -/
theorem loadTurn_same (hsame : SameImage elfStart size b m.bytes) (hi : i < ePhnum b elfStart) :
    SameImage elfStart size b
      (loadTurn elfStart (add64 elfStart (ePhoff b elfStart)) i m).bytes := by
  intro a hlow hhigh
  have hfit := hfile.file
  rw [loadTurn_bytes hfile hloadable hsame hi (by omega)]
  unfold place
  split_ifs with hboth
  · have hapart := (hloadable _ (header_mem hi hboth.1)).apart
    have hholds := hboth.2
    unfold Holds at hholds
    omega
  · exact hsame a hlow hhigh

/-- A turn writes in the block that the firmware has given. -/
theorem loadTurn_inside (hblock : ∀ h ∈ loads b elfStart,
      start ≤ h.pVaddr ∧ h.pVaddr + h.pMemsz ≤ start + blockSize)
    (hend : start + blockSize < 2 ^ 64)
    (hsame : SameImage elfStart size b m.bytes) (hi : i < ePhnum b elfStart)
    (hlog : ∀ w ∈ m.log, Inside start blockSize w) :
    ∀ w ∈ (loadTurn elfStart (add64 elfStart (ePhoff b elfStart)) i m).log,
      Inside start blockSize w := by
  unfold loadTurn
  rw [readPhdr_of_same hfile hsame hi]
  dsimp only
  split_ifs with hload
  · exact hlog
  · have hmem := header_mem hi (not_not.mp hload)
    obtain ⟨-, hsizes, hplaced, -⟩ := hloadable _ hmem
    obtain ⟨hlow, hhigh⟩ := hblock _ hmem
    rw [loadSection_log]
    intro w hw
    rcases List.mem_append.mp hw with hold | hnew
    · exact hlog w hold
    · rcases List.mem_pair.mp hnew with rfl | rfl
      · intro k hk
        dsimp only at hk
        omega
      · intro k hk
        rw [sub64_of_le hsizes (by omega)] at hk
        unfold add64
        omega

/-- What the loop leaves: the image, the placed bytes, and no write outside the block. -/
theorem loadLoop_spec (hblock : ∀ h ∈ loads b elfStart,
      start ≤ h.pVaddr ∧ h.pVaddr + h.pMemsz ≤ start + blockSize)
    (hend : start + blockSize < 2 ^ 64) {fuel : ℕ} (hfuel : ePhnum b elfStart ≤ i + fuel)
    (hsame : SameImage elfStart size b m.bytes) (hlog : ∀ w ∈ m.log, Inside start blockSize w) :
    let m' := loadLoop elfStart (add64 elfStart (ePhoff b elfStart)) fuel i m
    SameImage elfStart size b m'.bytes ∧
      (∀ a < 2 ^ 64, m'.bytes a =
        ((segments b elfStart).drop i).foldl (place b elfStart a) (m.bytes a)) ∧
      ∀ w ∈ m'.log, Inside start blockSize w := by
  have hlength : (segments b elfStart).length = ePhnum b elfStart := by
    unfold segments
    rw [List.length_map, List.length_range]
  induction fuel generalizing i m with
  | zero =>
    refine ⟨hsame, fun a _ => ?_, hlog⟩
    rw [List.drop_eq_nil_of_le (by omega)]
    rfl
  | succ fuel ih =>
    unfold loadLoop
    rw [ePhnum_of_same hfile hsame]
    split_ifs with hi
    · obtain ⟨hsame', hbytes, hlog'⟩ := ih
        (show ePhnum b elfStart ≤ i + 1 + fuel by omega) (loadTurn_same hfile hloadable hsame hi)
        (loadTurn_inside hfile hloadable hblock hend hsame hi hlog)
      refine ⟨hsame', fun a ha => ?_, hlog'⟩
      rw [hbytes a ha, drop_segments hi, List.foldl_cons,
        loadTurn_bytes hfile hloadable hsame hi ha]
    · refine ⟨hsame, fun a _ => ?_, hlog⟩
      rw [List.drop_eq_nil_of_le (by omega)]
      rfl

end Turn

end Loop

section Prepare
variable {allocatePages : ℕ → ℕ → Option ℕ} {elfStart size : ℕ} {b : ℕ → UInt8} {m : Memory}

/-- The file is one for this machine. -/
structure Identified (b : ℕ → UInt8) (elfStart : ℕ) : Prop where
  magic : b elfStart = 0x7F ∧ b (add64 elfStart 1) = 0x45 ∧ b (add64 elfStart 2) = 0x4C ∧
    b (add64 elfStart 3) = 0x46
  elf64 : b (add64 elfStart 4) = 2
  amd64 : eMachine b elfStart = 62

/-- AllocatePages gives pages that nothing has, so not those of the image. -/
def GivesFreePages (allocatePages : ℕ → ℕ → Option ℕ) (elfStart size : ℕ) : Prop :=
  ∀ pages address start, allocatePages pages address = some start →
    start + pages * pageSize < 2 ^ 64 ∧
      (start + pages * pageSize ≤ elfStart ∨ elfStart + size ≤ start)

/-- What PrepareKernel has done when it returns. -/
def prepared (elfStart : ℕ) (m : Memory) : ℕ × KernelBinary × Memory :=
  let range := kernelRange (segments m.bytes elfStart)
  let m' := loadLoop elfStart (add64 elfStart (ePhoff m.bytes elfStart)) loopBound 0 m
  (eEntry m'.bytes elfStart, ⟨range.1, range.1, pageCount range * pageSize % 2 ^ 64⟩, m')

theorem prepareKernel_eq_ok {r : ℕ × KernelBinary × Memory} :
    prepareKernel allocatePages elfStart m = .ok r ↔ Identified m.bytes elfStart ∧
      allocatePages (pageCount (kernelRange (segments m.bytes elfStart)))
        (kernelRange (segments m.bytes elfStart)).1 =
          some (kernelRange (segments m.bytes elfStart)).1 ∧ r = prepared elfStart m := by
  unfold prepareKernel prepared
  simp only [bind_eq_ok, require_eq_ok]
  constructor
  · rintro ⟨-, hmagic, -, helf64, -, hamd64, hrest⟩
    refine ⟨⟨hmagic, helf64, hamd64⟩, ?_⟩
    cases hpages : allocatePages (pageCount (kernelRange (segments m.bytes elfStart)))
      (kernelRange (segments m.bytes elfStart)).1 with
    | none =>
      rw [hpages] at hrest
      cases hrest
    | some start =>
      rw [hpages] at hrest
      dsimp only at hrest
      rw [bind_eq_ok] at hrest
      obtain ⟨u, hstart, hrest⟩ := hrest
      have heq := require_eq_ok.mp hstart
      subst heq
      exact ⟨rfl, (pure_eq_ok.mp hrest).symm⟩
  · rintro ⟨⟨hmagic, helf64, hamd64⟩, hpages, rfl⟩
    refine ⟨(), hmagic, (), helf64, (), hamd64, ?_⟩
    rw [hpages]
    dsimp only
    rw [require_true rfl, ok_bind]
    rfl

/-- The kernel arrives as it is linked, on pages that the firmware has given. -/
theorem prepareKernel_loads (hfile : IsKernelFile b elfStart size)
    (hfree : GivesFreePages allocatePages elfStart size) :
    ((∃ r, prepareKernel allocatePages elfStart ⟨b, []⟩ = .ok r) ↔ Identified b elfStart ∧
      allocatePages (pageCount (kernelRange (segments b elfStart)))
        (kernelRange (segments b elfStart)).1 = some (kernelRange (segments b elfStart)).1) ∧
    ∀ entry binary m', prepareKernel allocatePages elfStart ⟨b, []⟩ = .ok (entry, binary, m') →
      entry = eEntry b elfStart ∧
      (∀ a < 2 ^ 64, m'.bytes a = linkedByte b elfStart a) ∧
      (∀ w ∈ m'.log, Inside binary.physicalStart binary.byteSize w) ∧
      ∀ h ∈ loads b elfStart, binary.virtualStart ≤ h.pVaddr ∧
        h.pVaddr + h.pMemsz < binary.virtualStart + binary.byteSize := by
  refine ⟨?_, fun entry binary m' hret => ?_⟩
  · constructor
    · rintro ⟨r, hret⟩
      obtain ⟨hident, hpages, -⟩ := prepareKernel_eq_ok.mp hret
      exact ⟨hident, hpages⟩
    · rintro ⟨hident, hpages⟩
      exact ⟨_, prepareKernel_eq_ok.mpr ⟨hident, hpages, rfl⟩⟩
  · obtain ⟨-, hpages, hprepared⟩ := prepareKernel_eq_ok.mp hret
    obtain ⟨range, hrange⟩ : ∃ range, range = kernelRange (segments b elfStart) := ⟨_, rfl⟩
    unfold prepared at hprepared
    dsimp only at hpages hprepared
    rw [← hrange] at hpages hprepared
    obtain ⟨hend, hapart⟩ := hfree _ _ _ hpages
    have hsize : pageCount range * pageSize % 2 ^ 64 = pageCount range * pageSize :=
      Nat.mod_eq_of_lt (by omega)
    rw [hsize] at hprepared
    have hblock : ∀ h ∈ loads b elfStart,
        range.1 ≤ h.pVaddr ∧ h.pVaddr + h.pMemsz < range.1 + pageCount range * pageSize := by
      intro h hmem
      obtain ⟨hsegment, hload⟩ := List.mem_filter.mp hmem
      obtain ⟨hlow, hhigh⟩ := kernelRange_spec hsegment (of_decide_eq_true hload)
        (hfile.placed h hmem)
      rw [← hrange] at hlow hhigh
      have hlt : range.2 < 2 ^ 64 := by
        rw [hrange]
        exact foldl_scanHeader_lt _ (by decide)
      exact ⟨hlow, hhigh.trans_lt (le_pageCount (by omega) hlt)⟩
    have hloadable : ∀ h ∈ loads b elfStart, Loadable elfStart size h := by
      intro h hmem
      obtain ⟨hlow, hhigh⟩ := hblock h hmem
      exact ⟨hfile.contents h hmem, hfile.sizes h hmem, hfile.placed h hmem, by omega⟩
    have hnum : ePhnum b elfStart < 2 ^ 16 := ePhnum_lt _
    have hbound : ePhnum b elfStart ≤ 0 + loopBound := by
      unfold loopBound
      omega
    obtain ⟨hsame, hbytes, hlog⟩ := loadLoop_spec (m := ⟨b, []⟩) hfile hloadable
      (fun h hmem => ⟨(hblock h hmem).1, (hblock h hmem).2.le⟩) hend hbound
      (fun _ _ _ => rfl) (by simp)
    obtain ⟨rfl, rfl, rfl⟩ := hprepared
    refine ⟨eEntry_of_same hfile hsame, fun a ha => ?_, hlog, hblock⟩
    rw [hbytes a ha, List.drop_zero, foldl_place]
    rfl

/-- Two bytes and six zeros at 0x200000. -/
def smallKernel : ℕ → UInt8 :=
  fileAt 0x10000 (fileImage [⟨ptLoad, 120, 0x200000, 2, 8, 4096⟩] [1, 2])

theorem smallKernel_segments :
    segments smallKernel 0x10000 = [⟨ptLoad, 120, 0x200000, 2, 8, 4096⟩] := by
  decide +kernel

/-- A firmware with one free page. -/
def onePage (pages address : ℕ) : Option ℕ :=
  if pages = 1 ∧ address = 0x200000 then some 0x200000 else none

theorem prepareKernel_loads_small :
    ∃ binary m', prepareKernel onePage 0x10000 ⟨smallKernel, []⟩ = .ok (0, binary, m') ∧
      m'.bytes 0x200001 = 2 ∧ m'.bytes 0x200007 = 0 := by
  have hloads : loads smallKernel 0x10000 = [⟨ptLoad, 120, 0x200000, 2, 8, 4096⟩] := by
    unfold loads
    rw [smallKernel_segments]
    decide
  have hfile : IsKernelFile smallKernel 0x10000 122 := by
    refine ⟨by decide, by decide, by decide +kernel, ?_, ?_, ?_⟩
    all_goals
      rw [hloads]
      decide
  have hfree : GivesFreePages onePage 0x10000 122 := by
    unfold GivesFreePages onePage pageSize
    intro pages address start hstart
    split_ifs at hstart
    cases hstart
    omega
  obtain ⟨hreturns, hloaded⟩ := prepareKernel_loads hfile hfree
  obtain ⟨⟨entry, binary, m'⟩, hret⟩ := hreturns.mpr (by
    rw [smallKernel_segments]
    exact ⟨⟨by decide +kernel, by decide +kernel, by decide +kernel⟩, by decide⟩)
  obtain ⟨rfl, hbytes, -⟩ := hloaded _ _ _ hret
  refine ⟨binary, m', ?_, ?_, ?_⟩
  · rw [hret]
    congr 2
  · rw [hbytes _ (by decide)]
    unfold linkedByte
    rw [hloads]
    decide +kernel
  · rw [hbytes _ (by decide)]
    unfold linkedByte
    rw [hloads]
    decide +kernel

end Prepare

end Enkel.KernelImage
