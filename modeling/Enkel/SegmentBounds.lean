import Mathlib.Logic.Relation
import Enkel.ElfLoader

/-!
Where the loader writes. The size of the block is the largest sum of an address
and a size, taken modulo 2^64, so a header whose sum wraps around, or whose file
size exceeds its memory size, is written outside the block that was made for it.
The writes stay inside exactly if the copy of the headers fits, and every header
that a turn of the loop finds fits.
-/
namespace Enkel.Elf

open Outcome ByteMemory

/-- Every byte of a written range lies in the block. -/
def Inside (start size : ℕ) (w : ℕ × ℕ) : Prop :=
  ∀ k < w.2, start ≤ (w.1 + k) % 2 ^ 64 ∧ (w.1 + k) % 2 ^ 64 < start + size

theorem inside_add_iff {start size x n : ℕ} (hx : x < 2 ^ 64) (hsize : size < 2 ^ 64)
    (hblock : start + size ≤ 2 ^ 64) :
    Inside start size (add64 start x, n) ↔ n = 0 ∨ x + n ≤ size := by
  unfold Inside add64
  constructor
  · intro h
    by_contra hcon
    have h0 := h 0 (by omega)
    -- the first byte behind the block
    have hend := h (size - x) (by omega)
    omega
  · intro h k hk
    omega

/-- The segment fits in a block of the given size, without wrapping around. -/
def Phdr.Fits (size : ℕ) (h : Phdr) : Prop :=
  h.pFilesz ≤ h.pMemsz ∧ (h.pMemsz = 0 ∨ h.pVaddr + h.pMemsz ≤ size)

instance (size : ℕ) (h : Phdr) : Decidable (h.Fits size) :=
  inferInstanceAs (Decidable (_ ∧ _))

/-- The fields of a header are 64-bit words. -/
structure Phdr.Words (h : Phdr) : Prop where
  vaddr : h.pVaddr < 2 ^ 64
  filesz : h.pFilesz < 2 ^ 64
  memsz : h.pMemsz < 2 ^ 64

theorem readPhdr_words (b : ℕ → UInt8) (address : ℕ) : (readPhdr b address).Words := by
  constructor
  all_goals
    apply readWord_lt.trans_eq
    norm_num

/-- Both ranges of a segment lie in the block exactly if the segment fits. -/
theorem segment_inside_iff {start size : ℕ} {h : Phdr} (hw : h.Words) (hsize : size < 2 ^ 64)
    (hblock : start + size ≤ 2 ^ 64) :
    Inside start size (add64 h.pVaddr start, h.pFilesz) ∧
      Inside start size (add64 (add64 h.pVaddr start) h.pFilesz, sub64 h.pMemsz h.pFilesz) ↔
    h.Fits size := by
  obtain ⟨hv, hf, hm⟩ := hw
  have hcopy : add64 h.pVaddr start = add64 start h.pVaddr := by
    rw [add64, add64, Nat.add_comm]
  have hset : add64 (add64 h.pVaddr start) h.pFilesz =
      add64 start (add64 h.pVaddr h.pFilesz) := by
    unfold add64
    omega
  have hset_lt : add64 h.pVaddr h.pFilesz < 2 ^ 64 := Nat.mod_lt _ (Nat.two_pow_pos 64)
  rw [hset, hcopy, inside_add_iff hv hsize hblock, inside_add_iff hset_lt hsize hblock]
  unfold Phdr.Fits add64 sub64
  omega

section Loop
variable (elfStart programStart programHeaders : ℕ)

/-- The loop goes from one turn to the next. -/
inductive Turn : ℕ × LoadState → ℕ × LoadState → Prop
  | next {i : ℕ} {s : LoadState} (hi : i < ePhnum s.memory.bytes elfStart) :
      Turn (i, s) (i + 1, loadTurn elfStart programStart programHeaders i s)

/-- The loop that starts with turn `i` in the state `s` takes turn `j` in the
state `t`. -/
def Takes (i : ℕ) (s : LoadState) (j : ℕ) (t : LoadState) : Prop :=
  Relation.ReflTransGen (Turn elfStart programStart programHeaders) (i, s) (j, t) ∧
    j < ePhnum t.memory.bytes elfStart

end Loop

section Loop
variable {elfStart programStart programHeaders i j fuel : ℕ} {s t : LoadState}

theorem ePhnum_lt (b : ℕ → UInt8) : ePhnum b elfStart < 2 ^ 16 :=
  readWord_lt.trans_eq (by norm_num)

/-- The first turn is this one, or the loop goes on with the next turn. -/
theorem takes_iff : Takes elfStart programStart programHeaders i s j t ↔
    i < ePhnum s.memory.bytes elfStart ∧ ((i = j ∧ s = t) ∨
      Takes elfStart programStart programHeaders (i + 1)
        (loadTurn elfStart programStart programHeaders i s) j t) := by
  constructor
  · rintro ⟨hreach, hj⟩
    rcases Relation.ReflTransGen.cases_head hreach with heq | ⟨_, ⟨hi⟩, hrest⟩
    · obtain ⟨rfl, rfl⟩ := Prod.mk.inj heq
      exact ⟨hj, Or.inl ⟨rfl, rfl⟩⟩
    · exact ⟨hi, Or.inr ⟨hrest, hj⟩⟩
  · rintro ⟨hi, ⟨rfl, rfl⟩ | ⟨hrest, hj⟩⟩
    · exact ⟨Relation.ReflTransGen.refl, hi⟩
    · exact ⟨Relation.ReflTransGen.head (Turn.next hi) hrest, hj⟩

/-- A file has no more headers than the bound. -/
theorem not_takes_of_loopBound_le (hi : loopBound ≤ i) :
    ¬ Takes elfStart programStart programHeaders i s j t := by
  have hnum : ePhnum s.memory.bytes elfStart < 2 ^ 16 := ePhnum_lt _
  intro htakes
  have hturn := (takes_iff.mp htakes).1
  unfold loopBound at hi
  omega

theorem takes_ge (h : Takes elfStart programStart programHeaders i s j t) : i ≤ j := by
  obtain ⟨hreach, -⟩ := h
  suffices hall : ∀ x, Relation.ReflTransGen (Turn elfStart programStart programHeaders) (i, s) x →
      i ≤ x.1 from hall _ hreach
  intro x hx
  induction hx with
  | refl => exact le_refl i
  | tail _ hturn ih =>
    obtain ⟨_⟩ := hturn
    exact Nat.le_succ_of_le ih

theorem loadTurn_memory : (loadTurn elfStart programStart programHeaders i s).memory =
    loadSegment elfStart programStart (s.header programHeaders i) s.memory := by
  unfold loadTurn
  by_cases htls : (s.header programHeaders i).pType = ptTls
  · have hload : ¬ (s.header programHeaders i).pType = ptLoad := by
      rw [htls]
      decide
    simp only [if_pos htls, if_neg hload]
  · by_cases hload : (s.header programHeaders i).pType = ptLoad
    · simp only [if_neg htls, if_pos hload]
    · simp only [if_neg htls, if_neg hload]

theorem loadSegment_log {h : Phdr} {m : Memory} : (loadSegment elfStart programStart h m).log =
    m.log ++ [(add64 h.pVaddr programStart, h.pFilesz),
      (add64 (add64 h.pVaddr programStart) h.pFilesz, sub64 h.pMemsz h.pFilesz)] := by
  show m.log ++ _ ++ _ = _
  rw [List.append_assoc]
  rfl

/-- A turn writes inside the block exactly if the header it finds fits. -/
theorem loadTurn_inside_iff {size : ℕ} (hsize : size < 2 ^ 64)
    (hblock : programStart + size ≤ 2 ^ 64) :
    (∀ w ∈ (loadTurn elfStart programStart programHeaders i s).memory.log,
      Inside programStart size w) ↔
    (∀ w ∈ s.memory.log, Inside programStart size w) ∧
      (s.header programHeaders i).Fits size := by
  have hwords : (s.header programHeaders i).Words := readPhdr_words _ _
  rw [loadTurn_memory, loadSegment_log, ← segment_inside_iff hwords hsize hblock]
  simp only [List.mem_append, List.mem_cons, List.not_mem_nil, or_false, or_imp, forall_and,
    forall_eq]

/-- The loop writes inside the block exactly if all the headers it finds fit. -/
theorem loadLoop_inside_iff {size : ℕ} (hsize : size < 2 ^ 64)
    (hblock : programStart + size ≤ 2 ^ 64) (hfuel : loopBound ≤ i + fuel) :
    (∀ w ∈ (loadLoop elfStart programStart programHeaders fuel i s).memory.log,
      Inside programStart size w) ↔
    (∀ w ∈ s.memory.log, Inside programStart size w) ∧
      ∀ j t, Takes elfStart programStart programHeaders i s j t →
        (t.header programHeaders j).Fits size := by
  induction fuel generalizing i s with
  | zero =>
    exact (and_iff_left fun j t htakes => absurd htakes (not_takes_of_loopBound_le hfuel)).symm
  | succ fuel ih =>
    unfold loadLoop
    split_ifs with hi
    · rw [ih (by omega), loadTurn_inside_iff hsize hblock, and_assoc]
      refine and_congr_right fun _ => ?_
      constructor
      · rintro ⟨hfits, hrest⟩ j t htakes
        rcases (takes_iff.mp htakes).2 with ⟨rfl, rfl⟩ | hlater
        · exact hfits
        · exact hrest j t hlater
      · intro h
        refine ⟨h i s (takes_iff.mpr ⟨hi, Or.inl ⟨rfl, rfl⟩⟩), fun j t hlater => ?_⟩
        exact h j t (takes_iff.mpr ⟨hi, Or.inr hlater⟩)
    · refine (and_iff_left fun j t htakes => ?_).symm
      exact absurd (takes_iff.mp htakes).1 hi

end Loop

/-! The bytes of a file, for the runs on fixed files. -/

/-- The `n` bytes of a little-endian number. -/
def word (n value : ℕ) : List UInt8 :=
  (List.range n).map fun i => UInt8.ofNat (value / 256 ^ i)

def Phdr.image (h : Phdr) : List UInt8 :=
  word 8 h.pType ++ word 8 h.pOffset ++ word 8 h.pVaddr ++ word 8 0 ++ word 8 h.pFilesz ++
    word 8 h.pMemsz ++ word 8 h.pAlign

/-- A file with its program headers right after the 64 bytes of its header. -/
def fileImage (headers : List Phdr) (contents : List UInt8) : List UInt8 :=
  [0x7F, 0x45, 0x4C, 0x46, 2] ++ word 11 0 ++ word 2 3 ++ word 2 62 ++ word 12 0 ++ word 8 64 ++
    word 16 0 ++ word 2 headers.length ++ word 6 0 ++ headers.flatMap Phdr.image ++ contents

/-- The file lies at `start`, in a memory of zeros. -/
def fileAt (start : ℕ) (image : List UInt8) (address : ℕ) : UInt8 :=
  if address < start then 0 else image.getD (address - start) 0

section Claim
variable {elfStart : ℕ} {virtualAlloc : ℕ → ℕ} {programName : List ℕ}
  {binaries binaries' : List ElfBinary} {b : ℕ → UInt8} {m' : Memory} {binary : ElfBinary}

/-- The size of the block that is made for a file. -/
def blockSize (b : ℕ → UInt8) (elfStart : ℕ) : ℕ := allocatedSize (segments b elfStart)

theorem blockSize_lt : blockSize b elfStart < 2 ^ 64 := by
  unfold blockSize allocatedSize alignSize
  exact Nat.and_le_left.trans_lt (Nat.mod_lt _ (Nat.two_pow_pos 64))

/-- The copy of the headers fits in a block of the given size. -/
def TableFits (b : ℕ → UInt8) (elfStart size : ℕ) : Prop :=
  ePhnum b elfStart = 0 ∨ ePhoff b elfStart + sizeofPhdr * ePhnum b elfStart ≤ size

instance (b : ℕ → UInt8) (elfStart size : ℕ) : Decidable (TableFits b elfStart size) :=
  inferInstanceAs (Decidable (_ ∨ _))

/-- The copy of the headers is written inside the block exactly if it fits. -/
theorem copyHeaders_inside_iff {start size : ℕ} (hsize : size < 2 ^ 64)
    (hblock : start + size ≤ 2 ^ 64) :
    (∀ w ∈ (copyHeaders elfStart start ⟨b, []⟩).memory.log, Inside start size w) ↔
      TableFits b elfStart size := by
  have hoff : ePhoff b elfStart < 2 ^ 64 := readWord_lt.trans_eq (by norm_num)
  show (∀ w ∈ [(add64 start (ePhoff b elfStart), ePhnum b elfStart * sizeofPhdr)],
    Inside start size w) ↔ _
  rw [List.forall_mem_singleton, inside_add_iff hoff hsize hblock]
  unfold TableFits sizeofPhdr
  omega

/-- What a run that loads the file has done. -/
theorem loadElfFromMemory_ok {m : Memory}
    (hnew : ∀ existing ∈ binaries, existing.name ≠ programName)
    (hret : loadElfFromMemory elfStart virtualAlloc programName binaries m =
      .ok (binary, binaries', m')) :
    binary.baseAddress = virtualAlloc (blockSize m.bytes elfStart) ∧
    binary.allocatedSize = blockSize m.bytes elfStart ∧
    m' = (loadLoop elfStart binary.baseAddress
      (headerCopy elfStart binary.baseAddress m) loopBound 0
      (copyHeaders elfStart binary.baseAddress m)).memory ∧
    binary.tlsData = (loadLoop elfStart binary.baseAddress
      (headerCopy elfStart binary.baseAddress m) loopBound 0
      (copyHeaders elfStart binary.baseAddress m)).tdataStart := by
  have hfind : (binaries.find? fun existing => existing.name = programName) = none := by
    simpa using hnew
  unfold loadElfFromMemory at hret
  rw [hfind] at hret
  simp only [bind_eq_ok] at hret
  obtain ⟨-, -, -, -, hret⟩ := hret
  obtain ⟨rfl, -, rfl⟩ := hret
  exact ⟨rfl, rfl, rfl, rfl⟩

/-- A binary that is in the list is returned, and nothing is written. -/
theorem loadElfFromMemory_existing {m : Memory}
    (hold : ∃ existing ∈ binaries, existing.name = programName)
    (hret : loadElfFromMemory elfStart virtualAlloc programName binaries m =
      .ok (binary, binaries', m')) : m' = m := by
  unfold loadElfFromMemory at hret
  cases hfind : binaries.find? fun existing => existing.name = programName with
  | none =>
    obtain ⟨existing, hmem, hname⟩ := hold
    have := List.find?_eq_none.mp hfind existing hmem
    simp [hname] at this
  | some existing =>
    rw [hfind] at hret
    obtain ⟨-, -, rfl⟩ := hret
    rfl

/-- A file with the right identification and a block of some size is loaded, under a new
name. -/
theorem loadElfFromMemory_new (virtualAlloc : ℕ → ℕ)
    (hnew : ∀ existing ∈ binaries, existing.name ≠ programName)
    (hcheck : checkHeader b elfStart = .ok ()) (hsize : blockSize b elfStart ≠ 0) :
    ∃ binary, loadElfFromMemory elfStart virtualAlloc programName binaries ⟨b, []⟩ =
      .ok (binary, binaries ++ [binary], (loadLoop elfStart (virtualAlloc (blockSize b elfStart))
        (headerCopy elfStart (virtualAlloc (blockSize b elfStart)) ⟨b, []⟩) loopBound 0
        (copyHeaders elfStart (virtualAlloc (blockSize b elfStart)) ⟨b, []⟩)).memory) := by
  have hfind : (binaries.find? fun existing => existing.name = programName) = none := by
    simpa using hnew
  unfold blockSize at hsize
  unfold loadElfFromMemory
  rw [hfind, hcheck]
  dsimp only
  rw [ok_bind, require_true hsize, ok_bind]
  exact ⟨_, rfl⟩

theorem loadElfFromMemory_loads (virtualAlloc : ℕ → ℕ) (programName : List ℕ)
    (hcheck : checkHeader b elfStart = .ok ()) (hsize : blockSize b elfStart ≠ 0) :
    ∃ binary, loadElfFromMemory elfStart virtualAlloc programName [] ⟨b, []⟩ =
      .ok (binary, [binary], (loadLoop elfStart (virtualAlloc (blockSize b elfStart))
        (headerCopy elfStart (virtualAlloc (blockSize b elfStart)) ⟨b, []⟩) loopBound 0
        (copyHeaders elfStart (virtualAlloc (blockSize b elfStart)) ⟨b, []⟩)).memory) :=
  loadElfFromMemory_new virtualAlloc (by simp) hcheck hsize

end Claim

/-- Two bytes and six zeros at 0x200. -/
def smallFile : ℕ → UInt8 :=
  fileAt 0x10000 (fileImage [⟨ptLoad, 120, 0x200, 2, 8, 4096⟩] [1, 2])

/-- What the loader reads of the file. -/
theorem smallFile_read : checkHeader smallFile 0x10000 = .ok () ∧
    ePhoff smallFile 0x10000 = 64 ∧ ePhnum smallFile 0x10000 = 1 ∧
    segments smallFile 0x10000 = [⟨ptLoad, 120, 0x200, 2, 8, 4096⟩] := by
  decide +kernel

theorem smallFile_check : checkHeader smallFile 0x10000 = .ok () := smallFile_read.1

theorem smallFile_blockSize : blockSize smallFile 0x10000 = 0x4001000 := by
  unfold blockSize
  rw [smallFile_read.2.2.2]
  decide

/-- A segment of 16 zeros at the end of the address space. The end of the
segment is zero. -/
def wrappingFile : ℕ → UInt8 :=
  fileAt 0x10000 (fileImage [⟨ptLoad, 0, 2 ^ 64 - 16, 0, 16, 4096⟩] [])

end Enkel.Elf
