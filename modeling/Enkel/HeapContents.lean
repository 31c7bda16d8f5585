import Enkel.ProgramBreak
import Enkel.SameFile

/-!
What a process finds in its heap. VirtualAlloc sets the first word of the block of the
image to zero, and the loader writes the segments and the copy of the headers. The
rest of the block, which sys_brk hands out, is what the pages held before.
-/
namespace Enkel.ProgramBreak

open Outcome ByteMemory Elf

/-- What a process does with its heap. -/
inductive Action
  | brk (newBreakAddress : ℕ)
  | write (address : ℕ) (value : UInt8)
deriving DecidableEq, Repr

structure Running where
  process : Process
  bytes : ℕ → UInt8

def act (running : Running) : Action → Except Elf.Fault Running
  | .brk newBreakAddress => do
    let call ← sysBrk newBreakAddress running.process
    return { running with process := call.2 }
  | .write address value =>
    .ok { running with bytes := Function.update running.bytes address value }

def run (actions : List Action) (running : Running) : Except Elf.Fault Running :=
  actions.foldlM act running

/-- The byte lies between the start of the range and a break that was asked for. -/
def Available (low : ℕ) (actions : List Action) (a : ℕ) : Prop :=
  low ≤ a ∧ ∃ x, Action.brk x ∈ actions ∧ a < x

def Written (actions : List Action) (a : ℕ) : Prop := ∃ v, Action.write a v ∈ actions

/-- The memory after VirtualAlloc has made a block of pages. -/
def allocated (start size : ℕ) (pages b : ℕ → UInt8) : ℕ → UInt8 :=
  writeWord start 0 8 fun a => if start ≤ a ∧ a < start + size then pages a else b a

section Run
variable {actions : List Action} {r r' : Running} {a : ℕ}

theorem act_eq_ok {action : Action} (h : act r action = .ok r') :
    r'.process.binary = r.process.binary ∧
      ∀ a, (∀ v, action ≠ .write a v) → r'.bytes a = r.bytes a := by
  cases action with
  | brk x =>
    obtain ⟨call, hcall, h⟩ := bind_eq_ok.mp h
    obtain rfl := pure_eq_ok.mp h
    refine ⟨?_, fun a _ => rfl⟩
    unfold sysBrk at hcall
    split_ifs at hcall
    · obtain rfl := Except.ok.inj hcall
      rfl
    · obtain rfl := Except.ok.inj hcall
      rfl
  | write address value =>
    obtain rfl := Except.ok.inj h
    refine ⟨rfl, fun a hother => ?_⟩
    apply Function.update_of_ne
    rintro rfl
    exact hother value rfl

/-- What the process does not write stays as it is. -/
theorem run_bytes (h : run actions r = .ok r') (hunwritten : ¬ Written actions a) :
    r'.bytes a = r.bytes a := by
  induction actions generalizing r with
  | nil =>
    obtain rfl := pure_eq_ok.mp h
    rfl
  | cons action actions ih =>
    obtain ⟨next, hnext, h⟩ := bind_eq_ok.mp h
    have hrest : ¬ Written actions a := fun ⟨v, hv⟩ =>
      hunwritten ⟨v, List.mem_cons_of_mem action hv⟩
    rw [ih h hrest]
    apply (act_eq_ok hnext).2
    rintro v rfl
    exact hunwritten ⟨v, List.mem_cons_self⟩

/-- A process whose requests are at most the upper end of the range is not stopped. -/
theorem run_exists (actions : List Action)
    (hbrk : ∀ x, Action.brk x ∈ actions → x ≤ r.process.binary.programBreakHigh) :
    ∃ r', run actions r = .ok r' := by
  induction actions generalizing r with
  | nil => exact ⟨r, rfl⟩
  | cons action actions ih =>
    obtain ⟨next, hnext⟩ : ∃ next, act r action = .ok next := by
      cases action with
      | brk x =>
        have hx := hbrk x List.mem_cons_self
        have hcall : ∃ call, sysBrk x r.process = .ok call := by
          unfold sysBrk
          rw [if_pos hx]
          split_ifs
          · exact ⟨_, rfl⟩
          · exact ⟨_, rfl⟩
        obtain ⟨call, hcall⟩ := hcall
        exact ⟨_, bind_eq_ok.mpr ⟨call, hcall, rfl⟩⟩
      | write address value => exact ⟨_, rfl⟩
    obtain ⟨r', hr'⟩ := ih (r := next) fun x hx => by
      rw [(act_eq_ok hnext).1]
      exact hbrk x (List.mem_cons_of_mem action hx)
    exact ⟨r', bind_eq_ok.mpr ⟨next, hnext, hr'⟩⟩

end Run

section Block
variable {b pages : ℕ → UInt8} {elfStart fileSize start size a o : ℕ}

/-- Outside the block nothing changes. -/
theorem allocated_outside (hsize : 8 ≤ size) (hend : start + size ≤ 2 ^ 64) (ha : a < 2 ^ 64)
    (hout : a < start ∨ start + size ≤ a) : allocated start size pages b a = b a := by
  unfold allocated writeWord
  rw [writeBytes_eq (by omega) ha, if_neg, if_neg (by omega)]
  rw [offset_lt_iff (by omega) ha]
  omega

/-- The first word is zero, and the rest is what the pages held. -/
theorem allocated_inside (hsize : 8 ≤ size) (hend : start + size ≤ 2 ^ 64) (ho : o < size) :
    allocated start size pages b (start + o) = if o < 8 then 0 else pages (start + o) := by
  have hlt : offset start (start + o) < 8 ↔ o < 8 := by
    rw [offset_lt_iff (by omega) (by omega)]
    omega
  unfold allocated writeWord
  rw [writeBytes_eq (by omega) (by omega)]
  by_cases hword : o < 8
  · rw [if_pos (hlt.mpr hword), if_pos hword]
    unfold digit
    rw [Nat.zero_div]
    rfl
  · rw [if_neg fun h => hword (hlt.mp h), if_neg hword, if_pos ⟨by omega, by omega⟩]

theorem allocated_file (b pages : ℕ → UInt8) (hapart : Apart elfStart fileSize start size)
    (hsize : 8 ≤ size) :
    ∀ x < fileSize, allocated start size pages b (elfStart + x) = b (elfStart + x) := by
  obtain ⟨hend, hblock, hsep⟩ := hapart
  intro x hx
  exact allocated_outside hsize hblock (by omega) (by omega)

theorem le_highestAddress {headers : List Phdr} {h : Phdr} (hmem : h ∈ headers) :
    add64 h.pVaddr h.pMemsz ≤ highestAddress headers := by
  have hfold : ∀ (headers : List Phdr) (highest : ℕ),
      highest ≤ headers.foldl (fun highest s =>
        if highest < add64 s.pVaddr s.pMemsz then add64 s.pVaddr s.pMemsz else highest) highest := by
    intro headers
    induction headers with
    | nil => exact fun highest => le_rfl
    | cons h headers ih =>
      intro highest
      rw [List.foldl_cons]
      split_ifs with hlt
      · exact hlt.le.trans (ih _)
      · exact ih _
  obtain ⟨before, after, rfl⟩ := List.append_of_mem hmem
  unfold highestAddress
  rw [List.foldl_append, List.foldl_cons]
  split_ifs with hlt
  · exact hfold after _
  · exact (Nat.le_of_not_lt hlt).trans (hfold after _)

/-- A segment that fits in the block ends in the program. -/
theorem covers_lt_programSize {i : ℕ} (hi : i < ePhnum b elfStart) (hsize : size < 2 ^ 64)
    (hfits : (fileHeader b elfStart i).Fits size) (hcovers : (fileHeader b elfStart i).Covers o) :
    o < programSize b elfStart := by
  have hle := le_highestAddress (mem_segments_iff.mpr ⟨i, hi, rfl⟩)
  obtain ⟨-, hfit⟩ := hfits
  obtain ⟨hlow, hhigh⟩ := hcovers
  rw [add64_of_lt (by omega)] at hle
  exact hhigh.trans_le hle

/-- The byte belongs to the copy of the headers. -/
def InTable (b : ℕ → UInt8) (elfStart o : ℕ) : Prop :=
  ePhoff b elfStart ≤ o ∧ o < ePhoff b elfStart + sizeofPhdr * ePhnum b elfStart

instance : Decidable (InTable b elfStart o) := inferInstanceAs (Decidable (_ ∧ _))

/-- Behind the program the loader writes the copy of the headers only. -/
theorem load_heap_byte (hapart : Apart elfStart fileSize start size)
    (hund : Undisturbed b elfStart fileSize size) (hfile : TableInFile b elfStart fileSize)
    (hsize : size < 2 ^ 64) (hlow : programSize b elfStart ≤ o) (ho : o < size) :
    (loadLoop elfStart start (add64 start (ePhoff b elfStart)) loopBound 0
      (copyHeaders elfStart start ⟨b, []⟩)).memory.bytes (start + o) =
      if InTable b elfStart o then b (elfStart + o) else b (start + o) := by
  have ha : start + o < 2 ^ 64 := by
    have := hapart.2.1
    omega
  have hnone : ∀ j t, Takes elfStart start (add64 start (ePhoff b elfStart)) 0
      (copyHeaders elfStart start ⟨b, []⟩) j t →
      ¬ (t.header (add64 start (ePhoff b elfStart)) j).Writes start (start + o) :=
    fun j t htakes hw => by
      have hj := (asInFile_of_takes hapart hund hfile htakes).2
      have hcovers := (turn_writes_iff hapart hund hfile ha htakes).mp hw
      exact absurd (covers_lt_programSize hj hsize (hund.fits j hj) hcovers) (by omega)
  rw [loadLoop_byte_iff (Q := fun x => x = _) ha (Nat.le_add_left _ _)]
  refine ⟨fun j t hturn => absurd hturn.writes (hnone j t hturn.takes), fun _ => ?_⟩
  split_ifs with htable
  · have htable' : ePhoff b elfStart + sizeofPhdr * 0 ≤ o := htable.1
    exact (asInFile_copyHeaders hapart hund.table hfile).table o htable' htable.2
  · rw [copyHeaders_bytes hapart hund.table hfile ha, if_neg]
    unfold InTable sizeofPhdr at htable
    have hblock := hapart.2.1
    have hoff : ePhoff b elfStart < 2 ^ 64 := readWord_lt.trans_eq (by norm_num)
    have hfit := hund.table
    unfold TableFits sizeofPhdr at hfit
    unfold offset add64 sizeofPhdr
    omega

end Block

section Claim
variable (elfStart : ℕ) (virtualAlloc : ℕ → ℕ) (programName : List ℕ) (binaries : List ElfBinary)
  (b pages : ℕ → UInt8) (actions : List Action)

/-- In the run of a process, whatever the pages of its block held, a byte that it was
granted and has not written is zero. -/
def HeapReadsZero : Prop :=
  ∀ binary binaries' m' running,
    loadElfFromMemory elfStart virtualAlloc programName binaries
      ⟨allocated (virtualAlloc (blockSize b elfStart)) (blockSize b elfStart) pages b, []⟩ =
      .ok (binary, binaries', m') →
    run actions ⟨newProcess binary, m'.bytes⟩ = .ok running →
    ∀ a, Available binary.programBreakLow actions a → ¬ Written actions a → running.bytes a = 0

/-- The last turn of the loader that writes the byte leaves zero there; if none writes
it, it was zero before the loop. -/
def LastTurnZero (start : ℕ) (b : ℕ → UInt8) (a : ℕ) : Prop :=
  (∀ j t, LastTurn elfStart start (add64 start (ePhoff b elfStart)) 0
      (copyHeaders elfStart start ⟨b, []⟩) a j t →
    (loadTurn elfStart start (add64 start (ePhoff b elfStart)) j t).memory.bytes a = 0) ∧
  ((∀ j t, Takes elfStart start (add64 start (ePhoff b elfStart)) 0
      (copyHeaders elfStart start ⟨b, []⟩) j t →
    ¬ (t.header (add64 start (ePhoff b elfStart)) j).Writes start a) →
    (copyHeaders elfStart start ⟨b, []⟩).memory.bytes a = 0)

/-- The byte of the block, by its offset, before the process starts: the copy of the
headers, the first word, or what the pages held. -/
def heapByte (start o : ℕ) : UInt8 :=
  if InTable b elfStart o then b (elfStart + o) else if o < 8 then 0 else pages (start + o)

end Claim

section Claim
variable {elfStart fileSize start size a : ℕ} {virtualAlloc : ℕ → ℕ} {programName : List ℕ}
  {binaries : List ElfBinary} {b pages : ℕ → UInt8} {actions : List Action}

theorem page_le_blockSize (h : blockSize b elfStart ≠ 0) : 4096 ≤ blockSize b elfStart := by
  have hsum : add64 (highestAddress (segments b elfStart)) programBreakSize < 2 ^ 64 :=
    Nat.mod_lt _ (Nat.two_pow_pos 64)
  have hsize : blockSize b elfStart = _ := ThreadLocal.alignSize_page hsum
  split_ifs at hsize
  · have hdvd := Rounding.dvd_roundUp
      (add64 (highestAddress (segments b elfStart)) programBreakSize) 4096
    rw [← hsize] at hdvd
    exact Nat.le_of_dvd (Nat.pos_of_ne_zero h) hdvd
  · exact absurd hsize h

/-- The bytes that the process gets are those that the loader leaves. -/
theorem heapReadsZero_iff_loaded (hnew : ∀ existing ∈ binaries, existing.name ≠ programName)
    (hfile : TableInFile b elfStart fileSize) (hcheck : checkHeader b elfStart = .ok ())
    (hsize : blockSize b elfStart = size) (hzero : size ≠ 0) (hstart : virtualAlloc size = start)
    (hapart : Apart elfStart fileSize start size)
    (hbrk : ∀ x, Action.brk x ∈ actions →
      x ≤ add64 (add64 start (programSize b elfStart)) programBreakSize) :
    HeapReadsZero elfStart virtualAlloc programName binaries b pages actions ↔
      ∀ a, Available (add64 start (programSize b elfStart)) actions a → ¬ Written actions a →
        (loadLoop elfStart start (add64 start (ePhoff (allocated start size pages b) elfStart))
          loopBound 0 (copyHeaders elfStart start
            ⟨allocated start size pages b, []⟩)).memory.bytes a = 0 := by
  have hpage : 4096 ≤ size := hsize ▸ page_le_blockSize (hsize ▸ hzero)
  have hagree := allocated_file b pages hapart (by omega)
  unfold HeapReadsZero
  rw [hsize, hstart]
  obtain ⟨b', hb'⟩ : ∃ b', allocated start size pages b = b' := ⟨_, rfl⟩
  rw [hb'] at hagree ⊢
  have hsegments := segments_congr hagree hapart.1 hfile
  have hcheck' : checkHeader b' elfStart = .ok () :=
    (checkHeader_congr hagree hapart.1 hfile.1).trans hcheck
  have hsize' : blockSize b' elfStart = size := by
    rw [← hsize, blockSize, blockSize, hsegments]
  have hprogram : programSize b' elfStart = programSize b elfStart := by
    rw [programSize, programSize, hsegments]
  constructor
  · intro h a havailable hunwritten
    obtain ⟨binary, hret⟩ := loadElfFromMemory_new virtualAlloc hnew hcheck' (hsize' ▸ hzero)
    obtain ⟨hbase, -, -⟩ := loadElfFromMemory_ok hnew hret
    obtain ⟨-, hlow, hhigh⟩ := loadElfFromMemory_break hnew hret
    have hlow : binary.programBreakLow = add64 binary.baseAddress (programSize b' elfStart) := hlow
    have hbase : binary.baseAddress = virtualAlloc (blockSize b' elfStart) := hbase
    rw [hsize', hstart] at hret hbase
    rw [hbase, hprogram] at hlow
    rw [hlow] at hhigh
    obtain ⟨running, hrun⟩ := run_exists actions
      (r := ⟨newProcess binary, (loadLoop elfStart start (headerCopy elfStart start ⟨b', []⟩)
        loopBound 0 (copyHeaders elfStart start ⟨b', []⟩)).memory.bytes⟩) fun x hx => by
      refine (hbrk x hx).trans_eq ?_
      exact hhigh.symm
    have hread := h binary _ _ running hret hrun a (hlow ▸ havailable) hunwritten
    rw [run_bytes hrun hunwritten] at hread
    exact hread
  · intro h binary binaries' m' running hret hrun a havailable hunwritten
    obtain ⟨hbase, -, hm, -⟩ := loadElfFromMemory_ok hnew hret
    obtain ⟨-, hlow, -⟩ := loadElfFromMemory_break hnew hret
    have hlow : binary.programBreakLow = add64 binary.baseAddress (programSize b' elfStart) := hlow
    have hbase : binary.baseAddress = virtualAlloc (blockSize b' elfStart) := hbase
    rw [hsize', hstart] at hbase
    rw [hbase, hprogram] at hlow
    rw [run_bytes hrun hunwritten, hm, hbase]
    exact h a (hlow ▸ havailable) hunwritten

/-- As long as the copy of the headers is not disturbed, the loader leaves the bytes
behind the program as they were, but for this copy. -/
theorem load_heapByte {o : ℕ} (pages : ℕ → UInt8) (hfile : TableInFile b elfStart fileSize)
    (hapart : Apart elfStart fileSize start size) (hpage : 8 ≤ size) (hsize : size < 2 ^ 64)
    (hund : Undisturbed b elfStart fileSize size) (hlow : programSize b elfStart ≤ o)
    (ho : o < size) :
    (loadLoop elfStart start (add64 start (ePhoff (allocated start size pages b) elfStart))
      loopBound 0 (copyHeaders elfStart start
        ⟨allocated start size pages b, []⟩)).memory.bytes (start + o) =
      heapByte elfStart b pages start o := by
  have hagree := allocated_file b pages hapart hpage
  have hbyte : allocated start size pages b (start + o) = _ :=
    allocated_inside hpage hapart.2.1 ho
  obtain ⟨b', hb'⟩ : ∃ b', allocated start size pages b = b' := ⟨_, rfl⟩
  rw [hb'] at hagree hbyte ⊢
  have hoff := ePhoff_congr hagree hapart.1 hfile.1
  have hnum := ePhnum_congr hagree hapart.1 hfile.1
  have hund' := undisturbed_congr hagree hapart.1 hfile hund
  have hsegments := segments_congr hagree hapart.1 hfile
  have htable' : InTable b' elfStart o ↔ InTable b elfStart o := by
    unfold InTable
    rw [hoff, hnum]
  have hfile' : TableInFile b' elfStart fileSize := by
    unfold TableInFile
    rw [hoff, hnum]
    exact hfile
  have hlow' : programSize b' elfStart ≤ o := by
    unfold programSize
    rw [hsegments]
    exact hlow
  rw [load_heap_byte hapart hund' hfile' hsize hlow' ho, hbyte]
  unfold heapByte
  by_cases htable : InTable b elfStart o
  · rw [if_pos htable, if_pos (htable'.mpr htable)]
    apply hagree
    have := hfile.2
    exact htable.2.trans_le this
  · rw [if_neg htable, if_neg fun h => htable (htable'.mp h)]

/-- A program that leaves room for the range of its break ends before it. -/
theorem programSize_add_le
    (hroom : programSize b elfStart + programBreakSize + pageSize ≤ 2 ^ 64) :
    programSize b elfStart + programBreakSize ≤ blockSize b elfStart := by
  unfold pageSize at hroom
  have hsum : add64 (programSize b elfStart) programBreakSize =
      programSize b elfStart + programBreakSize := add64_of_lt (by omega)
  have halign := ThreadLocal.alignSize_page
    (n := programSize b elfStart + programBreakSize) (by omega)
  have hsize : alignSize (add64 (programSize b elfStart) programBreakSize) pageSize =
      blockSize b elfStart := rfl
  rw [hsum, halign, if_pos (by omega)] at hsize
  rw [← hsize]
  exact Rounding.le_roundUp (by omega)

/-- If the copy of the headers is not disturbed, the process finds zeros exactly where the
headers, the first word or the pages had zeros. -/
theorem heapReadsZero_iff_heapByte (pages : ℕ → UInt8)
    (hnew : ∀ existing ∈ binaries, existing.name ≠ programName)
    (hfile : TableInFile b elfStart fileSize) (hcheck : checkHeader b elfStart = .ok ())
    (hsize : blockSize b elfStart = size) (hzero : size ≠ 0) (hstart : virtualAlloc size = start)
    (hapart : Apart elfStart fileSize start size)
    (hbrk : ∀ x, Action.brk x ∈ actions →
      x ≤ add64 (add64 start (programSize b elfStart)) programBreakSize)
    (hund : Undisturbed b elfStart fileSize size)
    (hroom : programSize b elfStart + programBreakSize + pageSize ≤ 2 ^ 64) :
    HeapReadsZero elfStart virtualAlloc programName binaries b pages actions ↔
      ∀ o, Available (start + programSize b elfStart) actions (start + o) →
        ¬ Written actions (start + o) → heapByte elfStart b pages start o = 0 := by
  have hpage : 4096 ≤ size := hsize ▸ page_le_blockSize (hsize ▸ hzero)
  have hlt : size < 2 ^ 64 := hsize ▸ blockSize_lt
  have hprogram : programSize b elfStart + programBreakSize ≤ size :=
    hsize ▸ programSize_add_le hroom
  have hblock := hapart.2.1
  have hlow : add64 start (programSize b elfStart) = start + programSize b elfStart := by
    apply add64_of_lt
    unfold programBreakSize at hprogram
    omega
  -- the range ends in the block
  have hin : ∀ o, Available (start + programSize b elfStart) actions (start + o) →
      programSize b elfStart ≤ o ∧ o < size := by
    rintro o ⟨hle, x, hx, hox⟩
    have hx' := hbrk x hx
    rw [hlow] at hx'
    have hhigh : add64 (start + programSize b elfStart) programBreakSize ≤
        start + programSize b elfStart + programBreakSize := Nat.mod_le _ _
    omega
  have hbyte := fun {o : ℕ} (havailable : Available (start + programSize b elfStart) actions
      (start + o)) => load_heapByte pages hfile hapart (by omega) hlt hund
    (hin o havailable).1 (hin o havailable).2
  rw [heapReadsZero_iff_loaded hnew hfile hcheck hsize hzero hstart hapart hbrk, hlow]
  constructor
  · intro h o havailable hunwritten
    rw [← hbyte havailable]
    exact h _ havailable hunwritten
  · intro h a havailable hunwritten
    obtain ⟨o, rfl⟩ : ∃ o, a = start + o := ⟨a - start, by have := havailable.1; omega⟩
    rw [hbyte havailable]
    exact h o havailable hunwritten

end Claim

end Enkel.ProgramBreak
