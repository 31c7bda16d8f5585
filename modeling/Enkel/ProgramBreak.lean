import Enkel.RequestRuns
import Enkel.Rounding
import Enkel.SegmentBounds
import Enkel.ThreadLocal

/-!
The program break. The loader leaves 64 MiB behind the highest segment for it, and
sys_brk moves it. Under Linux a request outside the range is answered with the break
as it is. Here a request above the range is an assertion, and the lower end of the
range counts as outside, so that the break never goes back to where it started.
-/
namespace Enkel.ProgramBreak

open Outcome Elf RequestRuns

/-- What sys_brk uses of a process. -/
structure Process where
  binary : ElfBinary
  programBreak : ℕ
deriving DecidableEq, Repr

/-- The break of a new process. -/
def newProcess (binary : ElfBinary) : Process := ⟨binary, binary.programBreakLow⟩

def sysBrk (newBreakAddress : ℕ) (process : Process) : Except Elf.Fault (ℕ × Process) :=
  if process.binary.programBreakLow < newBreakAddress then
    if newBreakAddress ≤ process.binary.programBreakHigh then
      .ok (newBreakAddress, { process with programBreak := newBreakAddress })
    else
      .error (.assertion "Exceeded allocated program break")
  else
    .ok (process.programBreak, process)

/-- The break of Linux: a request in the range is granted, every other one is answered
with the break. -/
def linuxBrk (newBreakAddress : ℕ) (process : Process) : ℕ × Process :=
  if process.binary.programBreakLow ≤ newBreakAddress ∧
      newBreakAddress ≤ process.binary.programBreakHigh then
    (newBreakAddress, { process with programBreak := newBreakAddress })
  else
    (process.programBreak, process)

/-- The break lies in its range. -/
def Process.InRange (process : Process) : Prop :=
  process.binary.programBreakLow ≤ process.programBreak ∧
    process.programBreak ≤ process.binary.programBreakHigh

/-- The requests that sys_brk answers as Linux does. -/
def Answered (newBreakAddress : ℕ) (process : Process) : Prop :=
  newBreakAddress ≤ process.binary.programBreakHigh ∧
    (newBreakAddress = process.binary.programBreakLow →
      process.programBreak = process.binary.programBreakLow)

/-- The calls of a process are those of Linux, the break stays in its range, and the
range lies in the block of the image. -/
structure IsLinuxBreak (binary : ElfBinary) (requests : List ℕ) : Prop where
  linux : calls sysBrk requests (newProcess binary) =
    .ok (specCalls linuxBrk requests (newProcess binary))
  inRange : ∀ call ∈ specCalls linuxBrk requests (newProcess binary), call.2.InRange
  range : binary.programBreakLow ≤ binary.programBreakHigh
  inside : binary.baseAddress ≤ binary.programBreakLow ∧
    binary.programBreakHigh ≤ binary.baseAddress + binary.allocatedSize

section Calls
variable {x : ℕ} {process : Process}

theorem linuxBrk_binary : (linuxBrk x process).2.binary = process.binary := by
  unfold linuxBrk
  split_ifs
  · rfl
  · rfl

theorem linuxBrk_inRange (h : process.InRange) : (linuxBrk x process).2.InRange := by
  unfold linuxBrk
  split_ifs with hx
  · exact hx
  · exact h

/-- One call is answered as Linux does exactly if the request is at most the upper end,
and is not the lower end while the break is above it. -/
theorem sysBrk_eq_iff (h : process.InRange) :
    sysBrk x process = .ok (linuxBrk x process) ↔ Answered x process := by
  obtain ⟨hlow, hhigh⟩ := h
  unfold sysBrk linuxBrk Answered
  by_cases hbelow : process.binary.programBreakLow < x
  · rw [if_pos hbelow]
    by_cases habove : x ≤ process.binary.programBreakHigh
    · rw [if_pos habove, if_pos ⟨hbelow.le, habove⟩]
      exact iff_of_true rfl ⟨habove, fun heq => absurd heq hbelow.ne'⟩
    · rw [if_neg habove]
      exact iff_of_false nofun fun hanswered => habove hanswered.1
  · rw [if_neg hbelow]
    by_cases hx : x = process.binary.programBreakLow
    · rw [if_pos ⟨hx.ge, by omega⟩]
      constructor
      · intro heq
        have hbreak : process.programBreak = x := congrArg Prod.fst (Except.ok.inj heq)
        exact ⟨by omega, fun _ => hbreak.trans hx⟩
      · rintro ⟨-, hanswered⟩
        have hbreak : process.programBreak = x := (hanswered hx).trans hx.symm
        rw [← hbreak]
    · rw [if_neg fun hin => hx (by omega)]
      exact iff_of_true rfl ⟨by omega, fun heq => absurd heq hx⟩

end Calls

section Block
variable {elfStart start size : ℕ} {virtualAlloc : ℕ → ℕ} {programName : List ℕ}
  {binaries binaries' : List ElfBinary} {b : ℕ → UInt8} {m m' : Memory} {binary : ElfBinary}
  {requests : List ℕ}

/-- The program in memory: the highest end of a segment. -/
def programSize (b : ℕ → UInt8) (elfStart : ℕ) : ℕ := highestAddress (segments b elfStart)

/-- The range of the break starts right behind the program. -/
theorem loadElfFromMemory_break (hnew : ∀ existing ∈ binaries, existing.name ≠ programName)
    (hret : loadElfFromMemory elfStart virtualAlloc programName binaries m =
      .ok (binary, binaries', m')) :
    blockSize m.bytes elfStart ≠ 0 ∧
    binary.programBreakLow = add64 binary.baseAddress (programSize m.bytes elfStart) ∧
    binary.programBreakHigh = add64 binary.programBreakLow programBreakSize := by
  have hfind : (binaries.find? fun existing => existing.name = programName) = none := by
    simpa using hnew
  unfold loadElfFromMemory at hret
  rw [hfind] at hret
  simp only [bind_eq_ok] at hret
  obtain ⟨-, -, u, hsize, hret⟩ := hret
  obtain ⟨rfl, -, rfl⟩ := hret
  exact ⟨require_eq_ok.mp hsize, rfl, rfl⟩

theorem highestAddress_lt (headers : List Phdr) : highestAddress headers < 2 ^ 64 := by
  suffices hall : ∀ highest < 2 ^ 64, headers.foldl (fun highest s =>
      if highest < add64 s.pVaddr s.pMemsz then add64 s.pVaddr s.pMemsz else highest) highest <
      2 ^ 64 from hall 0 (Nat.two_pow_pos 64)
  induction headers with
  | nil => exact fun highest h => h
  | cons h headers ih =>
    intro highest hhighest
    rw [List.foldl_cons]
    split_ifs
    · exact ih _ (Nat.mod_lt _ (Nat.two_pow_pos 64))
    · exact ih _ hhighest

theorem programSize_lt : programSize b elfStart < 2 ^ 64 := highestAddress_lt _

/-- The range of the break lies in the block exactly if the sizes do not wrap around. -/
theorem range_inside_iff {n size low high : ℕ} (hn : n < 2 ^ 64)
    (hsize : alignSize (add64 n programBreakSize) pageSize = size) (hzero : size ≠ 0)
    (hblock : start + size < 2 ^ 64) (hlow : low = add64 start n)
    (hhigh : high = add64 low programBreakSize) :
    low ≤ high ∧ start ≤ low ∧ high ≤ start + size ↔
      n + programBreakSize + pageSize ≤ 2 ^ 64 := by
  have hsum : add64 n programBreakSize < 2 ^ 64 := Nat.mod_lt _ (Nat.two_pow_pos 64)
  rw [ThreadLocal.alignSize_page hsum] at hsize
  split_ifs at hsize with hwrap
  · have hle : add64 n programBreakSize ≤ size := hsize ▸ Rounding.le_roundUp (by omega)
    have hlt : size < add64 n programBreakSize + 4096 := hsize ▸ Rounding.roundUp_lt (by omega)
    unfold add64 programBreakSize at *
    unfold pageSize
    omega
  · exact absurd hsize.symm hzero

end Block

section Claim
variable {elfStart : ℕ} {virtualAlloc : ℕ → ℕ} {programName : List ℕ}
  {binaries binaries' : List ElfBinary} {m m' : Memory} {binary : ElfBinary} {requests : List ℕ}

/-- A process has the break of Linux exactly if no request is above the range, none
asks for its lower end once the break has left it, and the size of the program leaves
room for 64 MiB and a page. -/
theorem sysBrk_isLinuxBreak_iff (hnew : ∀ existing ∈ binaries, existing.name ≠ programName)
    (hret : loadElfFromMemory elfStart virtualAlloc programName binaries m =
      .ok (binary, binaries', m'))
    (hblock : binary.baseAddress + binary.allocatedSize < 2 ^ 64) :
    IsLinuxBreak binary requests ↔
      programSize m.bytes elfStart + programBreakSize + pageSize ≤ 2 ^ 64 ∧
      Each linuxBrk Answered requests (newProcess binary) := by
  obtain ⟨hzero, hlow, hhigh⟩ := loadElfFromMemory_break hnew hret
  obtain ⟨-, hsize, -⟩ := loadElfFromMemory_ok hnew hret
  rw [hsize] at hblock
  have hrange := range_inside_iff programSize_lt rfl hzero hblock hlow hhigh
  have hcalls : binary.programBreakLow ≤ binary.programBreakHigh →
      (calls sysBrk requests (newProcess binary) =
        .ok (specCalls linuxBrk requests (newProcess binary)) ↔
      Each linuxBrk Answered requests (newProcess binary)) := fun hle =>
    calls_eq_iff (fun x process => linuxBrk_inRange) (fun x process => sysBrk_eq_iff)
      ⟨le_rfl, hle⟩
  constructor
  · rintro ⟨hlinux, -, hle, hinside⟩
    rw [hsize] at hinside
    exact ⟨hrange.mp ⟨hle, hinside⟩, (hcalls hle).mp hlinux⟩
  · rintro ⟨hroom, hanswered⟩
    obtain ⟨hle, hinside⟩ := hrange.mpr hroom
    refine ⟨(hcalls hle).mpr hanswered, ?_, hle, ?_⟩
    · exact specCalls_inv (fun x process => linuxBrk_inRange) ⟨le_rfl, hle⟩
    · rw [hsize]
      exact hinside

end Claim

theorem smallFile_programSize : programSize smallFile 0x10000 = 0x208 := by
  unfold programSize
  rw [smallFile_read.2.2.2]
  decide

/-- A file with one segment leaves the range from 0x40000208 on. -/
theorem smallFile_break : ∃ binary m',
    loadElfFromMemory 0x10000 (fun _ => 0x40000000) [] [] ⟨smallFile, []⟩ =
      .ok (binary, [binary], m') ∧
    binary.baseAddress + binary.allocatedSize < 2 ^ 64 ∧
    binary.programBreakLow = 0x40000208 ∧ binary.programBreakHigh = 0x44000208 := by
  obtain ⟨binary, hret⟩ := loadElfFromMemory_loads (fun _ => 0x40000000) [] smallFile_check
    (by rw [smallFile_blockSize]; decide)
  obtain ⟨hbase, hallocated, -⟩ := loadElfFromMemory_ok (by simp) hret
  obtain ⟨-, hlow, hhigh⟩ := loadElfFromMemory_break (by simp) hret
  have hbase : binary.baseAddress = 0x40000000 := hbase
  have hallocated : binary.allocatedSize = blockSize smallFile 0x10000 := hallocated
  have hlow : binary.programBreakLow = add64 binary.baseAddress (programSize smallFile 0x10000) :=
    hlow
  rw [hbase, smallFile_programSize] at hlow
  rw [hlow] at hhigh
  refine ⟨binary, _, hret, ?_, hlow, hhigh⟩
  rw [hbase, hallocated, smallFile_blockSize]
  decide

/-- The break grows, is asked for, and goes up to the end of the range. -/
theorem sysBrk_isLinuxBreak_growing : ∃ binary m',
    loadElfFromMemory 0x10000 (fun _ => 0x40000000) [] [] ⟨smallFile, []⟩ =
      .ok (binary, [binary], m') ∧
    IsLinuxBreak binary [0x40000208, 0x40001000, 0, 0x44000208] := by
  obtain ⟨binary, m', hret, hblock, hlow, hhigh⟩ := smallFile_break
  refine ⟨binary, m', hret, (sysBrk_isLinuxBreak_iff (by simp) hret hblock).mpr ⟨?_, ?_⟩⟩
  · decide +kernel
  · simp [Each, Answered, linuxBrk, newProcess, hlow, hhigh]

/-- Going back to the start is not granted, and one byte too much is an assertion. -/
theorem sysBrk_not_shrinking : ∃ binary m',
    loadElfFromMemory 0x10000 (fun _ => 0x40000000) [] [] ⟨smallFile, []⟩ =
      .ok (binary, [binary], m') ∧
    binary.programBreakLow = 0x40000208 ∧ binary.programBreakHigh = 0x44000208 ∧
    calls sysBrk [0x40001000, 0x40000208] (newProcess binary) =
      .ok [(0x40001000, ⟨binary, 0x40001000⟩), (0x40001000, ⟨binary, 0x40001000⟩)] ∧
    calls sysBrk [0x44000209] (newProcess binary) =
      .error (.assertion "Exceeded allocated program break") ∧
    ¬ IsLinuxBreak binary [0x40001000, 0x40000208] ∧ ¬ IsLinuxBreak binary [0x44000209] := by
  obtain ⟨binary, m', hret, hblock, hlow, hhigh⟩ := smallFile_break
  have hshrink : calls sysBrk [0x40001000, 0x40000208] (newProcess binary) =
      .ok [(0x40001000, ⟨binary, 0x40001000⟩), (0x40001000, ⟨binary, 0x40001000⟩)] := by
    simp [calls, sysBrk, newProcess, hlow, hhigh, pure, Except.pure]
  have habove : calls sysBrk [0x44000209] (newProcess binary) =
      .error (.assertion "Exceeded allocated program break") := by
    simp [calls, sysBrk, newProcess, hlow, hhigh]
  refine ⟨binary, m', hret, hlow, hhigh, hshrink, habove, fun h => ?_, fun h => ?_⟩
  · have hlinux := h.linux
    rw [hshrink] at hlinux
    simp [specCalls, linuxBrk, newProcess, hlow, hhigh] at hlinux
  · have hlinux := h.linux
    rw [habove] at hlinux
    exact absurd hlinux nofun

end Enkel.ProgramBreak
