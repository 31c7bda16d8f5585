import Mathlib.Data.List.Basic
import Enkel.ByteMemory
import Enkel.Types

/-!
Loading a program from an ELF file in memory. A first pass over the program
headers finds the size of the block, then the headers are copied into it, and
the loop that fills the segments reads this copy. Nothing is checked but the
identification of the file. The sections, which only name an interpreter, are
left out.
-/
namespace Enkel.Elf

open Outcome ByteMemory

/-- The bytes at all 64-bit addresses. The log keeps the ranges, by start and
length, that were written. -/
structure Memory where
  bytes : ℕ → UInt8
  log : List (ℕ × ℕ)

def memcpy (dest src n : ℕ) (m : Memory) : Memory :=
  { bytes := copyBytes dest src n m.bytes
    log := m.log ++ [(dest, n)] }

def memset (s : ℕ) (value : UInt8) (n : ℕ) (m : Memory) : Memory :=
  { bytes := setBytes s value n m.bytes
    log := m.log ++ [(s, n)] }

/-- What is used of an Elf64_Phdr. -/
structure Phdr where
  pType : ℕ
  pOffset : ℕ
  pVaddr : ℕ
  pFilesz : ℕ
  pMemsz : ℕ
  pAlign : ℕ
deriving DecidableEq, Repr

def readPhdr (b : ℕ → UInt8) (address : ℕ) : Phdr :=
  { pType := readWord b address 4
    pOffset := readWord b (add64 address 8) 8
    pVaddr := readWord b (add64 address 16) 8
    pFilesz := readWord b (add64 address 32) 8
    pMemsz := readWord b (add64 address 40) 8
    pAlign := readWord b (add64 address 48) 8 }

abbrev sizeofPhdr : ℕ := 56
abbrev ptLoad : ℕ := 1
abbrev ptTls : ℕ := 7
abbrev programBreakSize : ℕ := 64 * 1024 * 1024

section Header
variable (b : ℕ → UInt8) (elfStart : ℕ)

def eMachine : ℕ := readWord b (add64 elfStart 18) 2
def eEntry : ℕ := readWord b (add64 elfStart 24) 8
def ePhoff : ℕ := readWord b (add64 elfStart 32) 8
def ePhnum : ℕ := readWord b (add64 elfStart 56) 2

/-- The program headers of the file. -/
def segments : List Phdr :=
  (List.range (ePhnum b elfStart)).map fun i =>
    readPhdr b (add64 (add64 elfStart (ePhoff b elfStart)) (sizeofPhdr * i))

end Header

/-- The first pass: the largest end of a segment. -/
def highestAddress (segments : List Phdr) : ℕ :=
  segments.foldl (fun highest s =>
    if highest < add64 s.pVaddr s.pMemsz then add64 s.pVaddr s.pMemsz else highest) 0

def allocatedSize (segments : List Phdr) : ℕ :=
  alignSize (add64 (highestAddress segments) programBreakSize) pageSize

/-- The variables of the loop that fills the segments. -/
structure LoadState where
  memory : Memory
  textSection : ℕ
  tlsStart : ℕ
  tdataSize : ℕ
  tbssSize : ℕ
  tdataStart : ℕ
  tlsAlign : ℕ

section Load
variable (elfStart programStart programHeaders : ℕ)

/-- The header that the loop finds in the copy. -/
def LoadState.header (s : LoadState) (i : ℕ) : Phdr :=
  readPhdr s.memory.bytes (add64 programHeaders (sizeofPhdr * i))

def loadSegment (segment : Phdr) (m : Memory) : Memory :=
  let vaddr := add64 segment.pVaddr programStart
  memset (add64 vaddr segment.pFilesz) 0 (sub64 segment.pMemsz segment.pFilesz)
    (memcpy vaddr (add64 elfStart segment.pOffset) segment.pFilesz m)

/-- One turn of the loop. -/
def loadTurn (i : ℕ) (s : LoadState) : LoadState :=
  let segment := s.header programHeaders i
  let vaddr := add64 segment.pVaddr programStart
  let s := if segment.pType = ptTls then
      { s with
        tlsStart := if s.tlsStart = 0 then vaddr else s.tlsStart
        tdataSize := segment.pFilesz
        tbssSize := sub64 segment.pMemsz segment.pFilesz
        tdataStart := segment.pVaddr
        tlsAlign := segment.pAlign }
    else s
  let s := if segment.pType = ptLoad then { s with textSection := vaddr } else s
  { s with memory := loadSegment elfStart programStart segment s.memory }

/-- The loop over the headers, whose number it reads from the file each time. -/
def loadLoop : (fuel i : ℕ) → LoadState → LoadState
  | 0, _, s => s
  | fuel + 1, i, s =>
    if i < ePhnum s.memory.bytes elfStart then
      loadLoop fuel (i + 1) (loadTurn elfStart programStart programHeaders i s)
    else
      s

end Load

/-- The number of headers has 16 bits. -/
abbrev loopBound : ℕ := 2 ^ 16

structure ElfBinary where
  name : List ℕ
  baseAddress : ℕ
  allocatedSize : ℕ
  textSection : ℕ
  entry : ℕ
  refCount : ℕ
  tlsData : ℕ
  tlsDataSize : ℕ
  tbssSize : ℕ
  tlsAlign : ℕ
  programHeaders : ℕ
  programHeaderCount : ℕ
  programHeaderEntrySize : ℕ
  programBreakLow : ℕ
  programBreakHigh : ℕ
deriving DecidableEq, Repr

inductive Fault
  | assertion (message : String)
deriving DecidableEq, Repr

/-- The identification of the file is what the loader asks for. -/
def checkHeader (b : ℕ → UInt8) (elfStart : ℕ) : Except Fault Unit := do
  require (b elfStart = 0x7F ∧ b (add64 elfStart 1) = 0x45 ∧ b (add64 elfStart 2) = 0x4C ∧
    b (add64 elfStart 3) = 0x46) (.assertion "Not an ELF file")
  require (b (add64 elfStart 4) = 2) (.assertion "Not an ELF64 file")
  require (eMachine b elfStart = 62) (.assertion "Not an AMD64 file")

section LoadElf
variable (elfStart programStart : ℕ)

/-- The address of the copy of the program headers. -/
def headerCopy (m : Memory) : ℕ := add64 programStart (ePhoff m.bytes elfStart)

/-- The headers are copied, and the loop can start. -/
def copyHeaders (m : Memory) : LoadState :=
  { memory := memcpy (headerCopy elfStart programStart m)
      (add64 elfStart (ePhoff m.bytes elfStart)) (ePhnum m.bytes elfStart * sizeofPhdr) m
    textSection := 0
    tlsStart := 0
    tdataSize := 0
    tbssSize := 0
    tdataStart := 0
    tlsAlign := 0 }

/-- LoadElfFromMemory: the binary, the list of binaries and the memory. A binary
that is in the list is returned as it is. The block at `programStart` is what
VirtualAlloc returns. -/
def loadElfFromMemory (virtualAlloc : ℕ → ℕ) (programName : List ℕ) (binaries : List ElfBinary)
    (m : Memory) : Except Fault (ElfBinary × List ElfBinary × Memory) := do
  match binaries.find? fun existing => existing.name = programName with
  | some existing => return (existing, binaries, m)
  | none =>
    checkHeader m.bytes elfStart
    let programSize := highestAddress (segments m.bytes elfStart)
    let allocatedSize := allocatedSize (segments m.bytes elfStart)
    require (allocatedSize ≠ 0) (.assertion "No loadable segments in ELF file")
    let programStart := virtualAlloc allocatedSize
    let programHeaders := headerCopy elfStart programStart m
    let s := loadLoop elfStart programStart programHeaders loopBound 0
      (copyHeaders elfStart programStart m)
    let binary :=
      { name := programName
        baseAddress := programStart
        allocatedSize := allocatedSize
        textSection := s.textSection
        entry := add64 programStart (eEntry s.memory.bytes elfStart)
        refCount := 1
        tlsData := s.tdataStart
        tlsDataSize := s.tdataSize
        tbssSize := s.tbssSize
        tlsAlign := s.tlsAlign % 2 ^ 16
        programHeaders := programHeaders
        programHeaderCount := ePhnum m.bytes elfStart
        programHeaderEntrySize := sizeofPhdr
        programBreakLow := add64 programStart programSize
        programBreakHigh := add64 (add64 programStart programSize) programBreakSize }
    return (binary, binaries ++ [binary], s.memory)

end LoadElf

end Enkel.Elf
