import Enkel.ReadTraces
import Enkel.SegmentBounds
import Enkel.StandardStreams
import Enkel.VolumeCalls

/-!
LoadElfFromMemory with its sections, and with everything that it reads of the file: the
fields of the header, the two tables, the names of the sections, the interpreter and the
sources of the segments. No offset, count or index is compared with the size of the file.
What the loader asks of the kernel is a parameter.
-/
namespace Enkel.ElfFile

open Outcome ByteMemory Elf Trace Traced
open VolumeCalls (units)

/-- How LoadElfFromMemory can stop: also at a string without an end, or with what stops
the kernel. -/
inductive Stop (ε : Type)
  | assertion (message : String)
  | divideError
  | endless
  | kernel (e : ε)
deriving DecidableEq, Repr

/-- The range of addresses that is read, by start and length. -/
abbrev FileReads (ε α : Type) := Traced (ℕ × ℕ) (Stop ε) α

section File
variable (b : ℕ → UInt8) (elfStart : ℕ)

/-- The number of `n` bytes at an offset in the file. -/
def field (off n : ℕ) : ℕ := readWord b (add64 elfStart off) n

def eShoff : ℕ := field b elfStart 40 8
def eShnum : ℕ := field b elfStart 60 2
def eShstrndx : ℕ := field b elfStart 62 2

abbrev sizeofShdr : ℕ := 64
abbrev shtStrtab : ℕ := 3
abbrev shtDynamic : ℕ := 6
abbrev shtDynsym : ℕ := 11

/-- The offset of a section header, for a table at `shoff`. -/
def sectionHeader (shoff i : ℕ) : ℕ := add64 shoff (sizeofShdr * i)

end File

section Reads
variable {ε : Type} (b : ℕ → UInt8) (elfStart : ℕ)

def fetch (off n : ℕ) : FileReads ε ℕ := do
  note (add64 elfStart off, n)
  return field b elfStart off n

/-- Whether strcmp of the string at an offset and a text is zero. -/
def strcmp (off : ℕ) : (text : List ℕ) → FileReads ε Bool
  | [] => do
    let char ← fetch b elfStart off 1
    return char = 0
  | c :: text => do
    let char ← fetch b elfStart off 1
    if char = c then strcmp (add64 off 1) text else return false

/-- SerialPrint of the string at an offset. -/
def serialPrint (off : ℕ) : (fuel : ℕ) → FileReads ε Unit
  | 0 => silent (.error .endless)
  | fuel + 1 => do
    let char ← fetch b elfStart off 1
    if char ≠ 0 then serialPrint (add64 off 1) fuel

/-- What the loader compares before it takes the file for a program. -/
def identification : List (ℕ × ℕ × ℕ × String) :=
  [(0, 1, 0x7F, "Not an ELF file"), (1, 1, 0x45, "Not an ELF file"),
    (2, 1, 0x4C, "Not an ELF file"), (3, 1, 0x46, "Not an ELF file"),
    (4, 1, 2, "Not an ELF64 file"), (18, 2, 62, "Not an AMD64 file")]

def identify : FileReads ε Unit :=
  identification.forM fun (off, n, value, message) => do
    let x ← fetch b elfStart off n
    silent (require (x = value) (.assertion message))

/-- The pointers at the start: the offsets of the section headers and of their names. -/
def tables : FileReads ε (ℕ × ℕ) := do
  let _ ← fetch b elfStart 32 8
  let shoff ← fetch b elfStart 40 8
  let shstrndx ← fetch b elfStart 62 2
  let strings ← fetch b elfStart (add64 (sectionHeader shoff shstrndx) 24) 8
  return (shoff, strings)

/-- A section is taken if it has the name that is looked for. -/
def findSection (header name : ℕ) (text : List ℕ) : FileReads ε Unit := do
  if ← strcmp b elfStart name text then
    let _ ← fetch b elfStart (add64 header 24) 8

/-- A turn of the first pass over the sections. What it finds is not used. -/
def scanSection (shoff strings i : ℕ) : FileReads ε Unit := do
  let header := sectionHeader shoff i
  let shName ← fetch b elfStart header 4
  let sectionName := add64 strings shName
  let shType ← fetch b elfStart (add64 header 4) 4
  if shType = shtStrtab then
    findSection b elfStart header sectionName (units ".dynstr")
  else if shType = shtDynamic ∨ shType = shtDynsym then
    let _ ← fetch b elfStart (add64 header 24) 8
    let _ ← fetch b elfStart (add64 header 32) 8
    let shEntsize ← fetch b elfStart (add64 header 56) 8
    silent (require (shEntsize ≠ 0) .divideError)
  else
    findSection b elfStart header sectionName (units ".got")

def scanSections (shoff strings : ℕ) : FileReads ε Unit := do
  let shnum ← fetch b elfStart 60 2
  (List.range shnum).forM (scanSection b elfStart shoff strings)

/-- A turn of the first pass over the program headers: the end of a segment. -/
def scanSegment (phoff i : ℕ) : FileReads ε Unit := do
  let header := add64 phoff (sizeofPhdr * i)
  let _ ← fetch b elfStart (add64 header 16) 8
  let _ ← fetch b elfStart (add64 header 40) 8

def scanSegments : FileReads ε ℕ := do
  let phoff ← fetch b elfStart 32 8
  let phnum ← fetch b elfStart 56 2
  (List.range phnum).forM (scanSegment b elfStart phoff)
  return highestAddress (segments b elfStart)

end Reads

section Load
variable {ε : Type} (elfStart programStart programHeaders : ℕ)

/-- The loop over the headers, with the sources that it copies from. -/
def loadSegments : (fuel i : ℕ) → LoadState → FileReads ε LoadState
  | 0, _, s => return s
  | fuel + 1, i, s => do
    let phnum ← fetch s.memory.bytes elfStart 56 2
    if i < phnum then
      let segment := s.header programHeaders i
      note (add64 elfStart segment.pOffset, segment.pFilesz)
      loadSegments fuel (i + 1) (loadTurn elfStart programStart programHeaders i s)
    else
      return s

end Load

/-- What LoadElfFromMemory asks of the kernel in a state `σ`, with pointers `π` to
binaries. -/
structure Kernel (σ ε π : Type) where
  /-- The loop over the names of GELFBinaries. -/
  lookup : (programName : List ℕ) → σ → Except ε (Option π)
  rpmalloc : σ → Except ε (π × σ)
  virtualAlloc : (byteSize : ℕ) → σ → Except ε (ℕ × σ)
  volumeOpenHandle : (path : List ℕ) → σ → Except ε (ℕ × σ)
  /-- UnloadElf of a binary that was given up. -/
  unloadElf : π → (programName : List ℕ) → σ → Except ε σ
  /-- The binary goes to the end of GELFBinaries. -/
  enter : π → ElfBinary → (interpreter : List ℕ × ℕ) → σ → Except ε σ

section Sections
variable {σ ε π : Type} (kernel : Kernel σ ε π) (b : ℕ → UInt8) (elfStart : ℕ)

def call {α : Type} (x : Except ε α) : FileReads ε α := silent (x.mapError .kernel)

/-- The name that an .interp section gives to InterpreterName. -/
def interpreterName (off : ℕ) : List ℕ :=
  StandardStreams.asciiToWide (fun k => b (add64 elfStart (add64 off k))) 256

/-- The last pass over the sections, up to an interpreter that cannot be opened. -/
def openInterpreters (shoff strings : ℕ) : List ℕ → (last : List ℕ × ℕ) → σ →
    FileReads ε (Option (List ℕ × ℕ) × σ)
  | [], last, s => return (some last, s)
  | i :: rest, last, s => do
    let header := sectionHeader shoff i
    let shName ← fetch b elfStart header 4
    if ← strcmp b elfStart (add64 strings shName) (units ".interp") then
      let interpreter ← fetch b elfStart (add64 header 24) 8
      serialPrint b elfStart interpreter (2 ^ 64)
      let name := interpreterName b elfStart interpreter
      let (handle, s) ← call (kernel.volumeOpenHandle name s)
      if handle = 0 then return (none, s)
      else openInterpreters shoff strings rest (name, handle) s
    else
      openInterpreters shoff strings rest last s

/-- The tables that the first reads find, and the sizes of the program and its block. -/
structure Layout where
  shoff : ℕ
  strings : ℕ
  programSize : ℕ
  allocatedSize : ℕ

/-- The fields that LoadElfFromMemory sets at its end. -/
def newBinary (programName : List ℕ) (layout : Layout) (programStart : ℕ) (m : Memory)
    (t : LoadState) (entry : ℕ) : ElfBinary :=
  { name := programName
    baseAddress := programStart
    allocatedSize := layout.allocatedSize
    textSection := t.textSection
    entry := add64 programStart entry
    refCount := 1
    tlsData := t.tdataStart
    tlsDataSize := t.tdataSize
    tbssSize := t.tbssSize
    tlsAlign := t.tlsAlign % 2 ^ 16
    programHeaders := headerCopy elfStart programStart m
    programHeaderCount := ePhnum m.bytes elfStart
    programHeaderEntrySize := sizeofPhdr
    programBreakLow := add64 programStart layout.programSize
    programBreakHigh := add64 (add64 programStart layout.programSize) programBreakSize }

/-- What LoadElfFromMemory does with its block. -/
def loadIntoBlock (programName : List ℕ) (elfBinary : π) (layout : Layout) (programStart : ℕ)
    (m : Memory) (s : σ) : FileReads ε (Option π × Memory × σ) := do
  note (add64 elfStart (ePhoff m.bytes elfStart), ePhnum m.bytes elfStart * sizeofPhdr)
  let t ← loadSegments elfStart programStart (headerCopy elfStart programStart m) loopBound 0
    (copyHeaders elfStart programStart m)
  let b := t.memory.bytes
  let shnum ← fetch b elfStart 60 2
  match ← openInterpreters kernel b elfStart layout.shoff layout.strings (List.range shnum)
      ([], 0) s with
  | (none, s) =>
    let s ← call (kernel.unloadElf elfBinary programName s)
    return (none, t.memory, s)
  | (some interpreter, s) =>
    let entry ← fetch b elfStart 24 8
    let binary := newBinary elfStart programName layout programStart m t entry
    let s ← call (kernel.enter elfBinary binary interpreter s)
    return (some elfBinary, t.memory, s)

/-- What LoadElfFromMemory finds out before it asks for the block. -/
def readLayout : FileReads ε Layout := do
  let (shoff, strings) ← tables b elfStart
  identify b elfStart
  scanSections b elfStart shoff strings
  let programSize ← scanSegments b elfStart
  let allocatedSize := alignSize (add64 programSize programBreakSize) pageSize
  silent (require (allocatedSize ≠ 0) (.assertion "No loadable segments in ELF file"))
  return { shoff, strings, programSize, allocatedSize }

/-- LoadElfFromMemory of a binary that is not in the list. -/
def loadNew (programName : List ℕ) (elfBinary : π) (m : Memory) (s : σ) :
    FileReads ε (Option π × Memory × σ) := do
  let layout ← readLayout m.bytes elfStart
  let (programStart, s) ← call (kernel.virtualAlloc layout.allocatedSize s)
  loadIntoBlock kernel elfStart programName elfBinary layout programStart m s

/-- LoadElfFromMemory with the memory and the state of the kernel. -/
def loadElfFromMemory (programName : List ℕ) (m : Memory) (s : σ) :
    FileReads ε (Option π × Memory × σ) := do
  match ← call (kernel.lookup programName s) with
  | some existing => return (some existing, m, s)
  | none =>
    let (elfBinary, s) ← call (kernel.rpmalloc s)
    loadNew kernel elfStart programName elfBinary m s

end Sections

end Enkel.ElfFile
