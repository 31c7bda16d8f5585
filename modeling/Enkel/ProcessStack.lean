import Mathlib.Data.Int.Init
import Enkel.MemoryLayout
import Enkel.ThreadLocal

/-!
The stack that a new process finds. It is filled from its end: a marker, the strings
of the environment and then those of the arguments, the auxiliary vector, and the
vectors of pointers with the number of arguments below them. The size of the strings
is measured before any of them is written, and a dry run gives the size of the
auxiliary vector.
-/
namespace Enkel.ProcessStack

open ByteMemory Elf ThreadLocal

abbrev defaultThreadStackSize : ℕ := 128 * 1024

def storeWord (address value : ℕ) (m : Memory) : Memory := store address (digit value) 8 m

/-- FillUnique: as many whole words as fit, each by one larger than the last. -/
def fillUnique (address baseValue byteCount : ℕ) (m : Memory) : Memory :=
  let numElements := byteCount / 8
  store address (fun i => digit (add64 baseValue (i / 8)) (i % 8)) (8 * numElements) m

/-- The loop of wide_to_ascii. A string is the list of its characters, without the
final zero. -/
def asciiLoop (bufferOut : Option ℕ) (bufferOutBytes : ℤ) :
    (bufferIn : List ℕ) → (index : ℕ) → (ℕ → UInt8) → ℕ × (ℕ → UInt8)
  | [], index, b => (index, b)
  | c :: rest, index, b =>
    if (index : ℤ) < bufferOutBytes then
      match bufferOut with
      | some p =>
        asciiLoop bufferOut bufferOutBytes rest (index + 1)
          (Function.update b ((p + index) % 2 ^ 64) (UInt8.ofNat c))
      | none => asciiLoop bufferOut bufferOutBytes rest (index + 1) b
    else
      (index, b)

/-- wide_to_ascii: the number of characters, and the memory. -/
def wideToAscii (bufferOut : Option ℕ) (bufferIn : List ℕ) (bufferOutBytes : ℤ) (m : Memory) :
    ℕ × Memory :=
  let r := asciiLoop bufferOut bufferOutBytes bufferIn 0 m.bytes
  match bufferOut with
  | some p => (r.1, store (add64 p r.1) (fun _ => 0) 1 ⟨r.2, m.log ++ [(p, r.1)]⟩)
  | none => (r.1, m)

/-- The types of the entries of the auxiliary vector. -/
inductive AuxType
  | null
  | phdr
  | phent
  | phnum
  | pagesz
  | base
  | entry
  | random
deriving DecidableEq, Repr

def AuxType.code : AuxType → ℕ
  | .null => 0
  | .phdr => 3
  | .phent => 4
  | .phnum => 5
  | .pagesz => 6
  | .base => 7
  | .entry => 9
  | .random => 25

section Aux
variable (binary : ElfBinary) (subBinary : Option ElfBinary) (stackCookie : ℕ)

/-- The entries in the order in which they are written. With an interpreter they
describe the program and not the interpreter. -/
def auxEntries : List (AuxType × ℕ) :=
  [(.null, 0), (.pagesz, 4096), (.random, stackCookie)] ++
  match subBinary with
  | some subBinary =>
    [(.entry, subBinary.entry), (.base, subBinary.baseAddress),
      (.phnum, subBinary.programHeaderCount), (.phent, subBinary.programHeaderEntrySize),
      (.phdr, subBinary.programHeaders)]
  | none =>
    [(.entry, binary.entry), (.base, binary.baseAddress), (.pagesz, 4096),
      (.phnum, binary.programHeaderCount), (.phent, binary.programHeaderEntrySize),
      (.phdr, binary.programHeaders)]

def writeAuxEntry (dryRun : Bool) (s : ℕ × Memory) (e : AuxType × ℕ) : ℕ × Memory :=
  let stackPointer := sub64 s.1 16
  if dryRun then
    (stackPointer, s.2)
  else
    (stackPointer,
      storeWord (add64 stackPointer 8) e.2 (storeWord stackPointer e.1.code s.2))

def writeProcessAuxVectors (stackPointer : ℕ) (dryRun : Bool) (m : Memory) : ℕ × Memory :=
  (auxEntries binary subBinary stackCookie).foldl (writeAuxEntry dryRun) (stackPointer, m)

end Aux

/-- STACK_LEFT, when so many words lie above the stack pointer. It is passed as a
signed number of 32 bits. -/
def stackLeft (words : ℕ) : ℤ := Int.bmod ((defaultThreadStackSize : ℤ) - words) (2 ^ 32)

/-- The first pass over a list of strings, with the final zeros. -/
def measure (limit : ℤ) (m : Memory) (strings : List (List ℕ)) (stringBlockBytes : ℕ) : ℕ :=
  strings.foldl (fun bytes s => add64 bytes ((wideToAscii none s limit m).1 + 1))
    stringBlockBytes

/-- The second pass: each string is written below the last one, and its address
into the vector. -/
def writeStrings (limit : ℤ) (vector : ℕ) :
    (strings : List (List ℕ)) → (index stackPointerBytes : ℕ) → Memory → ℕ × Memory
  | [], _, stackPointerBytes, m => (stackPointerBytes, m)
  | s :: rest, index, stackPointerBytes, m =>
    let writing := (wideToAscii none s limit m).1
    let stackPointerBytes := sub64 stackPointerBytes (writing + 1)
    let r := wideToAscii (some stackPointerBytes) s limit m
    let m := store (add64 stackPointerBytes r.1) (fun _ => 0) 1 r.2
    let m := storeWord (add64 vector (8 * index)) stackPointerBytes m
    writeStrings limit vector rest (index + 1) stackPointerBytes m

/-- The fields of the Process that say where its stack is, and the memory. -/
structure Prepared where
  defaultThreadStackStart : ℕ
  argv : ℕ
  envp : ℕ
  memory : Memory

section Prepare
variable (defaultThreadStackBase : ℕ) (binary : ElfBinary) (subBinary : Option ElfBinary)
  (stackCookie : ℕ) (argv envp : List (List ℕ))

/-- The size of the block of strings. -/
def stringBlockBytes (m : Memory) : ℕ :=
  alignSize (measure (stackLeft 1) m argv (measure (stackLeft 1) m envp 0)) 16

/-- CreateProcess from the preparation of the stack pointer on. -/
def prepareStack (m : Memory) : Prepared :=
  let stackPointerTop := add64 defaultThreadStackBase defaultThreadStackSize
  let stackPointer := sub64 stackPointerTop 8
  let m := storeWord stackPointer 0 m
  let stackPointerForAuxV := sub64 stackPointer (stringBlockBytes argv envp m)
  let m := storeWord stackPointerForAuxV 0 m
  let stackPointerAfterAuxV :=
    (writeProcessAuxVectors binary subBinary stackCookie stackPointerForAuxV true m).1
  let envpOnStack := sub64 stackPointerAfterAuxV (8 * (envp.length + 1))
  let m := storeWord (add64 envpOnStack (8 * envp.length)) 0 m
  let left := stackLeft (sub64 stackPointerTop stackPointerAfterAuxV / 8)
  let r := writeStrings left envpOnStack envp 0 stackPointer m
  let argvOnStack := sub64 stackPointerAfterAuxV (8 * (envp.length + argv.length + 2))
  let stackPointer := sub64 argvOnStack 8
  let m := storeWord (add64 argvOnStack (8 * argv.length)) 0 r.2
  let left := stackLeft (sub64 stackPointerTop stackPointer / 8)
  let r := writeStrings left argvOnStack argv 0 r.1 m
  let m := storeWord stackPointer argv.length r.2
  let m := (writeProcessAuxVectors binary subBinary stackCookie stackPointerForAuxV false m).2
  { defaultThreadStackStart := stackPointer
    argv := argvOnStack
    envp := envpOnStack
    memory := m }

end Prepare

end Enkel.ProcessStack
