import Enkel.InterruptReturns
import Enkel.RecordFields
import Mathlib.Algebra.Ring.Nat

/-!
The interrupt descriptor table. InitIDT clears 256 gates of 16 bytes and writes those of
the stubs of isr.asm; the processor takes a gate apart again. Each gate leads to the stub
that was assembled for its own vector, and that stub expects an error code exactly if the
processor pushes one. Vectors without a stub have no gate.
-/
namespace Enkel.InterruptTable

open Outcome ByteMemory RecordFields X86 Interrupts

inductive Isr
  | divideByZero
  | singleStep
  | nonMaskableInterrupt
  | breakpoint
  | overflow
  | boundRangeExceeded
  | invalidOpcode
  | coprocessorUnavailable
  | doubleFault
  | invalidTaskStateSegment
  | segmentNotPresent
  | stackSegmentFault
  | generalProtectionFault
  | pageFault
  | x87FloatingPointException
  | alignmentCheck
  | machineCheck
  | simdFloatingPointException
  | virtualizationException
  | controlProtectionException
  | pitInterrupt
  | spuriousInterrupt
  | callback (n : ℕ)
deriving DecidableEq, Repr

/-- A stub of isr.asm: its name, the number that it loads, and whether it expects an
error code. -/
structure Stub where
  isr : Isr
  number : ℕ
  withError : Bool
deriving DecidableEq, Repr

def isrNoError (number : ℕ) (isr : Isr) : Stub := ⟨isr, number, false⟩

def isrWithError (number : ℕ) (isr : Isr) : Stub := ⟨isr, number, true⟩

def stubs : List Stub :=
  [isrNoError 0 .divideByZero, isrNoError 1 .singleStep, isrNoError 2 .nonMaskableInterrupt,
    isrNoError 3 .breakpoint, isrNoError 4 .overflow, isrNoError 5 .boundRangeExceeded,
    isrNoError 6 .invalidOpcode, isrNoError 7 .coprocessorUnavailable,
    isrWithError 8 .doubleFault, isrNoError 9 (.callback 9),
    isrWithError 10 .invalidTaskStateSegment, isrWithError 11 .segmentNotPresent,
    isrWithError 12 .stackSegmentFault, isrWithError 13 .generalProtectionFault,
    isrWithError 14 .pageFault, isrNoError 15 (.callback 15),
    isrNoError 16 .x87FloatingPointException, isrWithError 17 .alignmentCheck,
    isrNoError 18 .machineCheck, isrNoError 19 .simdFloatingPointException,
    isrNoError 20 .virtualizationException, isrWithError 21 .controlProtectionException,
    isrNoError 22 (.callback 22), isrNoError 23 (.callback 23), isrNoError 24 (.callback 24),
    isrNoError 25 (.callback 25), isrNoError 26 (.callback 26), isrNoError 27 (.callback 27),
    isrNoError 28 (.callback 28), isrNoError 29 (.callback 29), isrNoError 30 (.callback 30),
    isrNoError 31 (.callback 31), isrNoError 32 .pitInterrupt, isrNoError 33 (.callback 33),
    isrNoError 34 (.callback 34), isrNoError 35 (.callback 35), isrNoError 36 (.callback 36),
    isrNoError 37 (.callback 37), isrNoError 38 (.callback 38), isrNoError 39 (.callback 39),
    isrNoError 40 (.callback 40), isrNoError 41 (.callback 41), isrNoError 42 (.callback 42),
    isrNoError 43 (.callback 43), isrNoError 44 (.callback 44), isrNoError 45 (.callback 45),
    isrNoError 46 (.callback 46), isrNoError 47 (.callback 47), isrNoError 48 (.callback 48),
    isrNoError 49 (.callback 49), isrNoError 50 (.callback 50), isrNoError 51 (.callback 51),
    isrNoError 52 (.callback 52), isrNoError 53 (.callback 53), isrNoError 54 (.callback 54),
    isrNoError 55 (.callback 55), isrNoError 56 (.callback 56), isrNoError 57 (.callback 57),
    isrNoError 58 (.callback 58), isrNoError 59 (.callback 59), isrNoError 60 (.callback 60),
    isrNoError 61 (.callback 61), isrNoError 62 (.callback 62), isrNoError 63 (.callback 63),
    isrNoError 64 (.callback 64), isrNoError 65 (.callback 65), isrNoError 66 (.callback 66),
    isrNoError 67 (.callback 67), isrNoError 68 (.callback 68), isrNoError 69 (.callback 69),
    isrNoError 255 .spuriousInterrupt]

structure Entry where
  num : ℕ
  isr : Isr
  gate : Gate
deriving DecidableEq, Repr

def setInterrupt (num : ℕ) : Entry := ⟨num, .callback num, .trap⟩

def setNamedInterrupt (num : ℕ) (isr : Isr) : Entry := ⟨num, isr, .interrupt⟩

def setNamedTrap (num : ℕ) (isr : Isr) : Entry := ⟨num, isr, .trap⟩

/-- The gates in the order in which they are written. -/
def defaultInterrupts : List Entry :=
  [setNamedTrap 0 .divideByZero, setNamedTrap 1 .singleStep,
    setNamedTrap 2 .nonMaskableInterrupt, setNamedTrap 3 .breakpoint,
    setNamedTrap 4 .overflow, setNamedTrap 5 .boundRangeExceeded,
    setNamedTrap 6 .invalidOpcode, setNamedTrap 7 .coprocessorUnavailable,
    setNamedTrap 8 .doubleFault, setInterrupt 9, setNamedTrap 10 .invalidTaskStateSegment,
    setNamedTrap 11 .segmentNotPresent, setNamedTrap 12 .stackSegmentFault,
    setNamedInterrupt 13 .generalProtectionFault, setNamedTrap 14 .pageFault,
    setInterrupt 15, setNamedTrap 16 .x87FloatingPointException,
    setNamedTrap 17 .alignmentCheck, setNamedTrap 18 .machineCheck,
    setNamedTrap 19 .simdFloatingPointException, setNamedTrap 20 .virtualizationException,
    setNamedTrap 21 .controlProtectionException, setInterrupt 22, setInterrupt 23,
    setInterrupt 24, setInterrupt 25, setInterrupt 26, setInterrupt 27, setInterrupt 28,
    setInterrupt 29, setInterrupt 30, setInterrupt 31, setNamedInterrupt 32 .pitInterrupt,
    setInterrupt 33, setInterrupt 34, setInterrupt 35, setInterrupt 36, setInterrupt 37,
    setInterrupt 38, setInterrupt 39, setInterrupt 40, setInterrupt 41, setInterrupt 42,
    setInterrupt 43, setInterrupt 44, setInterrupt 45, setInterrupt 46, setInterrupt 47,
    setInterrupt 48, setInterrupt 49, setInterrupt 50, setInterrupt 51, setInterrupt 52,
    setInterrupt 53, setInterrupt 54, setInterrupt 55, setInterrupt 56, setInterrupt 57,
    setInterrupt 58, setInterrupt 59, setInterrupt 60, setInterrupt 61, setInterrupt 62,
    setInterrupt 63, setInterrupt 64, setInterrupt 65, setInterrupt 66, setInterrupt 67,
    setInterrupt 68, setInterrupt 69, setNamedInterrupt 0xFF .spuriousInterrupt]

def interruptType : Gate → ℕ
  | .interrupt => 0x8E
  | .trap => 0x8F

/-- The fields of an IDTEntry, in the order in which they are set. -/
def gateFields (isrAddress codeSelector : ℕ) (gate : Gate) : List Field :=
  [⟨0, 2, isrAddress &&& 0xFFFF⟩, ⟨6, 2, isrAddress >>> 16 &&& 0xFFFF⟩,
    ⟨8, 4, isrAddress >>> 32 &&& 0xFFFFFFFF⟩, ⟨2, 2, codeSelector * 8⟩, ⟨4, 1, 0⟩,
    ⟨5, 1, interruptType gate⟩, ⟨12, 4, 0⟩]

section Init
variable (isrAddress : Isr → ℕ)

def initializeDefaultInterrupts (idt codeSelector : ℕ) : Bytes → Bytes :=
  writeRecords idt 16 (defaultInterrupts.map fun entry =>
    (entry.num, gateFields (isrAddress entry.isr) codeSelector entry.gate))

/-- What `lidt` is given. -/
structure TableLimits where
  limit : ℕ
  base : ℕ
deriving DecidableEq, Repr

def initIDT (targetMemory codeSelector : ℕ) (b : Bytes) : TableLimits × Bytes :=
  (⟨16 * 256 - 1, targetMemory⟩,
    initializeDefaultInterrupts isrAddress targetMemory codeSelector
      (setBytes targetMemory 0 (16 * 256) b))

end Init

/-- A gate as the processor takes it apart. -/
structure GateDescriptor where
  offset : ℕ
  selector : ℕ
  interruptStack : ℕ
  privilege : ℕ
  gate : Gate
deriving DecidableEq, Repr

/-- The system descriptor types that may stand in the table in 64-bit mode. -/
def gateOf : ℕ → Option Gate
  | 0xE => some .interrupt
  | 0xF => some .trap
  | _ => none

/-- The gate of a vector; without one a general protection exception is raised. -/
def gateAt (b : Bytes) (limits : TableLimits) (v : ℕ) : Option GateDescriptor :=
  let entry := limits.base + 16 * v
  let flags := readWord b (entry + 5) 1
  if 16 * v + 15 ≤ limits.limit ∧ flags / 128 = 1 then
    (gateOf (flags % 32)).map fun gate =>
      { offset := readWord b (entry + 0) 2 + 2 ^ 16 * readWord b (entry + 6) 2 +
          2 ^ 32 * readWord b (entry + 8) 4
        selector := readWord b (entry + 2) 2
        interruptStack := readWord b (entry + 4) 1 % 8
        privilege := flags / 32 % 4
        gate := gate }
  else none

/-- The exceptions for which the processor pushes an error code. -/
def pushesErrorCode (v : ℕ) : Bool := v ∈ [8, 10, 11, 12, 13, 14, 17, 21]

/-- The table and the stubs were written in the same order, with the same numbers. -/
theorem stubs_eq : stubs = defaultInterrupts.map fun entry =>
    ⟨entry.isr, entry.num, pushesErrorCode entry.num⟩ := rfl

theorem nums_eq : defaultInterrupts.map Entry.num = List.range 70 ++ [255] := rfl

theorem mem_nums {v : ℕ} : v ∈ defaultInterrupts.map Entry.num ↔ v ≤ 69 ∨ v = 255 := by
  rw [nums_eq]
  simp only [List.mem_append, List.mem_range, List.mem_singleton]
  omega

theorem nums_nodup : (defaultInterrupts.map Entry.num).Nodup := by
  rw [nums_eq]
  decide

theorem num_lt {entry : Entry} (h : entry ∈ defaultInterrupts) : entry.num < 256 := by
  have hnum := mem_nums.mp (List.mem_map_of_mem h)
  omega

section Gates
variable {isrAddress : Isr → ℕ} {address codeSelector idt v : ℕ} {gate : Gate} {b b' : Bytes}

theorem gateFields_fits : Fits 16 (gateFields address codeSelector gate) := by
  simp [gateFields, Fits]

theorem gateFields_apart : (gateFields address codeSelector gate).Pairwise Field.Apart := by
  simp [gateFields, Field.Apart]

variable (isrAddress codeSelector) in
def gateRecords : List (ℕ × List Field) :=
  defaultInterrupts.map fun entry =>
    (entry.num, gateFields (isrAddress entry.isr) codeSelector entry.gate)

theorem gateRecords_inArray : InArray 16 256 (gateRecords isrAddress codeSelector) := by
  intro record hrecord
  obtain ⟨entry, hentry, rfl⟩ := List.mem_map.mp hrecord
  exact ⟨num_lt hentry, gateFields_fits⟩

theorem gateRecords_keys :
    (gateRecords isrAddress codeSelector).map Prod.fst = defaultInterrupts.map Entry.num := by
  unfold gateRecords
  rw [List.map_map]
  rfl

theorem initIDT_snd : (initIDT isrAddress idt codeSelector b).2 =
    writeRecords idt 16 (gateRecords isrAddress codeSelector) (setBytes idt 0 (16 * 256) b) := rfl

/-- Every field of a gate is found where it was written. -/
theorem readWord_initIDT {entry : Entry} {f : Field} (hidt : idt + 4096 ≤ 2 ^ 64)
    (hentry : entry ∈ defaultInterrupts)
    (hf : f ∈ gateFields (isrAddress entry.isr) codeSelector entry.gate) :
    readWord (initIDT isrAddress idt codeSelector b).2 (idt + 16 * entry.num + f.offset) f.width =
      f.value % 256 ^ f.width := by
  rw [initIDT_snd]
  apply readWord_writeRecords gateRecords_inArray hidt _ (List.mem_map_of_mem hentry)
    gateFields_apart hf
  rw [gateRecords_keys]
  exact nums_nodup

/-- The address of a stub is put together from its three parts. -/
theorem address_eq (h : address < 2 ^ 64) :
    (address &&& 0xFFFF) % 256 ^ 2 + 2 ^ 16 * ((address >>> 16 &&& 0xFFFF) % 256 ^ 2) +
      2 ^ 32 * ((address >>> 32 &&& 0xFFFFFFFF) % 256 ^ 4) = address := by
  have hlow (x : ℕ) : x &&& 0xFFFF = x % 2 ^ 16 := Nat.and_two_pow_sub_one_eq_mod x 16
  have hhigh (x : ℕ) : x &&& 0xFFFFFFFF = x % 2 ^ 32 := Nat.and_two_pow_sub_one_eq_mod x 32
  rw [hlow, hlow, hhigh, Nat.shiftRight_eq_div_pow, Nat.shiftRight_eq_div_pow]
  omega

variable (isrAddress codeSelector) in
/-- The gate that leads to the stub of an entry. -/
def leadsTo (entry : Entry) : GateDescriptor :=
  { offset := isrAddress entry.isr
    selector := codeSelector * 8 % 2 ^ 16
    interruptStack := 0
    privilege := 0
    gate := entry.gate }

theorem gateAt_of_mem {entry : Entry} (haddress : isrAddress entry.isr < 2 ^ 64)
    (hidt : idt + 4096 ≤ 2 ^ 64) (hentry : entry ∈ defaultInterrupts) :
    gateAt (initIDT isrAddress idt codeSelector b).2 (initIDT isrAddress idt codeSelector b).1
      entry.num = some (leadsTo isrAddress codeSelector entry) := by
  have hlt := num_lt hentry
  have hfield (f : Field) (hf : f ∈ gateFields (isrAddress entry.isr) codeSelector entry.gate) :
      readWord (initIDT isrAddress idt codeSelector b).2 (idt + 16 * entry.num + f.offset)
        f.width = f.value % 256 ^ f.width := readWord_initIDT hidt hentry hf
  have hflags := hfield ⟨5, 1, interruptType entry.gate⟩ (by simp [gateFields])
  have hselector := hfield ⟨2, 2, codeSelector * 8⟩ (by simp [gateFields])
  have hstack := hfield ⟨4, 1, 0⟩ (by simp [gateFields])
  have hlow := hfield ⟨0, 2, isrAddress entry.isr &&& 0xFFFF⟩ (by simp [gateFields])
  have hmid := hfield ⟨6, 2, isrAddress entry.isr >>> 16 &&& 0xFFFF⟩ (by simp [gateFields])
  have hhigh := hfield ⟨8, 4, isrAddress entry.isr >>> 32 &&& 0xFFFFFFFF⟩ (by simp [gateFields])
  have hlimits : (initIDT isrAddress idt codeSelector b).1 = ⟨16 * 256 - 1, idt⟩ := rfl
  have hpresent : 16 * entry.num + 15 ≤ 16 * 256 - 1 ∧
      interruptType entry.gate % 256 ^ 1 / 128 = 1 := by
    refine ⟨by omega, ?_⟩
    cases entry.gate <;> rfl
  unfold gateAt
  rw [hlimits]
  dsimp only at hflags hselector hstack hlow hmid hhigh ⊢
  rw [hflags, if_pos hpresent, hselector, hstack, hlow, hmid, hhigh,
    address_eq haddress]
  unfold leadsTo
  cases entry.gate <;> rfl

theorem initIDT_of_outside {a : ℕ} (hidt : idt + 4096 ≤ 2 ^ 64) (ha : a < 2 ^ 64)
    (hout : a < idt ∨ idt + 4096 ≤ a) : (initIDT isrAddress idt codeSelector b).2 a = b a := by
  have hset : setBytes idt 0 (16 * 256) b a = b a := by
    rw [setBytes_eq (by omega) ha, if_neg]
    rw [offset_lt_iff hidt ha]
    omega
  rw [initIDT_snd, writeRecords_of_outside gateRecords_inArray hidt ha hout, hset]

/-- A vector that is left out has the cleared gate. -/
theorem gateAt_of_notMem (hidt : idt + 4096 ≤ 2 ^ 64) (hv : v < 256)
    (hnot : v ∉ defaultInterrupts.map Entry.num) :
    gateAt (initIDT isrAddress idt codeSelector b).2 (initIDT isrAddress idt codeSelector b).1 v =
      none := by
  have hkept : readWord (initIDT isrAddress idt codeSelector b).2 (idt + 16 * v + 5) 1 =
      readWord (setBytes idt 0 (16 * 256) b) (idt + 16 * v + 5) 1 := by
    rw [initIDT_snd]
    apply readWord_writeRecords_of_notMem gateRecords_inArray hidt hv (show 5 + 1 ≤ 16 by decide)
    rw [gateRecords_keys]
    exact hnot
  have hcleared : readWord (setBytes idt 0 (16 * 256) b) (idt + 16 * v + 5) 1 = 0 % 256 ^ 1 := by
    apply readWord_of_digits
    intro i hi
    rw [setBytes_eq (by omega) (Nat.mod_lt _ (Nat.two_pow_pos 64)), if_pos]
    · simp [digit]
    · rw [offset_lt_iff hidt (Nat.mod_lt _ (Nat.two_pow_pos 64))]
      omega
  have hlimits : (initIDT isrAddress idt codeSelector b).1 = ⟨16 * 256 - 1, idt⟩ := rfl
  unfold gateAt
  rw [hlimits]
  dsimp only
  rw [hkept, hcleared, if_neg]
  omega

/-- Only the table is read. -/
theorem gateAt_congr (hidt : idt + 4096 ≤ 2 ^ 64)
    (h : ∀ a, idt ≤ a → a < idt + 4096 → b' a = b a) :
    gateAt b' ⟨16 * 256 - 1, idt⟩ v = gateAt b ⟨16 * 256 - 1, idt⟩ v := by
  by_cases hlimit : 16 * v + 15 ≤ 16 * 256 - 1
  · have hword (i n : ℕ) (hin : i + n ≤ 16) :
        readWord b' (idt + 16 * v + i) n = readWord b (idt + 16 * v + i) n := by
      apply readWord_congr
      intro j hj
      rw [Nat.mod_eq_of_lt (by omega)]
      exact h _ (by omega) (by omega)
    unfold gateAt
    dsimp only
    rw [hword 5 1 (by decide), hword 0 2 (by decide), hword 6 2 (by decide),
      hword 8 4 (by decide), hword 2 2 (by decide), hword 4 1 (by decide)]
  · unfold gateAt
    dsimp only
    rw [if_neg fun hand => hlimit hand.1, if_neg fun hand => hlimit hand.1]

end Gates

section Delivery
variable (layout : Layout) (isrAddress : Isr → ℕ) (limits : TableLimits) (rsp0 cr2 code : Word)

/-- The linker has put the stubs at different addresses. -/
structure Linked : Prop where
  lt : ∀ stub ∈ stubs, isrAddress stub.isr < 2 ^ 64
  nodup : (stubs.map fun stub => isrAddress stub.isr).Nodup

/-- The error code, if there is one. -/
def codeIf (present : Bool) : Option Word := if present then some code else none

/-- The processor takes an interrupt with a vector: it looks for the gate, pushes its frame,
and runs the stub at the address in the gate up to the first instruction of a handler,
whose name is that of the stub. -/
def takeInterrupt (v : ℕ) (c : Context) : Except X86.Fault (Isr × Machine) := do
  match gateAt c.machine.bytes limits v with
  | none => throw .generalProtection
  | some gate =>
    let m ← c.deliver rsp0 (BitVec.ofNat 64 gate.offset) gate.gate
      (codeIf code (pushesErrorCode v))
    match stubs.find? fun stub => isrAddress stub.isr = gate.offset with
    | none => throw .generalProtection
    | some stub =>
      let called ← stubEntry layout (BitVec.ofNat 64 stub.number) cr2
        (codeIf code stub.withError) m
      return (stub.isr, called)

variable {layout isrAddress rsp0 cr2 code} {idt codeSelector v : ℕ} {b : Bytes} {c : Context}

theorem stub_mem {entry : Entry} (h : entry ∈ defaultInterrupts) :
    ⟨entry.isr, entry.num, pushesErrorCode entry.num⟩ ∈ stubs := by
  rw [stubs_eq]
  exact List.mem_map_of_mem h

theorem Linked.find_eq (h : Linked isrAddress) {stub : Stub} (hstub : stub ∈ stubs) :
    stubs.find? (fun s => isrAddress s.isr = isrAddress stub.isr) = some stub := by
  cases hfind : stubs.find? (fun s => isrAddress s.isr = isrAddress stub.isr) with
  | none => simpa using List.find?_eq_none.mp hfind stub hstub
  | some found =>
    have heq : isrAddress found.isr = isrAddress stub.isr := by
      simpa using List.find?_some hfind
    rw [List.inj_on_of_nodup_map h.nodup (List.mem_of_find?_eq_some hfind) hstub heq]

/-- As long as the table is in memory as InitIDT has left it, every vector up to 69 and
vector 255 gets to the handler of its own name, with its own number as the argument, and with
an error code exactly if the processor pushes one; every other vector has no gate. -/
theorem interrupt_reaches_handler (layout : Layout) (code : Word) (hlinked : Linked isrAddress)
    (hidt : idt + 4096 ≤ 2 ^ 64) (hv : v < 256)
    (htable : ∀ a, idt ≤ a → a < idt + 4096 →
      c.machine.bytes a = (initIDT isrAddress idt codeSelector b).2 a)
    (hready : StackReady (c.interruptTop rsp0) (IsUser c.cs) c.machine) :
    (v ≤ 69 ∨ v = 255 → ∃ entry ∈ defaultInterrupts, ∃ called, entry.num = v ∧
      takeInterrupt layout isrAddress (initIDT isrAddress idt codeSelector b).1 rsp0 cr2 code v c =
        .ok (entry.isr, called) ∧
      Passes (BitVec.ofNat 64 v) cr2 (codeIf code (pushesErrorCode v)) c called) ∧
    (¬(v ≤ 69 ∨ v = 255) →
      takeInterrupt layout isrAddress (initIDT isrAddress idt codeSelector b).1 rsp0 cr2 code v c =
        .error .generalProtection) := by
  have hgate := gateAt_congr (v := v) hidt htable
  change gateAt c.machine.bytes (initIDT isrAddress idt codeSelector b).1 v = _ at hgate
  refine ⟨fun hserved => ?_, fun hnot => ?_⟩
  · obtain ⟨entry, hentry, rfl⟩ := List.mem_map.mp (mem_nums.mpr hserved)
    have hstub := stub_mem hentry
    have hfound := hgate.trans
      (gateAt_of_mem (hlinked.lt _ hstub) hidt hentry)
    obtain ⟨m0, called, hdeliver, hcalled, hover⟩ := entry_eq layout (BitVec.ofNat 64 entry.num)
      cr2 (codeIf code (pushesErrorCode entry.num)) (BitVec.ofNat 64 (isrAddress entry.isr))
      entry.gate hready
    refine ⟨entry, hentry, called, rfl, ?_, hover.passes⟩
    unfold takeInterrupt
    rw [hfound]
    refine bind_eq_ok.mpr ⟨m0, hdeliver, ?_⟩
    have hfind : stubs.find? (fun stub =>
        isrAddress stub.isr = (leadsTo isrAddress codeSelector entry).offset) = _ :=
      hlinked.find_eq hstub
    rw [hfind]
    exact bind_eq_ok.mpr ⟨called, hcalled, rfl⟩
  · have habsent := hgate.trans (gateAt_of_notMem hidt hv fun hmem => hnot (mem_nums.mp hmem))
    unfold takeInterrupt
    rw [habsent]
    rfl

end Delivery

section Witness

/-- The named stubs, and the callbacks behind them, 64 bytes apart. -/
def plainAddress : Isr → ℕ
  | .callback n => 0x500000 + 64 * (22 + n)
  | isr => 0x500000 + 64 * isr.ctorIdx

theorem linked_plainAddress : Linked plainAddress := by
  refine ⟨?_, ?_⟩ <;> decide

/-- Kernel code with a table at 0x600000. -/
def tableContext : Context :=
  { kernelContext with
    machine := { kernelContext.machine with
      bytes := (initIDT plainAddress 0x600000 1 fun _ => 0).2 } }

theorem interrupt_reaches_handler_keyboard : ∃ entry ∈ defaultInterrupts, ∃ called,
    entry.num = 33 ∧
    takeInterrupt plainLayout plainAddress (initIDT plainAddress 0x600000 1 fun _ => 0).1 0 0 0 33
      tableContext = .ok (entry.isr, called) ∧
    Passes (BitVec.ofNat 64 33) 0 (codeIf 0 (pushesErrorCode 33)) tableContext called :=
  (interrupt_reaches_handler (c := tableContext) (v := 33) (b := fun _ => 0) plainLayout 0
    linked_plainAddress (show 0x600000 + 4096 ≤ 2 ^ 64 by decide) (by decide)
    (fun _ _ _ => rfl) (stackReady_kernelContext _ rfl)).1 (by decide)

end Witness

end Enkel.InterruptTable
