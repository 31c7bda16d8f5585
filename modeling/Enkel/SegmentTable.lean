import Enkel.InterruptReturns
import Enkel.InterruptTable

/-!
The segment descriptors and the task state segment. The processor takes from them the stack
for an interrupt in a program, and which ports a program may use. The stack is set to the
start of the block that the bootloader has allocated for it, and a stack grows down.
-/
namespace Enkel.SegmentTable

open ByteMemory RecordFields X86 Interrupts InterruptTable
open X86.Machine

/-- GDTEntry. -/
structure GDTEntry where
  limitLow : ℕ
  baseLow : ℕ
  baseMiddle : ℕ
  accessed : ℕ
  readWrite : ℕ
  directionConforming : ℕ
  executable : ℕ
  descriptorType : ℕ
  privilege : ℕ
  present : ℕ
  limitHigh : ℕ
  reserved : ℕ
  longModeCode : ℕ
  opSize : ℕ
  granularity : ℕ
  baseHigh : ℕ
deriving DecidableEq, Repr

def null : GDTEntry := ⟨0, 0, 0, 0, 0, 0, 0, 0, 0, 0, 0, 0, 0, 0, 0, 0⟩

/-- A code segment of 64 bits. -/
def codeSegment (privilege : ℕ) : GDTEntry :=
  ⟨0xFFFF, 0, 0, 0, 1, 0, 1, 1, privilege, 1, 0xF, 0, 1, 0, 1, 0⟩

def dataSegment (privilege : ℕ) : GDTEntry :=
  ⟨0xFFFF, 0, 0, 0, 1, 0, 0, 1, privilege, 1, 0xF, 0, 0, 1, 1, 0⟩

/-- The null segment, KernelCode, KernelData, Star48, UserData and UserCode. -/
def entries : List GDTEntry :=
  [null, codeSegment 0, dataSegment 0, null, dataSegment 3, codeSegment 3]

def GDTEntry.fields (e : GDTEntry) (offset : ℕ) : List Field :=
  [⟨offset, 2, e.limitLow⟩, ⟨offset + 2, 2, e.baseLow⟩, ⟨offset + 4, 1, e.baseMiddle⟩,
    ⟨offset + 5, 1, e.accessed + 2 * e.readWrite + 4 * e.directionConforming +
      8 * e.executable + 16 * e.descriptorType + 32 * e.privilege + 128 * e.present⟩,
    ⟨offset + 6, 1, e.limitHigh + 16 * e.reserved + 32 * e.longModeCode + 64 * e.opSize +
      128 * e.granularity⟩,
    ⟨offset + 7, 1, e.baseHigh⟩]

abbrev sizeofTSS : ℕ := 104
abbrev tssSelector : ℕ := 48

/-- The TSSEntry with the limit and the base that InitGDT stores. -/
def tssFields (tssBase : ℕ) : List Field :=
  [⟨48, 2, sizeofTSS⟩, ⟨50, 2, tssBase &&& 0xFFFF⟩, ⟨52, 1, tssBase >>> 16 &&& 0xFF⟩,
    ⟨53, 1, 0x89⟩, ⟨54, 1, 0⟩, ⟨55, 1, tssBase >>> 24 &&& 0xFF⟩, ⟨56, 4, tssBase >>> 32⟩,
    ⟨60, 4, 0⟩]

/-- GDTDescriptors. -/
def descriptorFields (tssBase : ℕ) : List Field :=
  (entries.mapIdx fun i e => e.fields (8 * i)).flatten ++ tssFields tssBase

/-- InitGDT: what `lgdt` is given, and the memory with the table at its target. -/
def initGDT (target tss : ℕ) (b : Bytes) : TableLimits × Bytes :=
  (⟨8 * 6 + 16 - 1, target⟩, writeFields target (descriptorFields tss)
    (writeWord (tss + 102) sizeofTSS 2 (setBytes tss 0 sizeofTSS b)))

/-- The assignment to TSSRing0.Rsp0 in InitVirtualMemory. -/
def setRsp0 (tss virtualStart : ℕ) : Bytes → Bytes := writeWord (tss + 4) virtualStart 8

/-- What the processor keeps of a task state segment. -/
structure TaskState where
  base : ℕ
  limit : ℕ
deriving DecidableEq, Repr

/-- `ltr`: the descriptor is that of an available task state segment. -/
def loadTSS (limits : TableLimits) (selector : ℕ) (b : Bytes) : Option TaskState :=
  let entry := limits.base + selector
  if selector ≠ 0 ∧ selector % 8 = 0 ∧ selector + 15 ≤ limits.limit ∧
      readWord b (entry + 5) 1 = 0x89 then
    some
      { base := readWord b (entry + 2) 2 + 2 ^ 16 * readWord b (entry + 4) 1 +
          2 ^ 24 * readWord b (entry + 7) 1 + 2 ^ 32 * readWord b (entry + 8) 4
        limit := readWord b (entry + 0) 2 + 2 ^ 16 * (readWord b (entry + 6) 1 % 16) }
  else none

namespace TaskState
variable (t : TaskState) (b : Bytes)

/-- The stack for an interrupt in a program. -/
def rsp0 : Word := BitVec.ofNat 64 (readWord b (t.base + 4) 8)

/-- The processor looks up a port in the two bytes of the permission map that hold its bit;
they lie within the limit, and the bit is clear. -/
def Permits (port : ℕ) : Prop :=
  let map := readWord b (t.base + 102) 2
  map + port / 8 + 1 ≤ t.limit ∧
    readWord b (t.base + map + port / 8) 2 / 2 ^ (port % 8) % 2 = 0

end TaskState

/-- A range of the memory is as it was. -/
def Same (start n : ℕ) (b b' : Bytes) : Prop := ∀ a, start ≤ a → a < start + n → b' a = b a

theorem Same.readWord_eq {start n address width : ℕ} {b b' : Bytes} (h : Same start n b b')
    (hend : start + n ≤ 2 ^ 64) (hle : start ≤ address) (hwidth : address + width ≤ start + n) :
    readWord b' address width = readWord b address width := by
  apply readWord_congr
  intro i hi
  rw [Nat.mod_eq_of_lt (by omega)]
  exact h _ (by omega) (by omega)

/-- Where the fields lie does not depend on the base. -/
theorem descriptorFields_places (tss : ℕ) :
    (descriptorFields tss).map (fun f => (f.offset, f.width)) =
      (descriptorFields 0).map fun f => (f.offset, f.width) := rfl

theorem descriptorFields_fits (tss : ℕ) : Fits 64 (descriptorFields tss) := by
  have h : ∀ place ∈ (descriptorFields tss).map (fun f => (f.offset, f.width)),
      place.1 + place.2 ≤ 64 := by
    rw [descriptorFields_places]
    decide
  intro f hf
  exact h _ (List.mem_map_of_mem hf)

theorem descriptorFields_apart (tss : ℕ) :
    (descriptorFields tss).Pairwise Field.Apart := by
  have h : ((descriptorFields tss).map fun f => (f.offset, f.width)).Pairwise
      fun f g => f.1 + f.2 ≤ g.1 ∨ g.1 + g.2 ≤ f.1 := by
    rw [descriptorFields_places]
    decide +kernel
  rw [List.pairwise_map] at h
  exact h

section Load
variable {target tss virtualStart : ℕ} {b b1 b2 : Bytes}

/-- A field of the table is found where it was put. -/
theorem readWord_initGDT {f : Field} (htarget : target + 64 ≤ 2 ^ 64)
    (hf : f ∈ descriptorFields tss) :
    readWord (initGDT target tss b).2 (target + f.offset) f.width = f.value % 256 ^ f.width := by
  apply readWord_writeFields (descriptorFields_fits tss) htarget (descriptorFields_apart tss) hf

theorem readWord_tssField {f : Field} (htarget : target + 64 ≤ 2 ^ 64)
    (hf : f ∈ tssFields tss) :
    readWord (initGDT target tss b).2 (target + f.offset) f.width = f.value % 256 ^ f.width :=
  readWord_initGDT htarget (List.mem_append_right _ hf)

/-- The base is put together from its four parts. -/
theorem base_eq (h : tss < 2 ^ 64) :
    (tss &&& 0xFFFF) % 256 ^ 2 + 2 ^ 16 * ((tss >>> 16 &&& 0xFF) % 256 ^ 1) +
      2 ^ 24 * ((tss >>> 24 &&& 0xFF) % 256 ^ 1) + 2 ^ 32 * ((tss >>> 32) % 256 ^ 4) = tss := by
  have hlow (x : ℕ) : x &&& 0xFFFF = x % 2 ^ 16 := Nat.and_two_pow_sub_one_eq_mod x 16
  have hbyte (x : ℕ) : x &&& 0xFF = x % 2 ^ 8 := Nat.and_two_pow_sub_one_eq_mod x 8
  rw [hlow, hbyte, hbyte, Nat.shiftRight_eq_div_pow, Nat.shiftRight_eq_div_pow,
    Nat.shiftRight_eq_div_pow]
  omega

/-- The task register gets the base and the limit of the state segment. -/
theorem loadTSS_eq (htarget : target + 64 ≤ 2 ^ 64) (htss : tss < 2 ^ 64)
    (hsame : Same target 64 (initGDT target tss b).2 b1) :
    loadTSS (initGDT target tss b).1 tssSelector b1 = some ⟨tss, sizeofTSS⟩ := by
  have hfield (f : Field) (hf : f ∈ tssFields tss) :
      readWord b1 (target + f.offset) f.width = f.value % 256 ^ f.width := by
    have hfits := descriptorFields_fits tss f (List.mem_append_right _ hf)
    rw [hsame.readWord_eq htarget (by omega) (by omega), readWord_tssField htarget hf]
  have hlimit := hfield ⟨48, 2, sizeofTSS⟩ (by simp [tssFields])
  have hlow := hfield ⟨50, 2, tss &&& 0xFFFF⟩ (by simp [tssFields])
  have hmiddle := hfield ⟨52, 1, tss >>> 16 &&& 0xFF⟩ (by simp [tssFields])
  have haccess := hfield ⟨53, 1, 0x89⟩ (by simp [tssFields])
  have hflags := hfield ⟨54, 1, 0⟩ (by simp [tssFields])
  have hhigh := hfield ⟨55, 1, tss >>> 24 &&& 0xFF⟩ (by simp [tssFields])
  have hupper := hfield ⟨56, 4, tss >>> 32⟩ (by simp [tssFields])
  dsimp only at hlimit hlow hmiddle haccess hflags hhigh hupper
  have hlimits : (initGDT target tss b).1 = ⟨63, target⟩ := rfl
  unfold loadTSS tssSelector
  rw [hlimits]
  dsimp only
  rw [if_pos ⟨by decide, by decide, by decide, haccess⟩]
  rw [Nat.add_assoc target 48 2, Nat.add_assoc target 48 4, Nat.add_assoc target 48 7,
    Nat.add_assoc target 48 8, Nat.add_assoc target 48 0, Nat.add_assoc target 48 6]
  rw [hlow, hmiddle, hhigh, hupper, hlimit, hflags, base_eq htss]
  rfl

/-- The table is elsewhere, and the state segment was cleared but for the map base. -/
theorem mapBase_initGDT (htarget : target + 64 ≤ 2 ^ 64) (htss : tss + sizeofTSS ≤ 2 ^ 64)
    (hapart : target + 64 ≤ tss ∨ tss + sizeofTSS ≤ target) :
    readWord (initGDT target tss b).2 (tss + 102) 2 = sizeofTSS := by
  unfold sizeofTSS at htss hapart
  have hkept : ∀ f ∈ descriptorFields tss,
      tss + 102 + 2 ≤ target + f.offset ∨ target + f.offset + f.width ≤ tss + 102 := by
    intro f hf
    have hfits := descriptorFields_fits tss f hf
    omega
  unfold initGDT
  dsimp only
  rw [readWord_writeFields_of_apart (descriptorFields_fits tss) htarget (by omega) hkept,
    readWord_writeWord (by decide)]
  rfl

/-- What the processor finds when other memory has changed, before and after the stack was
set. -/
structure Started (target tss virtualStart : ℕ) (b b1 b2 : Bytes) : Prop where
  target_end : target + 64 ≤ 2 ^ 64
  tss_end : tss + sizeofTSS ≤ 2 ^ 64
  apart : target + 64 ≤ tss ∨ tss + sizeofTSS ≤ target
  table : Same target 64 (initGDT target tss b).2 b1
  state : Same tss sizeofTSS (initGDT target tss b).2 b1
  later : Same tss sizeofTSS (setRsp0 tss virtualStart b1) b2

theorem Started.loadTSS (h : Started target tss virtualStart b b1 b2) :
    SegmentTable.loadTSS (initGDT target tss b).1 tssSelector (setRsp0 tss virtualStart b1) =
      some ⟨tss, sizeofTSS⟩ := by
  have htss := h.tss_end
  have hapart := h.apart
  unfold sizeofTSS at htss hapart
  apply loadTSS_eq h.target_end (by omega)
  intro a hlow hhigh
  have htarget := h.target_end
  unfold setRsp0
  rw [writeWord_of_outside (by omega) (by omega) (by omega)]
  exact h.table a hlow hhigh

theorem Started.rsp0_eq (h : Started target tss virtualStart b b1 b2) (hv : virtualStart < 2 ^ 64) :
    TaskState.rsp0 ⟨tss, sizeofTSS⟩ b2 = BitVec.ofNat 64 virtualStart := by
  have htss := h.tss_end
  unfold TaskState.rsp0
  dsimp only
  rw [h.later.readWord_eq htss (by omega) (by unfold sizeofTSS; omega), setRsp0,
    readWord_writeWord (by decide), Nat.mod_eq_of_lt (show virtualStart < 256 ^ 8 by omega)]

/-- No port is permitted to a program. -/
theorem Started.not_permits (h : Started target tss virtualStart b b1 b2) (port : ℕ) :
    ¬ TaskState.Permits ⟨tss, sizeofTSS⟩ b2 port := by
  have htss := h.tss_end
  unfold sizeofTSS at htss
  have hmap : readWord b2 (tss + 102) 2 = sizeofTSS := by
    rw [h.later.readWord_eq h.tss_end (by omega) (by unfold sizeofTSS; omega), setRsp0,
      readWord_writeWord_of_apart (by omega) (by omega) (by omega),
      h.state.readWord_eq h.tss_end (by omega) (by unfold sizeofTSS; omega),
      mapBase_initGDT h.target_end h.tss_end h.apart]
  unfold TaskState.Permits
  dsimp only
  rw [hmap]
  unfold sizeofTSS
  omega

end Load

section Stack
variable {v size : ℕ}

theorem toNat_block (hv : v < 2 ^ 64) : (BitVec.ofNat 64 v).toNat = v := by
  rw [BitVec.toNat_ofNat, Nat.mod_eq_of_lt hv]

/-- The stack of an interrupt in a program. -/
theorem interruptTop_of_user {c : Context} (huser : IsUser c.cs) (hv : v < 2 ^ 64)
    (hpage : v % 4096 = 0) :
    c.interruptTop (BitVec.ofNat 64 v) = BitVec.ofNat 64 v := by
  unfold IsUser at huser
  unfold Context.interruptTop
  rw [if_neg huser]
  apply BitVec.eq_of_toNat_eq
  rw [BitVec.toNat_and, toNat_block hv]
  have hspan : v &&& (~~~0xF : Word).toNat = _ := Words.and_span _ (show 4 ≤ 64 by omega)
  rw [hspan]
  omega

/-- A word of a block is apart from the words in front of it. -/
theorem apart_of_block {a : Word} {k : ℕ} (hpos : 4096 ≤ v) (hend : v + size ≤ 2 ^ 63)
    (hlow : v ≤ a.toNat) (hhigh : a.toNat + 8 ≤ v + size) (hk : 1 ≤ k) (hle : k ≤ 44) :
    Apart a (slot (BitVec.ofNat 64 v) k) := by
  unfold Apart slot
  have htop := toNat_block (show v < 2 ^ 64 by omega)
  constructor
  · rw [BitVec.toNat_sub, BitVec.toNat_sub, htop, BitVec.toNat_ofNat]
    omega
  · rw [BitVec.toNat_sub, BitVec.toNat_sub, htop, BitVec.toNat_ofNat]
    omega

/-- A stack without a page in front of it takes no interrupt of a program. -/
theorem deliver_error {c : Context} (huser : IsUser c.cs) (hv : v < 2 ^ 64)
    (hpage : v % 4096 = 0) (stub : Word) (gate : Gate) (errorCode : Option Word)
    (hnot : ¬ c.machine.Mapped (slot (BitVec.ofNat 64 v) 1)) :
    c.deliver (BitVec.ofNat 64 v) stub gate errorCode =
      .error (.pageFault (slot (BitVec.ofNat 64 v) 1)) := by
  unfold Context.deliver Context.frame InterruptFrame.words pushWords
  rw [interruptTop_of_user huser hv hpage, List.cons_append, List.foldlM_cons]
  have hpush : (c.machine.set .rsp (BitVec.ofNat 64 v)).push c.ss =
      .error (.pageFault (slot (BitVec.ofNat 64 v) 1)) := by
    have hnot' : ¬ (c.machine.set .rsp (BitVec.ofNat 64 v)).Mapped
        (slot (BitVec.ofNat 64 v) 1) := hnot
    unfold push
    dsimp only
    rw [registers_set, Function.update_self, Outcome.require, if_neg hnot']
    rfl
  rw [hpush]
  rfl

end Stack

section Interrupts
variable (layout : Layout) {target tss v size : ℕ} {b b1 : Bytes} {c : Context}

/-- An interrupt in a program is handled in front of the block that is the stack of the kernel:
nothing of the block changes, and the handler's stack pointer does not point into it. -/
theorem program_interrupt_below_stack (h : Started target tss v b b1 c.machine.bytes)
    (hpage : v % 4096 = 0) (hpos : 0 < v) (hend : v + size ≤ 2 ^ 63) (huser : IsUser c.cs)
    (stub vector cr2 : Word) (gate : Gate) (errorCode : Option Word) :
    ∃ t, loadTSS (initGDT target tss b).1 tssSelector (setRsp0 tss v b1) = some t ∧
      (¬ c.machine.Mapped (slot (BitVec.ofNat 64 v) 1) →
        c.deliver (t.rsp0 c.machine.bytes) stub gate errorCode =
          .error (.pageFault (slot (BitVec.ofNat 64 v) 1))) ∧
      (StackReady (BitVec.ofNat 64 v) True c.machine → ∃ m0 called,
        c.deliver (t.rsp0 c.machine.bytes) stub gate errorCode = .ok m0 ∧
        stubEntry layout vector cr2 errorCode m0 = .ok called ∧
        (called.registers .rsp).toNat + 304 ≤ v ∧
        ∀ a, v ≤ a.toNat → a.toNat + 8 ≤ v + size →
          wordAt called.bytes a = wordAt c.machine.bytes a) := by
  have hv : v < 2 ^ 64 := by omega
  refine ⟨_, h.loadTSS, fun hnot => ?_, fun hready => ?_⟩
  · rw [h.rsp0_eq hv]
    exact deliver_error huser hv hpage stub gate errorCode hnot
  · rw [h.rsp0_eq hv]
    have htop := interruptTop_of_user huser hv hpage
    have hready' : StackReady (c.interruptTop (BitVec.ofNat 64 v)) (IsUser c.cs) c.machine := by
      rw [htop]
      exact ⟨hready.stack, fun _ => hready.fs trivial, fun _ => hready.gs trivial,
        fun _ => hready.cell trivial⟩
    obtain ⟨m0, called, hdeliver, hentry, hover⟩ := entry_eq layout vector cr2 errorCode stub
      gate hready'
    have hlength := length_pushedWords_cases errorCode c
    refine ⟨m0, called, hdeliver, hentry, ?_, fun a hlow hhigh => ?_⟩
    · have hsub := toNat_block hv
      rw [hover.rsp, htop, toNat_slot (by omega), hsub]
      omega
    · apply hover.others
      intro k hk hle
      rw [htop]
      exact apart_of_block (by omega) hend hlow hhigh hk hle

/-- A program on a stack that ends at 0x700000, with the stack of the kernel at 0x400000. -/
def programContext : Context :=
  { machine :=
      { registers := fun _ => 0x700000
        rflags := 0x202
        rip := 0x500000
        gsBase := 0x7000
        swapGSBase := 0x7100
        fsBase := 0
        bytes := setRsp0 0x6000 0x400000 (initGDT 0xC200 0x6000 fun _ => 0).2
        mapped := fun _ => true }
    cs := 0x2B
    ss := 0x23 }

theorem started_programContext : Started 0xC200 0x6000 0x400000 (fun _ => 0)
    (initGDT 0xC200 0x6000 fun _ => 0).2 programContext.machine.bytes :=
  ⟨by decide, by decide, by decide, fun _ _ _ => rfl, fun _ _ _ => rfl, fun _ _ _ => rfl⟩

theorem stackReady_programContext :
    StackReady (BitVec.ofNat 64 0x400000) True programContext.machine := by
  have hcell : wordAt programContext.machine.bytes programContext.machine.swapGSBase = 0 := by
    decide +kernel
  have hcanonical : Canonical (SyscallEntry.fsBaseOf programContext.machine.swapgs) := by
    decide +kernel
  refine ⟨fun _ _ _ _ _ => rfl, fun _ => ⟨fun _ _ => rfl, fun _ _ => rfl, hcanonical⟩,
    fun _ k hk hle => apart_slot_of_le hk ?_, fun _ k hk hle => ?_⟩
  · show 0x7100 + 8 + 8 * k ≤ 0x400000
    omega
  · rw [hcell]
    apply apart_slot_of_le hk
    show 0 + 8 + 8 * k ≤ 0x400000
    omega

/-- The timer interrupts the program. -/
theorem program_interrupt_below_stack_timer : ∃ m0 called,
    programContext.deliver (BitVec.ofNat 64 0x400000) 0x500000 .interrupt none = .ok m0 ∧
      stubEntry plainLayout 32 0 none m0 = .ok called ∧
      (called.registers .rsp).toNat + 304 ≤ 0x400000 := by
  obtain ⟨t, ht, -, hrun⟩ := @program_interrupt_below_stack plainLayout 0xC200 0x6000 0x400000
    0x80000 _ _ programContext started_programContext (by decide) (by decide) (by decide)
    (by decide) 0x500000 32 0 .interrupt none
  obtain ⟨m0, called, hdeliver, hentry, hrsp, -⟩ := hrun stackReady_programContext
  rw [started_programContext.loadTSS] at ht
  cases ht
  rw [started_programContext.rsp0_eq (by decide)] at hdeliver
  exact ⟨m0, called, hdeliver, hentry, hrsp⟩

end Interrupts

end Enkel.SegmentTable
