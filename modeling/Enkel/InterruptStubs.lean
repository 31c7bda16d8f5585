import Enkel.InterruptFrames
import Enkel.SyscallEntry

/-!
The interrupt stubs of isr.asm. A stub pushes fifteen registers below a gap of 128 bytes,
hands the number of the interrupt and what it finds in the frame to a handler, and pops
the registers again. MaybeSwapGS brings in the GS base of the kernel, and that of the
program on the way back, when a program was interrupted. A stub for an exception with an
error code does not take it from the stack before `iretq`.
-/
namespace Enkel.Interrupts

open Outcome X86
open X86.Machine X86.Context
open SyscallEntry (alu loadFS FSReady FSApart Becomes fsBaseOf call_loadFS_eq)

/-- The addresses after the calls of a stub, of MaybeSwapGS included. -/
structure Layout where
  entry : SyscallEntry.Layout
  afterGetGS : Word
  afterLoadFS : Word
  afterSwapIn : Word
  afterHandler : Word
  afterSwapOut : Word

variable (layout : Layout)

/-- `rdmsr` of the GS base, into edx and eax. -/
def rdmsrGSBase (m : Machine) : Machine :=
  (m.set .rax ((m.gsBase.setWidth 32).setWidth 64)).set .rdx
    (((m.gsBase >>> 32).setWidth 32).setWidth 64)

def getGS (m : Machine) : Except X86.Fault Machine := do
  let m ← m.pushAll [.rcx, .rdx]
  let m := rdmsrGSBase (m.set .rcx 0xC0000101)
  let m := alu layout.entry .rdx (m.registers .rdx <<< 32) m
  let m := alu layout.entry .rax (m.registers .rax ||| m.registers .rdx) m
  m.popAll [.rdx, .rcx]

/-- The selector in r8 tells whether a program was interrupted. -/
def swapGSIfUser (m : Machine) : Except X86.Fault Machine :=
  let m := { m with rflags := layout.entry.flags (m.registers .r8 &&& 3) m.rflags }
  if m.registers .r8 &&& 3 = 0 then pure m
  else m.swapgs.call layout.afterLoadFS (loadFS layout.entry)

def maybeSwapGS (m : Machine) : Except X86.Fault Machine := do
  let m ← m.push (m.registers .rax)
  let m ← m.call layout.afterGetGS (getGS layout)
  let m ← swapGSIfUser layout m
  m.pop .rax

def generalPurpose : List Register :=
  [.rbp, .rax, .rbx, .rcx, .rdx, .rsi, .rdi, .r8, .r9, .r10, .r11, .r12, .r13, .r14, .r15]

/-- The registers are pushed below a gap of 128 bytes. -/
def pushGeneralPurposeRegisters (m : Machine) : Except X86.Fault Machine :=
  (alu layout.entry .rsp (slot (m.registers .rsp) 16) m).pushAll generalPurpose

def popGeneralPurposeRegisters (m : Machine) : Except X86.Fault Machine := do
  let m ← m.popAll generalPurpose.reverse
  return alu layout.entry .rsp (m.registers .rsp + 128) m

def cld (m : Machine) : Machine := { m with rflags := m.rflags &&& ~~~0x400 }

/-- The arguments of the handler, from a frame whose first word lies `n` words above the
saved registers and the gap. -/
def loadArguments (vector cr2 : Word) (n : ℕ) (errorCode : Machine → Except X86.Fault Word)
    (m : Machine) : Except X86.Fault Machine := do
  let m := m.set .rdi vector
  let rip ← m.load (m.registers .rsp + BitVec.ofNat 64 (15 * 8 + n * 8 + 128))
  let m := (m.set .rsi rip).set .rdx cr2
  let code ← errorCode m
  let m := m.set .rcx code
  let cs ← m.load (m.registers .rsp + BitVec.ofNat 64 (15 * 8 + (n + 1) * 8 + 128))
  let m := m.set .r8 cs
  return m.set .r9 (m.registers .rbp)

/-- From MaybeSwapGS to the first instruction of the handler. -/
def callHandler (m : Machine) : Except X86.Fault Machine := do
  let m ← m.call layout.afterSwapIn (maybeSwapGS layout)
  let m ← m.push (m.registers .r8)
  m.push layout.afterHandler

/-- ISR_NO_ERROR up to the first instruction of the handler. -/
def isrNoErrorEntry (vector cr2 : Word) (m : Machine) : Except X86.Fault Machine := do
  let m ← pushGeneralPurposeRegisters layout (cld m)
  let m ← loadArguments vector cr2 0 (fun _ => pure 0) m
  callHandler layout m

/-- ISR_WITH_ERROR up to the first instruction of the handler. The stack pointer moves
down and up again where a debugger can stop. -/
def isrWithErrorEntry (vector cr2 : Word) (m : Machine) : Except X86.Fault Machine := do
  let m := alu layout.entry .rsp (slot (m.registers .rsp) 4) (cld m)
  let m := alu layout.entry .rsp (m.registers .rsp + 32) m
  let m ← pushGeneralPurposeRegisters layout m
  let m ← loadArguments vector cr2 1
    (fun m => m.load (m.registers .rsp + BitVec.ofNat 64 (15 * 8 + 0 * 8 + 128))) m
  callHandler layout m

/-- Both stubs after the handler has returned. -/
def isrExit (m : Machine) : Except X86.Fault Context := do
  let m ← m.pop .r8
  let m ← m.call layout.afterSwapOut (maybeSwapGS layout)
  let m ← popGeneralPurposeRegisters layout m
  m.iretq

/-- The stub for a vector, by whether the processor pushes an error code. -/
def stubEntry (vector cr2 : Word) (errorCode : Option Word) :
    Machine → Except X86.Fault Machine :=
  match errorCode with
  | none => isrNoErrorEntry layout vector cr2
  | some _ => isrWithErrorEntry layout vector cr2

section MaybeSwapGS
variable {m m' m1 : Machine} (returnAddress : Word)

/-- The two halves of a word that `rdmsr` returns make up the word. -/
theorem or_halves (v : Word) : (v.setWidth 32).setWidth 64 |||
    (((v >>> 32).setWidth 32).setWidth 64) <<< 32 = v := by
  apply BitVec.eq_of_getLsbD_eq
  intro i hi
  simp only [BitVec.getLsbD_or, BitVec.getLsbD_setWidth, BitVec.getLsbD_shiftLeft,
    BitVec.getLsbD_ushiftRight]
  by_cases h : i < 32
  · simp [h, hi]
  · have hlow : i - 32 < 32 := by omega
    have hadd : 32 + (i - 32) = i := by omega
    simp [h, hi, hlow, hadd]
    omega

/-- GetGS returns the GS base in rax. -/
theorem getGS_eq (hroom : m.Room 2) : ∃ m1, getGS layout m = .ok m1 ∧
    Leaves 2 (Function.update m.registers .rax m.gsBase) m m1 ∧ m1.gsBase = m.gsBase ∧
      m1.swapGSBase = m.swapGSBase := by
  have hpush : m.pushAll [.rcx, .rdx] = _ := pushAll_eq (by decide) hroom
  refine ⟨_, bind_eq_ok.mpr ⟨_, hpush,
    popAll_words (m.registers .rsp) 0 m.registers (by decide) ?_ ?_ ?_⟩, ?_, rfl, rfl⟩
  · simp [alu, rdmsrGSBase]
  · intro k hk hle
    exact mapped_of_eq (hroom k hk hle) rfl
  · intro i hi
    exact @wordAt_spill_reverse _ [.rdx, .rcx] _ _ _ (by decide) hi
  · refine ⟨?_, rfl, fun a ha => wordAt_spill_of_apart ha⟩
    funext r
    cases r <;> simp [alu, rdmsrGSBase, slot_zero, or_halves]

/-- A program was interrupted. -/
def IsUser (cs : Word) : Prop := cs &&& 3 ≠ 0

instance (cs : Word) : Decidable (IsUser cs) := inferInstanceAs (Decidable (_ ≠ _))

/-- LoadFS works with the other GS base, if it is called. -/
def SwapReady (n : ℕ) (m : Machine) : Prop :=
  IsUser (m.registers .r8) → FSReady m.swapgs ∧ FSApart n m.swapgs

/-- The GS bases are those of the other side, if it was a program. -/
structure Swapped (user : Prop) [Decidable user] (m m' : Machine) : Prop where
  gsBase : m'.gsBase = if user then m.swapGSBase else m.gsBase
  swapGSBase : m'.swapGSBase = if user then m.gsBase else m.swapGSBase

theorem FSApart.congr {n : ℕ} (h : FSApart n m) (hregisters : m1.registers = m.registers)
    (hgs : m1.gsBase = m.gsBase) (hbytes : m1.bytes = m.bytes) : FSApart n m1 := by
  refine ⟨fun k hk hle => ?_, fun k hk hle => ?_⟩
  · rw [hregisters, hgs]
    exact h.gs k hk hle
  · rw [hregisters, hgs, hbytes]
    exact h.cell k hk hle

/-- LoadFS uses five words, with those of its call. -/
theorem call_loadFS_leaves (hroom : m.Room 5) (hready : FSReady m) (hapart : FSApart 5 m) :
    ∃ m1, m.call returnAddress (loadFS layout.entry) = .ok m1 ∧ Leaves 5 m.registers m m1 ∧
      m1.gsBase = m.gsBase ∧ m1.swapGSBase = m.swapGSBase :=
  ⟨_, call_loadFS_eq hroom hready hapart,
    ⟨rfl, rfl, fun _ ha => wordAt_spill_of_apart ha⟩, rfl, rfl⟩

theorem swapGSIfUser_eq (hroom : m.Room 5) (hready : SwapReady 5 m) :
    ∃ m1, swapGSIfUser layout m = .ok m1 ∧ Leaves 5 m.registers m m1 ∧
      Swapped (IsUser (m.registers .r8)) m m1 := by
  obtain ⟨m0, hm0⟩ : ∃ m0, m0 =
      { m with rflags := layout.entry.flags (m.registers .r8 &&& 3) m.rflags } := ⟨_, rfl⟩
  have hsame : m0.registers = m.registers ∧ m0.bytes = m.bytes ∧ m0.mapped = m.mapped ∧
      m0.gsBase = m.gsBase ∧ m0.swapGSBase = m.swapGSBase := by
    rw [hm0]
    exact ⟨rfl, rfl, rfl, rfl, rfl⟩
  obtain ⟨hregisters, hbytes, hmapped, hgs, hswap⟩ := hsame
  have hunfold : swapGSIfUser layout m = if m0.registers .r8 &&& 3 = 0 then pure m0
      else m0.swapgs.call layout.afterLoadFS (loadFS layout.entry) := by
    rw [hm0]
    rfl
  rw [hunfold, hregisters]
  by_cases huser : IsUser (m.registers .r8)
  · obtain ⟨hfs, hapart⟩ := hready huser
    have hroom0 : m0.swapgs.Room 5 := by
      intro k hk hle
      change m0.Mapped (slot (m0.registers .rsp) k)
      rw [hregisters]
      exact mapped_of_eq (hroom k hk hle) hmapped
    obtain ⟨m1, hcall, hleaves, hgs1, hswap1⟩ := call_loadFS_leaves layout
      layout.afterLoadFS hroom0 (hfs.congr hswap hbytes hmapped) (FSApart.congr hapart hregisters hswap hbytes)
    refine ⟨m1, (if_neg huser).trans hcall, ⟨?_, ?_, fun a ha => ?_⟩, ?_, ?_⟩
    · exact hleaves.registers.trans hregisters
    · exact hleaves.mapped.trans hmapped
    · have hwords := hleaves.words a
      change (∀ k, 1 ≤ k → k ≤ 5 → Apart a (slot (m0.registers .rsp) k)) →
        wordAt m1.bytes a = wordAt m0.bytes a at hwords
      rw [hregisters, hbytes] at hwords
      exact hwords ha
    · rw [if_pos huser]
      exact hgs1.trans hswap
    · rw [if_pos huser]
      exact hswap1.trans hgs
  · refine ⟨m0, if_pos (not_not.mp huser), ⟨hregisters, hmapped, fun a _ => ?_⟩, ?_, ?_⟩
    · rw [hbytes]
    · rw [if_neg huser, hgs]
    · rw [if_neg huser, hswap]

/-- LoadFS finds the same in another memory. -/
theorem FSReady.of_words (h : FSReady m) (hgs : m1.gsBase = m.gsBase)
    (hmapped : m1.mapped = m.mapped)
    (hcell : wordAt m1.bytes m.gsBase = wordAt m.bytes m.gsBase)
    (hbase : wordAt m1.bytes (wordAt m.bytes m.gsBase) = fsBaseOf m) :
    FSReady m1 ∧ fsBaseOf m1 = fsBaseOf m := by
  have hsame : fsBaseOf m1 = fsBaseOf m := by
    unfold fsBaseOf at hbase ⊢
    rw [hgs, hcell, hbase]
  refine ⟨⟨?_, ?_, ?_⟩, hsame⟩
  · rw [hgs]
    exact mapped_of_eq h.gs hmapped
  · rw [hgs, hcell]
    exact mapped_of_eq h.cell hmapped
  · rw [hsame]
    exact h.canonical

/-- What was ready still is when a routine has used some of the words. -/
theorem SwapReady.of_leaves {n i : ℕ} {registers : Register → Word} (h : SwapReady (i + n) m)
    (hleaves : Leaves (i + n) registers m m1)
    (hrsp : registers .rsp = slot (m.registers .rsp) i)
    (hr8 : registers .r8 = m.registers .r8) (hgs : m1.swapGSBase = m.swapGSBase) :
    SwapReady n m1 := by
  intro huser
  rw [hleaves.registers, hr8] at huser
  obtain ⟨hfs, hapart⟩ := h huser
  have hcell : wordAt m1.swapgs.bytes m.swapgs.gsBase = wordAt m.swapgs.bytes m.swapgs.gsBase :=
    hleaves.words _ hapart.gs
  have hwords : FSReady m1.swapgs ∧ fsBaseOf m1.swapgs = fsBaseOf m.swapgs :=
    FSReady.of_words hfs hgs hleaves.mapped hcell (hleaves.words _ hapart.cell)
  have hslot (k : ℕ) : slot (m1.swapgs.registers .rsp) k = slot (m.registers .rsp) (i + k) := by
    change slot (m1.registers .rsp) k = _
    rw [hleaves.registers, hrsp, slot_slot]
  refine ⟨hwords.1, fun k hk hkn => ?_, fun k hk hkn => ?_⟩
  · rw [hslot]
    change Apart m1.swapGSBase _
    rw [hgs]
    exact hapart.gs _ (by omega) (by omega)
  · rw [hslot]
    change Apart (wordAt m1.bytes m1.swapGSBase) _
    rw [hgs]
    exact hcell.symm ▸ hapart.cell _ (by omega) (by omega)

/-- MaybeSwapGS leaves the registers as they are. -/
theorem maybeSwapGS_eq (hroom : m.Room 6) (hready : SwapReady 6 m) :
    ∃ m1, maybeSwapGS layout m = .ok m1 ∧ Leaves 6 m.registers m m1 ∧
      Swapped (IsUser (m.registers .r8)) m m1 := by
  let rax := m.registers .rax
  have hroom1 : (m.pushed [rax]).Room 5 := Room.pushed [rax] hroom
  obtain ⟨m2, hget, hleaves2, hgs2, hswap2⟩ :=
    getGS_eq layout (m := (m.pushed [rax]).pushed [layout.afterGetGS])
      (Room.pushed [layout.afterGetGS] fun k hk hle => hroom1 k hk (by simp at hle; omega))
  obtain ⟨hcall, hleaves3⟩ := call_eq_of_leaves (m := m.pushed [rax])
    (hroom1 1 le_rfl (by decide)) hget hleaves2 (by decide) (by simp)
  generalize hm3 : m2.set .rsp ((m.pushed [rax]).registers .rsp) = m3 at hcall hleaves3
  have hregisters3 : m3.registers = Function.update (Function.update m.registers .rsp
      (slot (m.registers .rsp) 1)) .rax m.gsBase := by
    rw [hleaves3.registers]
    funext r
    cases r <;> simp
  have hgs3 : m3.gsBase = m.gsBase ∧ m3.swapGSBase = m.swapGSBase := by
    subst hm3
    exact ⟨hgs2, hswap2⟩
  have hbelow : Leaves (1 + 3) m3.registers m m3 := by
    rw [hleaves3.registers]
    exact hleaves3.of_pushed [rax]
  have hroom3 : m3.Room 5 := by
    intro k hk hle
    have hslot := hroom1 k hk hle
    rw [registers_pushed, Function.update_self] at hslot
    rw [hregisters3, Function.update_of_ne (by decide), Function.update_self]
    exact mapped_of_eq hslot hbelow.mapped
  have hready3 : SwapReady 5 m3 :=
    SwapReady.of_leaves (i := 1) hready (hbelow.mono (by decide)) (by rw [hregisters3]; simp)
      (by rw [hregisters3]; simp) hgs3.2
  obtain ⟨m4, hswap, hleaves4, hswapped⟩ := swapGSIfUser_eq layout hroom3 hready3
  have hrsp3 : m3.registers .rsp = slot (m.registers .rsp) 1 := by
    rw [hregisters3]
    simp
  have hrax : wordAt m4.bytes (slot (m.registers .rsp) (0 + 1)) = rax := by
    rw [hleaves4.wordAt_slot hrsp3 le_rfl (by decide),
      hleaves3.wordAt_slot (by simp) le_rfl (by decide)]
    exact wordAt_storeAt _ _ _
  have hpop : m4.pop .rax = _ := pop_eq (m.registers .rsp) 0 .rax
    (by rw [hleaves4.registers, hrsp3])
    (mapped_of_eq (hroom 1 le_rfl (by decide)) (hleaves4.mapped.trans hbelow.mapped))
  refine ⟨_, bind_eq_ok.mpr ⟨_, push_eq (hroom 1 le_rfl (by decide)), bind_eq_ok.mpr
    ⟨m3, hcall, bind_eq_ok.mpr ⟨m4, hswap, hpop⟩⟩⟩, ⟨?_, ?_, ?_⟩, ?_⟩
  · rw [hrax, slot_zero]
    simp only [registers_set, hleaves4.registers, hregisters3]
    funext r
    cases r <;> simp [rax]
  · exact hleaves4.mapped.trans hbelow.mapped
  · intro a ha
    change wordAt m4.bytes a = _
    rw [hleaves4.words, hbelow.words]
    · exact fun k hk hkn => ha k hk (by omega)
    · intro k hk hkn
      rw [hrsp3, slot_slot]
      exact ha _ (by omega) (by omega)
  · have hr8 : m3.registers .r8 = m.registers .r8 := by
      rw [hregisters3]
      simp
    rw [hr8] at hswapped
    refine ⟨?_, ?_⟩
    · rw [← hgs3.1, ← hgs3.2]
      exact hswapped.gsBase
    · rw [← hgs3.1, ← hgs3.2]
      exact hswapped.swapGSBase

theorem call_maybeSwapGS_eq (hroom : m.Room 7) (hready : SwapReady 7 m) :
    ∃ m1, m.call returnAddress (maybeSwapGS layout) = .ok m1 ∧ Leaves 7 m.registers m m1 ∧
      Swapped (IsUser (m.registers .r8)) m m1 := by
  have hleaves := (leaves_pushed [returnAddress] m).mono (show 1 ≤ 1 + 6 by decide)
  have hready1 : SwapReady 6 (m.pushed [returnAddress]) :=
    SwapReady.of_leaves (i := 1) hready hleaves (by simp) (by simp) rfl
  obtain ⟨m1, hswap, hleaves1, hswapped⟩ := maybeSwapGS_eq layout
    (Room.pushed [returnAddress] hroom) hready1
  obtain ⟨hcall, hleaves2⟩ := call_eq_of_leaves (m := m) (hroom 1 le_rfl (by decide)) hswap
    hleaves1 (by decide) (by simp)
  refine ⟨_, hcall, ?_, ⟨hswapped.gsBase, hswapped.swapGSBase⟩⟩
  simpa using hleaves2

end MaybeSwapGS

section Entry
variable {m m' m1 called : Machine} {top : Word} {i n : ℕ}

theorem pushGeneralPurposeRegisters_eq (hrsp : m.registers .rsp = slot top n)
    (hroom : ∀ k, n < k → k ≤ n + 31 → m.Mapped (slot top k)) :
    ∃ m1, pushGeneralPurposeRegisters layout m = .ok m1 ∧
      Becomes m (Function.update m.registers .rsp (slot top (n + 31)))
        (spill (slot top (n + 16)) (generalPurpose.map m.registers) m.bytes) m1 := by
  have hbelow : slot (m.registers .rsp) 16 = slot top (n + 16) := by rw [hrsp, slot_slot]
  refine ⟨_, pushAll_eq (by decide) ?_, ?_, ?_, rfl, rfl, rfl⟩
  · intro k hk hle
    apply mapped_of_eq (m := m) _ rfl
    simp only [alu, registers_set, Function.update_self]
    rw [hbelow, slot_slot]
    exact hroom _ (by omega) (Nat.add_le_add_left hle (n + 16))
  · simp only [alu, registers_pushed, registers_set, Function.update_self, Function.update_idem]
    rw [hbelow, slot_slot]
    rfl
  · simp only [alu, bytes_pushed, bytes_set, registers_set, Function.update_self]
    rw [hbelow]
    congr 1

/-- The registers with the arguments of a handler. -/
def withArguments (vector rip cr2 code cs : Word) (registers : Register → Word) :
    Register → Word :=
  Function.update (Function.update (Function.update (Function.update (Function.update
    (Function.update registers .rdi vector) .rsi rip) .rdx cr2) .rcx code) .r8 cs)
      .r9 (registers .rbp)

/-- Where a stub looks for the word `j` above the saved registers and the gap. -/
theorem slot_above {j : ℕ} (hj : j ≤ n) :
    slot top (n + 31) + BitVec.ofNat 64 (15 * 8 + j * 8 + 128) = slot top (n - j) := by
  have hslot := slot_add_ofNat top (n - j) (31 + j)
  have hindex : n - j + (31 + j) = n + 31 := by omega
  have hbytes : 8 * (31 + j) = 15 * 8 + j * 8 + 128 := by omega
  rwa [hindex, hbytes] at hslot

theorem loadArguments_eq (vector cr2 : Word) {rip code cs : Word} {j : ℕ}
    {errorCode : Machine → Except X86.Fault Word} (hrsp : m.registers .rsp = slot top (n + 31))
    (hn : j + 1 < n) (hmapped : ∀ k, 1 ≤ k → k ≤ n → m.Mapped (slot top k))
    (hrip : wordAt m.bytes (slot top (n - j)) = rip)
    (hcs : wordAt m.bytes (slot top (n - (j + 1))) = cs)
    (hcode : errorCode (((m.set .rdi vector).set .rsi rip).set .rdx cr2) = .ok code) :
    ∃ m1, loadArguments vector cr2 j errorCode m = .ok m1 ∧
      Becomes m (withArguments vector rip cr2 code cs m.registers) m.bytes m1 := by
  have haddress (m2 : Machine) (h2 : m2.registers .rsp = m.registers .rsp) {k : ℕ} (hk : k ≤ n) :
      m2.registers .rsp + BitVec.ofNat 64 (15 * 8 + k * 8 + 128) = slot top (n - k) := by
    rw [h2, hrsp, slot_above hk]
  refine ⟨_, bind_eq_ok.mpr ⟨rip, ?_, bind_eq_ok.mpr ⟨code, hcode, bind_eq_ok.mpr ⟨cs, ?_, rfl⟩⟩⟩,
    ?_, rfl, rfl, rfl, rfl⟩
  · rw [haddress _ (by simp) (by omega)]
    exact load_of_eq (hmapped (n - j) (by omega) (by omega)) rfl hrip
  · rw [haddress _ (by simp) (by omega)]
    exact load_of_eq (hmapped (n - (j + 1)) (by omega) (by omega)) rfl hcs
  · simp [withArguments]

theorem callHandler_eq (hrsp : m.registers .rsp = slot top i)
    (hroom : ∀ k, i < k → k ≤ i + 7 → m.Mapped (slot top k)) (hready : SwapReady 7 m) :
    ∃ called, callHandler layout m = .ok called ∧
      called.registers = Function.update m.registers .rsp (slot top (i + 2)) ∧
      called.mapped = m.mapped ∧ Swapped (IsUser (m.registers .r8)) m called ∧
      wordAt called.bytes (slot top (i + 1)) = m.registers .r8 ∧
      ∀ a, (∀ k, i < k → k ≤ i + 7 → Apart a (slot top k)) →
        wordAt called.bytes a = wordAt m.bytes a := by
  have hroom7 : m.Room 7 := by
    intro k hk hle
    rw [hrsp, slot_slot]
    exact hroom _ (by omega) (by omega)
  obtain ⟨m1, hcall, hleaves, hswapped⟩ :=
    call_maybeSwapGS_eq layout layout.afterSwapIn hroom7 hready
  have hrsp1 : m1.registers .rsp = slot top i := by rw [hleaves.registers, hrsp]
  have hmapped {k : ℕ} (hk : i < k) (hle : k ≤ i + 7) : m1.Mapped (slot top k) :=
    mapped_of_eq (hroom k hk hle) hleaves.mapped
  let called := m1.pushed [m1.registers .r8, layout.afterHandler]
  have hcalled : callHandler layout m = .ok called := by
    refine bind_eq_ok.mpr ⟨m1, hcall, bind_eq_ok.mpr ⟨_, push_eq ?_, ?_⟩⟩
    · rw [hrsp1, slot_slot]
      exact hmapped (by omega) (by omega)
    · rw [push_eq, pushed_pushed]
      · rfl
      · rw [registers_pushed, Function.update_self, hrsp1, slot_slot, slot_slot]
        exact mapped_of_eq (hmapped (k := i + 2) (by omega) (by omega)) rfl
  refine ⟨called, hcalled, ?_, hleaves.mapped, ⟨hswapped.gsBase, hswapped.swapGSBase⟩, ?_, ?_⟩
  · change Function.update m1.registers .rsp (slot (m1.registers .rsp) 2) = _
    rw [hrsp1, slot_slot, hleaves.registers]
  · change wordAt (spill (m1.registers .rsp) [m1.registers .r8, layout.afterHandler] m1.bytes) _ = _
    have hword : wordAt (spill (m1.registers .rsp) [m1.registers .r8, layout.afterHandler]
        m1.bytes) (slot (m1.registers .rsp) (0 + 1)) = m1.registers .r8 :=
      @wordAt_spill _ [m1.registers .r8, layout.afterHandler] _ _
        (show 2 < 2 ^ 60 by decide) (Nat.succ_pos 1)
    rw [hrsp1, slot_slot] at hword
    rw [hrsp1, hword, hleaves.registers]
  · intro a ha
    change wordAt (spill (m1.registers .rsp) [m1.registers .r8, layout.afterHandler] m1.bytes) _ = _
    rw [wordAt_spill_of_apart, hleaves.words]
    · intro k hk hle
      rw [hrsp, slot_slot]
      exact ha _ (by omega) (by omega)
    · intro k hk hle
      change k ≤ 2 at hle
      rw [hrsp1, slot_slot]
      exact ha _ (by omega) (by omega)

end Entry

end Enkel.Interrupts
