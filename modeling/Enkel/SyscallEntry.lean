import Mathlib.Tactic.IntervalCases
import Enkel.Words
import Enkel.X86Stack

/-!
The entry of the system calls. SyscallDispatcher saves the address to return to on the
stack of the program, calls LoadFS there, moves to the stack of the kernel, and calls
through the table or through sys_not_implemented. On the way back it pops what it has
pushed, calls LoadFS on the stack of the program again, and returns.
-/
namespace Enkel.SyscallEntry

open Outcome X86
open X86.Machine

/-- The addresses after the three calls, those of sys_not_implemented and SyscallTable,
and the flags after an arithmetic instruction. -/
structure Layout where
  afterEntry : Word
  afterHandler : Word
  afterExit : Word
  sysNotImplemented : Word
  syscallTable : Word
  flags : (result rflags : Word) → Word

variable (layout : Layout)

/-- An arithmetic instruction: a register and the flags. -/
def alu (r : Register) (result : Word) (m : Machine) : Machine :=
  { m.set r result with rflags := layout.flags result m.rflags }

def loadFS (m : Machine) : Except X86.Fault Machine := do
  let m ← m.pushAll [.rcx, .rdx, .rax, .rsi]
  let m := m.set .rcx 0xC0000100
  let cell ← m.load m.gsBase
  let m := m.set .rsi cell
  let base ← m.load (m.registers .rsi)
  let m := m.set .rsi base
  -- the upper halves of rax and rdx are cleared
  let m := m.set .rax (((m.registers .rsi).setWidth 32).setWidth 64)
  let m := alu layout .rsi (m.registers .rsi >>> 32) m
  let m := m.set .rdx (((m.registers .rsi).setWidth 32).setWidth 64)
  let m ← m.wrmsrFSBase
  m.popAll [.rsi, .rax, .rdx, .rcx]

/-- The address to return to is saved on the stack of the program, and LoadFS is called
there. -/
def enter (m : Machine) : Except X86.Fault Machine := do
  let m ← m.push (m.registers .rcx)
  m.swapgs.call layout.afterEntry (loadFS layout)

def switchStack (m : Machine) : Except X86.Fault Machine := do
  let m := m.set .rcx (m.registers .rsp)
  let rsp ← m.load (m.gsBase + 8)
  let m := m.set .rsp rsp
  return alu layout .rsp (m.registers .rsp &&& ~~~0xF) m

def saveRegisters (m : Machine) : Except X86.Fault Machine := do
  let m ← m.pushAll [.rcx, .r11, .rbp]
  let m := m.set .rbp (m.registers .rsp)
  m.pushAll [.rdx, .rsi, .rdi, .r8, .r9, .r11, .r12, .r14, .r15]

/-- The fourth argument, and the address in r12 at which that of the routine is read. -/
def selectRoutine (m : Machine) : Except X86.Fault Machine := do
  let m := m.set .rcx (m.registers .r10)
  let m := { m with rflags := layout.flags (m.registers .rax - 400) m.rflags }
  if m.registers .rax < 400 then
    let table ← m.load (m.gsBase + 16)
    let m := m.set .r12 table
    return m.set .r12 (m.registers .r12 + m.registers .rax * 8)
  else
    return m.set .r12 layout.sysNotImplemented

/-- SyscallDispatcher up to the first instruction of the routine that it calls, with the
address of this routine. -/
def dispatch (m : Machine) : Except X86.Fault (Word × Machine) := do
  let m ← enter layout m
  let m ← switchStack layout m
  let m ← saveRegisters m
  let m ← selectRoutine layout m
  let target ← m.load (m.registers .r12)
  let m ← m.push layout.afterHandler
  return (target, m)

def restoreRegisters (m : Machine) : Except X86.Fault Machine := do
  let m ← m.popAll [.r15, .r14, .r12, .r11, .r9, .r8, .rdi, .rsi, .rdx]
  let m ← m.pop .rbp
  let m ← m.popfq
  m.pop .rsp

def leave (m : Machine) : Except X86.Fault Machine := do
  let m ← m.swapgs.call layout.afterExit (loadFS layout)
  let m ← m.pop .rcx
  m.sysret

/-- SyscallDispatcher after the routine has returned. -/
def resume (m : Machine) : Except X86.Fault Machine := do
  let m ← restoreRegisters m
  leave layout m

/-- The code at an address, from its first instruction to its `ret`. -/
abbrev Code := Word → Machine → Machine

def syscallDispatcher (code : Code) (m : Machine) : Except X86.Fault Machine := do
  let (target, m) ← dispatch layout m
  resume layout (code target m)

section LoadFS
variable {layout} {m : Machine} {returnAddress : Word}

/-- The FS base that LoadFS loads, by way of the cell at [gs:0]. -/
def fsBaseOf (m : Machine) : Word := wordAt m.bytes (wordAt m.bytes m.gsBase)

/-- The cell and the FS base are there for LoadFS. -/
structure FSReady (m : Machine) : Prop where
  gs : m.Mapped m.gsBase
  cell : m.Mapped (wordAt m.bytes m.gsBase)
  canonical : Canonical (fsBaseOf m)

/-- What LoadFS reads is apart from `n` words below the stack pointer. -/
structure FSApart (n : ℕ) (m : Machine) : Prop where
  gs : ∀ k, 1 ≤ k → k ≤ n → Apart m.gsBase (slot (m.registers .rsp) k)
  cell : ∀ k, 1 ≤ k → k ≤ n → Apart (wordAt m.bytes m.gsBase) (slot (m.registers .rsp) k)

/-- The two halves of a word in edx and eax make up the word. -/
theorem append_halves (v : Word) : (((v >>> 32).setWidth 32).setWidth 64).setWidth 32 ++
    ((v.setWidth 32).setWidth 64).setWidth 32 = v := by
  have hlt := v.isLt
  apply BitVec.eq_of_toNat_eq
  rw [BitVec.toNat_append, ← Nat.shiftLeft_add_eq_or_of_lt (BitVec.isLt _), Nat.shiftLeft_eq]
  simp only [BitVec.toNat_setWidth, BitVec.toNat_ushiftRight, Nat.shiftRight_eq_div_pow]
  omega

theorem wrmsrFSBase_eq {value : Word}
    (h : value = (m.registers .rdx).setWidth 32 ++ (m.registers .rax).setWidth 32)
    (hcanonical : Canonical value) : m.wrmsrFSBase = .ok { m with fsBase := value } := by
  subst h
  unfold wrmsrFSBase
  dsimp only
  rw [require_true hcanonical]
  rfl

/-- LoadFS leaves the registers as they are. -/
theorem loadFS_eq (hroom : m.Room 4) (hready : FSReady m) (hapart : FSApart 4 m) :
    loadFS layout m = .ok { m with
      rflags := layout.flags (fsBaseOf m >>> 32) m.rflags
      fsBase := fsBaseOf m
      bytes := spill (m.registers .rsp)
        ([.rcx, .rdx, .rax, .rsi].map m.registers) m.bytes } := by
  have hpush : m.pushAll [.rcx, .rdx, .rax, .rsi] = _ := pushAll_eq (by decide) hroom
  have hcell : wordAt (spill (m.registers .rsp)
      ([.rcx, .rdx, .rax, .rsi].map m.registers) m.bytes) m.gsBase = wordAt m.bytes m.gsBase :=
    wordAt_spill_of_apart hapart.gs
  have hbase : wordAt (spill (m.registers .rsp)
      ([.rcx, .rdx, .rax, .rsi].map m.registers) m.bytes) (wordAt m.bytes m.gsBase) = fsBaseOf m :=
    wordAt_spill_of_apart hapart.cell
  refine bind_eq_ok.mpr ⟨_, hpush, ?_⟩
  refine bind_eq_ok.mpr ⟨_, load_of_eq hready.gs rfl hcell, ?_⟩
  refine bind_eq_ok.mpr ⟨fsBaseOf m, ?_, ?_⟩
  · rw [registers_set, Function.update_self]
    exact load_of_eq hready.cell rfl hbase
  refine bind_eq_ok.mpr ⟨_, wrmsrFSBase_eq ?_ hready.canonical, ?_⟩
  · simp only [alu, registers_set, Function.update_self, Function.update_of_ne, ne_eq,
      reduceCtorEq, not_false_eq_true]
    exact (append_halves _).symm
  refine (popAll_words (m.registers .rsp) 0 m.registers (by decide)
    ?_ ?_ ?_).trans ?_
  · simp [alu]
  · intro k hk hle
    apply mapped_of_eq (hroom k hk hle)
    simp [alu]
  · intro i hi
    simp only [alu, bytes_set, bytes_pushed]
    exact wordAt_spill_reverse (by decide) hi
  · simp only [alu, Machine.set, pushed, Function.update_self, Function.update_of_ne, ne_eq,
      reduceCtorEq, not_false_eq_true, slot_zero, Except.ok.injEq, Machine.mk.injEq, and_self,
      and_true]
    funext r
    cases r <;> simp

section Pushed
variable {values : List Word} {n : ℕ}

theorem FSApart.gs_pushed (h : FSApart (values.length + n) m) :
    wordAt (m.pushed values).bytes m.gsBase = wordAt m.bytes m.gsBase := by
  rw [bytes_pushed]
  exact wordAt_spill_of_apart fun k hk hle => h.gs k hk (by omega)

theorem FSApart.fsBaseOf_pushed (h : FSApart (values.length + n) m) :
    fsBaseOf (m.pushed values) = fsBaseOf m := by
  unfold fsBaseOf
  rw [gsBase_pushed, h.gs_pushed, bytes_pushed]
  exact wordAt_spill_of_apart fun k hk hle => h.cell k hk (by omega)

theorem FSReady.pushed (hready : FSReady m) (h : FSApart (values.length + n) m) :
    FSReady (m.pushed values) :=
  { gs := mapped_of_eq hready.gs rfl
    cell := by
      rw [gsBase_pushed, h.gs_pushed]
      exact mapped_of_eq hready.cell rfl
    canonical := by
      rw [h.fsBaseOf_pushed]
      exact hready.canonical }

theorem FSApart.pushed (h : FSApart (values.length + n) m) : FSApart n (m.pushed values) := by
  refine ⟨fun k hk hle => ?_, fun k hk hle => ?_⟩
  · rw [registers_pushed, Function.update_self, slot_slot]
    exact h.gs _ (by omega) (by omega)
  · rw [gsBase_pushed, h.gs_pushed, registers_pushed, Function.update_self, slot_slot]
    exact h.cell _ (by omega) (by omega)

end Pushed

/-- What LoadFS and its call leave below the stack pointer. -/
def leftByLoadFS (returnAddress : Word) (m : Machine) : List Word :=
  returnAddress :: [Register.rcx, .rdx, .rax, .rsi].map m.registers

theorem call_loadFS_eq (hroom : m.Room 5) (hready : FSReady m) (hapart : FSApart 5 m) :
    m.call returnAddress (loadFS layout) = .ok { m with
      rflags := layout.flags (fsBaseOf m >>> 32) m.rflags
      fsBase := fsBaseOf m
      bytes := spill (m.registers .rsp) (leftByLoadFS returnAddress m) m.bytes } := by
  have hapart1 : FSApart ([returnAddress].length + 4) m := hapart
  have hload : loadFS layout (m.pushed [returnAddress]) = _ :=
    loadFS_eq (Room.pushed [returnAddress] hroom) (hready.pushed hapart1) hapart1.pushed
  have hregisters : [Register.rcx, .rdx, .rax, .rsi].map (m.pushed [returnAddress]).registers =
      [Register.rcx, .rdx, .rax, .rsi].map m.registers := by
    simp
  rw [hapart1.fsBaseOf_pushed, hregisters, registers_pushed, Function.update_self, bytes_pushed,
    ← spill_append] at hload
  refine bind_eq_ok.mpr ⟨_, push_eq (hroom 1 le_rfl (by decide)), ?_⟩
  refine bind_eq_ok.mpr ⟨_, hload, ?_⟩
  refine bind_eq_ok.mpr ⟨_, popWord_eq (m.registers .rsp) 0 ?_ ?_, ?_⟩
  · simp
  · exact mapped_of_eq (hroom 1 le_rfl (by decide)) rfl
  · have hlength : (leftByLoadFS returnAddress m).length < 2 ^ 60 := show 5 < 2 ^ 60 by decide
    have hword : wordAt (spill (m.registers .rsp) (leftByLoadFS returnAddress m) m.bytes)
        (slot (m.registers .rsp) (0 + 1)) = returnAddress :=
      wordAt_spill hlength (Nat.succ_pos 4)
    refine bind_eq_ok.mpr ⟨(), require_eq_ok.mpr hword, ?_⟩
    simp only [Machine.set, Machine.pushed, slot_zero, Function.update_idem,
      Function.update_eq_self]
    rfl

/-- A call of LoadFS that returns has room below the stack pointer. -/
theorem room_of_call {m' : Machine} (h : m.call returnAddress (loadFS layout) = .ok m') :
    m.Room 5 := by
  obtain ⟨m1, hpush, h⟩ := bind_eq_ok.mp h
  obtain ⟨m2, hload, -⟩ := bind_eq_ok.mp h
  obtain ⟨m3, hpushAll, -⟩ := bind_eq_ok.mp hload
  have hmapped := mapped_of_push hpush
  rw [push_eq hmapped] at hpush
  cases hpush
  exact (room_of_pushAll (by decide) hpushAll).of_pushed [returnAddress] (room_one.mpr hmapped)

end LoadFS

section Dispatch
variable (m : Machine)

/-- The end of the stack of the kernel, on a boundary of 16 bytes. -/
def kernelTop : Word := wordAt m.bytes (m.swapGSBase + 8) &&& ~~~0xF

/-- Where the dispatcher reads the address of the routine. -/
def entryAddress : Word :=
  if m.registers .rax < 400 then layout.syscallTable + m.registers .rax * 8
  else layout.sysNotImplemented

/-- The words that the entry leaves on the stack of the program. -/
def userWords : List Word := m.registers .rcx :: leftByLoadFS layout.afterEntry m

/-- The words that it saves on the stack of the kernel. -/
def savedWords : List Word :=
  slot (m.registers .rsp) 1 ::
    [.r11, .rbp, .rdx, .rsi, .rdi, .r8, .r9, .r11, .r12, .r14, .r15].map m.registers

/-- The context of the kernel: the cells behind its GS base, the table, and 13 words of
its stack, apart from each other. -/
structure KernelReady : Prop where
  fs : FSReady m.swapgs
  stackCell : m.Mapped (m.swapGSBase + 8)
  tableCell : m.Mapped (m.swapGSBase + 16)
  table : wordAt m.bytes (m.swapGSBase + 16) = layout.syscallTable
  entry : m.Mapped (entryAddress layout m)
  stack : ∀ k, 1 ≤ k → k ≤ 13 → m.Mapped (slot (kernelTop m) k)
  tableCellApart : ∀ k, 1 ≤ k → k ≤ 12 → Apart (m.swapGSBase + 16) (slot (kernelTop m) k)
  entryApart : ∀ k, 1 ≤ k → k ≤ 12 → Apart (entryAddress layout m) (slot (kernelTop m) k)

/-- The six words below the stack pointer of the program are apart from all of that. -/
structure UserApart : Prop where
  fs : FSApart 6 m.swapgs
  stackCell : ∀ k, 1 ≤ k → k ≤ 6 → Apart (m.swapGSBase + 8) (slot (m.registers .rsp) k)
  tableCell : ∀ k, 1 ≤ k → k ≤ 6 → Apart (m.swapGSBase + 16) (slot (m.registers .rsp) k)
  entry : ∀ k, 1 ≤ k → k ≤ 6 → Apart (entryAddress layout m) (slot (m.registers .rsp) k)
  stack : ∀ k, 1 ≤ k → k ≤ 6 → ∀ j, 1 ≤ j → j ≤ 13 →
    Apart (slot (m.registers .rsp) k) (slot (kernelTop m) j)

/-- What the dispatcher hands to the routine. -/
structure HandedOver (called : Machine) : Prop where
  rsp : called.registers .rsp = slot (kernelTop m) 13
  rcx : called.registers .rcx = m.registers .r10
  rbp : called.registers .rbp = slot (kernelTop m) 3
  r12 : called.registers .r12 = entryAddress layout m
  others : ∀ r, r ∉ [.rsp, .rcx, .rbp, .r12] → called.registers r = m.registers r
  gsBase : called.gsBase = m.swapGSBase
  swapGSBase : called.swapGSBase = m.gsBase
  mapped : called.mapped = m.mapped
  bytes : called.bytes = spill (kernelTop m) (savedWords m ++ [layout.afterHandler])
    (spill (m.registers .rsp) (userWords layout m) m.bytes)

variable {layout m}

/-- Registers and memory change, and nothing else that matters here. -/
structure Becomes (m : Machine) (registers : Register → Word) (bytes : Bytes) (m' : Machine) :
    Prop where
  registers : m'.registers = registers
  bytes : m'.bytes = bytes
  gsBase : m'.gsBase = m.gsBase
  swapGSBase : m'.swapGSBase = m.swapGSBase
  mapped : m'.mapped = m.mapped

theorem enter_eq (layout : Layout) (hroom : m.Room 6) (hready : FSReady m.swapgs)
    (hapart : FSApart 6 m.swapgs) :
    ∃ m1, enter layout m = .ok m1 ∧ Becomes m.swapgs
      (Function.update m.registers .rsp (slot (m.registers .rsp) 1))
      (spill (m.registers .rsp) (userWords layout m) m.bytes) m1 := by
  have hapart1 : FSApart ([m.registers .rcx].length + 5) m.swapgs := hapart
  have hpush : m.push (m.registers .rcx) = _ := push_eq (hroom 1 le_rfl (by decide))
  refine ⟨_, bind_eq_ok.mpr ⟨_, hpush, call_loadFS_eq ?_ ?_ ?_⟩, ?_⟩
  · exact Room.pushed [m.registers .rcx] hroom
  · exact hready.pushed hapart1
  · exact hapart1.pushed
  · refine ⟨rfl, ?_, rfl, rfl, rfl⟩
    have hleft : leftByLoadFS layout.afterEntry (m.pushed [m.registers .rcx]).swapgs =
        leftByLoadFS layout.afterEntry m := by
      simp [leftByLoadFS, swapgs]
    rw [hleft]
    exact (spill_append (m.registers .rsp) [m.registers .rcx] _ _).symm

theorem room_of_enter {m1 : Machine} (h : enter layout m = .ok m1) : m.Room 6 := by
  obtain ⟨m2, hpush, hcall⟩ := bind_eq_ok.mp h
  have hmapped := mapped_of_push hpush
  rw [push_eq hmapped] at hpush
  cases hpush
  have hroom : (m.pushed [m.registers .rcx]).Room 5 := fun k hk hle =>
    mapped_of_eq (room_of_call hcall k hk hle) rfl
  exact hroom.of_pushed [m.registers .rcx] (room_one.mpr hmapped)

theorem switchStack_eq (layout : Layout) (h : m.Mapped (m.gsBase + 8)) :
    ∃ m1, switchStack layout m = .ok m1 ∧ Becomes m
      (Function.update (Function.update m.registers .rcx (m.registers .rsp))
        .rsp (wordAt m.bytes (m.gsBase + 8) &&& ~~~0xF)) m.bytes m1 := by
  refine ⟨_, bind_eq_ok.mpr ⟨_, load_of_eq h rfl rfl, rfl⟩, ?_, rfl, rfl, rfl, rfl⟩
  simp [alu]

theorem saveRegisters_eq (hroom : m.Room 12) :
    ∃ m1, saveRegisters m = .ok m1 ∧ Becomes m
      (Function.update (Function.update m.registers .rbp (slot (m.registers .rsp) 3))
        .rsp (slot (m.registers .rsp) 12))
      (spill (m.registers .rsp) ([.rcx, .r11, .rbp, .rdx, .rsi, .rdi, .r8, .r9, .r11, .r12, .r14,
        .r15].map m.registers) m.bytes) m1 := by
  have hpush : m.pushAll [.rcx, .r11, .rbp] = _ :=
    pushAll_eq (by decide) fun k hk hle => hroom k hk (hle.trans (by decide))
  refine ⟨_, bind_eq_ok.mpr ⟨_, hpush, pushAll_eq (by decide) ?_⟩, ?_, ?_, rfl, rfl, rfl⟩
  · intro k hk hle
    apply mapped_of_eq (m := m) _ rfl
    simp only [registers_set, registers_pushed, Function.update_self, Function.update_of_ne,
      ne_eq, reduceCtorEq, not_false_eq_true, slot_slot]
    exact hroom _ (by omega) (Nat.add_le_add_left hle 3)
  · simp only [registers_set, registers_pushed, Function.update_self, Function.update_of_ne,
      ne_eq, reduceCtorEq, not_false_eq_true, slot_slot]
    funext r
    cases r <;> simp
  · simp only [bytes_pushed, bytes_set, registers_set, registers_pushed, Function.update_self,
      Function.update_of_ne, List.map, ne_eq, reduceCtorEq, not_false_eq_true]
    rw [← spill_append]
    rfl

theorem selectRoutine_eq (layout : Layout) (h : m.registers .rax < 400 → m.Mapped (m.gsBase + 16) ∧
      wordAt m.bytes (m.gsBase + 16) = layout.syscallTable) :
    ∃ m1, selectRoutine layout m = .ok m1 ∧ Becomes m
      (Function.update (Function.update m.registers .rcx (m.registers .r10))
        .r12 (entryAddress layout m)) m.bytes m1 := by
  unfold selectRoutine entryAddress
  simp only [registers_set, Function.update_of_ne, ne_eq, reduceCtorEq, not_false_eq_true]
  by_cases hrax : m.registers .rax < 400
  · obtain ⟨hmapped, htable⟩ := h hrax
    rw [if_pos hrax, if_pos hrax]
    refine ⟨_, bind_eq_ok.mpr ⟨layout.syscallTable, load_of_eq hmapped rfl htable, rfl⟩, ?_, rfl,
      rfl, rfl, rfl⟩
    simp
  · rw [if_neg hrax, if_neg hrax]
    exact ⟨_, rfl, rfl, rfl, rfl, rfl, rfl⟩

theorem dispatch_eq (hroom : m.Room 6) (hkernel : KernelReady layout m)
    (hapart : UserApart layout m) : ∃ called,
    dispatch layout m = .ok (wordAt m.bytes (entryAddress layout m), called) ∧
      HandedOver layout m called := by
  obtain ⟨m1, henter, h1⟩ := enter_eq layout hroom hkernel.fs hapart.fs
  have hword1 {a : Word} (h : ∀ k, 1 ≤ k → k ≤ 6 → Apart a (slot (m.registers .rsp) k)) :
      wordAt m1.bytes a = wordAt m.bytes a := by
    rw [h1.bytes]
    exact wordAt_spill_of_apart h
  have hgs1 : m1.gsBase = m.swapGSBase := h1.gsBase
  obtain ⟨m2, hswitch, h2⟩ := switchStack_eq layout (m := m1)
    (by rw [hgs1]; exact mapped_of_eq hkernel.stackCell h1.mapped)
  rw [hgs1, hword1 hapart.stackCell, h1.registers] at h2
  have htop : m2.registers .rsp = kernelTop m := by
    rw [h2.registers, Function.update_self]
    rfl
  have hsaved : [Register.rcx, .r11, .rbp, .rdx, .rsi, .rdi, .r8, .r9, .r11, .r12, .r14,
      .r15].map m2.registers = savedWords m := by
    rw [h2.registers]
    simp [savedWords]
  have hmapped2 : m2.mapped = m.mapped := h2.mapped.trans h1.mapped
  obtain ⟨m3, hsave, h3⟩ := saveRegisters_eq (m := m2) fun k hk hle => by
    rw [htop]
    exact mapped_of_eq (hkernel.stack k hk (by omega)) hmapped2
  rw [htop, hsaved, h2.bytes, h1.bytes, h2.registers] at h3
  have hmapped3 : m3.mapped = m.mapped := h3.mapped.trans hmapped2
  have hword3 {a : Word} (h : ∀ k, 1 ≤ k → k ≤ 6 → Apart a (slot (m.registers .rsp) k))
      (h' : ∀ k, 1 ≤ k → k ≤ 12 → Apart a (slot (kernelTop m) k)) :
      wordAt m3.bytes a = wordAt m.bytes a := by
    have hsavedApart : ∀ k, 1 ≤ k → k ≤ (savedWords m).length →
        Apart a (slot (kernelTop m) k) := h'
    rw [h3.bytes, wordAt_spill_of_apart hsavedApart]
    exact wordAt_spill_of_apart h
  have hgs3 : m3.gsBase = m.swapGSBase := h3.gsBase.trans (h2.gsBase.trans hgs1)
  obtain ⟨m4, hselect, h4⟩ := selectRoutine_eq layout (m := m3) fun _ => by
    rw [hgs3, hword3 hapart.tableCell hkernel.tableCellApart]
    exact ⟨mapped_of_eq hkernel.tableCell hmapped3, hkernel.table⟩
  have haddress : entryAddress layout m3 = entryAddress layout m := by
    unfold entryAddress
    rw [h3.registers]
    simp
  rw [haddress, h3.registers] at h4
  have hmapped4 : m4.mapped = m.mapped := h4.mapped.trans hmapped3
  have hr12 : m4.registers .r12 = entryAddress layout m := by
    rw [h4.registers, Function.update_self]
  have hrsp : m4.registers .rsp = slot (kernelTop m) 12 := by
    rw [h4.registers]
    simp
  have hroom4 : m4.Mapped (slot (m4.registers .rsp) 1) := by
    rw [hrsp, slot_slot]
    exact mapped_of_eq (hkernel.stack 13 (by decide) le_rfl) hmapped4
  refine ⟨_, bind_eq_ok.mpr ⟨m1, henter, bind_eq_ok.mpr ⟨m2, hswitch, bind_eq_ok.mpr ⟨m3, hsave,
    bind_eq_ok.mpr ⟨m4, hselect, bind_eq_ok.mpr ⟨_, ?_,
      bind_eq_ok.mpr ⟨_, push_eq hroom4, rfl⟩⟩⟩⟩⟩⟩, ?_⟩
  · rw [hr12]
    apply load_of_eq hkernel.entry hmapped4
    rw [h4.bytes]
    exact hword3 hapart.entry hkernel.entryApart
  · exact
      { rsp := by rw [registers_pushed, Function.update_self, hrsp, slot_slot]; rfl
        rcx := by simp [h4.registers]
        rbp := by simp [h4.registers, slot_slot]
        r12 := by simp [h4.registers]
        others := fun r hr => by
          simp only [List.mem_cons, List.not_mem_nil, or_false, not_or] at hr
          simp [h4.registers, hr]
        gsBase := h4.gsBase.trans hgs3
        swapGSBase := h4.swapGSBase.trans (h3.swapGSBase.trans (h2.swapGSBase.trans h1.swapGSBase))
        mapped := hmapped4
        bytes := by
          rw [bytes_pushed, hrsp, h4.bytes, h3.bytes, spill_append]
          rfl }

end Dispatch

section Resume
variable {layout} {m called m' : Machine}

/-- What a routine keeps by the calling convention: it returns behind its return address,
with the registers of the caller and the twelve words that the dispatcher has on its
stack. Nothing else is kept, but the GS bases. -/
structure ObeysSysV (called m' : Machine) : Prop where
  rsp : m'.registers .rsp = called.registers .rsp + 8
  calleeSaved : ∀ r ∈ [.rbx, .rbp, .r12, .r13, .r14, .r15], m'.registers r = called.registers r
  frame : ∀ n, 1 ≤ n → n ≤ 12 →
    m'.Mapped (called.registers .rsp + BitVec.ofNat 64 (8 * n)) ∧
      wordAt m'.bytes (called.registers .rsp + BitVec.ofNat 64 (8 * n)) =
        wordAt called.bytes (called.registers .rsp + BitVec.ofNat 64 (8 * n))
  gsBase : m'.gsBase = called.gsBase
  swapGSBase : m'.swapGSBase = called.swapGSBase

theorem HandedOver.saved (h : HandedOver layout m called) {k : ℕ} (hk : k < 12) :
    wordAt called.bytes (slot (kernelTop m) (k + 1)) = (savedWords m)[k] := by
  have hlength : (savedWords m ++ [layout.afterHandler]).length < 2 ^ 60 :=
    show 13 < 2 ^ 60 by decide
  rw [h.bytes, wordAt_spill hlength (show k < 13 by omega)]
  exact List.getElem_append_left hk

/-- The saved words are where they were. -/
theorem ObeysSysV.saved (hobeys : ObeysSysV called m') (h : HandedOver layout m called) {k : ℕ}
    (hk : k < 12) : m'.Mapped (slot (kernelTop m) (k + 1)) ∧
      wordAt m'.bytes (slot (kernelTop m) (k + 1)) = (savedWords m)[k] := by
  have hslot : called.registers .rsp + BitVec.ofNat 64 (8 * (12 - k)) =
      slot (kernelTop m) (k + 1) := by
    rw [h.rsp, ← slot_add_ofNat (kernelTop m) (k + 1) (12 - k)]
    congr 2
    omega
  have hframe := hobeys.frame (12 - k) (by omega) (by omega)
  rw [hslot] at hframe
  exact ⟨hframe.1, hframe.2.trans (h.saved hk)⟩

/-- The registers when the words of the dispatcher have been popped. -/
def restored (m m' : Machine) (r : Register) : Word :=
  if r = .rsp then slot (m.registers .rsp) 1
  else if r ∈ [.rbp, .r15, .r14, .r12, .r11, .r9, .r8, .rdi, .rsi, .rdx] then m.registers r
  else m'.registers r

theorem restoreRegisters_eq (hobeys : ObeysSysV called m') (h : HandedOver layout m called) :
    ∃ m1, restoreRegisters m' = .ok m1 ∧ Becomes m' (restored m m') m'.bytes m1 := by
  have hrsp : m'.registers .rsp = slot (kernelTop m) 12 := by
    rw [hobeys.rsp, h.rsp]
    exact slot_add (kernelTop m) 12
  have hsaved {k : ℕ} (hk : k < 12) := hobeys.saved h hk
  have hmapped (k : ℕ) (hk : 3 < k) (hle : k ≤ 9 + 3) : m'.Mapped (slot (kernelTop m) k) := by
    have hslot := (hsaved (k := k - 1) (by omega)).1
    rwa [Nat.sub_add_cancel (by omega)] at hslot
  have hwords (i : ℕ) (hi : i < 9) : wordAt m'.bytes (slot (kernelTop m) (9 - i + 3)) =
      m.registers [Register.r15, .r14, .r12, .r11, .r9, .r8, .rdi, .rsi, .rdx][i] := by
    have hslot := (hsaved (k := 11 - i) (by omega)).2
    rw [show 11 - i + 1 = 9 - i + 3 by omega] at hslot
    refine hslot.trans ?_
    interval_cases i <;> rfl
  have hpop : m'.popAll [.r15, .r14, .r12, .r11, .r9, .r8, .rdi, .rsi, .rdx] = _ :=
    popAll_words (kernelTop m) 3 m.registers (by decide) hrsp hmapped hwords
  have hrbp := hsaved (k := 2) (by decide)
  have hr11 := hsaved (k := 1) (by decide)
  have hstack := hsaved (k := 0) (by decide)
  refine ⟨_, bind_eq_ok.mpr ⟨_, hpop, bind_eq_ok.mpr ⟨_,
    pop_eq (kernelTop m) 2 .rbp ?_ (mapped_of_eq hrbp.1 rfl), bind_eq_ok.mpr ⟨_,
    popfq_eq (kernelTop m) 1 ?_ (mapped_of_eq hr11.1 rfl),
    pop_eq (kernelTop m) 0 .rsp ?_ (mapped_of_eq hstack.1 rfl)⟩⟩⟩, ?_, rfl, rfl, rfl, rfl⟩
  · simp
  · simp
  · simp
  · simp only [registers_set, bytes_set, hrbp.2, hstack.2, Function.update_idem]
    funext r
    cases r <;> simp [savedWords, restored]

/-- The word that `leave` pops is that below the end of the stack of the program. -/
theorem wordAt_leftByLoadFS {top returnAddress : Word} (hrsp : m.registers .rsp = slot top 1) :
    wordAt (spill (m.registers .rsp) (leftByLoadFS returnAddress m) m.bytes) (slot top 1) =
      wordAt m.bytes (slot top 1) := by
  have hbelow : ∀ k, 1 ≤ k → k ≤ (leftByLoadFS returnAddress m).length →
      Apart (slot top 1) (slot (m.registers .rsp) k) := by
    intro k hk hle
    change k ≤ 5 at hle
    rw [hrsp, slot_slot]
    exact apart_slot top (by omega) (by decide) (by omega)
  exact wordAt_spill_of_apart hbelow

theorem leave_eq (layout : Layout) {top : Word} (hrsp : m.registers .rsp = slot top 1)
    (hroom : m.Room 5) (hmapped : m.Mapped (slot top 1)) (hready : FSReady m.swapgs)
    (hapart : FSApart 5 m.swapgs)
    (hcanonical : Canonical (wordAt m.bytes (slot top 1))) :
    ∃ final, leave layout m = .ok final ∧ final.rip = wordAt m.bytes (slot top 1) ∧
      final.rflags = sysretFlags (m.registers .r11) ∧
      final.registers = Function.update (Function.update m.registers .rsp top)
        .rcx (wordAt m.bytes (slot top 1)) := by
  have hcall : m.swapgs.call layout.afterExit (loadFS layout) = _ :=
    call_loadFS_eq hroom hready hapart
  have hword : wordAt (spill (m.registers .rsp) (leftByLoadFS layout.afterExit m) m.bytes)
      (slot top 1) = _ := wordAt_leftByLoadFS hrsp
  refine ⟨_, bind_eq_ok.mpr ⟨_, hcall, bind_eq_ok.mpr ⟨_,
    pop_eq top 0 .rcx hrsp (mapped_of_eq hmapped rfl),
    bind_eq_ok.mpr ⟨(), require_eq_ok.mpr ?_, rfl⟩⟩⟩, ?_, ?_, ?_⟩
  · rw [registers_set, Function.update_self]
    exact (congrArg Canonical hword).mpr hcanonical
  · dsimp only
    rw [registers_set, Function.update_self]
    exact hword
  · dsimp only
    rw [registers_set, Function.update_of_ne (by decide), registers_set,
      Function.update_of_ne (by decide)]
    rfl
  · dsimp only
    rw [registers_set, registers_set, slot_zero]
    exact congrArg _ hword

/-- If `leave` returns, it has found its words. -/
theorem of_leave {top : Word} {final : Machine} (hrsp : m.registers .rsp = slot top 1)
    (hready : FSReady m.swapgs) (hapart : FSApart 5 m.swapgs)
    (h : leave layout m = .ok final) :
    m.Room 5 ∧ m.Mapped (slot top 1) ∧ Canonical (wordAt m.bytes (slot top 1)) := by
  obtain ⟨m1, hcall, h⟩ := bind_eq_ok.mp h
  have hroom : m.swapgs.Room 5 := room_of_call hcall
  obtain ⟨hregisters, hmapped, hbytes⟩ : m1.registers = m.registers ∧ m1.mapped = m.mapped ∧
      m1.bytes = spill (m.registers .rsp) (leftByLoadFS layout.afterExit m) m.bytes := by
    rw [call_loadFS_eq hroom hready hapart] at hcall
    cases hcall
    exact ⟨rfl, rfl, rfl⟩
  obtain ⟨m2, hpop, h⟩ := bind_eq_ok.mp h
  obtain ⟨_, hcanonical, -⟩ := bind_eq_ok.mp h
  have htop := mapped_of_pop hpop
  rw [hregisters, hrsp] at htop
  rw [pop_eq top 0 .rcx (by rw [hregisters, hrsp]) htop] at hpop
  cases hpop
  have hcanonical := require_eq_ok.mp hcanonical
  rw [registers_set, Function.update_self, hbytes, wordAt_leftByLoadFS hrsp] at hcanonical
  exact ⟨hroom, mapped_of_eq htop hmapped.symm, hcanonical⟩

/-- The context of the program when the routine has returned: the cell of its FS base,
apart from the words that LoadFS uses. -/
structure Resumable (m m' : Machine) : Prop where
  fs : FSReady m'.swapgs
  gs : ∀ k, 2 ≤ k → k ≤ 6 → Apart m'.swapGSBase (slot (m.registers .rsp) k)
  cell : ∀ k, 2 ≤ k → k ≤ 6 →
    Apart (wordAt m'.bytes m'.swapGSBase) (slot (m.registers .rsp) k)

/-- The program goes on behind its system call, with its stack pointer, flags and
registers. -/
structure Returns (m final : Machine) : Prop where
  rip : final.rip = m.registers .rcx
  rflags : final.rflags = sysretFlags (m.registers .r11)
  others : ∀ r, r ∉ [.rax, .rcx, .r11] → final.registers r = m.registers r

/-- What the way back needs of the routine beyond the calling convention: it has to leave
r10 and the return address on the stack of the program alone, and this stack mapped. -/
structure Keeps (m m' : Machine) : Prop where
  r10 : m'.registers .r10 = m.registers .r10
  returnAddress : wordAt m'.bytes (slot (m.registers .rsp) 1) = m.registers .rcx
  stack : ∀ k, 1 ≤ k → k ≤ 6 → m'.Mapped (slot (m.registers .rsp) k)

theorem FSReady.congr {m1 : Machine} (h : FSReady m) (hgs : m1.gsBase = m.gsBase)
    (hbytes : m1.bytes = m.bytes) (hmapped : m1.mapped = m.mapped) : FSReady m1 := by
  refine ⟨?_, ?_, ?_⟩
  · rw [hgs]
    exact mapped_of_eq h.gs hmapped
  · rw [hgs, hbytes]
    exact mapped_of_eq h.cell hmapped
  · have hcanonical := h.canonical
    unfold fsBaseOf at hcanonical ⊢
    rwa [hgs, hbytes]

theorem resume_iff (hobeys : ObeysSysV called m') (h : HandedOver layout m called)
    (hresumable : Resumable m m') :
    (∃ final, resume layout m' = .ok final ∧ Returns m final) ↔
      Keeps m m' ∧ Canonical (m.registers .rcx) := by
  obtain ⟨m1, hrestore, h1⟩ := restoreRegisters_eq hobeys h
  have hrsp : m1.registers .rsp = slot (m.registers .rsp) 1 := by
    rw [h1.registers]
    rfl
  have hgs : m1.swapgs.gsBase = m'.swapgs.gsBase := h1.swapGSBase
  have hready : FSReady m1.swapgs := hresumable.fs.congr hgs h1.bytes h1.mapped
  have hapart : FSApart 5 m1.swapgs := by
    refine ⟨fun k hk hle => ?_, fun k hk hle => ?_⟩
    · change Apart m1.swapGSBase (slot (m1.registers .rsp) k)
      rw [h1.swapGSBase, hrsp, slot_slot]
      exact hresumable.gs _ (by omega) (by omega)
    · change Apart (wordAt m1.bytes m1.swapGSBase) (slot (m1.registers .rsp) k)
      rw [h1.swapGSBase, h1.bytes, hrsp, slot_slot]
      exact hresumable.cell _ (by omega) (by omega)
  have hreturn : wordAt m1.bytes (slot (m.registers .rsp) 1) =
      wordAt m'.bytes (slot (m.registers .rsp) 1) := by rw [h1.bytes]
  constructor
  · rintro ⟨final, hresume, hreturns⟩
    obtain ⟨m2, hrestore', hleave⟩ := bind_eq_ok.mp hresume
    rw [hrestore] at hrestore'
    cases hrestore'
    obtain ⟨hroom, hmapped, hcanonical⟩ := of_leave hrsp hready hapart hleave
    obtain ⟨final', hleave', hrip, -, hregisters⟩ :=
      leave_eq layout hrsp hroom hmapped hready hapart hcanonical
    rw [hleave] at hleave'
    cases hleave'
    have haddress := hrip.symm.trans hreturns.rip
    refine ⟨⟨?_, hreturn.symm.trans haddress, fun k hk hle => ?_⟩, ?_⟩
    · have hr10 := hreturns.others .r10 (by decide)
      rw [hregisters, Function.update_of_ne (by decide), Function.update_of_ne (by decide),
        h1.registers] at hr10
      exact hr10
    · rcases Nat.lt_or_ge 1 k with hlt | hle'
      · have hslot := hroom (k - 1) (by omega) (by omega)
        rw [hrsp, slot_slot, Nat.add_sub_cancel' hk] at hslot
        exact mapped_of_eq hslot h1.mapped.symm
      · obtain rfl : k = 1 := by omega
        exact mapped_of_eq hmapped h1.mapped.symm
    · rwa [haddress] at hcanonical
  · rintro ⟨hkeeps, hcanonical⟩
    have haddress := hreturn.trans hkeeps.returnAddress
    obtain ⟨final, hleave, hrip, hrflags, hregisters⟩ := leave_eq layout hrsp
      (fun k hk hle => by
        rw [hrsp, slot_slot]
        exact mapped_of_eq (hkeeps.stack _ (by omega) (by omega)) h1.mapped)
      (mapped_of_eq (hkeeps.stack 1 le_rfl (by decide)) h1.mapped) hready hapart
      (by rwa [haddress])
    refine ⟨final, bind_eq_ok.mpr ⟨m1, hrestore, hleave⟩, hrip.trans haddress, ?_, fun r hr => ?_⟩
    · rw [hrflags, h1.registers]
      rfl
    · have hsaved (hmem : r ∈ [.rbx, .rbp, .r12, .r13, .r14, .r15])
          (hother : r ∉ [.rsp, .rcx, .rbp, .r12]) : m'.registers r = m.registers r :=
        (hobeys.calleeSaved r hmem).trans (h.others r hother)
      rw [hregisters, h1.registers]
      cases r <;> simp_all [restored, hkeeps.r10]

end Resume

section Conforms
variable {layout} {code : Code} {m called : Machine}

/-- The routine that a system call number stands for. -/
def routine (layout : Layout) (m : Machine) : Word :=
  if m.registers .rax < 400 then wordAt m.bytes (layout.syscallTable + m.registers .rax * 8)
  else layout.sysNotImplemented

/-- The six arguments, and a stack that is aligned where the routine is called. -/
structure Passes (m called : Machine) : Prop where
  rdi : called.registers .rdi = m.registers .rdi
  rsi : called.registers .rsi = m.registers .rsi
  rdx : called.registers .rdx = m.registers .rdx
  rcx : called.registers .rcx = m.registers .r10
  r8 : called.registers .r8 = m.registers .r8
  r9 : called.registers .r9 = m.registers .r9
  aligned : (called.registers .rsp + 8).toNat % 16 = 0

/-- The dispatcher calls the routine with its arguments and returns to the program. -/
def Conforms (layout : Layout) (code : Code) (m : Machine) : Prop :=
  ∃ called final, dispatch layout m = .ok (routine layout m, called) ∧ Passes m called ∧
    syscallDispatcher layout code m = .ok final ∧ Returns m final

/-- When it does. A number from 400 on jumps to the address that is stored in the first
bytes of sys_not_implemented. -/
structure Suits (layout : Layout) (code : Code) (m : Machine) : Prop where
  stack : m.Room 6
  number : m.registers .rax < 400 ∨
    wordAt m.bytes layout.sysNotImplemented = layout.sysNotImplemented
  returnAddress : Canonical (m.registers .rcx)
  keeps : ∀ called, dispatch layout m = .ok (routine layout m, called) →
    Keeps m (code (routine layout m) called)

theorem toNat_kernelTop_mod (m : Machine) : (kernelTop m).toNat % 16 = 0 := by
  unfold kernelTop
  rw [BitVec.toNat_and]
  have hspan : (wordAt m.bytes (m.swapGSBase + 8)).toNat &&& (~~~0xF : Word).toNat = _ :=
    Words.and_span _ (show 4 ≤ 64 by omega)
  rw [hspan]
  omega

theorem HandedOver.passes (h : HandedOver layout m called) : Passes m called := by
  have haligned := toNat_kernelTop_mod m
  refine ⟨h.others _ (by decide), h.others _ (by decide), h.others _ (by decide), h.rcx,
    h.others _ (by decide), h.others _ (by decide), ?_⟩
  rw [h.rsp, slot_add (kernelTop m) 12]
  unfold slot
  simp only [BitVec.toNat_sub, BitVec.toNat_ofNat]
  omega

/-- The word that the dispatcher calls through is the routine of the number. -/
theorem wordAt_entryAddress_iff : wordAt m.bytes (entryAddress layout m) = routine layout m ↔
    m.registers .rax < 400 ∨
      wordAt m.bytes layout.sysNotImplemented = layout.sysNotImplemented := by
  unfold entryAddress routine
  split_ifs with hrax
  · exact iff_of_true rfl (Or.inl hrax)
  · exact (or_iff_right hrax).symm

theorem conforms_iff (hkernel : KernelReady layout m) (hapart : UserApart layout m)
    (hcode : ∀ called, dispatch layout m = .ok (routine layout m, called) →
      ObeysSysV called (code (routine layout m) called) ∧
        Resumable m (code (routine layout m) called)) :
    Conforms layout code m ↔ Suits layout code m := by
  constructor
  · rintro ⟨called, final, hdispatch, -, hrun, hreturns⟩
    obtain ⟨m1, henter, -⟩ := bind_eq_ok.mp hdispatch
    have hroom := room_of_enter henter
    obtain ⟨called', hdispatch', hhanded⟩ := dispatch_eq hroom hkernel hapart
    rw [hdispatch] at hdispatch'
    obtain ⟨htarget, rfl⟩ := Prod.mk.inj (Except.ok.inj hdispatch')
    obtain ⟨⟨target, called''⟩, hrun', hresume⟩ := bind_eq_ok.mp hrun
    rw [hdispatch] at hrun'
    cases hrun'
    obtain ⟨hobeys, hresumable⟩ := hcode called hdispatch
    obtain ⟨hkeeps, hcanonical⟩ :=
      (resume_iff hobeys hhanded hresumable).mp ⟨final, hresume, hreturns⟩
    refine ⟨hroom, wordAt_entryAddress_iff.mp htarget.symm, hcanonical, fun called' h' => ?_⟩
    rw [hdispatch] at h'
    cases h'
    exact hkeeps
  · intro hsuits
    obtain ⟨called, hdispatch, hhanded⟩ := dispatch_eq hsuits.stack hkernel hapart
    rw [wordAt_entryAddress_iff.mpr hsuits.number] at hdispatch
    obtain ⟨hobeys, hresumable⟩ := hcode called hdispatch
    obtain ⟨final, hresume, hreturns⟩ := (resume_iff hobeys hhanded hresumable).mpr
      ⟨hsuits.keeps called hdispatch, hsuits.returnAddress⟩
    exact ⟨called, final, hdispatch, hhanded.passes,
      bind_eq_ok.mpr ⟨_, hdispatch, hresume⟩, hreturns⟩

end Conforms

/-- The cells of the two environments, and the entry 39 of the table. -/
def cells : Bytes :=
  storeAt 0x1000 0x2000 (storeAt 0x1008 0x8000 (storeAt 0x1010 0x3000
    (storeAt 0x1800 0x2008 (storeAt 0x3138 0x5000 fun _ => 0))))

def cellsLayout : Layout :=
  { afterEntry := 0x4000
    afterHandler := 0x4040
    afterExit := 0x4080
    sysNotImplemented := 0x6000
    syscallTable := 0x3000
    flags := fun _ rflags => rflags }

/-- A program that makes system call 39. -/
def getpidCall : Machine :=
  { registers := fun r => if r = .rax then 39 else if r = .rsp then 0x7000 else 0
    rflags := 2
    rip := 0
    gsBase := 0x1800
    swapGSBase := 0x1000
    fsBase := 0
    bytes := cells
    mapped := fun _ => true }

/-- A routine that leaves this value in r10. -/
def leavingR10 (value : Word) : Code := fun _ called =>
  (called.set .rsp (called.registers .rsp + 8)).set .r10 value

theorem wordAt_cells : wordAt cells 0x1000 = 0x2000 ∧ wordAt cells 0x1008 = 0x8000 ∧
    wordAt cells 0x1010 = 0x3000 ∧ wordAt cells 0x1800 = 0x2008 ∧ wordAt cells 0x2000 = 0 ∧
    wordAt cells 0x2008 = 0 := by
  decide +kernel

theorem kernelTop_getpid : kernelTop getpidCall = 0x8000 := by decide +kernel

theorem entryAddress_getpid : entryAddress cellsLayout getpidCall = 0x3138 := by decide +kernel

theorem kernelReady_getpid : KernelReady cellsLayout getpidCall := by
  obtain ⟨hgs, -, htable, -, hbase, -⟩ := wordAt_cells
  exact
    { fs :=
        { gs := fun _ _ => rfl
          cell := fun _ _ => rfl
          canonical := by
            change Canonical (wordAt cells (wordAt cells 0x1000))
            rw [hgs, hbase]
            decide }
      stackCell := fun _ _ => rfl
      tableCell := fun _ _ => rfl
      table := htable
      entry := fun _ _ => rfl
      stack := fun _ _ _ _ _ => rfl
      tableCellApart := fun k hk hle => by
        rw [kernelTop_getpid]
        apply apart_slot_of_le hk
        change 0x1010 + 8 + 8 * k ≤ 0x8000
        omega
      entryApart := fun k hk hle => by
        rw [kernelTop_getpid, entryAddress_getpid]
        apply apart_slot_of_le hk
        change 0x3138 + 8 + 8 * k ≤ 0x8000
        omega }

/-- Everything that the kernel keeps lies below or above the stack of the program. -/
theorem apart_stack_getpid {a : Word} {k : ℕ} (ha : a.toNat ≤ 0x6000) (hk : 1 ≤ k)
    (hle : k ≤ 6) : Apart a (slot 0x7000 k) := by
  apply apart_slot_of_le hk
  change a.toNat + 8 + 8 * k ≤ 0x7000
  omega

theorem userApart_getpid : UserApart cellsLayout getpidCall := by
  obtain ⟨hgs, -⟩ := wordAt_cells
  exact
    { fs :=
        { gs := fun k hk hle => apart_stack_getpid (by decide) hk hle
          cell := fun k hk hle => by
            change Apart (wordAt cells 0x1000) (slot 0x7000 k)
            rw [hgs]
            exact apart_stack_getpid (by decide) hk hle }
      stackCell := fun k hk hle => apart_stack_getpid (by decide) hk hle
      tableCell := fun k hk hle => apart_stack_getpid (by decide) hk hle
      entry := fun k hk hle => by
        rw [entryAddress_getpid]
        exact apart_stack_getpid (by decide) hk hle
      stack := fun k _ hle j hj hj' => by
        rw [kernelTop_getpid]
        apply apart_slot_of_le hj
        have hslot : (slot 0x7000 k).toNat = 0x7000 - 8 * k :=
          toNat_slot (show 8 * k ≤ 0x7000 by omega)
        change (slot 0x7000 k).toNat + 8 + 8 * j ≤ 0x8000
        omega }

theorem leavingR10_obeys (value : Word) (called : Machine)
    (h : dispatch cellsLayout getpidCall = .ok (routine cellsLayout getpidCall, called)) :
    ObeysSysV called (leavingR10 value (routine cellsLayout getpidCall) called) ∧
      Resumable getpidCall (leavingR10 value (routine cellsLayout getpidCall) called) := by
  obtain ⟨called', h', hhanded⟩ := dispatch_eq (fun _ _ _ _ _ => rfl) kernelReady_getpid
    userApart_getpid
  rw [h] at h'
  obtain ⟨-, rfl⟩ := Prod.mk.inj (Except.ok.inj h')
  obtain ⟨-, -, -, huser, -, hbase⟩ := wordAt_cells
  have hmapped (a : Word) : called.Mapped a :=
    mapped_of_eq (m := getpidCall) (fun _ _ => rfl) hhanded.mapped
  have hword {a : Word} (ha : a.toNat ≤ 0x6000) : wordAt called.bytes a = wordAt cells a := by
    have hkernel : ∀ k, 1 ≤ k →
        k ≤ (savedWords getpidCall ++ [cellsLayout.afterHandler]).length →
        Apart a (slot 0x8000 k) := by
      intro k hk hle
      change k ≤ 13 at hle
      apply apart_slot_of_le hk
      change a.toNat + 8 + 8 * k ≤ 0x8000
      omega
    have huser : ∀ k, 1 ≤ k → k ≤ (userWords cellsLayout getpidCall).length →
        Apart a (slot 0x7000 k) := fun k hk hle => apart_stack_getpid ha hk hle
    rw [hhanded.bytes, kernelTop_getpid, wordAt_spill_of_apart hkernel]
    exact wordAt_spill_of_apart huser
  have hgs : called.swapGSBase = 0x1800 := hhanded.swapGSBase
  have hcell : wordAt called.bytes called.swapGSBase = 0x2008 := by
    rw [hgs, hword (by decide), huser]
  have hvalue : wordAt called.bytes (wordAt called.bytes called.swapGSBase) = 0 := by
    rw [hcell, hword (by decide), hbase]
  constructor
  · exact
      { rsp := by simp [leavingR10]
        calleeSaved := fun r hr => by
          simp only [List.mem_cons, List.not_mem_nil, or_false] at hr
          obtain rfl | rfl | rfl | rfl | rfl | rfl := hr <;> simp [leavingR10]
        frame := fun n _ _ => ⟨hmapped _, rfl⟩
        gsBase := rfl
        swapGSBase := rfl }
  · exact
      { fs :=
          { gs := hmapped _
            cell := hmapped _
            canonical := by
              change Canonical (wordAt called.bytes (wordAt called.bytes called.swapGSBase))
              rw [hvalue]
              decide }
        gs := fun k hk hle => by
          change Apart called.swapGSBase (slot 0x7000 k)
          rw [hgs]
          exact apart_stack_getpid (by decide) (by omega) hle
        cell := fun k hk hle => by
          change Apart (wordAt called.bytes called.swapGSBase) (slot 0x7000 k)
          rw [hcell]
          exact apart_stack_getpid (by decide) (by omega) hle }

/-- For every routine that obeys the calling convention: a system call does what it is to
do exactly if the stack of the program has six words, the number has an entry, and the
routine leaves r10 and the return address on that stack alone. -/
theorem syscallDispatcher_conforms_iff (layout : Layout) (code : Code) (m : Machine)
    (hkernel : KernelReady layout m) (hapart : UserApart layout m)
    (hcode : ∀ called, dispatch layout m = .ok (routine layout m, called) →
      ObeysSysV called (code (routine layout m) called) ∧
        Resumable m (code (routine layout m) called)) :
    Conforms layout code m ↔ Suits layout code m :=
  conforms_iff hkernel hapart hcode

theorem syscallDispatcher_conforms_iff_getpid :
    Conforms cellsLayout (leavingR10 0) getpidCall ↔
      Suits cellsLayout (leavingR10 0) getpidCall :=
  syscallDispatcher_conforms_iff cellsLayout (leavingR10 0) getpidCall kernelReady_getpid
    userApart_getpid fun called h => leavingR10_obeys 0 called h

/-- A routine that changes r10, as the calling convention allows. -/
theorem r10_not_restored : ¬ Conforms cellsLayout (leavingR10 1) getpidCall := by
  intro h
  have hsuits := (conforms_iff kernelReady_getpid userApart_getpid
    fun called h => leavingR10_obeys 1 called h).mp h
  obtain ⟨called, -, hdispatch, -⟩ := h
  have hr10 : (1 : Word) = 0 := (hsuits.keeps called hdispatch).r10
  exact absurd hr10 (by decide)

end Enkel.SyscallEntry
