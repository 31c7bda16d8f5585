import Enkel.InterruptStubs
import Enkel.ProcessNesting

/-!
The way into a program and back. SwitchToUserMode pushes the registers, stores where they
are in two cells of the kernel, and enters the program with `iretq`; ReturnToKernel, which
sys_exit calls on another stack, finds them by these cells and returns to the caller of
SwitchToUserMode. The cells are what `Processes.Machine` keeps of this.
-/
namespace Enkel.UserMode

open Outcome X86
open X86.Machine
open SyscallEntry (loadFS FSReady FSApart fsBaseOf call_loadFS_eq leftByLoadFS)

/-- The address after the call of LoadFS. -/
structure Layout where
  entry : SyscallEntry.Layout
  afterLoadFS : Word

def store (a value : Word) (m : Machine) : Except X86.Fault Machine := do
  require (m.Mapped a) (.pageFault a)
  return { m with bytes := storeAt a value m.bytes }

/-- The registers that SwitchToUserMode pushes, rbp apart. -/
def switched : List Register :=
  [.rax, .rbx, .rcx, .rdx, .rsi, .rdi, .r8, .r9, .r10, .r11, .r12, .r13, .r14, .r15]

/-- The registers that are not shown to the program. -/
def cleared : List Register := [.rax, .rbx, .r8, .r9, .r10, .r11, .r12, .r13, .r14, .r15]

def clearAll (m : Machine) : Machine := cleared.foldl (fun m r => m.set r 0) m

variable (layout : Layout)

/-- SwitchToUserMode up to the first instruction of the program. -/
def switchToUserMode (m : Machine) : Except X86.Fault Context := do
  let m ← m.pushAll switched
  let m ← m.push m.rflags
  -- the cells that ReturnToKernel reads
  let m ← store (m.gsBase + 24) (m.registers .rbp) m
  let m ← store (m.gsBase + 32) (m.registers .rsp) m
  let m := Interrupts.cld m
  let m := m.set .rbp (m.registers .rdi)
  let m ← m.pushWords
    [m.registers .rcx, m.registers .rdi, 0x202, m.registers .rdx, m.registers .rsi]
  let m ← (clearAll m).swapgs.call layout.afterLoadFS (loadFS layout.entry)
  m.iretq

def returnToKernel (m : Machine) : Except X86.Fault Machine := do
  let rbp ← m.load (m.gsBase + 24)
  let m := m.set .rbp rbp
  let rsp ← m.load (m.gsBase + 32)
  let m := m.set .rsp rsp
  let m ← m.popfq
  let m ← m.popAll switched.reverse
  let (rip, m) ← m.popWord
  return { m with rip := rip }

section Switch
variable {m m1 : Machine} {a value : Word}

/-- The return address and 25 words below it are mapped, as are the two cells, and they are
apart from each other. What LoadFS reads is apart from the words and the cells. -/
structure Ready (m : Machine) : Prop where
  stack : ∀ k ≤ 25, m.Mapped (slot (m.registers .rsp) k)
  cells : ∀ cell ∈ [m.gsBase + 24, m.gsBase + 32], m.Mapped cell ∧
    ∀ k ≤ 25, Apart cell (slot (m.registers .rsp) k)
  fs : FSReady m.swapgs
  fsStack : ∀ k, 1 ≤ k → k ≤ 25 → Apart m.swapGSBase (slot (m.registers .rsp) k) ∧
    Apart (wordAt m.bytes m.swapGSBase) (slot (m.registers .rsp) k)
  fsCells : ∀ cell ∈ [m.gsBase + 24, m.gsBase + 32],
    Apart m.swapGSBase cell ∧ Apart (wordAt m.bytes m.swapGSBase) cell

/-- The registers of the program when it is entered. -/
def enteredRegisters (m : Machine) (r : Register) : Word :=
  if r ∈ cleared then 0
  else if r = .rsp ∨ r = .rbp then m.registers .rdi
  else m.registers r

/-- The program is entered, and what belongs to the caller is kept. -/
structure Entered (m : Machine) (user : Context) : Prop where
  frame : user.frame =
    ⟨m.registers .rsi, m.registers .rdx, 0x202, m.registers .rdi, m.registers .rcx⟩
  registers : user.machine.registers = enteredRegisters m
  gsBase : user.machine.gsBase = m.swapGSBase
  swapGSBase : user.machine.swapGSBase = m.gsBase
  fsBase : user.machine.fsBase = fsBaseOf m.swapgs
  mapped : user.machine.mapped = m.mapped
  rbp : wordAt user.machine.bytes (m.gsBase + 24) = m.registers .rbp
  rsp : wordAt user.machine.bytes (m.gsBase + 32) = slot (m.registers .rsp) 15
  rflags : wordAt user.machine.bytes (slot (m.registers .rsp) 15) = m.rflags
  saved : ∀ k, (hk : k < switched.length) →
    wordAt user.machine.bytes (slot (m.registers .rsp) (k + 1)) = m.registers switched[k]
  others : ∀ a, (∀ k, 1 ≤ k → k ≤ 25 → Apart a (slot (m.registers .rsp) k)) →
    Apart a (m.gsBase + 24) → Apart a (m.gsBase + 32) →
    wordAt user.machine.bytes a = wordAt m.bytes a

theorem store_eq (h : m.Mapped a) :
    store a value m = .ok { m with bytes := storeAt a value m.bytes } := by
  unfold store
  rw [require_true h]
  rfl

theorem registers_clearAll (m : Machine) :
    (clearAll m).registers = fun r => if r ∈ cleared then 0 else m.registers r := by
  funext r
  cases r <;> simp [clearAll, cleared]

theorem clearAll_eq (m : Machine) :
    clearAll m = { m with registers := (clearAll m).registers } := rfl

/-- The two cells have no byte in common. -/
theorem apart_cells (gs : Word) : Apart (gs + 24) (gs + 32) ∧ Apart (gs + 32) (gs + 24) := by
  have h : gs + 24 - (gs + 32) = -8 ∧ gs + 32 - (gs + 24) = 8 := by
    constructor
    all_goals bv_omega
  unfold Apart
  rw [h.1, h.2]
  decide

/-- The memory when the two cells are stored. -/
def cellBytes (m : Machine) : Bytes :=
  storeAt (m.gsBase + 32) (slot (m.registers .rsp) 15) (storeAt (m.gsBase + 24)
    (m.registers .rbp) (spill (m.registers .rsp) (switched.map m.registers ++ [m.rflags]) m.bytes))

/-- The memory with the frame of the program. -/
def frameBytes (m : Machine) : Bytes :=
  spill (slot (m.registers .rsp) 15) [m.registers .rcx, m.registers .rdi, 0x202,
    m.registers .rdx, m.registers .rsi] (cellBytes m)

theorem switchToUserMode_of_call (h : Ready m) : ∃ m1 : Machine,
    (∀ m2 user, m1.call layout.afterLoadFS (loadFS layout.entry) = .ok m2 → m2.iretq = .ok user →
      switchToUserMode layout m = .ok user) ∧
    m1.registers = (fun r => if r ∈ cleared then 0 else
      Function.update (Function.update m.registers .rbp (m.registers .rdi)) .rsp
        (slot (m.registers .rsp) 20) r) ∧
    m1.bytes = frameBytes m ∧ m1.gsBase = m.swapGSBase ∧ m1.swapGSBase = m.gsBase ∧
      m1.mapped = m.mapped := by
  have hroom : m.Room (14 + 1) := fun k hk hle => h.stack k (by omega)
  have hpush : m.pushAll switched = _ :=
    pushAll_eq (by decide) fun k hk hle => hroom k hk (Nat.le_succ_of_le hle)
  have hflags : (m.pushed (switched.map m.registers)).push
      (m.pushed (switched.map m.registers)).rflags =
        .ok (m.pushed (switched.map m.registers ++ [m.rflags])) := by
    rw [push_eq (Room.pushed (switched.map m.registers) hroom 1 le_rfl le_rfl), pushed_pushed]
    rfl
  obtain ⟨m2, hm2⟩ : ∃ m2, m2 = m.pushed (switched.map m.registers ++ [m.rflags]) := ⟨_, rfl⟩
  rw [← hm2] at hflags
  have hregisters2 : m2.registers =
      Function.update m.registers .rsp (slot (m.registers .rsp) 15) := by
    rw [hm2]
    rfl
  have hsame2 : m2.mapped = m.mapped ∧ m2.gsBase = m.gsBase ∧ m2.swapGSBase = m.swapGSBase := by
    rw [hm2]
    exact ⟨rfl, rfl, rfl⟩
  obtain ⟨hmapped2, hgs2, hswap2⟩ := hsame2
  have hrbp : store (m2.gsBase + 24) (m2.registers .rbp) m2 = _ :=
    store_eq (mapped_of_eq (by rw [hgs2]; exact (h.cells _ (by simp)).1) hmapped2)
  obtain ⟨m3, hm3⟩ : ∃ m3, m3 = { m2 with
    bytes := storeAt (m2.gsBase + 24) (m2.registers .rbp) m2.bytes } := ⟨_, rfl⟩
  rw [← hm3] at hrbp
  have hrsp : store (m3.gsBase + 32) (m3.registers .rsp) m3 = _ :=
    store_eq (mapped_of_eq (m := m) (by rw [hm3, hgs2]; exact (h.cells _ (by simp)).1)
      (by rw [hm3, hmapped2]))
  obtain ⟨m5, hm5⟩ : ∃ m5, m5 = (Interrupts.cld { m3 with
    bytes := storeAt (m3.gsBase + 32) (m3.registers .rsp) m3.bytes }).set .rbp
      (m3.registers .rdi) := ⟨_, rfl⟩
  have hregisters5 : m5.registers = Function.update (Function.update m.registers .rbp
      (m.registers .rdi)) .rsp (slot (m.registers .rsp) 15) := by
    rw [hm5]
    simp only [Interrupts.cld, registers_set]
    rw [hm3, hregisters2, Function.update_of_ne (by decide),
      Function.update_comm (by decide : Register.rsp ≠ .rbp)]
  have hframe : [m5.registers .rcx, m5.registers .rdi, 0x202, m5.registers .rdx,
      m5.registers .rsi] = [m.registers .rcx, m.registers .rdi, 0x202, m.registers .rdx,
        m.registers .rsi] := by
    rw [hregisters5]
    simp
  have hmapped5 : m5.mapped = m.mapped := by
    rw [hm5, hm3]
    exact hmapped2
  have hbytes5 : m5.bytes = cellBytes m := by
    have hgs3 : m3.gsBase = m.gsBase := by rw [hm3, hgs2]
    have hrsp3 : m3.registers .rsp = slot (m.registers .rsp) 15 := by
      rw [hm3, hregisters2, Function.update_self]
    rw [hm5]
    change storeAt (m3.gsBase + 32) (m3.registers .rsp) m3.bytes = _
    rw [hgs3, hrsp3, hm3]
    change storeAt _ _ (storeAt (m2.gsBase + 24) (m2.registers .rbp) m2.bytes) = _
    rw [hgs2, hregisters2, Function.update_of_ne (by decide), hm2]
    rfl
  have hwords : m5.pushWords [m5.registers .rcx, m5.registers .rdi, 0x202, m5.registers .rdx,
      m5.registers .rsi] = _ := pushWords_eq fun k hk hle => by
    have hle5 : k ≤ 5 := hle
    rw [hregisters5, Function.update_self, slot_slot]
    exact mapped_of_eq (h.stack _ (by omega)) hmapped5
  obtain ⟨m6, hm6⟩ : ∃ m6, m6 = m5.pushed [m5.registers .rcx, m5.registers .rdi, 0x202,
    m5.registers .rdx, m5.registers .rsi] := ⟨_, rfl⟩
  rw [← hm6] at hwords
  have hchain (m7 : Machine) (user : Context)
      (hcall : (clearAll m6).swapgs.call layout.afterLoadFS (loadFS layout.entry) = .ok m7)
      (hiretq : m7.iretq = .ok user) : switchToUserMode layout m = .ok user := by
    refine bind_eq_ok.mpr ⟨_, hpush, bind_eq_ok.mpr ⟨m2, hflags, bind_eq_ok.mpr ⟨m3, hrbp,
      bind_eq_ok.mpr ⟨_, hrsp, bind_eq_ok.mpr ⟨m6, ?_, bind_eq_ok.mpr ⟨m7, hcall, hiretq⟩⟩⟩⟩⟩⟩
    rw [← hwords, hm5]
    rfl
  refine ⟨_, hchain, ?_, ?_, ?_, ?_, ?_⟩
  · change (clearAll m6).registers = _
    rw [registers_clearAll, hm6, registers_pushed, hregisters5]
    funext r
    simp only [Function.update_self, slot_slot, Function.update_idem]
    rfl
  · change m6.bytes = _
    rw [hm6, bytes_pushed, hframe, hbytes5, hregisters5, Function.update_self]
    rfl
  · change m6.swapGSBase = _
    rw [hm6, hm5, hm3]
    exact hswap2
  · change m6.gsBase = _
    rw [hm6, hm5, hm3]
    exact hgs2
  · change m6.mapped = _
    rw [hm6]
    exact hmapped5

theorem Apart.symm {a b : Word} (h : Apart a b) : Apart b a := ⟨h.2, h.1⟩

/-- A word that neither the stack nor the cells have touched. -/
theorem wordAt_frameBytes_of_apart {n : ℕ} (hn : n ≤ 20)
    (hstack : ∀ k, n < k → k ≤ 20 → Apart a (slot (m.registers .rsp) k))
    (hcells : ∀ cell ∈ [m.gsBase + 24, m.gsBase + 32], Apart a cell)
    (hsaved : wordAt (spill (m.registers .rsp) (switched.map m.registers ++ [m.rflags])
      m.bytes) a = value) (hle : n ≤ 15) : wordAt (frameBytes m) a = value := by
  unfold frameBytes cellBytes
  rw [wordAt_spill_of_apart, wordAt_storeAt_of_apart (hcells _ (by simp)),
    wordAt_storeAt_of_apart (hcells _ (by simp)), hsaved]
  intro k hk hle5
  have hlt : k ≤ 5 := hle5
  rw [slot_slot]
  exact hstack _ (by omega) (by omega)

theorem wordAt_frameBytes (hstack : ∀ k, 1 ≤ k → k ≤ 20 → Apart a (slot (m.registers .rsp) k))
    (hcells : ∀ cell ∈ [m.gsBase + 24, m.gsBase + 32], Apart a cell) :
    wordAt (frameBytes m) a = wordAt m.bytes a := by
  apply wordAt_frameBytes_of_apart (n := 0) (by decide) (fun k hk => hstack k hk) hcells _
    (by decide)
  apply wordAt_spill_of_apart
  intro k hk hle
  have hlt : k ≤ 15 := hle
  exact hstack k hk (by omega)

/-- The registers and the flags of the caller are on its stack. -/
theorem wordAt_frameBytes_saved (h : Ready m) {k : ℕ}
    (hk : k < (switched.map m.registers ++ [m.rflags]).length) :
    wordAt (frameBytes m) (slot (m.registers .rsp) (k + 1)) =
      (switched.map m.registers ++ [m.rflags])[k] := by
  have hlt : k < 15 := hk
  apply wordAt_frameBytes_of_apart (n := 15) (by decide) _ _ _ le_rfl
  · exact fun j hj hle => apart_slot _ (by omega) (by omega) (by omega)
  · exact fun cell hcell => Apart.symm ((h.cells cell hcell).2 (k + 1) (by omega))
  · have hlength : (switched.map m.registers ++ [m.rflags]).length < 2 ^ 60 :=
      show 15 < 2 ^ 60 by decide
    exact wordAt_spill hlength hk

theorem wordAt_frameBytes_cells (h : Ready m) :
    wordAt (frameBytes m) (m.gsBase + 24) = m.registers .rbp ∧
      wordAt (frameBytes m) (m.gsBase + 32) = slot (m.registers .rsp) 15 := by
  have habove {cell : Word} (hcell : cell ∈ [m.gsBase + 24, m.gsBase + 32]) :
      wordAt (frameBytes m) cell = wordAt (cellBytes m) cell := by
    apply wordAt_spill_of_apart
    intro k hk hle
    have hlt : k ≤ 5 := hle
    rw [slot_slot]
    exact (h.cells cell hcell).2 _ (by omega)
  rw [habove (by simp), habove (by simp)]
  unfold cellBytes
  rw [wordAt_storeAt_of_apart (apart_cells _).1, wordAt_storeAt, wordAt_storeAt]
  exact ⟨rfl, rfl⟩

/-- The frame that `iretq` takes. -/
theorem wordAt_frameBytes_frame {k : ℕ} (hk : k < 5) :
    wordAt (frameBytes m) (slot (m.registers .rsp) (15 + (k + 1))) =
      [m.registers .rcx, m.registers .rdi, 0x202, m.registers .rdx, m.registers .rsi][k] := by
  have hlength : [m.registers .rcx, m.registers .rdi, 0x202, m.registers .rdx,
      m.registers .rsi].length < 2 ^ 60 := show 5 < 2 ^ 60 by decide
  unfold frameBytes
  rw [← slot_slot]
  exact wordAt_spill hlength hk

theorem switchToUserMode_eq (h : Ready m) :
    ∃ user, switchToUserMode layout m = .ok user ∧ Entered m user := by
  obtain ⟨m1, hchain, hregisters, hbytes, hgs, hswap, hmapped⟩ :=
    switchToUserMode_of_call layout h
  have hrsp : m1.registers .rsp = slot (m.registers .rsp) 20 := by
    rw [hregisters]
    rfl
  have hcell : wordAt m1.bytes m.swapGSBase = wordAt m.bytes m.swapGSBase := by
    rw [hbytes]
    exact wordAt_frameBytes (fun k hk hle => (h.fsStack k hk (by omega)).1)
      fun cell hcell => (h.fsCells cell hcell).1
  have hbase : wordAt m1.bytes (wordAt m.bytes m.swapGSBase) = fsBaseOf m.swapgs := by
    rw [hbytes]
    exact wordAt_frameBytes (fun k hk hle => (h.fsStack k hk (by omega)).2)
      fun cell hcell => (h.fsCells cell hcell).2
  obtain ⟨hfs, hfsBase⟩ := Interrupts.FSReady.of_words h.fs hgs hmapped hcell hbase
  have hroom : m1.Room 5 := by
    intro k hk hle
    rw [hrsp, slot_slot]
    exact mapped_of_eq (h.stack _ (by omega)) hmapped
  have hapart : FSApart 5 m1 := by
    refine ⟨fun k hk hle => ?_, fun k hk hle => ?_⟩
    · rw [hgs, hrsp, slot_slot]
      exact (h.fsStack _ (by omega) (by omega)).1
    · rw [hgs, hcell, hrsp, slot_slot]
      exact (h.fsStack _ (by omega) (by omega)).2
  have hcall : m1.call layout.afterLoadFS (loadFS layout.entry) = _ :=
    call_loadFS_eq hroom hfs hapart
  obtain ⟨m2, hm2⟩ : ∃ m2, m2 = { m1 with
    rflags := layout.entry.flags (fsBaseOf m1 >>> 32) m1.rflags
    fsBase := fsBaseOf m1
    bytes := spill (m1.registers .rsp) (leftByLoadFS layout.afterLoadFS m1) m1.bytes } := ⟨_, rfl⟩
  rw [← hm2] at hcall
  have hsame : m2.registers = m1.registers ∧ m2.mapped = m1.mapped ∧ m2.gsBase = m1.gsBase ∧
      m2.swapGSBase = m1.swapGSBase ∧ m2.fsBase = fsBaseOf m1 := by
    rw [hm2]
    exact ⟨rfl, rfl, rfl, rfl, rfl⟩
  obtain ⟨hregisters2, hmapped2, hgs2, hswap2, hfs2⟩ := hsame
  have hwords {a : Word} (ha : ∀ k, 20 < k → k ≤ 25 → Apart a (slot (m.registers .rsp) k)) :
      wordAt m2.bytes a = wordAt (frameBytes m) a := by
    rw [hm2, ← hbytes]
    apply wordAt_spill_of_apart
    intro k hk hle
    have hlt : k ≤ 5 := hle
    rw [hrsp, slot_slot]
    exact ha _ (by omega) (by omega)
  have hslots {k : ℕ} (hk : 1 ≤ k) (hle : k ≤ 20) :
      wordAt m2.bytes (slot (m.registers .rsp) k) =
        wordAt (frameBytes m) (slot (m.registers .rsp) k) :=
    hwords fun j hj hjle => apart_slot _ (by omega) (by omega) (by omega)
  have hframe {k : ℕ} (hk : k < 5) : wordAt m2.bytes (slot (m.registers .rsp) (15 + (k + 1))) =
      [m.registers .rcx, m.registers .rdi, 0x202, m.registers .rdx, m.registers .rsi][k] := by
    rw [hslots (by omega) (by omega)]
    exact wordAt_frameBytes_frame hk
  have hiretq := iretq_eq (m := m2) (m.registers .rsp) 15 (by rw [hregisters2, hrsp])
    fun k hk hle => mapped_of_eq (h.stack k (by omega)) (hmapped2.trans hmapped)
  rw [hframe (k := 4) (by decide), hframe (k := 3) (by decide), hframe (k := 2) (by decide),
    hframe (k := 1) (by decide), hframe (k := 0) (by decide)] at hiretq
  have hcells {cell : Word} (hcell : cell ∈ [m.gsBase + 24, m.gsBase + 32]) :
      wordAt m2.bytes cell = wordAt (frameBytes m) cell :=
    hwords fun k hk hle => (h.cells cell hcell).2 k hle
  refine ⟨_, hchain m2 _ hcall hiretq, ?_, ?_, hgs2.trans hgs, hswap2.trans hswap,
    hfs2.trans hfsBase, hmapped2.trans hmapped, ?_, ?_, ?_, fun k hk => ?_, fun a ha h24 h32 => ?_⟩
  · simp [Context.frame]
  · dsimp only
    rw [hregisters2, hregisters]
    funext r
    cases r <;> simp [enteredRegisters, cleared]
  · exact (hcells (by simp)).trans (wordAt_frameBytes_cells h).1
  · exact (hcells (by simp)).trans (wordAt_frameBytes_cells h).2
  · exact (hslots (by decide) (by decide)).trans
      (wordAt_frameBytes_saved h (k := 14) (Nat.lt_succ_self 14))
  · have hlt : k < 14 := hk
    have hsaved := wordAt_frameBytes_saved h (k := k) (Nat.lt_succ_of_lt hk)
    have hmap : k < (switched.map m.registers).length := hk
    exact (hslots (by omega) (by omega)).trans
      (hsaved.trans ((List.getElem_append_left hmap).trans (List.getElem_map _)))
  · change wordAt m2.bytes a = _
    rw [hwords fun k hk hle => ha k (by omega) hle]
    apply wordAt_frameBytes fun k hk hle => ha k hk (by omega)
    intro cell hcell
    rcases List.mem_pair.mp hcell with rfl | rfl
    · exact h24
    · exact h32

theorem Entered.returnAddress (h : Ready m) {user : Context} (henter : Entered m user) :
    wordAt user.machine.bytes (m.registers .rsp) = wordAt m.bytes (m.registers .rsp) := by
  have hcell {cell : Word} (hcell : cell ∈ [m.gsBase + 24, m.gsBase + 32]) :
      Apart (m.registers .rsp) cell := by
    have hapart := (h.cells cell hcell).2 0 (Nat.zero_le 25)
    rw [slot_zero] at hapart
    exact Apart.symm hapart
  apply henter.others _ _ (hcell (by simp)) (hcell (by simp))
  intro k hk hle
  have hapart := apart_slot (m.registers .rsp) (i := 0) (j := k) (by omega) (by omega) (by omega)
  rwa [slot_zero] at hapart

end Switch

section Return
variable {layout : Layout} {m m1 : Machine} {user : Context}

/-- A machine in the kernel, after any run of the program, that has left the cells, the
saved registers and the return address as they were when the program was entered. -/
structure Keeps (m : Machine) (user : Context) (m1 : Machine) : Prop where
  gsBase : m1.gsBase = m.gsBase
  cells : ∀ cell ∈ [m.gsBase + 24, m.gsBase + 32], m1.Mapped cell ∧
    wordAt m1.bytes cell = wordAt user.machine.bytes cell
  stack : ∀ k ≤ 15, m1.Mapped (slot (m.registers .rsp) k) ∧
    wordAt m1.bytes (slot (m.registers .rsp) k) =
      wordAt user.machine.bytes (slot (m.registers .rsp) k)

/-- SwitchToUserMode returns to its caller. -/
structure Returns (m m1 final : Machine) : Prop where
  rip : final.rip = wordAt m.bytes (m.registers .rsp)
  rsp : final.registers .rsp = m.registers .rsp + 8
  registers : ∀ r, r ≠ .rsp → final.registers r = m.registers r
  rflags : final.rflags = m.rflags
  gsBase : final.gsBase = m.gsBase
  swapGSBase : final.swapGSBase = m1.swapGSBase
  fsBase : final.fsBase = m1.fsBase
  bytes : final.bytes = m1.bytes

theorem returnToKernel_eq (h : Ready m) (henter : Entered m user) (hkeeps : Keeps m user m1) :
    ∃ final, returnToKernel m1 = .ok final ∧ Returns m m1 final := by
  have hload {cell value : Word} (m2 : Machine) (hcell : cell ∈ [m.gsBase + 24, m.gsBase + 32])
      (hmapped : m2.mapped = m1.mapped) (hbytes : m2.bytes = m1.bytes)
      (hvalue : wordAt user.machine.bytes cell = value) : m2.load cell = .ok value := by
    obtain ⟨hcell, hword⟩ := hkeeps.cells cell hcell
    apply load_of_eq hcell hmapped
    rw [hbytes, hword, hvalue]
  have hrbp : m1.load (m1.gsBase + 24) = .ok (m.registers .rbp) := by
    rw [hkeeps.gsBase]
    exact hload m1 (by simp) rfl rfl henter.rbp
  obtain ⟨m2, hm2⟩ : ∃ m2, m2 = m1.set .rbp (m.registers .rbp) := ⟨_, rfl⟩
  have hsame2 : m2.mapped = m1.mapped ∧ m2.bytes = m1.bytes ∧ m2.gsBase = m1.gsBase ∧
      m2.swapGSBase = m1.swapGSBase ∧ m2.fsBase = m1.fsBase ∧
        m2.registers .rbp = m.registers .rbp := by
    rw [hm2]
    refine ⟨rfl, rfl, rfl, rfl, rfl, ?_⟩
    rw [registers_set, Function.update_self]
  obtain ⟨hmapped2, hbytes2, hgs2, hswap2, hfs2, hrbp2⟩ := hsame2
  have hrsp : m2.load (m2.gsBase + 32) = .ok (slot (m.registers .rsp) 15) := by
    rw [hgs2, hkeeps.gsBase]
    exact hload m2 (by simp) hmapped2 hbytes2 henter.rsp
  obtain ⟨m3, hm3⟩ : ∃ m3, m3 = m2.set .rsp (slot (m.registers .rsp) 15) := ⟨_, rfl⟩
  have hmapped3 {k : ℕ} (hk : k ≤ 15) : m3.Mapped (slot (m.registers .rsp) k) := by
    rw [hm3]
    exact mapped_of_eq (hkeeps.stack k hk).1 hmapped2
  have hword3 {k : ℕ} (hk : k ≤ 15) : wordAt m3.bytes (slot (m.registers .rsp) k) =
      wordAt user.machine.bytes (slot (m.registers .rsp) k) := by
    rw [hm3, bytes_set, hbytes2]
    exact (hkeeps.stack k hk).2
  have hpopfq : m3.popfq = _ := popfq_eq (m.registers .rsp) 14
    (by rw [hm3, registers_set, Function.update_self]) (hmapped3 le_rfl)
  rw [hword3 le_rfl, henter.rflags] at hpopfq
  obtain ⟨m4, hm4⟩ : ∃ m4, m4 =
    { m3.set .rsp (slot (m.registers .rsp) 14) with rflags := m.rflags } := ⟨_, rfl⟩
  rw [← hm4] at hpopfq
  have hpop : m4.popAll switched.reverse = _ := popAll_words (m.registers .rsp) 0 m.registers
    (by decide) (by
      rw [hm4]
      dsimp only
      rw [registers_set, Function.update_self]
      rfl)
    (fun k hk hle => by
      have hlt : k ≤ 14 := hle
      rw [hm4]
      exact mapped_of_eq (hmapped3 (by omega)) rfl)
    fun i hi => by
      have hlt : i < 14 := hi
      have hsaved := henter.saved (13 - i) (show 13 - i < 14 by omega)
      have hindex : 13 - i + 1 = 14 - i := by omega
      rw [hindex] at hsaved
      rw [List.getElem_reverse, hm4]
      exact (hword3 (show 14 - i ≤ 15 by omega)).trans hsaved
  rw [slot_zero] at hpop
  obtain ⟨m5, hm5⟩ : ∃ m5, m5 = { m4 with
    registers := Function.update (fun r => if r ∈ switched.reverse then m.registers r
      else m4.registers r) .rsp (m.registers .rsp) } := ⟨_, rfl⟩
  rw [← hm5] at hpop
  have hmapped5 : m5.mapped = m3.mapped := by
    rw [hm5, hm4]
    rfl
  have hbytes5 : m5.bytes = m3.bytes := by
    rw [hm5, hm4]
    rfl
  have htop : slot (m.registers .rsp + 8) (0 + 1) = m.registers .rsp := by
    unfold slot
    exact BitVec.add_sub_cancel _ _
  have hreturn := popWord_eq (m := m5) (m.registers .rsp + 8) 0
    (by
      rw [htop, hm5]
      dsimp only
      rw [Function.update_self]) (by
      rw [htop]
      exact mapped_of_eq (slot_zero (m.registers .rsp) ▸ hmapped3 (Nat.zero_le 15)) hmapped5)
  have haddress : wordAt m5.bytes (slot (m.registers .rsp + 8) (0 + 1)) =
      wordAt m.bytes (m.registers .rsp) := by
    have hword := hword3 (Nat.zero_le 15)
    rw [slot_zero] at hword
    rw [htop, hbytes5, hword]
    exact henter.returnAddress h
  rw [haddress, slot_zero] at hreturn
  refine ⟨_, bind_eq_ok.mpr ⟨_, hrbp, bind_eq_ok.mpr ⟨_, hm2 ▸ hrsp, bind_eq_ok.mpr ⟨m4, ?_,
    bind_eq_ok.mpr ⟨m5, hpop, bind_eq_ok.mpr ⟨_, hreturn, rfl⟩⟩⟩⟩⟩, rfl, ?_, fun r hr => ?_,
      ?_, ?_, ?_, ?_, ?_⟩
  · rw [← hpopfq, hm3, hm2]
  · dsimp only
    rw [registers_set, Function.update_self]
  · dsimp only
    rw [registers_set, Function.update_of_ne hr, hm5]
    dsimp only
    rw [Function.update_of_ne hr, hm4, hm3]
    by_cases hrbp : r = .rbp
    · subst hrbp
      simp [switched, hrbp2]
    · cases r <;> first | rfl | contradiction
  · change m5.rflags = _
    rw [hm5, hm4]
  · change m5.gsBase = _
    rw [hm5, hm4, hm3]
    exact hgs2.trans hkeeps.gsBase
  · change m5.swapGSBase = _
    rw [hm5, hm4, hm3]
    exact hswap2
  · change m5.fsBase = _
    rw [hm5, hm4, hm3]
    exact hfs2
  · change m5.bytes = _
    rw [hbytes5, hm3, bytes_set, hbytes2]

/-- Whatever the program and the system calls do in between, ReturnToKernel returns to the
caller of SwitchToUserMode with its registers and flags, as long as the cells, the words
that were pushed and the return address are there. -/
theorem returnToKernel_of_switchToUserMode (layout : Layout) (h : Ready m) :
    ∃ user, switchToUserMode layout m = .ok user ∧ Entered m user ∧
      ∀ m1, Keeps m user m1 → ∃ final, returnToKernel m1 = .ok final ∧ Returns m m1 final := by
  obtain ⟨user, hswitch, henter⟩ := switchToUserMode_eq layout h
  exact ⟨user, hswitch, henter, fun m1 hkeeps => returnToKernel_eq h henter hkeeps⟩

end Return

section Cells
variable {layout : Layout} {m m1 : Machine} {user : Context} {a a1 : Processes.Machine}
variable {kernelGS userGS : Word}

variable (kernelGS userGS) in
def environmentOf (gs : Word) : Processes.Environment :=
  if gs = kernelGS then .kernel else if gs = userGS then .user else .other

variable (kernelGS userGS) in
/-- The cells of `Processes.Machine` are words of the two environments, and it knows the
words that LoadFS reads. Its stack pointer can be one that many bytes above. -/
structure Represents (above : Word) (m : Machine) (a : Processes.Machine) : Prop where
  rsp : a.rsp = (m.registers .rsp + above).toNat
  rbp : a.rbp = (m.registers .rbp).toNat
  fsBase : a.fsBase = m.fsBase.toNat
  gsBase : a.gsBase = environmentOf kernelGS userGS m.gsBase
  swapGSBase : a.swapGSBase = environmentOf kernelGS userGS m.swapGSBase
  kernelFSBase : a.kernelEnvironment.fsBase = (wordAt m.bytes kernelGS).toNat
  syscallStack : a.kernelEnvironment.syscallStack = (wordAt m.bytes (kernelGS + 8)).toNat
  kernelRBP : a.kernelEnvironment.kernelRBP = (wordAt m.bytes (kernelGS + 24)).toNat
  kernelRSP : a.kernelEnvironment.kernelRSP = (wordAt m.bytes (kernelGS + 32)).toNat
  userFSBase : a.userFSBase = (wordAt m.bytes userGS).toNat
  kernelWord : a.word a.kernelEnvironment.fsBase =
    (wordAt m.bytes (wordAt m.bytes kernelGS)).toNat
  userWord : a.word a.userFSBase = (wordAt m.bytes (wordAt m.bytes userGS)).toNat

/-- The rest of the environment of the kernel is apart from what SwitchToUserMode writes. -/
def KernelApart (m : Machine) : Prop :=
  ∀ cell ∈ [m.gsBase, m.gsBase + 8, wordAt m.bytes m.gsBase],
    (∀ k, 1 ≤ k → k ≤ 25 → Apart cell (slot (m.registers .rsp) k)) ∧
      Apart cell (m.gsBase + 24) ∧ Apart cell (m.gsBase + 32)

/-- SwitchToUserMode does with the cells what the model of nested processes says. -/
theorem switchToUserMode_represents (layout : Layout) (h : Ready m) (hkernel : KernelApart m)
    (hne : m.swapGSBase ≠ m.gsBase) (hrep : Represents m.gsBase m.swapGSBase 8 m a) :
    ∃ user a', switchToUserMode layout m = .ok user ∧
      a.switchToUserMode (m.registers .rdi).toNat = some a' ∧
      Represents m.gsBase m.swapGSBase 0 user.machine a' := by
  obtain ⟨user, hswitch, henter⟩ := switchToUserMode_eq layout h
  have hgs : a.gsBase = .kernel := by
    rw [hrep.gsBase]
    exact if_pos rfl
  have hswap : a.swapGSBase = .user := by
    rw [hrep.swapGSBase]
    exact (if_neg hne).trans (if_pos rfl)
  have hword {b : Word} (hcell : b ∈ [m.gsBase, m.gsBase + 8, wordAt m.bytes m.gsBase]) :
      wordAt user.machine.bytes b = wordAt m.bytes b :=
    henter.others b (hkernel b hcell).1 (hkernel b hcell).2.1 (hkernel b hcell).2.2
  have hfs : wordAt user.machine.bytes m.swapGSBase = wordAt m.bytes m.swapGSBase :=
    henter.others _ (fun k hk hle => (h.fsStack k hk hle).1) (h.fsCells _ (by simp)).1
      (h.fsCells _ (by simp)).1
  have hcell : wordAt user.machine.bytes (wordAt m.bytes m.swapGSBase) =
      wordAt m.bytes (wordAt m.bytes m.swapGSBase) :=
    henter.others _ (fun k hk hle => (h.fsStack k hk hle).2) (h.fsCells _ (by simp)).2
      (h.fsCells _ (by simp)).2
  have hrsp : sub64 (m.registers .rsp + 8).toNat (8 * 16) =
      (slot (m.registers .rsp) 15).toNat := by
    unfold slot sub64
    have height : (8 : Word).toNat = 8 := rfl
    simp only [BitVec.toNat_sub, BitVec.toNat_add, BitVec.toNat_ofNat, height]
    omega
  obtain ⟨a', ha'⟩ : ∃ a', a.switchToUserMode (m.registers .rdi).toNat = some a' ∧
      a' = { a with
        kernelEnvironment := { a.kernelEnvironment with
          kernelRBP := a.rbp
          kernelRSP := sub64 a.rsp (8 * 16) }
        rsp := (m.registers .rdi).toNat
        rbp := (m.registers .rdi).toNat
        gsBase := .user
        swapGSBase := .kernel
        fsBase := a.word a.userFSBase } := by
    unfold Processes.Machine.switchToUserMode Processes.Machine.swapgs Processes.Machine.loadFS
    simp only [hgs, hswap, guard_true, Option.pure_def, Option.bind_eq_bind, Option.bind_some]
    exact ⟨_, rfl, rfl⟩
  refine ⟨user, a', hswitch, ha'.1, ?_⟩
  rw [ha'.2]
  exact
    { rsp := by
        rw [henter.registers]
        exact (congrArg BitVec.toNat (BitVec.add_zero _)).symm
      rbp := by
        rw [henter.registers]
        rfl
      fsBase := by
        rw [henter.fsBase]
        exact hrep.userWord
      gsBase := by
        rw [henter.gsBase]
        exact ((if_neg hne).trans (if_pos rfl)).symm
      swapGSBase := by
        rw [henter.swapGSBase]
        exact (if_pos rfl).symm
      kernelFSBase := by
        rw [hword (by simp)]
        exact hrep.kernelFSBase
      syscallStack := by
        rw [hword (by simp)]
        exact hrep.syscallStack
      kernelRBP := by
        rw [henter.rbp]
        exact hrep.rbp
      kernelRSP := by
        rw [henter.rsp, ← hrsp, ← hrep.rsp]
      userFSBase := by
        rw [hfs]
        exact hrep.userFSBase
      kernelWord := by
        rw [hword (b := m.gsBase) (by simp), hword (by simp)]
        exact hrep.kernelWord
      userWord := by
        rw [hfs, hcell]
        exact hrep.userWord }

/-- ReturnToKernel does with the cells what the model of nested processes says, too. -/
theorem returnToKernel_represents {above : Word} (h : Ready m) (henter : Entered m user)
    (hkeeps : Keeps m user m1) (hrep : Represents m.gsBase userGS above m1 a1) :
    ∃ final a', returnToKernel m1 = .ok final ∧ a1.returnToKernel = some a' ∧
      Represents m.gsBase userGS 0 final a' := by
  obtain ⟨final, hreturn, hreturns⟩ := returnToKernel_eq h henter hkeeps
  have hgs : a1.gsBase = .kernel := by
    rw [hrep.gsBase, hkeeps.gsBase]
    exact if_pos rfl
  have hcells : wordAt m1.bytes (m.gsBase + 24) = m.registers .rbp ∧
      wordAt m1.bytes (m.gsBase + 32) = slot (m.registers .rsp) 15 :=
    ⟨(hkeeps.cells _ (by simp)).2.trans henter.rbp, (hkeeps.cells _ (by simp)).2.trans henter.rsp⟩
  have hrsp : add64 (slot (m.registers .rsp) 15).toNat (8 * 16) =
      (m.registers .rsp + 8).toNat := by
    unfold slot add64
    have height : (8 : Word).toNat = 8 := rfl
    simp only [BitVec.toNat_sub, BitVec.toNat_add, BitVec.toNat_ofNat, height]
    omega
  obtain ⟨a', ha'⟩ : ∃ a', a1.returnToKernel = some a' ∧
      a' = { a1 with
        rbp := a1.kernelEnvironment.kernelRBP
        rsp := add64 a1.kernelEnvironment.kernelRSP (8 * 16) } := by
    unfold Processes.Machine.returnToKernel
    simp only [hgs, guard_true, Option.pure_def, Option.bind_eq_bind, Option.bind_some]
    exact ⟨_, rfl, rfl⟩
  refine ⟨final, a', hreturn, ha'.1, ?_⟩
  rw [ha'.2]
  exact
    { rsp := by
        rw [hreturns.rsp, hrep.kernelRSP, hcells.2, hrsp]
        exact (congrArg BitVec.toNat (BitVec.add_zero _)).symm
      rbp := by
        rw [hreturns.registers .rbp (by decide), hrep.kernelRBP, hcells.1]
      fsBase := by
        rw [hreturns.fsBase]
        exact hrep.fsBase
      gsBase := by
        have hsame := hrep.gsBase
        rw [hkeeps.gsBase] at hsame
        rw [hreturns.gsBase]
        exact hsame
      swapGSBase := by
        rw [hreturns.swapGSBase]
        exact hrep.swapGSBase
      kernelFSBase := by
        rw [hreturns.bytes]
        exact hrep.kernelFSBase
      syscallStack := by
        rw [hreturns.bytes]
        exact hrep.syscallStack
      kernelRBP := by
        rw [hreturns.bytes]
        exact hrep.kernelRBP
      kernelRSP := by
        rw [hreturns.bytes]
        exact hrep.kernelRSP
      userFSBase := by
        rw [hreturns.bytes]
        exact hrep.userFSBase
      kernelWord := by
        rw [hreturns.bytes]
        exact hrep.kernelWord
      userWord := by
        rw [hreturns.bytes]
        exact hrep.userWord }

/-- The model of nested processes has the cells right: its steps into a program and back
are those of the machine code, whatever happens in between. -/
theorem context_refines (layout : Layout) (h : Ready m) (hkernel : KernelApart m)
    (hne : m.swapGSBase ≠ m.gsBase) (hrep : Represents m.gsBase m.swapGSBase 8 m a) :
    ∃ user a', switchToUserMode layout m = .ok user ∧
      a.switchToUserMode (m.registers .rdi).toNat = some a' ∧
      Represents m.gsBase m.swapGSBase 0 user.machine a' ∧
      ∀ m1 a1 userGS above, Keeps m user m1 → Represents m.gsBase userGS above m1 a1 →
        ∃ final a2, returnToKernel m1 = .ok final ∧ a1.returnToKernel = some a2 ∧
          Represents m.gsBase userGS 0 final a2 := by
  obtain ⟨user, henters, henter⟩ := switchToUserMode_eq layout h
  obtain ⟨user', a', hswitch, ha, hafter⟩ := switchToUserMode_represents layout h hkernel hne hrep
  rw [henters] at hswitch
  cases hswitch
  refine ⟨user, a', henters, ha, hafter, fun m1 a1 userGS above hkeeps hrep1 => ?_⟩
  exact returnToKernel_represents h henter hkeeps hrep1

end Cells

section Witnesses

/-- The kernel with its stack below 0x9000 and its cells at 0x1000. -/
def callingKernel : Machine :=
  { registers := fun _ => 0x9000
    rflags := 0x202
    rip := 0x401000
    gsBase := 0x1000
    swapGSBase := 0x2000
    fsBase := 0
    bytes := fun _ => 0
    mapped := fun _ => true }

def plainLayout : Layout := ⟨⟨0, 0, 0, 0, 0, fun _ rflags => rflags⟩, 0⟩

theorem apart_callingKernel {a : Word} (ha : a.toNat < 0x8000) {k : ℕ} (hk : k ≤ 25) :
    Apart a (slot (callingKernel.registers .rsp) k) := by
  have hrsp : (callingKernel.registers .rsp).toNat = 0x9000 := rfl
  have hslot : (slot (callingKernel.registers .rsp) k).toNat = _ := toNat_slot (by omega)
  unfold Apart
  rw [BitVec.toNat_sub, BitVec.toNat_sub, hslot]
  omega

theorem ready_callingKernel : Ready callingKernel where
  stack := fun _ _ _ _ => rfl
  cells := by
    intro cell hcell
    rcases List.mem_pair.mp hcell with rfl | rfl
    · exact ⟨fun _ _ => rfl, fun k hk => apart_callingKernel (by decide) hk⟩
    · exact ⟨fun _ _ => rfl, fun k hk => apart_callingKernel (by decide) hk⟩
  fs := ⟨fun _ _ => rfl, fun _ _ => rfl, by decide⟩
  fsStack := fun k _ hk =>
    ⟨apart_callingKernel (by decide) hk, apart_callingKernel (by decide) hk⟩
  fsCells := by
    intro cell hcell
    rcases List.mem_pair.mp hcell with rfl | rfl
    · exact ⟨by decide, by decide⟩
    · exact ⟨by decide, by decide⟩

theorem returnToKernel_of_switchToUserMode_calling :
    ∃ user, switchToUserMode plainLayout callingKernel = .ok user ∧ Entered callingKernel user ∧
      ∀ m1, Keeps callingKernel user m1 →
        ∃ final, returnToKernel m1 = .ok final ∧ Returns callingKernel m1 final :=
  returnToKernel_of_switchToUserMode plainLayout ready_callingKernel

/-- The cells of `callingKernel`, all of them zero. -/
def callingCells : Processes.Machine :=
  { rsp := 0x9008
    rbp := 0x9000
    fsBase := 0
    gsBase := .kernel
    swapGSBase := .user
    kernelEnvironment := ⟨0, 0, 0, 0⟩
    userFSBase := 0
    currentProcess := none
    word := fun _ => 0 }

theorem kernelApart_callingKernel : KernelApart callingKernel := by
  intro cell hcell
  have hlow : cell.toNat < 0x8000 ∧ Apart cell 0x1018 ∧ Apart cell 0x1020 := by
    simp only [List.mem_cons, List.not_mem_nil, or_false] at hcell
    rcases hcell with rfl | rfl | rfl
    all_goals decide
  exact ⟨fun k _ hk => apart_callingKernel hlow.1 hk, hlow.2⟩

theorem represents_callingKernel :
    Represents callingKernel.gsBase callingKernel.swapGSBase 8 callingKernel callingCells := by
  constructor
  all_goals decide

theorem context_refines_calling : ∃ user a',
    switchToUserMode plainLayout callingKernel = .ok user ∧
      callingCells.switchToUserMode 0x9000 = some a' ∧
      Represents 0x1000 0x2000 0 user.machine a' ∧
      ∀ m1 a1 userGS above, Keeps callingKernel user m1 →
        Represents 0x1000 userGS above m1 a1 → ∃ final a2, returnToKernel m1 = .ok final ∧
          a1.returnToKernel = some a2 ∧ Represents 0x1000 userGS 0 final a2 :=
  context_refines plainLayout ready_callingKernel kernelApart_callingKernel (by decide)
    represents_callingKernel

end Witnesses

end Enkel.UserMode
