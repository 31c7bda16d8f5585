import Enkel.Words
import Enkel.X86Stack

/-!
Interrupts of an x86-64 processor in 64-bit mode. The processor pushes a frame of five
words on a stack whose end it has aligned to 16 bytes, with an error code below it for
some exceptions, and `iretq` pops five words. A routine that moves the stack pointer back
has changed nothing above it: routines are composed by how many words below the stack
pointer they use.
-/
namespace Enkel.X86

open Outcome

structure InterruptFrame where
  rip : Word
  cs : Word
  rflags : Word
  rsp : Word
  ss : Word
deriving DecidableEq, Repr

/-- The frame in the order in which it is pushed. -/
def InterruptFrame.words (f : InterruptFrame) : List Word := [f.ss, f.rsp, f.rflags, f.cs, f.rip]

inductive Gate
  | interrupt
  | trap
deriving DecidableEq, Repr

/-- A trap gate leaves the interrupt flag as it is. -/
def Gate.entryFlags (gate : Gate) (rflags : Word) : Word :=
  match gate with
  | .interrupt => rflags &&& ~~~0x34300
  | .trap => rflags &&& ~~~0x34100

/-- A machine with the selectors of its code and its stack. -/
structure Context where
  machine : Machine
  cs : Word
  ss : Word

namespace Context

def frame (c : Context) : InterruptFrame :=
  { rip := c.machine.rip
    cs := c.cs
    rflags := c.machine.rflags
    rsp := c.machine.registers .rsp
    ss := c.ss }

/-- Code of the kernel is interrupted on its own stack. -/
def interruptTop (rsp0 : Word) (c : Context) : Word :=
  (if c.cs &&& 3 = 0 then c.machine.registers .rsp else rsp0) &&& ~~~0xF

end Context

namespace Machine

def pushWords (values : List Word) (m : Machine) : Except Fault Machine :=
  values.foldlM (fun m value => m.push value) m

/-- The words that `iretq` pops. Whether the segments can be loaded is not looked at. -/
def iretq (m : Machine) : Except Fault Context := do
  let (rip, m) ← m.popWord
  let (cs, m) ← m.popWord
  let (rflags, m) ← m.popWord
  let (rsp, m) ← m.popWord
  let (ss, m) ← m.popWord
  return {
    machine := { m.set .rsp rsp with
      rip := rip
      rflags := rflags }
    cs := cs
    ss := ss }

end Machine

/-- The processor takes an interrupt: it has pushed its frame, and is at the first
instruction of the stub. -/
def Context.deliver (rsp0 stub : Word) (gate : Gate) (errorCode : Option Word) (c : Context) :
    Except Fault Machine := do
  let m ← (c.machine.set .rsp (c.interruptTop rsp0)).pushWords
    (c.frame.words ++ errorCode.toList)
  return { m with
    rip := stub
    rflags := gate.entryFlags m.rflags }

theorem Context.toNat_interruptTop_mod (rsp0 : Word) (c : Context) :
    (c.interruptTop rsp0).toNat % 16 = 0 := by
  unfold interruptTop
  generalize (if c.cs &&& 3 = 0 then c.machine.registers .rsp else rsp0) = top
  rw [BitVec.toNat_and]
  have hspan : top.toNat &&& (~~~0xF : Word).toNat = _ :=
    Words.and_span _ (show 4 ≤ 64 by omega)
  rw [hspan]
  omega

namespace Machine
variable {m m' m1 : Machine} {base returnAddress value : Word} {values : List Word} {j n : ℕ}

theorem pushWords_eq (h : m.Room values.length) :
    m.pushWords values = .ok (m.pushed values) := by
  induction values generalizing m with
  | nil => exact congrArg _ (pushed_nil m).symm
  | cons value values ih =>
    rw [List.length_cons, Nat.add_comm] at h
    have hrest : (m.pushed [value]).pushWords values = _ := ih (h.pushed [value])
    unfold pushWords at hrest ⊢
    rw [List.foldlM_cons, push_eq (h 1 le_rfl (by omega)), ok_bind, hrest, pushed_pushed]
    rfl

theorem set_set (r : Register) (v w : Word) (m : Machine) : (m.set r v).set r w = m.set r w := by
  unfold set
  rw [Function.update_idem]

/-- The five words above the stack pointer make up the context. -/
theorem iretq_eq (base : Word) (j : ℕ) (hrsp : m.registers .rsp = slot base (j + 5))
    (h : ∀ k, j < k → k ≤ j + 5 → m.Mapped (slot base k)) :
    m.iretq = .ok {
      machine := { m with
        registers :=
          Function.update m.registers .rsp (wordAt m.bytes (slot base (j + 2)))
        rip := wordAt m.bytes (slot base (j + 5))
        rflags := wordAt m.bytes (slot base (j + 3)) }
      cs := wordAt m.bytes (slot base (j + 4))
      ss := wordAt m.bytes (slot base (j + 1)) } := by
  have hpop (i : ℕ) (hi : j ≤ i) (hle : i < j + 5) :
      (m.set .rsp (slot base (i + 1))).popWord =
        .ok (wordAt m.bytes (slot base (i + 1)), m.set .rsp (slot base i)) := by
    have hmapped : (m.set .rsp (slot base (i + 1))).Mapped (slot base (i + 1)) :=
      mapped_of_eq (h (i + 1) (by omega) (by omega)) rfl
    have hpop := popWord_eq base i (by simp) hmapped
    rwa [bytes_set, set_set] at hpop
  have hself : m = m.set .rsp (slot base (j + 5)) := by
    unfold set
    rw [← hrsp, Function.update_eq_self]
  have hiretq : (m.set .rsp (slot base (j + 5))).iretq = .ok {
      machine := { (m.set .rsp (slot base j)).set .rsp (wordAt m.bytes (slot base (j + 2))) with
        rip := wordAt m.bytes (slot base (j + 5))
        rflags := wordAt m.bytes (slot base (j + 3)) }
      cs := wordAt m.bytes (slot base (j + 4))
      ss := wordAt m.bytes (slot base (j + 1)) } := by
    refine bind_eq_ok.mpr ⟨_, hpop (j + 4) (by omega) (by omega), ?_⟩
    refine bind_eq_ok.mpr ⟨_, hpop (j + 3) (by omega) (by omega), ?_⟩
    refine bind_eq_ok.mpr ⟨_, hpop (j + 2) (by omega) (by omega), ?_⟩
    refine bind_eq_ok.mpr ⟨_, hpop (j + 1) (by omega) (by omega), ?_⟩
    exact bind_eq_ok.mpr ⟨_, hpop j (by omega) (by omega), rfl⟩
  rw [← hself, set_set] at hiretq
  exact hiretq

/-- A routine leaves the registers as given, and all words but `n` below its stack
pointer. -/
structure Leaves (n : ℕ) (registers : Register → Word) (m m' : Machine) : Prop where
  registers : m'.registers = registers
  mapped : m'.mapped = m.mapped
  words : ∀ a, (∀ k, 1 ≤ k → k ≤ n → Apart a (slot (m.registers .rsp) k)) →
    wordAt m'.bytes a = wordAt m.bytes a

variable {registers : Register → Word}

theorem Leaves.mono {n' : ℕ} (h : Leaves n registers m m') (hle : n ≤ n') :
    Leaves n' registers m m' :=
  { registers := h.registers
    mapped := h.mapped
    words := fun a ha => h.words a fun k hk hkn => ha k hk (hkn.trans hle) }

theorem leaves_pushed (values : List Word) (m : Machine) :
    Leaves values.length
      (Function.update m.registers .rsp (slot (m.registers .rsp) values.length)) m
      (m.pushed values) :=
  { registers := rfl
    mapped := rfl
    words := fun _ ha => wordAt_spill_of_apart ha }

/-- What happens below words that were pushed. -/
theorem Leaves.of_pushed (values : List Word) (h : Leaves n registers (m.pushed values) m') :
    Leaves (values.length + n) registers m m' where
  registers := h.registers
  mapped := h.mapped
  words := by
    intro a ha
    rw [h.words a, (leaves_pushed values m).words a]
    · exact fun k hk hkn => ha k hk (by omega)
    · intro k hk hkn
      rw [registers_pushed, Function.update_self, slot_slot]
      exact ha _ (by omega) (by omega)

theorem Leaves.trans {registers' : Register → Word} (h : Leaves n registers m m1)
    (h' : Leaves n registers' m1 m') (hrsp : registers .rsp = m.registers .rsp) :
    Leaves n registers' m m' where
  registers := h'.registers
  mapped := h'.mapped.trans h.mapped
  words := by
    intro a ha
    rw [h'.words a, h.words a ha]
    rwa [h.registers, hrsp]

/-- The words at and above the stack pointer, and `i` below it when the routine has
started below these. -/
theorem Leaves.wordAt_slot (h : Leaves n registers m m') {i : ℕ}
    (hrsp : m.registers .rsp = slot base j) (hi : i ≤ j) (hlt : j + n < 2 ^ 60) :
    wordAt m'.bytes (slot base i) = wordAt m.bytes (slot base i) := by
  apply h.words
  intro k hk hkn
  rw [hrsp, slot_slot]
  exact apart_slot base (by omega) (by omega) (by omega)

/-- A call of a routine that brings the stack pointer back. -/
theorem call_eq_of_leaves {routine : Machine → Except Fault Machine}
    (hroom : m.Mapped (slot (m.registers .rsp) 1))
    (h : routine (m.pushed [returnAddress]) = .ok m1)
    (hleaves : Leaves n registers (m.pushed [returnAddress]) m1) (hn : n < 2 ^ 59)
    (hrsp : registers .rsp = slot (m.registers .rsp) 1) :
    m.call returnAddress routine = .ok (m1.set .rsp (m.registers .rsp)) ∧
      Leaves (n + 1) (Function.update registers .rsp (m.registers .rsp)) m
        (m1.set .rsp (m.registers .rsp)) := by
  have hpushed : (m.pushed [returnAddress]).registers .rsp = slot (m.registers .rsp) 1 := by
    simp
  have hword : wordAt m1.bytes (slot (m.registers .rsp) 1) = returnAddress := by
    rw [hleaves.wordAt_slot hpushed le_rfl (by omega), bytes_pushed]
    exact wordAt_storeAt _ _ _
  constructor
  · refine bind_eq_ok.mpr ⟨_, push_eq hroom, bind_eq_ok.mpr ⟨m1, h, bind_eq_ok.mpr ⟨_,
      popWord_eq (m.registers .rsp) 0 (by rw [hleaves.registers, hrsp]) ?_, ?_⟩⟩⟩
    · exact mapped_of_eq hroom hleaves.mapped
    · rw [slot_zero]
      exact bind_eq_ok.mpr ⟨(), require_eq_ok.mpr hword, rfl⟩
  · have hbelow : Leaves ([returnAddress].length + n) registers m m1 := hleaves.of_pushed _
    refine ⟨?_, hleaves.mapped, fun a ha => hbelow.words a fun k hk hkn => ?_⟩
    · rw [registers_set, hleaves.registers]
    · exact ha k hk (hkn.trans (Nat.add_comm 1 n).le)

end Machine

end Enkel.X86
