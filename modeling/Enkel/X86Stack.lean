import Enkel.ByteMemory
import Enkel.Outcome
import Mathlib.Data.BitVec

/-!
The registers of an x86-64 processor over a memory of bytes, with the instructions that
move words between registers and a stack. What a run of pushes writes is a list of words
below the stack pointer; it reads back what was pushed, and leaves words apart from it
as they were. The flags after an arithmetic instruction are not looked at.
-/
namespace Enkel.X86

open Outcome ByteMemory

inductive Register
  | rax
  | rcx
  | rdx
  | rbx
  | rsp
  | rbp
  | rsi
  | rdi
  | r8
  | r9
  | r10
  | r11
  | r12
  | r13
  | r14
  | r15
deriving DecidableEq, Repr

abbrev Word := BitVec 64

abbrev Bytes := ℕ → UInt8

inductive Fault
  | pageFault (address : Word)
  | generalProtection
  /-- A `ret` to another address than that after the call. -/
  | wildReturn
deriving DecidableEq, Repr

/-- The GS base that `swapgs` brings in is the second one. -/
structure Machine where
  registers : Register → Word
  rflags : Word
  rip : Word
  gsBase : Word
  swapGSBase : Word
  fsBase : Word
  bytes : Bytes
  mapped : ℕ → Bool

def wordAt (b : Bytes) (a : Word) : Word := BitVec.ofNat 64 (readWord b a.toNat 8)

def storeAt (a value : Word) (b : Bytes) : Bytes := writeWord a.toNat value.toNat 8 b

/-- The `k`-th word below an address. -/
def slot (base : Word) (k : ℕ) : Word := base - BitVec.ofNat 64 (8 * k)

/-- Words without a byte in common. -/
def Apart (a b : Word) : Prop := 8 ≤ (a - b).toNat ∧ 8 ≤ (b - a).toNat

instance (a b : Word) : Decidable (Apart a b) := inferInstanceAs (Decidable (_ ∧ _))

/-- The words below an address are stored, the first of them at its top. -/
def spill (base : Word) : List Word → Bytes → Bytes
  | [], b => b
  | value :: values, b => spill (slot base 1) values (storeAt (slot base 1) value b)

def Canonical (a : Word) : Prop := a.toNat < 2 ^ 47 ∨ 2 ^ 64 - 2 ^ 47 ≤ a.toNat

instance (a : Word) : Decidable (Canonical a) := inferInstanceAs (Decidable (_ ∨ _))

namespace Machine

def Mapped (m : Machine) (a : Word) : Prop := ∀ i < 8, m.mapped ((a.toNat + i) % 2 ^ 64)

instance (m : Machine) (a : Word) : Decidable (m.Mapped a) :=
  inferInstanceAs (Decidable (∀ i < 8, _))

section Instructions
variable (m : Machine)

def set (r : Register) (value : Word) : Machine :=
  { m with registers := Function.update m.registers r value }

def load (a : Word) : Except Fault Word := do
  require (m.Mapped a) (.pageFault a)
  return wordAt m.bytes a

def push (value : Word) : Except Fault Machine := do
  let top := slot (m.registers .rsp) 1
  require (m.Mapped top) (.pageFault top)
  return { m with
    registers := Function.update m.registers .rsp top
    bytes := storeAt top value m.bytes }

/-- The word at the stack pointer, and the machine without it. -/
def popWord : Except Fault (Word × Machine) := do
  let value ← m.load (m.registers .rsp)
  return (value, m.set .rsp (m.registers .rsp + 8))

def pop (r : Register) : Except Fault Machine := do
  let (value, m) ← m.popWord
  return m.set r value

def popfq : Except Fault Machine := do
  let (value, m) ← m.popWord
  return { m with rflags := value }

def pushAll (rs : List Register) : Except Fault Machine :=
  rs.foldlM (fun m r => m.push (m.registers r)) m

def popAll (rs : List Register) : Except Fault Machine := rs.foldlM pop m

def swapgs : Machine :=
  { m with
    gsBase := m.swapGSBase
    swapGSBase := m.gsBase }

/-- A call of a routine that returns to the address after the call. -/
def call (returnAddress : Word) (routine : Machine → Except Fault Machine) :
    Except Fault Machine := do
  let m ← m.push returnAddress
  let m ← routine m
  let (target, m) ← m.popWord
  require (target = returnAddress) .wildReturn
  return m

/-- `wrmsr` of the FS base, from edx and eax. -/
def wrmsrFSBase : Except Fault Machine := do
  let value := (m.registers .rdx).setWidth 32 ++ (m.registers .rax).setWidth 32
  require (Canonical value) .generalProtection
  return { m with fsBase := value }

/-- The flags that `sysret` takes from r11. -/
def sysretFlags (value : Word) : Word := (value &&& 0x3C7FD7) ||| 2

def sysret : Except Fault Machine := do
  require (Canonical (m.registers .rcx)) .generalProtection
  return { m with
    rip := m.registers .rcx
    rflags := sysretFlags (m.registers .r11) }

end Instructions

end Machine

section Memory
variable {a a' base value : Word} {values : List Word} {b : Bytes} {i j k : ℕ}

theorem slot_zero (base : Word) : slot base 0 = base := by
  unfold slot
  simp

theorem slot_slot (base : Word) (i j : ℕ) : slot (slot base i) j = slot base (i + j) := by
  unfold slot
  apply BitVec.eq_of_toNat_eq
  simp only [BitVec.toNat_sub, BitVec.toNat_ofNat]
  omega

theorem slot_add (base : Word) (k : ℕ) : slot base (k + 1) + 8 = slot base k := by
  change base - BitVec.ofNat 64 (8 * (k + 1)) + BitVec.ofNat 64 8 = base - BitVec.ofNat 64 (8 * k)
  apply BitVec.eq_of_toNat_eq
  simp only [BitVec.toNat_sub, BitVec.toNat_add, BitVec.toNat_ofNat]
  omega

theorem slot_add_ofNat (base : Word) (i n : ℕ) :
    slot base (i + n) + BitVec.ofNat 64 (8 * n) = slot base i := by
  unfold slot
  apply BitVec.eq_of_toNat_eq
  simp only [BitVec.toNat_sub, BitVec.toNat_add, BitVec.toNat_ofNat]
  omega

/-- The slots of one stack are apart. -/
theorem apart_slot (base : Word) (hne : i ≠ j) (hi : i < 2 ^ 60) (hj : j < 2 ^ 60) :
    Apart (slot base i) (slot base j) := by
  unfold Apart slot
  simp only [BitVec.toNat_sub, BitVec.toNat_ofNat]
  omega

theorem toNat_slot (h : 8 * k ≤ base.toNat) : (slot base k).toNat = base.toNat - 8 * k := by
  have hlt := base.isLt
  unfold slot
  rw [BitVec.toNat_sub, BitVec.toNat_ofNat]
  omega

/-- A word that lies below a slot. -/
theorem apart_slot_of_le (hk : 1 ≤ k) (h : a.toNat + 8 + 8 * k ≤ base.toNat) :
    Apart a (slot base k) := by
  have hslot : (slot base k).toNat = _ := toNat_slot (by omega)
  have hlt := base.isLt
  unfold Apart
  rw [BitVec.toNat_sub, BitVec.toNat_sub, hslot]
  omega

theorem wordAt_storeAt (a value : Word) (b : Bytes) : wordAt (storeAt a value b) a = value := by
  unfold wordAt storeAt
  rw [readWord_writeWord (by decide)]
  apply BitVec.eq_of_toNat_eq
  rw [BitVec.toNat_ofNat]
  have hlt := value.isLt
  omega

theorem wordAt_storeAt_of_apart (h : Apart a a') :
    wordAt (storeAt a' value b) a = wordAt b a := by
  unfold wordAt storeAt
  apply congrArg (BitVec.ofNat 64)
  apply readWord_congr
  intro i hi
  unfold writeWord
  rw [writeBytes_eq (by decide) (Nat.mod_lt _ (Nat.two_pow_pos 64)), if_neg]
  have hlt := a.isLt
  have hlt' := a'.isLt
  obtain ⟨h, h'⟩ := h
  rw [BitVec.toNat_sub] at h h'
  unfold offset
  omega

theorem wordAt_spill_of_apart (h : ∀ k, 1 ≤ k → k ≤ values.length → Apart a (slot base k)) :
    wordAt (spill base values b) a = wordAt b a := by
  induction values generalizing base b with
  | nil => rfl
  | cons value values ih =>
    unfold spill
    rw [ih, wordAt_storeAt_of_apart (h 1 le_rfl (by simp))]
    intro k hk hle
    rw [slot_slot]
    exact h (1 + k) (by omega) (by rw [List.length_cons]; omega)

/-- What was pushed is read back. -/
theorem wordAt_spill (hlength : values.length < 2 ^ 60) (hk : k < values.length) :
    wordAt (spill base values b) (slot base (k + 1)) = values[k] := by
  induction values generalizing base b k with
  | nil => cases hk
  | cons value values ih =>
    rw [List.length_cons] at hk hlength
    unfold spill
    cases k with
    | zero =>
      rw [wordAt_spill_of_apart, wordAt_storeAt]
      · rfl
      · intro k hk hle
        rw [slot_slot]
        exact apart_slot base (by omega) (by omega) (by omega)
    | succ k =>
      have hslot : slot base (k + 1 + 1) = slot (slot base 1) (k + 1) := by
        rw [slot_slot, Nat.add_comm 1]
      rw [hslot, ih (by omega) (by omega)]
      rfl

theorem spill_append (base : Word) (xs ys : List Word) (b : Bytes) :
    spill base (xs ++ ys) b = spill (slot base xs.length) ys (spill base xs b) := by
  induction xs generalizing base b with
  | nil =>
    rw [List.nil_append, List.length_nil, slot_zero]
    rfl
  | cons x xs ih =>
    simp only [List.cons_append, spill]
    rw [ih, slot_slot, List.length_cons, Nat.add_comm 1]

end Memory

namespace Machine

section Stack
variable {m m' : Machine} {base value : Word} {r : Register} {rs : List Register} {j : ℕ}

section Set
variable (r : Register) (value : Word) (m : Machine)

@[simp] theorem registers_set :
    (m.set r value).registers = Function.update m.registers r value := rfl

@[simp] theorem gsBase_set : (m.set r value).gsBase = m.gsBase := rfl

@[simp] theorem swapGSBase_set : (m.set r value).swapGSBase = m.swapGSBase := rfl

@[simp] theorem bytes_set : (m.set r value).bytes = m.bytes := rfl

@[simp] theorem mapped_set : (m.set r value).mapped = m.mapped := rfl

end Set

theorem mapped_of_eq {a : Word} (h : m.Mapped a) (hmapped : m'.mapped = m.mapped) :
    m'.Mapped a := by
  unfold Mapped
  rwa [hmapped]

/-- The words are stored below the stack pointer, which moves below them. -/
def pushed (values : List Word) (m : Machine) : Machine :=
  { m with
    registers := Function.update m.registers .rsp (slot (m.registers .rsp) values.length)
    bytes := spill (m.registers .rsp) values m.bytes }

@[simp] theorem gsBase_pushed (values : List Word) (m : Machine) :
    (m.pushed values).gsBase = m.gsBase := rfl

@[simp] theorem swapGSBase_pushed (values : List Word) (m : Machine) :
    (m.pushed values).swapGSBase = m.swapGSBase := rfl

@[simp] theorem bytes_pushed (values : List Word) (m : Machine) :
    (m.pushed values).bytes = spill (m.registers .rsp) values m.bytes := rfl

@[simp] theorem registers_pushed (values : List Word) (m : Machine) :
    (m.pushed values).registers =
      Function.update m.registers .rsp (slot (m.registers .rsp) values.length) := rfl

@[simp] theorem mapped_pushed (values : List Word) (m : Machine) :
    (m.pushed values).mapped = m.mapped := rfl

theorem pushed_nil (m : Machine) : m.pushed [] = m := by
  unfold pushed
  rw [List.length_nil, slot_zero, Function.update_eq_self]
  rfl

theorem pushed_pushed (xs ys : List Word) (m : Machine) :
    (m.pushed xs).pushed ys = m.pushed (xs ++ ys) := by
  unfold pushed
  simp only [Function.update_self, Function.update_idem, slot_slot, spill_append,
    List.length_append]

theorem push_eq (h : m.Mapped (slot (m.registers .rsp) 1)) :
    m.push value = .ok (m.pushed [value]) := by
  simp only [push, require_true h, ok_bind]
  rfl

theorem mapped_of_push (h : m.push value = .ok m') : m.Mapped (slot (m.registers .rsp) 1) := by
  obtain ⟨_, hmapped, -⟩ := bind_eq_ok.mp h
  exact require_eq_ok.mp hmapped

/-- `n` words below the stack pointer are mapped. -/
def Room (n : ℕ) (m : Machine) : Prop :=
  ∀ k, 1 ≤ k → k ≤ n → m.Mapped (slot (m.registers .rsp) k)

theorem Room.pushed {n : ℕ} (values : List Word) (h : m.Room (values.length + n)) :
    (m.pushed values).Room n := by
  intro k hk hle
  unfold Machine.pushed
  dsimp only
  rw [Function.update_self, slot_slot]
  exact h _ (by omega) (by omega)

theorem Room.of_pushed {n : ℕ} (values : List Word) (h : (m.pushed values).Room n)
    (h' : m.Room values.length) : m.Room (values.length + n) := by
  intro k hk hle
  by_cases hin : k ≤ values.length
  · exact h' k hk hin
  · have hslot := h (k - values.length) (by omega) (by omega)
    unfold Machine.pushed at hslot
    dsimp only at hslot
    rwa [Function.update_self, slot_slot, Nat.add_sub_cancel' (by omega)] at hslot

theorem room_one : m.Room 1 ↔ m.Mapped (slot (m.registers .rsp) 1) := by
  constructor
  · intro h
    exact h 1 le_rfl le_rfl
  · intro h k hk hle
    obtain rfl : k = 1 := by omega
    exact h

theorem pushAll_eq (hrsp : .rsp ∉ rs) (h : m.Room rs.length) :
    m.pushAll rs = .ok (m.pushed (rs.map m.registers)) := by
  induction rs generalizing m with
  | nil => exact congrArg _ (pushed_nil m).symm
  | cons r rs ih =>
    rw [List.mem_cons, not_or] at hrsp
    rw [List.length_cons, Nat.add_comm] at h
    have hmap : rs.map (m.pushed [m.registers r]).registers = rs.map m.registers := by
      apply List.map_congr_left
      intro r' hr'
      exact Function.update_of_ne (ne_of_mem_of_not_mem hr' hrsp.2) _ _
    have hrest : (m.pushed [m.registers r]).pushAll rs = _ :=
      ih hrsp.2 (h.pushed [m.registers r])
    unfold pushAll at hrest ⊢
    rw [List.foldlM_cons, push_eq (h 1 le_rfl (by omega)), ok_bind, hrest, hmap, pushed_pushed]
    rfl

/-- Pushes that succeed have room. -/
theorem room_of_pushAll (hrsp : .rsp ∉ rs) (h : m.pushAll rs = .ok m') : m.Room rs.length := by
  induction rs generalizing m with
  | nil => exact fun k hk hle => absurd hle (by rw [List.length_nil]; omega)
  | cons r rs ih =>
    rw [List.mem_cons, not_or] at hrsp
    unfold pushAll at h
    rw [List.foldlM_cons] at h
    obtain ⟨m1, hpush, hrest⟩ := bind_eq_ok.mp h
    have hmapped := mapped_of_push hpush
    rw [push_eq hmapped] at hpush
    cases hpush
    rw [List.length_cons, Nat.add_comm]
    exact (ih hrsp.2 hrest).of_pushed [m.registers r] (room_one.mpr hmapped)

theorem load_eq {a : Word} (h : m.Mapped a) : m.load a = .ok (wordAt m.bytes a) := by
  unfold load
  rw [require_true h]
  rfl

/-- A load that sees the memory of another machine. -/
theorem load_of_eq {a : Word} (h : m.Mapped a) (hmapped : m'.mapped = m.mapped)
    (hword : wordAt m'.bytes a = value) : m'.load a = .ok value := by
  rw [load_eq (mapped_of_eq h hmapped), hword]

theorem mapped_of_load {a : Word} (h : m.load a = .ok value) :
    m.Mapped a ∧ value = wordAt m.bytes a := by
  obtain ⟨_, hmapped, heq⟩ := bind_eq_ok.mp h
  exact ⟨require_eq_ok.mp hmapped, (pure_eq_ok.mp heq).symm⟩

theorem popWord_eq (base : Word) (j : ℕ) (hrsp : m.registers .rsp = slot base (j + 1))
    (h : m.Mapped (slot base (j + 1))) :
    m.popWord = .ok (wordAt m.bytes (slot base (j + 1)), m.set .rsp (slot base j)) := by
  unfold popWord
  rw [hrsp, load_eq h, ok_bind, slot_add]
  rfl

theorem pop_eq (base : Word) (j : ℕ) (r : Register) (hrsp : m.registers .rsp = slot base (j + 1))
    (h : m.Mapped (slot base (j + 1))) : m.pop r =
      .ok ((m.set .rsp (slot base j)).set r (wordAt m.bytes (slot base (j + 1)))) := by
  unfold pop
  rw [popWord_eq base j hrsp h]
  rfl

theorem mapped_of_pop (h : m.pop r = .ok m') : m.Mapped (m.registers .rsp) := by
  obtain ⟨_, hpop, -⟩ := bind_eq_ok.mp h
  obtain ⟨_, hload, -⟩ := bind_eq_ok.mp hpop
  exact (mapped_of_load hload).1

theorem popfq_eq (base : Word) (j : ℕ) (hrsp : m.registers .rsp = slot base (j + 1))
    (h : m.Mapped (slot base (j + 1))) : m.popfq =
      .ok { m.set .rsp (slot base j) with rflags := wordAt m.bytes (slot base (j + 1)) } := by
  unfold popfq
  rw [popWord_eq base j hrsp h]
  rfl

/-- What registers hold after pops down to the slot `j`. -/
def restore (b : Bytes) (base : Word) (j : ℕ) : List Register → (Register → Word) → Register → Word
  | [], registers => registers
  | r :: rs, registers =>
    restore b base j rs (Function.update registers r (wordAt b (slot base (rs.length + 1 + j))))

theorem restore_update {b : Bytes} {registers : Register → Word} (hr : r ∉ rs) :
    restore b base j rs (Function.update registers r value) =
      Function.update (restore b base j rs registers) r value := by
  induction rs generalizing registers with
  | nil => rfl
  | cons r' rs ih =>
    rw [List.mem_cons, not_or] at hr
    unfold restore
    rw [Function.update_comm hr.1, ih hr.2]

/-- Registers whose words are on the stack get these words. -/
theorem restore_eq {b : Bytes} {registers values : Register → Word}
    (h : ∀ i, (hi : i < rs.length) → wordAt b (slot base (rs.length - i + j)) = values rs[i]) :
    restore b base j rs registers r = if r ∈ rs then values r else registers r := by
  induction rs generalizing registers with
  | nil => rfl
  | cons r' rs ih =>
    have hhead : wordAt b (slot base (rs.length + 1 + j)) = values r' := h 0 (Nat.succ_pos _)
    have htail : ∀ i, (hi : i < rs.length) →
        wordAt b (slot base (rs.length - i + j)) = values rs[i] := by
      intro i hi
      have hnext := h (i + 1) (Nat.succ_lt_succ hi)
      rwa [List.length_cons, Nat.add_sub_add_right] at hnext
    unfold restore
    rw [ih htail, hhead]
    by_cases hr : r = r'
    · subst hr
      simp
    · simp [hr]

/-- What is pushed is found by pops in the reverse order. -/
theorem wordAt_spill_reverse {b : Bytes} {values : Register → Word} {i : ℕ}
    (hlength : rs.length < 2 ^ 60) (hi : i < rs.length) :
    wordAt (spill base (rs.reverse.map values) b) (slot base (rs.length - i)) = values rs[i] := by
  have hk : rs.length - i - 1 < (rs.reverse.map values).length := by
    rw [List.length_map, List.length_reverse]
    omega
  have hlength' : (rs.reverse.map values).length < 2 ^ 60 := by
    rwa [List.length_map, List.length_reverse]
  have hword : wordAt (spill base (rs.reverse.map values) b) _ = _ := wordAt_spill hlength' hk
  rw [Nat.sub_add_cancel (by omega)] at hword
  have hindex : rs.length - 1 - (rs.length - i - 1) = i := by omega
  rw [hword, List.getElem_map, List.getElem_reverse]
  simp only [hindex]

theorem popAll_eq (hrs : .rsp ∉ rs) (hrsp : m.registers .rsp = slot base (rs.length + j))
    (h : ∀ k, j < k → k ≤ rs.length + j → m.Mapped (slot base k)) :
    m.popAll rs = .ok { m with
      registers :=
        Function.update (restore m.bytes base j rs m.registers) .rsp (slot base j) } := by
  induction rs generalizing m with
  | nil =>
    rw [List.length_nil, Nat.zero_add] at hrsp
    unfold popAll restore
    rw [← hrsp, Function.update_eq_self]
    rfl
  | cons r rs ih =>
    rw [List.mem_cons, not_or] at hrs
    rw [List.length_cons, Nat.add_right_comm] at hrsp h
    have hpop := pop_eq base (rs.length + j) r hrsp (h _ (by omega) le_rfl)
    have hnext (v : Word) : ((m.set .rsp (slot base (rs.length + j))).set r v).registers .rsp =
        slot base (rs.length + j) := by
      unfold set
      dsimp only
      rw [Function.update_of_ne hrs.1, Function.update_self]
    have hrest := ih hrs.2 (hnext (wordAt m.bytes (slot base (rs.length + j + 1))))
      fun k hk hle => h k hk (by omega)
    unfold popAll at hrest ⊢
    rw [List.foldlM_cons, hpop, ok_bind, hrest]
    simp only [restore, set]
    rw [Function.update_comm hrs.1, restore_update hrs.2, Function.update_idem,
      Nat.add_right_comm]

/-- Pops of words that are known. -/
theorem popAll_words (base : Word) (j : ℕ) (values : Register → Word) (hrs : .rsp ∉ rs)
    (hrsp : m.registers .rsp = slot base (rs.length + j))
    (h : ∀ k, j < k → k ≤ rs.length + j → m.Mapped (slot base k))
    (hwords : ∀ i, (hi : i < rs.length) →
      wordAt m.bytes (slot base (rs.length - i + j)) = values rs[i]) :
    m.popAll rs = .ok { m with
      registers := Function.update (fun r => if r ∈ rs then values r else m.registers r)
        .rsp (slot base j) } := by
  have hrestore : restore m.bytes base j rs m.registers =
      fun r => if r ∈ rs then values r else m.registers r :=
    funext fun r => restore_eq hwords
  rw [popAll_eq hrs hrsp h, hrestore]

end Stack

end Machine

end Enkel.X86
