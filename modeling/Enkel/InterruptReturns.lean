import Enkel.InterruptStubs

/-!
What an interrupt leaves behind. A handler of an interrupt without an error code returns
to the instruction that was interrupted, with its registers, flags and GS bases, as long
as it keeps the words on its stack; it is called with a stack pointer that is not on the
boundary of 16 bytes that the calling convention asks for. With an error code the stack
pointer is on the boundary, but `iretq` takes the error code for the address to return to.
-/
namespace Enkel.Interrupts

open Outcome X86
open X86.Machine X86.Context
open SyscallEntry (alu FSReady FSApart Becomes)

/-- The words that the processor has pushed when the stub starts. -/
def pushedWords (errorCode : Option Word) (c : Context) : List Word :=
  c.frame.words ++ errorCode.toList

section Stub
variable (rsp0 vector cr2 : Word) (errorCode : Option Word) (c : Context)

/-- 44 words of a stack are mapped, and what LoadFS reads is apart from them when a program
was interrupted. -/
structure StackReady (top : Word) (user : Prop) (m : Machine) : Prop where
  stack : ∀ k, 1 ≤ k → k ≤ 44 → m.Mapped (slot top k)
  fs : user → FSReady m.swapgs
  gs : user → ∀ k, 1 ≤ k → k ≤ 44 → Apart m.swapGSBase (slot top k)
  cell : user → ∀ k, 1 ≤ k → k ≤ 44 → Apart (wordAt m.bytes m.swapGSBase) (slot top k)

/-- The six arguments of a handler. -/
structure Passes (called : Machine) : Prop where
  interruptNumber : called.registers .rdi = vector
  rip : called.registers .rsi = c.machine.rip
  cr2 : called.registers .rdx = cr2
  errorCode : called.registers .rcx = errorCode.getD 0
  codeSegment : called.registers .r8 = c.cs
  triggeringRBP : called.registers .r9 = c.machine.registers .rbp

/-- What a stub hands to its handler: the frame, the registers below the gap, and the
selector on the stack. -/
structure HandedOver (called : Machine) : Prop where
  rsp : called.registers .rsp = slot (c.interruptTop rsp0) ((pushedWords errorCode c).length + 33)
  frame : ∀ k, (hk : k < (pushedWords errorCode c).length) →
    wordAt called.bytes (slot (c.interruptTop rsp0) (k + 1)) = (pushedWords errorCode c)[k]
  saved : ∀ k, (hk : k < generalPurpose.length) →
    wordAt called.bytes
        (slot (c.interruptTop rsp0) ((pushedWords errorCode c).length + 16 + (k + 1))) =
      c.machine.registers generalPurpose[k]
  selector : wordAt called.bytes
    (slot (c.interruptTop rsp0) ((pushedWords errorCode c).length + 32)) = c.cs
  passes : Passes vector cr2 errorCode c called
  swapped : Swapped (IsUser c.cs) c.machine called
  mapped : called.mapped = c.machine.mapped
  others : ∀ a, (∀ k, 1 ≤ k → k ≤ 44 → Apart a (slot (c.interruptTop rsp0) k)) →
    wordAt called.bytes a = wordAt c.machine.bytes a

variable {rsp0 vector cr2 errorCode c}

variable (errorCode c) in
theorem length_pushedWords_cases : (pushedWords errorCode c).length = 5 ∨
    (pushedWords errorCode c).length = 6 := by
  cases errorCode with
  | none => exact Or.inl rfl
  | some => exact Or.inr rfl

variable (errorCode) in
theorem deliver_eq (stub : Word) (gate : Gate)
    (h : StackReady (c.interruptTop rsp0) (IsUser c.cs) c.machine) :
    ∃ m0, c.deliver rsp0 stub gate errorCode = .ok m0 ∧ Becomes c.machine
      (Function.update c.machine.registers .rsp
        (slot (c.interruptTop rsp0) (pushedWords errorCode c).length))
      (spill (c.interruptTop rsp0) (pushedWords errorCode c) c.machine.bytes) m0 := by
  have hroom : (c.machine.set .rsp (c.interruptTop rsp0)).Room
      (pushedWords errorCode c).length := by
    intro k hk hle
    have hlength := length_pushedWords_cases errorCode c
    rw [registers_set, Function.update_self]
    exact mapped_of_eq (h.stack k hk (by omega)) rfl
  refine ⟨_, bind_eq_ok.mpr ⟨_, pushWords_eq hroom, rfl⟩, ?_, ?_, rfl, rfl, rfl⟩
  · simp only [registers_pushed, registers_set, Function.update_self, Function.update_idem]
    rfl
  · simp only [bytes_pushed, registers_set, Function.update_self, bytes_set]
    rfl

/-- The frame is above the gap and the saved registers. -/
theorem wordAt_frame {top : Word} {values saved : List Word} {b : Bytes} {k : ℕ}
    (hk : k < values.length) (hlt : values.length + 16 + saved.length < 2 ^ 60) :
    wordAt (spill (slot top (values.length + 16)) saved (spill top values b)) (slot top (k + 1)) =
      values[k] := by
  rw [wordAt_spill_of_apart, wordAt_spill (by omega) hk]
  intro i hi hle
  rw [slot_slot]
  exact apart_slot top (by omega) (by omega) (by omega)

end Stub

section Prepare
variable (layout : Layout) {rsp0 vector cr2 : Word} {errorCode : Option Word} {c : Context}

variable (rsp0 vector cr2 errorCode c) in
/-- The registers are pushed, and the arguments loaded, by either stub. -/
structure Prepared (m m2 : Machine) : Prop where
  registers : m2.registers = Function.update (withArguments vector c.machine.rip cr2
    (errorCode.getD 0) c.cs c.machine.registers) .rsp
      (slot (c.interruptTop rsp0) ((pushedWords errorCode c).length + 31))
  bytes : m2.bytes =
    spill (slot (c.interruptTop rsp0) ((pushedWords errorCode c).length + 16))
      (generalPurpose.map c.machine.registers) m.bytes
  gsBase : m2.gsBase = m.gsBase
  swapGSBase : m2.swapGSBase = m.swapGSBase
  mapped : m2.mapped = m.mapped

variable (vector cr2) in
/-- What a stub finds between the frame and the saved registers. -/
theorem prepare_eq {m : Machine} {j : ℕ} (code : Machine → Except X86.Fault Word)
    (hj : (pushedWords errorCode c).length = 5 + j)
    (hready : StackReady (c.interruptTop rsp0) (IsUser c.cs) c.machine)
    (hm : Becomes c.machine (Function.update c.machine.registers .rsp
        (slot (c.interruptTop rsp0) (pushedWords errorCode c).length))
      (spill (c.interruptTop rsp0) (pushedWords errorCode c) c.machine.bytes) m)
    (hcode : ∀ m3 : Machine,
      m3.registers .rsp = slot (c.interruptTop rsp0) ((pushedWords errorCode c).length + 31) →
      m3.mapped = c.machine.mapped →
      (∀ k, (hk : k < (pushedWords errorCode c).length) →
        wordAt m3.bytes (slot (c.interruptTop rsp0) (k + 1)) = (pushedWords errorCode c)[k]) →
      code m3 = .ok (errorCode.getD 0)) :
    ∃ m1 m2, pushGeneralPurposeRegisters layout m = .ok m1 ∧
      loadArguments vector cr2 j code m1 = .ok m2 ∧
        Prepared rsp0 vector cr2 errorCode c m m2 := by
  have hlength := length_pushedWords_cases errorCode c
  have hrsp : m.registers .rsp = slot (c.interruptTop rsp0) (pushedWords errorCode c).length := by
    rw [hm.registers, Function.update_self]
  have hsaved : generalPurpose.map m.registers = generalPurpose.map c.machine.registers := by
    rw [hm.registers]
    simp [generalPurpose]
  obtain ⟨m1, hpush, h1⟩ := pushGeneralPurposeRegisters_eq layout hrsp
    fun k hk hle => mapped_of_eq (hready.stack k (by omega) (by omega)) hm.mapped
  rw [hsaved, hm.bytes] at h1
  have hrsp1 : m1.registers .rsp =
      slot (c.interruptTop rsp0) ((pushedWords errorCode c).length + 31) := by
    rw [h1.registers, Function.update_self]
  have hframe (k : ℕ) (hk : k < (pushedWords errorCode c).length) :
      wordAt m1.bytes (slot (c.interruptTop rsp0) (k + 1)) = (pushedWords errorCode c)[k] := by
    rw [h1.bytes]
    exact wordAt_frame hk (show _ + 16 + 15 < 2 ^ 60 by omega)
  have hmapped1 : m1.mapped = c.machine.mapped := h1.mapped.trans hm.mapped
  have hrip : wordAt m1.bytes (slot (c.interruptTop rsp0)
      ((pushedWords errorCode c).length - j)) = c.machine.rip := by
    have hindex : (pushedWords errorCode c).length - j = 4 + 1 := by omega
    rw [hindex, hframe 4 (by omega)]
    cases errorCode <;> rfl
  have hcs : wordAt m1.bytes (slot (c.interruptTop rsp0)
      ((pushedWords errorCode c).length - (j + 1))) = c.cs := by
    have hindex : (pushedWords errorCode c).length - (j + 1) = 3 + 1 := by omega
    rw [hindex, hframe 3 (by omega)]
    cases errorCode <;> rfl
  obtain ⟨m2, hload, h2⟩ := loadArguments_eq vector cr2 hrsp1 (by omega)
    (fun k hk hle => mapped_of_eq (hready.stack k hk (by omega)) hmapped1) hrip hcs
    (hcode _ (by simp [hrsp1]) hmapped1 hframe)
  refine ⟨m1, m2, hpush, hload, ?_, ?_, ?_, ?_, ?_⟩
  · rw [h2.registers, h1.registers, hm.registers]
    funext r
    cases r <;> simp [withArguments]
  · rw [h2.bytes, h1.bytes, hm.bytes]
  · exact h2.gsBase.trans h1.gsBase
  · exact h2.swapGSBase.trans h1.swapGSBase
  · exact h2.mapped.trans h1.mapped

/-- MaybeSwapGS can be called where the registers have been pushed. -/
theorem Prepared.swapReady {m m2 : Machine} (h : Prepared rsp0 vector cr2 errorCode c m m2)
    (hready : StackReady (c.interruptTop rsp0) (IsUser c.cs) c.machine)
    (hm : Becomes c.machine (Function.update c.machine.registers .rsp
        (slot (c.interruptTop rsp0) (pushedWords errorCode c).length))
      (spill (c.interruptTop rsp0) (pushedWords errorCode c) c.machine.bytes) m)
    (hothers : ∀ a, (∀ k, 1 ≤ k → k ≤ 44 → Apart a (slot (c.interruptTop rsp0) k)) →
      wordAt m2.bytes a = wordAt c.machine.bytes a) : SwapReady 7 m2 := by
  have hlength := length_pushedWords_cases errorCode c
  intro huser
  have hr8 : m2.registers .r8 = c.cs := by
    rw [h.registers]
    simp [withArguments]
  rw [hr8] at huser
  have hgs : m2.swapgs.gsBase = c.machine.swapGSBase := h.swapGSBase.trans hm.swapGSBase
  have hmapped : m2.swapgs.mapped = c.machine.mapped := h.mapped.trans hm.mapped
  have hcell : wordAt m2.swapgs.bytes c.machine.swapGSBase =
      wordAt c.machine.bytes c.machine.swapGSBase := hothers _ (hready.gs huser)
  have hbase : wordAt m2.swapgs.bytes (wordAt c.machine.bytes c.machine.swapGSBase) = _ :=
    hothers _ (hready.cell huser)
  have hrsp (k : ℕ) : slot (m2.swapgs.registers .rsp) k =
      slot (c.interruptTop rsp0) ((pushedWords errorCode c).length + 31 + k) := by
    change slot (m2.registers .rsp) k = _
    rw [h.registers, Function.update_self, slot_slot]
  obtain ⟨hfs, -⟩ := FSReady.of_words (hready.fs huser) hgs hmapped hcell hbase
  refine ⟨hfs, fun k hk hle => ?_, fun k hk hle => ?_⟩
  · rw [hgs, hrsp]
    exact hready.gs huser _ (by omega) (by omega)
  · rw [hgs, hcell, hrsp]
    exact hready.cell huser _ (by omega) (by omega)

/-- The handler is called with all that a stub has prepared. -/
theorem Prepared.handedOver {m m2 : Machine} (h : Prepared rsp0 vector cr2 errorCode c m m2)
    (hready : StackReady (c.interruptTop rsp0) (IsUser c.cs) c.machine)
    (hm : Becomes c.machine (Function.update c.machine.registers .rsp
        (slot (c.interruptTop rsp0) (pushedWords errorCode c).length))
      (spill (c.interruptTop rsp0) (pushedWords errorCode c) c.machine.bytes) m) :
    ∃ called, callHandler layout m2 = .ok called ∧
      HandedOver rsp0 vector cr2 errorCode c called := by
  have hlength := length_pushedWords_cases errorCode c
  have hbytes : m2.bytes = spill (slot (c.interruptTop rsp0)
      ((pushedWords errorCode c).length + 16)) (generalPurpose.map c.machine.registers)
        (spill (c.interruptTop rsp0) (pushedWords errorCode c) c.machine.bytes) := by
    rw [h.bytes, hm.bytes]
  have hsaved : (generalPurpose.map c.machine.registers).length = 15 := rfl
  have hothers (a : Word) (ha : ∀ k, 1 ≤ k → k ≤ 44 →
      Apart a (slot (c.interruptTop rsp0) k)) :
      wordAt m2.bytes a = wordAt c.machine.bytes a := by
    rw [hbytes, wordAt_spill_of_apart, wordAt_spill_of_apart]
    · exact fun k hk hle => ha k hk (by omega)
    · intro k hk hle
      rw [slot_slot]
      exact ha _ (by omega) (by omega)
  have hrsp : m2.registers .rsp =
      slot (c.interruptTop rsp0) ((pushedWords errorCode c).length + 31) := by
    rw [h.registers, Function.update_self]
  have hmapped : m2.mapped = c.machine.mapped := h.mapped.trans hm.mapped
  have hr8 : m2.registers .r8 = c.cs := by
    rw [h.registers]
    simp [withArguments]
  obtain ⟨called, hcall, hregisters, hcalled, hswapped, hselector, hwords⟩ :=
    callHandler_eq layout hrsp
      (fun k hk hle => mapped_of_eq (hready.stack k (by omega) (by omega)) hmapped)
      (h.swapReady hready hm hothers)
  rw [hr8] at hswapped hselector
  have hbelow (k : ℕ) (hk : 1 ≤ k) (hle : k ≤ (pushedWords errorCode c).length + 31) :
      wordAt called.bytes (slot (c.interruptTop rsp0) k) =
        wordAt m2.bytes (slot (c.interruptTop rsp0) k) :=
    hwords _ fun i hi hile => apart_slot _ (by omega) (by omega) (by omega)
  refine ⟨called, hcall, ?_, fun k hk => ?_, fun k hk => ?_, hselector, ?_, ?_,
    hcalled.trans hmapped, fun a ha => ?_⟩
  · rw [hregisters, Function.update_self]
  · rw [hbelow (k + 1) (by omega) (by omega), hbytes]
    exact wordAt_frame hk (by omega)
  · have hlt : k < 15 := hk
    have hword : wordAt (spill (slot (c.interruptTop rsp0) ((pushedWords errorCode c).length + 16))
        (generalPurpose.map c.machine.registers)
        (spill (c.interruptTop rsp0) (pushedWords errorCode c) c.machine.bytes)) _ = _ :=
      wordAt_spill (by omega) (hsaved.symm ▸ hlt)
    rw [slot_slot, List.getElem_map] at hword
    rw [hbelow _ (by omega) (by omega), hbytes, hword]
  · refine ⟨?_, ?_, ?_, ?_, ?_, ?_⟩
    all_goals
      rw [hregisters, h.registers]
      simp [withArguments]
  · refine ⟨?_, ?_⟩
    · rw [hswapped.gsBase, h.gsBase, h.swapGSBase, hm.gsBase, hm.swapGSBase]
    · rw [hswapped.swapGSBase, h.gsBase, h.swapGSBase, hm.gsBase, hm.swapGSBase]
  · rw [hwords a fun k hk hle => ha k (by omega) (by omega)]
    exact hothers a ha

variable (vector cr2 errorCode) in
/-- Every stub gets to its handler. -/
theorem entry_eq (stub : Word) (gate : Gate)
    (hready : StackReady (c.interruptTop rsp0) (IsUser c.cs) c.machine) :
    ∃ m0 called, c.deliver rsp0 stub gate errorCode = .ok m0 ∧
      stubEntry layout vector cr2 errorCode m0 = .ok called ∧
        HandedOver rsp0 vector cr2 errorCode c called := by
  obtain ⟨m0, hdeliver, hm0⟩ := deliver_eq errorCode stub gate hready
  cases herror : errorCode with
  | none =>
    subst herror
    have hm : Becomes c.machine _ _ (cld m0) :=
      ⟨hm0.registers, hm0.bytes, hm0.gsBase, hm0.swapGSBase, hm0.mapped⟩
    obtain ⟨m1, m2, hpush, hload, hprepared⟩ := prepare_eq layout vector cr2 (j := 0)
      (fun _ => pure 0) rfl hready hm fun _ _ _ _ => rfl
    obtain ⟨called, hcall, hover⟩ := hprepared.handedOver layout hready hm
    exact ⟨m0, called, hdeliver, bind_eq_ok.mpr ⟨m1, hpush, bind_eq_ok.mpr ⟨m2, hload, hcall⟩⟩,
      hover⟩
  | some code =>
    subst herror
    obtain ⟨m, hmdef⟩ : ∃ m, m = alu layout.entry .rsp
        ((alu layout.entry .rsp (slot (m0.registers .rsp) 4) (cld m0)).registers .rsp + 32)
          (alu layout.entry .rsp (slot (m0.registers .rsp) 4) (cld m0)) := ⟨_, rfl⟩
    have hm : Becomes c.machine m0.registers m0.bytes m := by
      rw [hmdef]
      refine ⟨?_, rfl, hm0.gsBase, hm0.swapGSBase, hm0.mapped⟩
      have hback : slot (m0.registers .rsp) 4 + 32 = m0.registers .rsp :=
        (slot_add_ofNat (m0.registers .rsp) 0 4).trans (slot_zero _)
      simp only [alu, cld, registers_set, Function.update_self, Function.update_idem]
      rw [hback, Function.update_eq_self]
    rw [hm0.registers, hm0.bytes] at hm
    obtain ⟨m1, m2, hpush, hload, hprepared⟩ := prepare_eq layout vector cr2 (j := 1)
      (fun m => m.load (m.registers .rsp + BitVec.ofNat 64 (15 * 8 + 0 * 8 + 128))) rfl
      hready hm fun m3 hrsp hmapped hframe => by
        rw [hrsp, slot_above (Nat.zero_le _)]
        exact load_of_eq (hready.stack 6 (by decide) (by decide)) hmapped (hframe 5 (Nat.lt_succ_self 5))
    obtain ⟨called, hcall, hover⟩ := hprepared.handedOver layout hready hm
    refine ⟨m0, called, hdeliver, bind_eq_ok.mpr ⟨m1, ?_, bind_eq_ok.mpr ⟨m2, hload, hcall⟩⟩,
      hover⟩
    rw [← hpush, hmdef]

end Prepare

section Exit
variable (layout : Layout) {rsp0 vector cr2 : Word} {errorCode : Option Word} {c : Context}
variable {called m : Machine}

/-- A handler has returned, and has kept so many words above its return address. Registers
are all its own. -/
structure HandlerReturns (words : ℕ) (called m : Machine) : Prop where
  rsp : m.registers .rsp = called.registers .rsp + 8
  stack : ∀ n, 1 ≤ n → n ≤ words →
    wordAt m.bytes (called.registers .rsp + BitVec.ofNat 64 (8 * n)) =
      wordAt called.bytes (called.registers .rsp + BitVec.ofNat 64 (8 * n))
  gsBase : m.gsBase = called.gsBase
  swapGSBase : m.swapGSBase = called.swapGSBase

/-- The frame that `iretq` takes: an error code is taken for the address to return to,
and each word of the frame for the next one. -/
def takenFrame (errorCode : Option Word) (c : Context) : InterruptFrame :=
  match errorCode with
  | none => c.frame
  | some code =>
    { rip := code
      cs := c.machine.rip
      rflags := c.cs
      rsp := c.machine.rflags
      ss := c.machine.registers .rsp }

/-- The frame is taken, and everything else is as it was. -/
structure Resumes (f : InterruptFrame) (c final : Context) : Prop where
  frame : final.frame = f
  registers : ∀ r, r ≠ .rsp → final.machine.registers r = c.machine.registers r
  gsBase : final.machine.gsBase = c.machine.gsBase
  swapGSBase : final.machine.swapGSBase = c.machine.swapGSBase

theorem HandlerReturns.wordAt_slot
    (h : HandlerReturns ((pushedWords errorCode c).length + 32) called m)
    (hover : HandedOver rsp0 vector cr2 errorCode c called) {k : ℕ} (hk : 1 ≤ k)
    (hle : k ≤ (pushedWords errorCode c).length + 32) :
    wordAt m.bytes (slot (c.interruptTop rsp0) k) =
      wordAt called.bytes (slot (c.interruptTop rsp0) k) := by
  have hslot := slot_add_ofNat (c.interruptTop rsp0) k ((pushedWords errorCode c).length + 33 - k)
  have hindex : k + ((pushedWords errorCode c).length + 33 - k) =
      (pushedWords errorCode c).length + 33 := by omega
  rw [hindex, ← hover.rsp] at hslot
  have hkept := h.stack ((pushedWords errorCode c).length + 33 - k) (by omega) (by omega)
  rwa [hslot] at hkept

theorem StackReady.swapReady {top : Word} {m m1 : Machine} {i : ℕ}
    (h : StackReady top (IsUser c.cs) m) (hi : i + 7 ≤ 44)
    (hrsp : m1.registers .rsp = slot top i) (hr8 : m1.registers .r8 = c.cs)
    (hbytes : m1.bytes = m.bytes) (hmapped : m1.mapped = m.mapped)
    (hswap : m1.swapGSBase = m.swapGSBase) : SwapReady 7 m1 := by
  intro huser
  rw [hr8] at huser
  refine ⟨(h.fs huser).congr hswap hbytes hmapped, fun k hk hle => ?_, fun k hk hle => ?_⟩
  · change Apart m1.swapGSBase (slot (m1.registers .rsp) k)
    rw [hswap, hrsp, slot_slot]
    exact h.gs huser _ (by omega) (by omega)
  · change Apart (wordAt m1.bytes m1.swapGSBase) (slot (m1.registers .rsp) k)
    rw [hbytes, hswap, hrsp, slot_slot]
    exact h.cell huser _ (by omega) (by omega)

/-- The GS bases are swapped twice or not at all. -/
theorem Swapped.back {user : Prop} [Decidable user] {m0 m1 m2 m3 : Machine}
    (h : Swapped user m0 m1) (hgs : m2.gsBase = m1.gsBase)
    (hswap : m2.swapGSBase = m1.swapGSBase) (h' : Swapped user m2 m3) :
    m3.gsBase = m0.gsBase ∧ m3.swapGSBase = m0.swapGSBase := by
  rw [h'.gsBase, h'.swapGSBase, hgs, hswap, h.gsBase, h.swapGSBase]
  split_ifs <;> exact ⟨rfl, rfl⟩

theorem popGeneralPurposeRegisters_eq {top : Word} {n : ℕ} (values : Register → Word)
    (hrsp : m.registers .rsp = slot top (n + 31))
    (hmapped : ∀ k, 1 ≤ k → k ≤ n + 31 → m.Mapped (slot top k))
    (hsaved : ∀ k, (hk : k < generalPurpose.length) →
      wordAt m.bytes (slot top (n + 16 + (k + 1))) = values generalPurpose[k]) :
    ∃ m1, popGeneralPurposeRegisters layout m = .ok m1 ∧
      Becomes m (Function.update values .rsp (slot top n)) m.bytes m1 := by
  have hpop : m.popAll generalPurpose.reverse = _ :=
    popAll_words top (n + 16) values (by decide)
      (hrsp.trans (congrArg (slot top) (show n + 31 = 15 + (n + 16) by omega)))
      (fun k hk hle => hmapped k (by omega) (hle.trans (show 15 + (n + 16) ≤ n + 31 by omega)))
      fun i hi => by
        have hlt : i < 15 := hi
        have hword := hsaved (14 - i) (show 14 - i < 15 by omega)
        have hindex : n + 16 + (14 - i + 1) = 15 - i + (n + 16) := by omega
        rw [hindex] at hword
        rw [List.getElem_reverse]
        exact hword
  refine ⟨_, bind_eq_ok.mpr ⟨_, hpop, rfl⟩, ?_, rfl, rfl, rfl, rfl⟩
  have hback : slot top (n + 16) + 128 = slot top n := slot_add_ofNat top n 16
  simp only [alu, registers_set, Function.update_self, Function.update_idem]
  rw [hback]
  funext r
  cases r <;> simp [generalPurpose]

/-- What `iretq` finds, by what the processor has pushed. -/
theorem takenFrame_eq (errorCode : Option Word) (c : Context) {n : ℕ}
    (hn : (pushedWords errorCode c).length = n + 5) (w : ℕ → Word)
    (hw : ∀ k, (hk : k < (pushedWords errorCode c).length) →
      w (k + 1) = (pushedWords errorCode c)[k]) :
    takenFrame errorCode c =
      { rip := w (n + 5)
        cs := w (n + 4)
        rflags := w (n + 3)
        rsp := w (n + 2)
        ss := w (n + 1) } := by
  have hword {k : ℕ} (hk : n ≤ k) (hlt : k < n + 5) := hw k (by omega)
  rw [hword (k := n + 4) (by omega) (by omega), hword (k := n + 3) (by omega) (by omega),
    hword (k := n + 2) (by omega) (by omega), hword (k := n + 1) (by omega) (by omega),
    hword (k := n) (by omega) (by omega)]
  cases errorCode with
  | none =>
    obtain rfl : n = 0 := Nat.add_right_cancel (hn.symm.trans (Nat.zero_add 5).symm)
    rfl
  | some code =>
    obtain rfl : n = 1 := Nat.add_right_cancel (hn.symm.trans rfl)
    rfl

theorem isrExit_eq (hover : HandedOver rsp0 vector cr2 errorCode c called)
    (hreturns : HandlerReturns ((pushedWords errorCode c).length + 32) called m)
    (hready : StackReady (c.interruptTop rsp0) (IsUser c.cs) m) :
    ∃ final, isrExit layout m = .ok final ∧ Resumes (takenFrame errorCode c) c final := by
  have hlength := length_pushedWords_cases errorCode c
  obtain ⟨n, hn⟩ : ∃ n, (pushedWords errorCode c).length = n + 5 :=
    ⟨(pushedWords errorCode c).length - 5, by omega⟩
  have hrsp : m.registers .rsp =
      slot (c.interruptTop rsp0) ((pushedWords errorCode c).length + 31 + 1) := by
    rw [hreturns.rsp, hover.rsp]
    exact slot_add _ _
  have hpop : m.pop .r8 = _ := pop_eq _ _ .r8 hrsp (hready.stack _ (by omega) (by omega))
  have hcs : wordAt m.bytes (slot (c.interruptTop rsp0)
      ((pushedWords errorCode c).length + 31 + 1)) = c.cs :=
    (hreturns.wordAt_slot hover (by omega) (by omega)).trans hover.selector
  rw [hcs] at hpop
  obtain ⟨m1, hm1⟩ : ∃ m1, m1 = (m.set .rsp (slot (c.interruptTop rsp0)
      ((pushedWords errorCode c).length + 31))).set .r8 c.cs := ⟨_, rfl⟩
  rw [← hm1] at hpop
  have hrsp1 : m1.registers .rsp =
      slot (c.interruptTop rsp0) ((pushedWords errorCode c).length + 31) := by
    rw [hm1]
    simp
  have hr8 : m1.registers .r8 = c.cs := by
    rw [hm1]
    simp
  have hsame : m1.bytes = m.bytes ∧ m1.mapped = m.mapped ∧ m1.gsBase = m.gsBase ∧
      m1.swapGSBase = m.swapGSBase := by
    rw [hm1]
    exact ⟨rfl, rfl, rfl, rfl⟩
  obtain ⟨hbytes, hmapped, hgs, hswap⟩ := hsame
  have hroom : m1.Room 7 := by
    intro k hk hle
    rw [hrsp1, slot_slot]
    exact mapped_of_eq (hready.stack _ (by omega) (by omega)) hmapped
  obtain ⟨m2, hcall, hleaves, hswapped⟩ := call_maybeSwapGS_eq layout layout.afterSwapOut hroom
    (hready.swapReady (by omega) hrsp1 hr8 hbytes hmapped hswap)
  rw [hr8] at hswapped
  have hword (k : ℕ) (hk : 1 ≤ k) (hle : k ≤ (pushedWords errorCode c).length + 31) :
      wordAt m2.bytes (slot (c.interruptTop rsp0) k) =
        wordAt called.bytes (slot (c.interruptTop rsp0) k) := by
    rw [hleaves.wordAt_slot hrsp1 hle (by omega), hbytes]
    exact hreturns.wordAt_slot hover hk (by omega)
  have hmapped2 {k : ℕ} (hk : 1 ≤ k) (hle : k ≤ 44) :
      m2.Mapped (slot (c.interruptTop rsp0) k) :=
    mapped_of_eq (hready.stack k hk hle) (hleaves.mapped.trans hmapped)
  obtain ⟨m3, hpopAll, h3⟩ := popGeneralPurposeRegisters_eq layout
    c.machine.registers (hleaves.registers ▸ hrsp1)
    (fun k hk hle => hmapped2 hk (by omega))
    fun k hk => (hword _ (by omega) (by
      have hlt : k < 15 := hk
      omega)).trans (hover.saved k hk)
  have hiretq := iretq_eq (m := m3) (c.interruptTop rsp0) n
    (by rw [h3.registers, Function.update_self, hn])
    fun k hk hle => mapped_of_eq (hmapped2 (by omega) (by omega)) h3.mapped
  have htaken := takenFrame_eq errorCode c hn
    (fun k => wordAt m3.bytes (slot (c.interruptTop rsp0) k)) fun k hk => by
      rw [h3.bytes, hword (k + 1) (by omega) (by omega)]
      exact hover.frame k hk
  obtain ⟨hback, hback'⟩ := hover.swapped.back (hgs.trans hreturns.gsBase)
    (hswap.trans hreturns.swapGSBase) hswapped
  refine ⟨_, bind_eq_ok.mpr ⟨m1, hpop, bind_eq_ok.mpr ⟨m2, hcall, bind_eq_ok.mpr
    ⟨m3, hpopAll, hiretq⟩⟩⟩, ?_, fun r hr => ?_, ?_, ?_⟩
  · rw [htaken]
    simp only [Context.frame, Function.update_self]
  · dsimp only
    rw [Function.update_of_ne hr, h3.registers, Function.update_of_ne hr]
  · exact h3.gsBase.trans hback
  · exact h3.swapGSBase.trans hback'

end Exit

section Run
variable (layout : Layout) (rsp0 stub vector cr2 : Word) (gate : Gate) (errorCode : Option Word)
variable (handler : Machine → Machine) (c : Context)

/-- An interrupt from the instruction before which it is taken to the `iretq` of its stub. -/
def interrupt : Except X86.Fault Context := do
  let m ← c.deliver rsp0 stub gate errorCode
  let called ← stubEntry layout vector cr2 errorCode m
  isrExit layout (handler called)

/-- A handler keeps the stack of the stub, and leaves what LoadFS needs on the way back. -/
def HandlerSuits : Prop := ∀ called, HandedOver rsp0 vector cr2 errorCode c called →
  HandlerReturns ((pushedWords errorCode c).length + 32) called (handler called) ∧
    StackReady (c.interruptTop rsp0) (IsUser c.cs) (handler called)

variable {rsp0 vector cr2 errorCode handler c}

theorem interrupt_eq (hready : StackReady (c.interruptTop rsp0) (IsUser c.cs) c.machine)
    (hsuits : HandlerSuits rsp0 vector cr2 errorCode handler c) :
    ∃ final, interrupt layout rsp0 stub vector cr2 gate errorCode handler c = .ok final ∧
      Resumes (takenFrame errorCode c) c final := by
  obtain ⟨m0, called, hdeliver, hentry, hover⟩ := entry_eq layout vector cr2 errorCode stub
    gate hready
  obtain ⟨hreturns, hafter⟩ := hsuits called hover
  obtain ⟨final, hexit, hresumes⟩ := isrExit_eq layout hover hreturns hafter
  exact ⟨final, bind_eq_ok.mpr ⟨m0, hdeliver, bind_eq_ok.mpr ⟨called, hentry, hexit⟩⟩, hresumes⟩

/-- An interrupt without an error code is not seen by what it interrupts: it goes on at
the same instruction, with all its registers, its flags and its GS bases. -/
theorem interrupt_returns (hready : StackReady (c.interruptTop rsp0) (IsUser c.cs) c.machine)
    (hsuits : HandlerSuits rsp0 vector cr2 none handler c) :
    ∃ final, interrupt layout rsp0 stub vector cr2 gate none handler c = .ok final ∧
      Resumes c.frame c final :=
  interrupt_eq layout stub gate hready hsuits

/-- After an exception with an error code, the error code is the address to go on at. -/
theorem interrupt_returns_to_error_code {code : Word}
    (hready : StackReady (c.interruptTop rsp0) (IsUser c.cs) c.machine)
    (hsuits : HandlerSuits rsp0 vector cr2 (some code) handler c) :
    ∃ final, interrupt layout rsp0 stub vector cr2 gate (some code) handler c = .ok final ∧
      Resumes ⟨code, c.machine.rip, c.cs, c.machine.rflags, c.machine.registers .rsp⟩ c final :=
  interrupt_eq layout stub gate hready hsuits

/-- The stack pointer at the first instruction of a handler. -/
theorem HandedOver.aligned_iff {called : Machine}
    (hover : HandedOver rsp0 vector cr2 errorCode c called) :
    (called.registers .rsp + 8).toNat % 16 = 0 ↔ errorCode.isSome = true := by
  have htop := c.toNat_interruptTop_mod rsp0
  have hlt := (c.interruptTop rsp0).isLt
  rw [hover.rsp, slot_add]
  unfold slot
  rw [BitVec.toNat_sub, BitVec.toNat_ofNat]
  cases errorCode with
  | none =>
    have hlength : (pushedWords none c).length = 5 := rfl
    rw [hlength, Option.isSome_none]
    simp only [Bool.false_eq_true, iff_false]
    omega
  | some code =>
    have hlength : (pushedWords (some code) c).length = 6 := rfl
    rw [hlength, Option.isSome_some]
    simp only [iff_true]
    omega

/-- Every handler gets the number of its interrupt and what the frame says. Its stack is
aligned exactly if there is an error code. The frame lies directly below the interrupted
stack pointer of the kernel, and all but 44 words of the memory are as they were. -/
theorem handler_called (hready : StackReady (c.interruptTop rsp0) (IsUser c.cs) c.machine) :
    ∃ m0 called, c.deliver rsp0 stub gate errorCode = .ok m0 ∧
      stubEntry layout vector cr2 errorCode m0 = .ok called ∧
      Passes vector cr2 errorCode c called ∧
      ((called.registers .rsp + 8).toNat % 16 = 0 ↔ errorCode.isSome = true) ∧
      (∀ k, (hk : k < (pushedWords errorCode c).length) →
        wordAt called.bytes (slot (c.interruptTop rsp0) (k + 1)) =
          (pushedWords errorCode c)[k]) ∧
      ∀ a, (∀ k, 1 ≤ k → k ≤ 44 → Apart a (slot (c.interruptTop rsp0) k)) →
        wordAt called.bytes a = wordAt c.machine.bytes a := by
  obtain ⟨m0, called, hdeliver, hentry, hover⟩ := entry_eq layout vector cr2 errorCode stub
    gate hready
  exact ⟨m0, called, hdeliver, hentry, hover.passes, hover.aligned_iff, hover.frame, hover.others⟩

end Run

section Witnesses

/-- Kernel code on a stack that ends at 0x9008. -/
def kernelContext : Context :=
  { machine :=
      { registers := fun _ => 0x9008
        rflags := 0x202
        rip := 0x401000
        gsBase := 0x7000
        swapGSBase := 0x7100
        fsBase := 0
        bytes := fun _ => 0
        mapped := fun _ => true }
    cs := 8
    ss := 16 }

def plainLayout : Layout :=
  { entry := ⟨0, 0, 0, 0, 0, fun _ rflags => rflags⟩
    afterGetGS := 0
    afterLoadFS := 0
    afterSwapIn := 0
    afterHandler := 0
    afterSwapOut := 0 }

/-- A handler that returns at once. -/
def returningHandler (m : Machine) : Machine := m.set .rsp (m.registers .rsp + 8)

theorem stackReady_kernelContext (m : Machine) (h : m.mapped = fun _ => true) :
    StackReady (kernelContext.interruptTop 0) (IsUser kernelContext.cs) m := by
  have hkernel : ¬ IsUser kernelContext.cs := by decide
  refine ⟨fun k _ _ i _ => ?_, fun huser => ?_, fun huser => ?_, fun huser => ?_⟩
  · rw [h]
  all_goals exact absurd huser hkernel

theorem handlerSuits_returningHandler (vector : Word) (errorCode : Option Word) :
    HandlerSuits 0 vector 0 errorCode returningHandler kernelContext := by
  intro called hover
  refine ⟨⟨?_, fun _ _ _ => rfl, rfl, rfl⟩, stackReady_kernelContext _ hover.mapped⟩
  unfold returningHandler
  rw [registers_set, Function.update_self]

theorem interrupt_returns_kernel : ∃ final, interrupt plainLayout 0 0x500000 33 0 .trap none
    returningHandler kernelContext = .ok final ∧
      Resumes kernelContext.frame kernelContext final :=
  interrupt_returns plainLayout 0x500000 .trap (stackReady_kernelContext _ rfl)
    (handlerSuits_returningHandler 33 none)

theorem alignment_check_returns_to_zero : ∃ final, interrupt plainLayout 0 0x500000 17 0 .trap
    (some 0) returningHandler kernelContext = .ok final ∧
      Resumes ⟨0, 0x401000, 8, 0x202, 0x9008⟩ kernelContext final :=
  interrupt_returns_to_error_code plainLayout 0x500000 .trap (stackReady_kernelContext _ rfl)
    (handlerSuits_returningHandler 17 (some 0))

theorem handler_called_kernel : ∃ m0 called,
    kernelContext.deliver 0 0x500000 .trap none = .ok m0 ∧
      stubEntry plainLayout 33 0 none m0 = .ok called ∧
      Passes 33 0 none kernelContext called ∧
      ((called.registers .rsp + 8).toNat % 16 = 0 ↔ (none : Option Word).isSome = true) ∧
      (∀ k, (hk : k < (pushedWords none kernelContext).length) →
        wordAt called.bytes (slot (kernelContext.interruptTop 0) (k + 1)) =
          (pushedWords none kernelContext)[k]) ∧
      ∀ a, (∀ k, 1 ≤ k → k ≤ 44 → Apart a (slot (kernelContext.interruptTop 0) k)) →
        wordAt called.bytes a = wordAt kernelContext.machine.bytes a :=
  handler_called plainLayout 0x500000 .trap (stackReady_kernelContext _ rfl)

end Witnesses

end Enkel.Interrupts
