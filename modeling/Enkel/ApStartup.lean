import Enkel.Types

/-!
How the other processors are started. The local APIC sends an interrupt to a processor when the
low half of its command register is written, and takes the processor from the high half. The ids
that are compared with the id of the bootstrap processor are those of the table; the register
that this one is read from has it in its bits 31 to 24, and the register as a whole is compared.

What the registers hold before a write is up to the hardware. The waits, for an interrupt to be
sent and for a processor to come up, are those of a hardware that answers.
-/
namespace Enkel.ApStartup

open Outcome

abbrev Word := BitVec 32

inductive Fault
  | misalignedVector
  | apicError
deriving DecidableEq, Repr

inductive LocalApicOffsets
  | errorStatusRegister
  | interruptCommandRegisterLow
  | interruptCommandRegisterHigh
deriving DecidableEq, Repr

abbrev deliveryModeInit : Word := 0x500
abbrev deliveryModeStartup : Word := 0x600
abbrev levelTrigger : Word := 0x8000
abbrev levelAssert : Word := 0x4000

/-- What the register holds before a write, and what the error status is, by the number of
writes before. -/
structure Hardware where
  existing : ℕ → Word
  errorStatus : ℕ → Word

structure Write where
  offset : LocalApicOffsets
  value : Word
deriving DecidableEq, Repr

section Functions

/-- WriteLocalApic: the bits of the mask are replaced. -/
def writeLocalApic (hw : Hardware) (offset : LocalApicOffsets) (value mask : Word)
    (writes : List Write) : List Write :=
  writes ++ [⟨offset, (hw.existing writes.length &&& ~~~mask) ||| (value &&& mask)⟩]

/-- The three writes that send an interrupt. -/
def command (hw : Hardware) (processorId : UInt8) (value mask : Word) (writes : List Write) :
    List Write :=
  writeLocalApic hw .interruptCommandRegisterLow value mask
    (writeLocalApic hw .interruptCommandRegisterHigh
      (processorId.toBitVec.setWidth 32 <<< 24) 0xFF000000
      (writeLocalApic hw .errorStatusRegister 0 (~~~0) writes))

/-- A turn of the loop in InitAPs for a processor that is started, by the physical address of
the trampoline. -/
def startProcessor (hw : Hardware) (trampoline : ℕ) (processorId : UInt8) (writes : List Write) :
    Except Fault (List Write) := do
  let startupAddress := trampoline / 4096
  require (startupAddress % 2 ^ 8 = startupAddress) .misalignedVector
  let writes := command hw processorId (levelTrigger ||| levelAssert ||| deliveryModeInit)
    0xFFFFF writes
  let writes := command hw processorId (levelTrigger ||| deliveryModeInit) 0xFFFFF writes
  require (hw.errorStatus writes.length = 0) .apicError
  let startup := deliveryModeStartup ||| BitVec.ofNat 32 startupAddress
  let writes := command hw processorId startup (~~~0) writes
  return command hw processorId startup (~~~0) writes

/-- The loop of InitAPs over the ids of the table. -/
def initAPs (hw : Hardware) (trampoline : ℕ) (bspId : Word) :
    List UInt8 → List Write → Except Fault (List Write)
  | [], writes => return writes
  | processorId :: processorIds, writes => do
    if processorId.toBitVec.setWidth 32 = bspId then
      initAPs hw trampoline bspId processorIds writes
    else
      let writes ← startProcessor hw trampoline processorId writes
      initAPs hw trampoline bspId processorIds writes

/-- The end of InitMADT: BSPId is the register as it is read. -/
def initMADT (hw : Hardware) (trampoline : ℕ) (localApicIdRegister : Word)
    (processorIds : List UInt8) : Except Fault (List Write) :=
  initAPs hw trampoline localApicIdRegister processorIds []

end Functions

section Interrupts

/-- An interrupt that is sent, with the bits 0 to 19 of its command. -/
structure Ipi where
  destination : UInt8
  command : BitVec 20
deriving DecidableEq, Repr

/-- The interrupts that the writes send, by what the high half holds. -/
def sent (high : Word) : List Write → List Ipi
  | [] => []
  | ⟨.interruptCommandRegisterHigh, value⟩ :: writes => sent value writes
  | ⟨.interruptCommandRegisterLow, value⟩ :: writes =>
    ⟨⟨high.extractLsb' 24 8⟩, value.extractLsb' 0 20⟩ :: sent high writes
  | ⟨.errorStatusRegister, _⟩ :: writes => sent high writes

/-- INIT, asserted and released, and STARTUP twice with the page of the trampoline. -/
def startupSequence (trampoline : ℕ) : List (BitVec 20) :=
  [0xC500, 0x8500, 0x600 ||| BitVec.ofNat 20 (trampoline / 4096),
    0x600 ||| BitVec.ofNat 20 (trampoline / 4096)]

/-- Each processor but the bootstrap processor gets the sequence once, and that one nothing. -/
def StartsOthers (trampoline : ℕ) (processorIds : List UInt8) (bsp : UInt8) (ipis : List Ipi) :
    Prop :=
  ∀ processorId ∈ processorIds,
    (ipis.filter (·.destination = processorId)).map (·.command) =
      if processorId = bsp then [] else startupSequence trampoline

/-- The id in bits 31 to 24. -/
def apicIdOf (localApicIdRegister : Word) : UInt8 := ⟨localApicIdRegister.extractLsb' 24 8⟩

end Interrupts

section Masks

/-- Bits inside the mask are those of the value. -/
theorem extractLsb'_masked {n start : ℕ} {existing value mask : Word}
    (hmask : ∀ i < n, mask.getLsbD (start + i) = true) :
    ((existing &&& ~~~mask) ||| (value &&& mask)).extractLsb' start n =
      value.extractLsb' start n := by
  apply BitVec.eq_of_getLsbD_eq
  intro i hi
  simp [hi, hmask i hi]

theorem extractLsb'_shift (processorId : UInt8) :
    (processorId.toBitVec.setWidth 32 <<< 24).extractLsb' 24 8 = processorId.toBitVec := by
  apply BitVec.eq_of_getLsbD_eq
  intro i hi
  have htop : 24 + i < 32 := by omega
  simp [hi, htop]

/-- The bits that are sent for STARTUP. -/
theorem extractLsb'_startup (startupAddress : ℕ) :
    (deliveryModeStartup ||| BitVec.ofNat 32 startupAddress).extractLsb' 0 20 =
      0x600 ||| BitVec.ofNat 20 startupAddress := by
  rw [← BitVec.setWidth_eq_extractLsb' (by decide), BitVec.setWidth_or,
    BitVec.setWidth_ofNat_of_le (by decide)]
  rfl

end Masks

section Sent
variable {hw : Hardware} {trampoline : ℕ} {processorId : UInt8}

/-- Writes that send the same whatever the high half holds do so behind any writes. -/
theorem sent_append {behind : List Write} {ipis : List Ipi}
    (hbehind : ∀ high, sent high behind = ipis) (high : Word) (writes : List Write) :
    sent high (writes ++ behind) = sent high writes ++ ipis := by
  induction writes generalizing high with
  | nil => exact hbehind high
  | cons w writes ih =>
    obtain ⟨offset, value⟩ := w
    cases offset with
    | errorStatusRegister => exact ih high
    | interruptCommandRegisterLow => exact congrArg (List.cons _) (ih high)
    | interruptCommandRegisterHigh => exact ih value

/-- A command sends one interrupt, to the processor whose id is shifted into the high half. -/
theorem sent_command {value mask : Word} (hmask : ∀ i < 20, mask.getLsbD (0 + i) = true)
    (high : Word) (writes : List Write) :
    sent high (command hw processorId value mask writes) =
      sent high writes ++ [⟨processorId, value.extractLsb' 0 20⟩] := by
  have hhigh : ∀ i < 8, (0xFF000000 : Word).getLsbD (24 + i) = true := by decide
  unfold command writeLocalApic
  rw [List.append_assoc, List.append_assoc]
  apply sent_append
  intro high
  simp only [List.cons_append, List.nil_append, sent]
  rw [extractLsb'_masked hmask, extractLsb'_masked hhigh, extractLsb'_shift]

/-- A processor that is started gets the whole sequence. -/
theorem startProcessor_spec (htrampoline : trampoline < 2 ^ 20)
    (hidle : ∀ k, hw.errorStatus k = 0) (writes : List Write) :
    ∃ writes', startProcessor hw trampoline processorId writes = .ok writes' ∧
      ∀ high, sent high writes' =
        sent high writes ++ (startupSequence trampoline).map (Ipi.mk processorId) := by
  have hvector : trampoline / 4096 % 2 ^ 8 = trampoline / 4096 := by omega
  have hinit : ∀ i < 20, (0xFFFFF : Word).getLsbD (0 + i) = true := by decide
  have hall : ∀ i < 20, (~~~0 : Word).getLsbD (0 + i) = true := by decide
  unfold startProcessor
  dsimp only
  rw [require_true hvector, ok_bind, require_true (hidle _), ok_bind]
  refine ⟨_, rfl, fun high => ?_⟩
  rw [sent_command hall, sent_command hall, sent_command hinit, sent_command hinit,
    extractLsb'_startup]
  simp only [List.append_assoc, List.singleton_append]
  rfl

end Sent

section Run
variable {hw : Hardware} {trampoline : ℕ} {bspId : Word} {processorIds : List UInt8}

/-- The ids that are not skipped. -/
def started (bspId : Word) (processorIds : List UInt8) : List UInt8 :=
  processorIds.filter fun processorId => processorId.toBitVec.setWidth 32 ≠ bspId

/-- The loop sends the sequence to every processor that it does not skip, in order. -/
theorem initAPs_spec (htrampoline : trampoline < 2 ^ 20) (hidle : ∀ k, hw.errorStatus k = 0)
    (writes : List Write) :
    ∃ writes', initAPs hw trampoline bspId processorIds writes = .ok writes' ∧
      ∀ high, sent high writes' = sent high writes ++
        (started bspId processorIds).flatMap fun processorId =>
          (startupSequence trampoline).map (Ipi.mk processorId) := by
  induction processorIds generalizing writes with
  | nil => exact ⟨writes, rfl, fun high => (List.append_nil _).symm⟩
  | cons processorId processorIds ih =>
    unfold initAPs started
    by_cases hskip : processorId.toBitVec.setWidth 32 = bspId
    · rw [if_pos hskip, List.filter_cons_of_neg (by simpa using hskip)]
      exact ih writes
    · obtain ⟨next, hnext, hsent⟩ := @startProcessor_spec hw trampoline processorId htrampoline
        hidle writes
      obtain ⟨writes', hrun, hrest⟩ := ih next
      rw [if_neg hskip, List.filter_cons_of_pos (by simpa using hskip), hnext, ok_bind]
      refine ⟨writes', hrun, fun high => ?_⟩
      rw [hrest, hsent, List.append_assoc, List.flatMap_cons]
      rfl

/-- Of the sequences of different processors, those to one of them. -/
theorem filter_sequences {ids : List UInt8} (hnodup : ids.Nodup) (processorId : UInt8) :
    ((ids.flatMap fun id => (startupSequence trampoline).map (Ipi.mk id)).filter
        (·.destination = processorId)).map (·.command) =
      if processorId ∈ ids then startupSequence trampoline else [] := by
  have hfilter : ∀ id, (((startupSequence trampoline).map (Ipi.mk id)).filter
      (·.destination = processorId)).map (·.command) =
      if processorId = id then startupSequence trampoline else [] := by
    intro id
    rw [List.filter_map, List.map_map]
    by_cases hid : processorId = id
    · subst hid
      simp [Function.comp_def]
    · simp [Function.comp_def, hid, Ne.symm hid]
  induction ids with
  | nil => rfl
  | cons id ids ih =>
    obtain ⟨hid, hnodup⟩ := List.nodup_cons.mp hnodup
    rw [List.flatMap_cons, List.filter_append, List.map_append, hfilter, ih hnodup]
    by_cases heq : processorId = id
    · subst heq
      simp [hid]
    · simp [heq]

end Run

section Skipped
variable {bspId : Word} {processorIds : List UInt8} {processorId : UInt8}

/-- An id is skipped when it is the whole register. -/
theorem mem_started : processorId ∈ started bspId processorIds ↔
    processorId ∈ processorIds ∧ processorId.toBitVec.setWidth 32 ≠ bspId := by
  unfold started
  rw [List.mem_filter, decide_eq_true_iff]

theorem apicIdOf_zero : apicIdOf 0 = 0 := rfl

/-- The id in a register that is no more than a byte is zero. -/
theorem apicIdOf_setWidth : apicIdOf (processorId.toBitVec.setWidth 32) = 0 := by
  unfold apicIdOf
  congr 1
  apply BitVec.eq_of_getLsbD_eq
  intro i hi
  have hhigh : processorId.toBitVec.getLsbD (24 + i) = false :=
    BitVec.getLsbD_of_ge _ _ (by omega)
  simp [hi, hhigh]

/-- The bootstrap processor is the one that is skipped only if the register is zero. -/
theorem skips_iff (hbsp : apicIdOf bspId ∈ processorIds) :
    (∀ processorId ∈ processorIds,
        (processorId ∈ started bspId processorIds ↔ processorId ≠ apicIdOf bspId)) ↔
      bspId = 0 := by
  constructor
  · intro hall
    have hskipped : apicIdOf bspId ∉ started bspId processorIds := fun h =>
      (hall _ hbsp).mp h rfl
    have heq : (apicIdOf bspId).toBitVec.setWidth 32 = bspId := by
      by_contra hne
      exact hskipped (mem_started.mpr ⟨hbsp, hne⟩)
    have hzero : apicIdOf bspId = 0 := by
      rw [← heq]
      exact apicIdOf_setWidth
    rw [← heq, hzero]
    rfl
  · rintro rfl processorId hmem
    have hbyte : processorId.toBitVec.setWidth 32 = (0 : Word) ↔ processorId = 0 := by
      constructor
      · intro hword
        have hvalue := congrArg BitVec.toNat hword
        rw [BitVec.toNat_setWidth] at hvalue
        have hlt := processorId.toBitVec.isLt
        apply UInt8.toNat.inj
        change processorId.toBitVec.toNat = 0
        change _ = 0 at hvalue
        omega
      · rintro rfl
        rfl
    rw [mem_started, apicIdOf_zero, Ne, hbyte]
    exact and_iff_right hmem

end Skipped

/-- A bootstrap processor with the id 1 is sent INIT and STARTUP like the other one. -/
theorem bootstrap_started : ∃ writes,
    initMADT ⟨fun _ => 0, fun _ => 0⟩ 0xC000 0x01000000 [0, 1] = .ok writes ∧
      apicIdOf 0x01000000 = 1 ∧
      ((sent 0 writes).filter (·.destination = 1)).map (·.command) =
        [0xC500, 0x8500, 0x60C, 0x60C] :=
  ⟨_, rfl, rfl, by decide⟩

/-- When the hardware answers, the sequence is sent once to each processor of the table but the
bootstrap processor exactly if the register is zero, as for a bootstrap processor with the id
0. -/
theorem initMADT_starts_iff (hw : Hardware) (trampoline : ℕ) (localApicIdRegister high : Word)
    (processorIds : List UInt8) (hnodup : processorIds.Nodup)
    (hbsp : apicIdOf localApicIdRegister ∈ processorIds) (htrampoline : trampoline < 2 ^ 20)
    (hidle : ∀ k, hw.errorStatus k = 0) :
    ∃ writes, initMADT hw trampoline localApicIdRegister processorIds = .ok writes ∧
      (StartsOthers trampoline processorIds (apicIdOf localApicIdRegister) (sent high writes) ↔
        localApicIdRegister = 0) := by
  obtain ⟨writes, hrun, hsent⟩ := @initAPs_spec hw trampoline localApicIdRegister processorIds
    htrampoline hidle []
  refine ⟨writes, hrun, ?_⟩
  have hstarted : (started localApicIdRegister processorIds).Nodup := hnodup.filter _
  have hne : startupSequence trampoline ≠ [] := List.cons_ne_nil _ _
  rw [← skips_iff hbsp]
  unfold StartsOthers
  refine forall₂_congr fun processorId _ => ?_
  rw [hsent, sent, List.nil_append, filter_sequences hstarted]
  by_cases hmem : processorId ∈ started localApicIdRegister processorIds
  · by_cases hown : processorId = apicIdOf localApicIdRegister
    · rw [if_pos hmem, if_pos hown]
      exact iff_of_false hne fun h => h.mp hmem hown
    · rw [if_pos hmem, if_neg hown]
      exact iff_of_true rfl (iff_of_true hmem hown)
  · by_cases hown : processorId = apicIdOf localApicIdRegister
    · rw [if_neg hmem, if_pos hown]
      exact iff_of_true rfl (iff_of_false hmem (not_not_intro hown))
    · rw [if_neg hmem, if_neg hown]
      exact iff_of_false hne.symm fun h => hmem (h.mpr hown)

/-- Three processors, started by the first. -/
theorem initMADT_starts_iff_three : ∃ writes,
    initMADT ⟨fun _ => 0, fun _ => 0⟩ 0xC000 0 [0, 2, 1] = .ok writes ∧
      (StartsOthers 0xC000 [0, 2, 1] (apicIdOf 0) (sent 0 writes) ↔ (0 : Word) = 0) :=
  initMADT_starts_iff ⟨fun _ => 0, fun _ => 0⟩ 0xC000 0 0 [0, 2, 1] (by decide) (by decide)
    (by decide) (fun _ => rfl)

end Enkel.ApStartup
