import Enkel.FileMapping
import Enkel.LargePages
import Enkel.ReadTraces
import Enkel.TranslatedWords

/-!
PrintStackTrace. The loop follows the chain of frames and looks at two addresses of a frame, its
first and the one behind it, before it prints it. But the instruction pointer of the frame has
been read by then, to see whether it is zero, and it is read again for the line that says that
the address is invalid. It is also read when no frames are left to be printed.
-/
namespace Enkel.StackTrace

open Trace Traced Paging TranslatedMemory FileMapping

inductive Stop
  /-- The loop has not ended yet. -/
  | running
  | pageFault
deriving DecidableEq, Repr

/-- A computation that notes the frames that it dereferences. -/
abbrev Walk := Traced ℕ Stop

abbrev sizeofStackFrame : ℕ := 16

/-- A line that is printed, for a frame or for an address that is invalid. -/
structure Line where
  stackIndex : ℕ
  rip : ℕ
  invalidPointer : Bool
deriving DecidableEq, Repr

section Functions
variable (k : KernelMemory) (ram : ℕ → UInt8)

/-- The translation of the processor. -/
def translation (address : ℕ) : Option ℕ :=
  if Canonical address then pageWalk k.entries k.cr3 address else none

/-- A field of a frame. -/
def readField (top offset : ℕ) : Walk ℕ := do
  note top
  silent (match loadWord (translation k) ram ((top + offset) % 2 ^ 64) 8 with
    | some value => .ok value
    | none => .error .pageFault)

def readRBP (top : ℕ) : Walk ℕ := readField k ram top 0

def readRIP (top : ℕ) : Walk ℕ := readField k ram top 8

/-- The test of a frame before it is printed. -/
def InvalidPointer (top : ℕ) : Prop :=
  k.getPhysicalAddress top true = invalidAddress ∨
    k.getPhysicalAddress (add64 top sizeofStackFrame) true = invalidAddress

instance (top : ℕ) : Decidable (InvalidPointer k top) := inferInstanceAs (Decidable (_ ∨ _))

/-- The loop of PrintStackTrace, with the lines that it prints. -/
def traceLoop : (fuel : ℕ) → (maxFrames : ℤ) → (stackIndex top prev : ℕ) → Walk (List Line)
  | 0, _, _, _, _ => silent (.error .running)
  | fuel + 1, maxFrames, stackIndex, top, prev => do
    if top = 0 ∨ top = prev then
      return []
    else
      let rip ← readRIP k ram top
      if rip = 0 ∨ maxFrames = 0 then
        return []
      else if InvalidPointer k top then
        let rip ← readRIP k ram top
        return [⟨stackIndex, rip, true⟩]
      else
        let rip ← readRIP k ram top
        let rbp ← readRBP k ram top
        let later ← traceLoop fuel (maxFrames - 1) (stackIndex + 1) rbp top
        return ⟨stackIndex, rip, false⟩ :: later

/-- FromSyscall, on the stack of the function. -/
def fillFromSyscall (fromSyscall stackRIP stackRBP : ℕ) : Option (ℕ → UInt8) := do
  let ram ← storeWord (translation k) fromSyscall stackRBP 8 ram
  storeWord (translation k) (add64 fromSyscall 8) stackRIP 8 ram

/-- The frame at which the loop starts. -/
def firstFrame (fromSyscall currentStackFrame stackRBP : ℕ) : ℕ :=
  if stackRBP = 0 then currentStackFrame else fromSyscall

/-- PrintStackTrace, by the address of FromSyscall and what GetCurrentStackFrame returns. -/
def printStackTrace (fuel fromSyscall currentStackFrame : ℕ) (maxFrames : ℤ)
    (stackRIP stackRBP : ℕ) : Walk (List Line) :=
  match fillFromSyscall k ram fromSyscall stackRIP stackRBP with
  | none => silent (.error .pageFault)
  | some ram =>
    traceLoop k ram fuel maxFrames 0 (firstFrame fromSyscall currentStackFrame stackRBP) 0

end Functions

section Specification
variable (k : KernelMemory) (ram : ℕ → UInt8)

/-- Every byte of the frame can be accessed. -/
def FrameMapped (top : ℕ) : Prop :=
  ∀ i < sizeofStackFrame, (translation k ((top + i) % 2 ^ 64)).isSome

instance (top : ℕ) : Decidable (FrameMapped k top) := inferInstanceAs (Decidable (∀ i < _, _))

/-- The walk ends, it prints no more lines than it may, and it only dereferences frames that are
mapped. -/
def Safe (maxFrames : ℤ) (walk : ℕ → Walk (List Line)) : Prop :=
  ∃ fuel lines, (walk fuel).result = .ok lines ∧ (lines.length : ℤ) ≤ maxFrames ∧
    (walk fuel).All (FrameMapped k)

/-- The fields of a frame that is mapped. -/
def rbpOf (top : ℕ) : ℕ := (loadWord (translation k) ram ((top + 0) % 2 ^ 64) 8).getD 0
def ripOf (top : ℕ) : ℕ := (loadWord (translation k) ram ((top + 8) % 2 ^ 64) 8).getD 0

/-- The links of the chain from a frame on, with the frame before it. -/
def chain : (i top prev : ℕ) → ℕ × ℕ
  | 0, top, prev => (top, prev)
  | i + 1, top, _ => chain i (rbpOf k ram top) top

/-- A link is looked at if it is not null or a frame that points to itself. -/
def LookedAt (link : ℕ × ℕ) : Prop := link.1 ≠ 0 ∧ link.1 ≠ link.2

instance (link : ℕ × ℕ) : Decidable (LookedAt link) := inferInstanceAs (Decidable (_ ∧ _))

/-- The loop goes on behind a frame that has an instruction pointer and passes the test. -/
def Passed (top : ℕ) : Prop := ripOf k ram top ≠ 0 ∧ ¬ InvalidPointer k top

instance (top : ℕ) : Decidable (Passed k ram top) := inferInstanceAs (Decidable (_ ∧ _))

/-- The frames that the loop comes to, as far as it has frames left, are mapped. -/
def ReachedMapped (maxFrames : ℤ) (top prev : ℕ) : Prop :=
  ∀ i : ℕ, i ≤ maxFrames →
    (∀ j < i, LookedAt (chain k ram j top prev) ∧ Passed k ram (chain k ram j top prev).1) →
    LookedAt (chain k ram i top prev) → FrameMapped k (chain k ram i top prev).1

end Specification

section Fields
variable {k : KernelMemory} {ram : ℕ → UInt8} {top : ℕ}

/-- A field of a frame that is mapped is read. -/
theorem readField_result (hmapped : FrameMapped k top) {offset : ℕ}
    (hoffset : offset + 8 ≤ sizeofStackFrame) :
    (readField k ram top offset).result =
      .ok ((loadWord (translation k) ram ((top + offset) % 2 ^ 64) 8).getD 0) := by
  have hsome : (loadWord (translation k) ram ((top + offset) % 2 ^ 64) 8).isSome := by
    rw [loadWord_isSome_iff]
    intro i hi
    have hbyte := hmapped (offset + i) (by omega)
    rwa [Nat.mod_add_mod, Nat.add_assoc]
  obtain ⟨value, hvalue⟩ := Option.isSome_iff_exists.mp hsome
  unfold readField
  rw [hvalue, result_bind, result_note, Outcome.ok_bind, result_silent]
  rfl

theorem readRIP_result (hmapped : FrameMapped k top) :
    (readRIP k ram top).result = .ok (ripOf k ram top) :=
  readField_result hmapped le_rfl

theorem readRBP_result (hmapped : FrameMapped k top) :
    (readRBP k ram top).result = .ok (rbpOf k ram top) :=
  readField_result hmapped (by decide)

theorem readRIP_all : (readRIP k ram top).All (FrameMapped k) ↔ FrameMapped k top :=
  List.forall_mem_singleton

theorem readRBP_all : (readRBP k ram top).All (FrameMapped k) ↔ FrameMapped k top :=
  List.forall_mem_singleton

end Fields

section Loop
variable {k : KernelMemory} {ram : ℕ → UInt8} {fuel stackIndex top prev : ℕ} {maxFrames : ℤ}

/-- A turn of the loop. -/
theorem traceLoop_succ : traceLoop k ram (fuel + 1) maxFrames stackIndex top prev =
    if top = 0 ∨ top = prev then pure []
    else readRIP k ram top >>= fun rip =>
      if rip = 0 ∨ maxFrames = 0 then pure []
      else if InvalidPointer k top then
        readRIP k ram top >>= fun rip => pure [⟨stackIndex, rip, true⟩]
      else readRIP k ram top >>= fun rip => readRBP k ram top >>= fun rbp =>
        traceLoop k ram fuel (maxFrames - 1) (stackIndex + 1) rbp top >>= fun later =>
          pure (⟨stackIndex, rip, false⟩ :: later) := rfl

theorem traceLoop_end (hend : ¬ LookedAt (top, prev)) :
    traceLoop k ram (fuel + 1) maxFrames stackIndex top prev = pure [] := by
  rw [traceLoop_succ]
  apply if_pos
  unfold LookedAt at hend
  tauto

/-- A frame that is looked at is dereferenced first of all. -/
theorem mapped_of_all (hlooked : LookedAt (top, prev))
    (hall : (traceLoop k ram (fuel + 1) maxFrames stackIndex top prev).All (FrameMapped k)) :
    FrameMapped k top := by
  rw [traceLoop_succ, if_neg (not_or.mpr hlooked), all_bind] at hall
  exact readRIP_all.mp hall.1

/-- What a turn returns for a frame that is mapped. -/
theorem traceLoop_result (hlooked : LookedAt (top, prev)) (hmapped : FrameMapped k top) :
    (traceLoop k ram (fuel + 1) maxFrames stackIndex top prev).result =
      if ripOf k ram top = 0 ∨ maxFrames = 0 then .ok []
      else if InvalidPointer k top then .ok [⟨stackIndex, ripOf k ram top, true⟩]
      else (traceLoop k ram fuel (maxFrames - 1) (stackIndex + 1) (rbpOf k ram top) top).result
        >>= fun later => .ok (⟨stackIndex, ripOf k ram top, false⟩ :: later) := by
  rw [traceLoop_succ, if_neg (not_or.mpr hlooked), result_bind, readRIP_result hmapped,
    Outcome.ok_bind]
  split_ifs
  · rfl
  · rw [result_bind, readRIP_result hmapped, Outcome.ok_bind]
    rfl
  · rw [result_bind, readRIP_result hmapped, Outcome.ok_bind, result_bind,
      readRBP_result hmapped, Outcome.ok_bind, result_bind]
    rfl

/-- What a turn dereferences, for a frame that is mapped. -/
theorem traceLoop_all (hlooked : LookedAt (top, prev)) (hmapped : FrameMapped k top) :
    (traceLoop k ram (fuel + 1) maxFrames stackIndex top prev).All (FrameMapped k) ↔
      (¬ (ripOf k ram top = 0 ∨ maxFrames = 0) → ¬ InvalidPointer k top →
        (traceLoop k ram fuel (maxFrames - 1) (stackIndex + 1) (rbpOf k ram top) top).All
          (FrameMapped k)) := by
  have hfirst : (readRIP k ram top).All (FrameMapped k) := readRIP_all.mpr hmapped
  have hlast : (readRBP k ram top).All (FrameMapped k) := readRBP_all.mpr hmapped
  have hrip : (readRIP k ram top).result = .ok (ripOf k ram top) := readRIP_result hmapped
  have hrbp : (readRBP k ram top).result = .ok (rbpOf k ram top) := readRBP_result hmapped
  rw [traceLoop_succ, if_neg (not_or.mpr hlooked)]
  constructor
  · intro hall hgoes hvalid
    have hall := (all_bind.mp hall).2 _ hrip
    rw [if_neg hgoes, if_neg hvalid] at hall
    have hall := (all_bind.mp hall).2 _ hrip
    have hall := (all_bind.mp hall).2 _ hrbp
    exact (all_bind.mp hall).1
  · intro hrest
    refine all_bind.mpr ⟨hfirst, fun rip hresult => ?_⟩
    cases hrip.symm.trans hresult
    split_ifs with hstop hinvalid
    · exact all_pure _
    · exact all_bind.mpr ⟨hfirst, fun _ _ => all_pure _⟩
    · refine all_bind.mpr ⟨hfirst, fun _ _ => all_bind.mpr ⟨hlast, fun rbp hresult => ?_⟩⟩
      cases hrbp.symm.trans hresult
      exact all_bind.mpr ⟨hrest hstop hinvalid, fun _ _ => all_pure _⟩

end Loop

section Safety
variable {k : KernelMemory} {ram : ℕ → UInt8} {stackIndex top prev : ℕ}

/-- The walk from a frame on is safe when the frame is mapped, and the walk behind it is safe if
there is one. -/
theorem safe_traceLoop_iff (n : ℕ) :
    Safe k n (traceLoop k ram · n stackIndex top prev) ↔
      (LookedAt (top, prev) → FrameMapped k top ∧ (n ≠ 0 → Passed k ram top →
        Safe k (n - 1) (traceLoop k ram · (n - 1) (stackIndex + 1) (rbpOf k ram top) top))) := by
  by_cases hlooked : LookedAt (top, prev)
  · rw [forall_prop_of_true hlooked]
    constructor
    · rintro ⟨fuel, lines, hresult, hlines, hall⟩
      cases fuel with
      | zero => cases hresult
      | succ fuel =>
        have hmapped := mapped_of_all hlooked hall
        refine ⟨hmapped, fun hn hpassed => ?_⟩
        have hgoes : ¬ (ripOf k ram top = 0 ∨ (n : ℤ) = 0) := by
          rintro (hzero | hzero)
          · exact hpassed.1 hzero
          · exact hn (by exact_mod_cast hzero)
        rw [traceLoop_result hlooked hmapped, if_neg hgoes, if_neg hpassed.2] at hresult
        obtain ⟨later, hlater, hcons⟩ := Outcome.bind_eq_ok.mp hresult
        cases hcons
        refine ⟨fuel, later, hlater, ?_, (traceLoop_all hlooked hmapped).mp hall hgoes hpassed.2⟩
        rw [List.length_cons] at hlines
        omega
    · rintro ⟨hmapped, hrest⟩
      by_cases hstop : ripOf k ram top = 0 ∨ (n : ℤ) = 0
      · refine ⟨1, [], ?_, Int.natCast_nonneg n, ?_⟩
        · rw [traceLoop_result hlooked hmapped, if_pos hstop]
        · exact (traceLoop_all hlooked hmapped).mpr fun hgoes => absurd hstop hgoes
      · have hn : n ≠ 0 := fun hzero => hstop (Or.inr (by exact_mod_cast hzero))
        by_cases hinvalid : InvalidPointer k top
        · refine ⟨1, [⟨stackIndex, ripOf k ram top, true⟩], ?_, ?_, ?_⟩
          · rw [traceLoop_result hlooked hmapped, if_neg hstop, if_pos hinvalid]
          · rw [List.length_singleton]
            omega
          · exact (traceLoop_all hlooked hmapped).mpr fun _ hvalid => absurd hinvalid hvalid
        · have hpassed : Passed k ram top := ⟨fun hzero => hstop (Or.inl hzero), hinvalid⟩
          obtain ⟨fuel, later, hlater, hlines, hall⟩ := hrest hn hpassed
          refine ⟨fuel + 1, ⟨stackIndex, ripOf k ram top, false⟩ :: later, ?_, ?_, ?_⟩
          · rw [traceLoop_result hlooked hmapped, if_neg hstop, if_neg hinvalid, hlater]
            rfl
          · rw [List.length_cons]
            omega
          · exact (traceLoop_all hlooked hmapped).mpr fun _ _ => hall
  · rw [forall_prop_of_false hlooked, iff_true]
    refine ⟨1, [], ?_, Int.natCast_nonneg n, ?_⟩
    · dsimp only
      rw [traceLoop_end hlooked]
      rfl
    · dsimp only
      rw [traceLoop_end hlooked]
      exact all_pure _

/-- The same step for the frames that the loop comes to. -/
theorem reachedMapped_iff (n : ℕ) :
    ReachedMapped k ram n top prev ↔
      (LookedAt (top, prev) → FrameMapped k top ∧ (n ≠ 0 → Passed k ram top →
        ReachedMapped k ram (n - 1) (rbpOf k ram top) top)) := by
  constructor
  · intro hall hlooked
    refine ⟨hall 0 (Int.natCast_nonneg n) (fun j hj => absurd hj (Nat.not_lt_zero j)) hlooked,
      fun hn hpassed i hi hbefore hlast => ?_⟩
    refine hall (i + 1) (by omega) (fun j hj => ?_) hlast
    cases j with
    | zero => exact ⟨hlooked, hpassed⟩
    | succ j => exact hbefore j (by omega)
  · intro hstep i hi hbefore hlast
    cases i with
    | zero => exact (hstep hlast).1
    | succ i =>
      obtain ⟨hlooked, hpassed⟩ := hbefore 0 (Nat.succ_pos i)
      exact (hstep hlooked).2 (by omega) hpassed i (by omega)
        (fun j hj => hbefore (j + 1) (by omega)) hlast

theorem safe_iff_reachedMapped (n : ℕ) :
    Safe k n (traceLoop k ram · n stackIndex top prev) ↔ ReachedMapped k ram n top prev := by
  induction n generalizing stackIndex top prev with
  | zero =>
    rw [safe_traceLoop_iff, reachedMapped_iff]
    simp
  | succ n ih =>
    have hpred : ((n + 1 : ℕ) : ℤ) - 1 = n := by omega
    rw [safe_traceLoop_iff, reachedMapped_iff, hpred, ih]

end Safety

section Frames
variable {k : KernelMemory} {ram : ℕ → UInt8} {top : ℕ}

/-- GetPhysicalAddress answers for a page as a whole. -/
theorem isSome_of_same_page {x y : ℕ} (hpage : x / 4096 = y / 4096)
    (hvalid : k.getPhysicalAddress y true ≠ invalidAddress) :
    (pageWalk k.entries k.cr3 x).isSome := by
  have h39 : x / 2 ^ 39 = y / 2 ^ 39 := by omega
  have h30 : x / 2 ^ 30 = y / 2 ^ 30 := by omega
  have h21 : x / 2 ^ 21 = y / 2 ^ 21 := by omega
  have h12 : x / 2 ^ 12 = y / 2 ^ 12 := by omega
  have h4 : pml4e k x = pml4e k y := by unfold pml4e; rw [h39]
  have h3 : pdpte k x = pdpte k y := by unfold pdpte; rw [h4, h30]
  have h2 : pde k x = pde k y := by unfold pde; rw [h3, h21]
  have h1 : pte k x = pte k y := by unfold pte; rw [h2, h12]
  rw [getPhysicalAddress_entries] at hvalid
  rw [pageWalk_entries, h4, h3, h2, h1]
  split_ifs at hvalid ⊢ <;> first | rfl | exact absurd rfl hvalid

/-- A frame that passes the test is mapped, if its addresses are canonical: it lies in the two
pages that are looked up. -/
theorem frameMapped_of_valid (htop : top < 2 ^ 64) (hvalid : ¬ InvalidPointer k top)
    (hcanonical : ∀ i < sizeofStackFrame, Canonical ((top + i) % 2 ^ 64)) :
    FrameMapped k top := by
  obtain ⟨hfirst, hbehind⟩ := not_or.mp hvalid
  have hsize : sizeofStackFrame = 16 := rfl
  intro i hi
  unfold translation
  rw [if_pos (hcanonical i hi)]
  by_cases hpage : (top + i) % 2 ^ 64 / 4096 = top / 4096
  · exact isSome_of_same_page hpage hfirst
  · refine isSome_of_same_page ?_ hbehind
    unfold add64
    omega

theorem readField_cases (top offset : ℕ) :
    (readField k ram top offset).result = .error .pageFault ∨
      ∃ value, (readField k ram top offset).result = .ok value := by
  unfold readField
  rw [result_bind, result_note, Outcome.ok_bind, result_silent]
  cases loadWord (translation k) ram ((top + offset) % 2 ^ 64) 8 with
  | none => exact Or.inl rfl
  | some value => exact Or.inr ⟨value, rfl⟩

/-- In any memory the walk comes to an end, at a page fault if not before, and it prints no more
lines than it may. -/
theorem traceLoop_ends (n fuel stackIndex top prev : ℕ) (hfuel : n < fuel) :
    (traceLoop k ram fuel n stackIndex top prev).result = .error .pageFault ∨
      ∃ lines, (traceLoop k ram fuel n stackIndex top prev).result = .ok lines ∧
        lines.length ≤ n := by
  induction fuel generalizing n stackIndex top prev with
  | zero => exact absurd hfuel (Nat.not_lt_zero n)
  | succ fuel ih =>
    rw [traceLoop_succ]
    by_cases hend : top = 0 ∨ top = prev
    · rw [if_pos hend]
      exact Or.inr ⟨[], rfl, Nat.zero_le n⟩
    rw [if_neg hend, result_bind]
    rcases @readField_cases k ram top 8 with hfault | ⟨rip, hrip⟩
    · have hfault : (readRIP k ram top).result = .error .pageFault := hfault
      rw [hfault]
      exact Or.inl rfl
    have hrip : (readRIP k ram top).result = .ok rip := hrip
    rw [hrip, Outcome.ok_bind]
    by_cases hstop : rip = 0 ∨ (n : ℤ) = 0
    · rw [if_pos hstop]
      exact Or.inr ⟨[], rfl, Nat.zero_le n⟩
    obtain ⟨m, rfl⟩ : ∃ m, n = m + 1 :=
      Nat.exists_eq_succ_of_ne_zero fun hzero => hstop (Or.inr (by exact_mod_cast hzero))
    rw [if_neg hstop]
    by_cases hinvalid : InvalidPointer k top
    · rw [if_pos hinvalid, result_bind, hrip, Outcome.ok_bind]
      exact Or.inr ⟨_, rfl, Nat.le_add_left 1 m⟩
    rw [if_neg hinvalid, result_bind, hrip, Outcome.ok_bind, result_bind]
    rcases @readField_cases k ram top 0 with hfault | ⟨rbp, hrbp⟩
    · have hfault : (readRBP k ram top).result = .error .pageFault := hfault
      rw [hfault]
      exact Or.inl rfl
    have hrbp : (readRBP k ram top).result = .ok rbp := hrbp
    have hpred : ((m + 1 : ℕ) : ℤ) - 1 = m := by omega
    rw [hrbp, Outcome.ok_bind, hpred, result_bind]
    rcases ih m (stackIndex + 1) rbp top (by omega) with hfault | ⟨later, hlater, hlines⟩
    · rw [hfault]
      exact Or.inl rfl
    · rw [hlater]
      exact Or.inr ⟨_, rfl, Nat.succ_le_succ hlines⟩

end Frames

section Function
variable {k : KernelMemory} {ram : ℕ → UInt8} {fromSyscall stackRIP stackRBP : ℕ}

/-- FromSyscall is filled if the stack is mapped where it lies. -/
theorem fillFromSyscall_isSome_iff :
    (fillFromSyscall k ram fromSyscall stackRIP stackRBP).isSome ↔ FrameMapped k fromSyscall := by
  have hhalf (ram : ℕ → UInt8) (value offset : ℕ) :
      (storeWord (translation k) (add64 fromSyscall offset) value 8 ram).isSome ↔
        ∀ i < 8, (translation k ((fromSyscall + (offset + i)) % 2 ^ 64)).isSome := by
    rw [storeWord_isSome_iff]
    unfold add64
    simp only [Nat.mod_add_mod, Nat.add_assoc]
  have hfirst : (storeWord (translation k) fromSyscall stackRBP 8 ram).isSome ↔
      ∀ i < 8, (translation k ((fromSyscall + i) % 2 ^ 64)).isSome := storeWord_isSome_iff
  have hfill : (fillFromSyscall k ram fromSyscall stackRIP stackRBP).isSome ↔
      (∀ i < 8, (translation k ((fromSyscall + i) % 2 ^ 64)).isSome) ∧
        ∀ i < 8, (translation k ((fromSyscall + (8 + i)) % 2 ^ 64)).isSome := by
    rw [← hfirst]
    unfold fillFromSyscall
    cases storeWord (translation k) fromSyscall stackRBP 8 ram with
    | none => simp
    | some stored => simp [hhalf]
  have hsize : sizeofStackFrame = 16 := rfl
  rw [hfill]
  constructor
  · rintro ⟨hlow, hhigh⟩ i hi
    by_cases h : i < 8
    · exact hlow i h
    · have hi := hhigh (i - 8) (by omega)
      rwa [Nat.add_sub_cancel' (by omega)] at hi
  · intro hmapped
    exact ⟨fun i hi => hmapped i (by omega), fun i hi => hmapped (8 + i) (by omega)⟩

/-- For every map and every contents of memory: PrintStackTrace is safe exactly if the frames
that it comes to are mapped. The test of a frame comes too late for it. -/
theorem printStackTrace_safe_iff (k : KernelMemory) (ram : ℕ → UInt8)
    (fromSyscall currentStackFrame stackRIP stackRBP : ℕ) (maxFrames : ℤ)
    (hmax : 0 ≤ maxFrames) :
    Safe k maxFrames
        (printStackTrace k ram · fromSyscall currentStackFrame maxFrames stackRIP stackRBP) ↔
      ∃ filled, fillFromSyscall k ram fromSyscall stackRIP stackRBP = some filled ∧
        ReachedMapped k filled maxFrames
          (firstFrame fromSyscall currentStackFrame stackRBP) 0 := by
  obtain ⟨n, rfl⟩ := Int.eq_ofNat_of_zero_le hmax
  unfold printStackTrace
  cases fillFromSyscall k ram fromSyscall stackRIP stackRBP with
  | none =>
    constructor
    · rintro ⟨fuel, lines, hresult, -⟩
      cases hresult
    · rintro ⟨filled, hfilled, -⟩
      cases hfilled
  | some filled =>
    simp only [Option.some.injEq, exists_eq_left']
    exact safe_iff_reachedMapped n

end Function

/-- A map of the first 2 MiB, by one large page. -/
def lowMemory : KernelMemory :=
  { onFirmwareTables with
    entries := fun table index =>
      if table = 0x1000 ∧ index = 0 then 0x2003
      else if table = 0x2000 ∧ index = 0 then 0x3003
      else if table = 0x3000 ∧ index = 0 then 0x83
      else 0 }

/-- A trace for registers of a program, of which RBP points to a frame that is empty. -/
theorem printStackTrace_safe_iff_empty :
    Safe lowMemory 30 (printStackTrace lowMemory (fun _ => 0) · 0x8000 0 30 0x401000 0x9000) := by
  refine (printStackTrace_safe_iff lowMemory (fun _ => 0) 0x8000 0 0x401000 0x9000 30
    (by decide)).mpr ⟨_, rfl, ?_⟩
  refine (reachedMapped_iff 30).mpr fun _ => ⟨by decide, fun _ _ => ?_⟩
  refine (reachedMapped_iff 29).mpr fun _ => ⟨by decide, fun _ hpassed => ?_⟩
  exact absurd rfl hpassed.1

/-- RBP is a number of the program and not the address of a frame. It is dereferenced although
nothing is mapped there. -/
theorem unmapped_frame_read :
    ¬ Safe lowMemory 30
      (printStackTrace lowMemory (fun _ => 0) · 0x8000 0 30 0x401000 0x40000000) := by
  intro hsafe
  have hreached := (reachedMapped_iff 30).mp ((safe_iff_reachedMapped 30).mp hsafe)
  obtain ⟨-, hrest⟩ := hreached (by decide)
  have hnext := (reachedMapped_iff 29).mp (hrest (by decide) (by decide))
  exact absurd (hnext (by decide)).1 (by decide)

end Enkel.StackTrace
