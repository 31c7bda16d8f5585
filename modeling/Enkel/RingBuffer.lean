import Enkel.Circular
import Enkel.RequestRuns

/-!
The ring buffer of the kernel. Head and Tail are positions in an array; where they
meet, a flag tells a full buffer from an empty one. An array has fewer than 2^63
elements, so that none of the sums of positions wraps.
-/
namespace Enkel.RingQueue

open Circular RequestRuns

/-- `buffer` is the memory from the start of the array on; the constructor leaves it
as it is. -/
structure RingBuffer (α : Type) (size : ℕ) where
  head : ℕ
  tail : ℕ
  isFull : Bool
  buffer : ℕ → α
  head_lt : head < size
  tail_lt : tail < size

variable {α : Type} {size : ℕ}

namespace RingBuffer

def new (hsize : 0 < size) (buffer : ℕ → α) : RingBuffer α size :=
  { head := 0
    tail := 0
    isFull := false
    buffer := buffer
    head_lt := hsize
    tail_lt := hsize }

theorem size_pos (rb : RingBuffer α size) : 0 < size := (Nat.zero_le _).trans_lt rb.head_lt

def isEmpty (rb : RingBuffer α size) : Bool := !rb.isFull && rb.head == rb.tail

/-- The private Pop, without a result. -/
def dropOldest (rb : RingBuffer α size) : RingBuffer α size :=
  if rb.isEmpty then
    rb
  else
    { rb with
      tail := (rb.tail + 1) % size
      isFull := false
      tail_lt := Nat.mod_lt _ rb.size_pos }

/-- The second half of Push. -/
def write (item : α) (rb : RingBuffer α size) : RingBuffer α size :=
  { rb with
    buffer := Function.update rb.buffer rb.head item
    head := (rb.head + 1) % size
    isFull := if (rb.head + 1) % size = rb.tail then true else rb.isFull
    head_lt := Nat.mod_lt _ rb.size_pos }

def push (dropOnFull : Bool) (item : α) (rb : RingBuffer α size) : Bool × RingBuffer α size :=
  if rb.isFull then
    if dropOnFull then (true, rb.dropOldest.write item) else (false, rb)
  else
    (true, rb.write item)

/-- Pop. Without an element it returns false and leaves `out` as it is. -/
def pop (rb : RingBuffer α size) : Option α × RingBuffer α size :=
  if rb.isEmpty then
    (none, rb)
  else
    (some (rb.buffer rb.tail),
      { rb with
        tail := (rb.tail + 1) % size
        isFull := false
        tail_lt := Nat.mod_lt _ rb.size_pos })

def clear (rb : RingBuffer α size) : RingBuffer α size :=
  { rb with
    head := 0
    tail := 0
    isFull := false
    head_lt := rb.size_pos
    tail_lt := rb.size_pos }

/-- The number of elements that PopElements finds in a buffer that is not empty. -/
def available (rb : RingBuffer α size) : ℕ :=
  if rb.isFull then size
  else if rb.tail < rb.head then rb.head - rb.tail
  else size - rb.tail + rb.head

/-- The copy loops of PopElements. -/
def copied (elementsCount : ℕ) (rb : RingBuffer α size) : List α :=
  if rb.tail < rb.head then
    segment rb.buffer rb.tail elementsCount
  else
    let firstPart := if elementsCount < size - rb.tail then elementsCount else size - rb.tail
    segment rb.buffer rb.tail firstPart ++ segment rb.buffer 0 (elementsCount - firstPart)

/-- PopElements: the number returned, what it writes to the output, and the buffer
after it. -/
def popElements (count : ℕ) (rb : RingBuffer α size) : ℕ × List α × RingBuffer α size :=
  if rb.isEmpty then
    (0, [], rb)
  else
    let elementsCount := if count < rb.available then count else rb.available
    (elementsCount, rb.copied elementsCount,
      { rb with
        tail := (rb.tail + elementsCount) % size
        isFull := false
        tail_lt := Nat.mod_lt _ rb.size_pos })

end RingBuffer

inductive Operation (α : Type)
  | push (item : α)
  | pop
  | popElements (count : ℕ)
  | clear
deriving DecidableEq, Repr

/-- What an operation returns. -/
inductive Answer (α : Type)
  | pushed (accepted : Bool)
  | popped (out : Option α)
  | delivered (elementsCount : ℕ) (outputBuffer : List α)
  | cleared
deriving DecidableEq, Repr

def RingBuffer.operate (dropOnFull : Bool) (rb : RingBuffer α size) :
    Operation α → Answer α × RingBuffer α size
  | .push item => (.pushed (rb.push dropOnFull item).1, (rb.push dropOnFull item).2)
  | .pop => (.popped rb.pop.1, rb.pop.2)
  | .popElements count =>
    (.delivered (rb.popElements count).1 (rb.popElements count).2.1, (rb.popElements count).2.2)
  | .clear => (.cleared, rb.clear)

/-- An operation is observed by its answer, and by IsEmpty after it. -/
def RingBuffer.step (dropOnFull : Bool) (operation : Operation α) (rb : RingBuffer α size) :
    (Answer α × Bool) × RingBuffer α size :=
  let (answer, rb) := rb.operate dropOnFull operation
  ((answer, rb.isEmpty), rb)

/-- A queue of at most `size` elements, the oldest first. -/
def queueOperate (size : ℕ) (dropOnFull : Bool) (queue : List α) :
    Operation α → Answer α × List α
  | .push item =>
    if queue.length < size then (.pushed true, queue ++ [item])
    else if dropOnFull then (.pushed true, queue.tail ++ [item])
    else (.pushed false, queue)
  | .pop => (.popped queue.head?, queue.tail)
  | .popElements count =>
    (.delivered (min count queue.length) (queue.take count), queue.drop count)
  | .clear => (.cleared, [])

def queueStep (size : ℕ) (dropOnFull : Bool) (operation : Operation α) (queue : List α) :
    (Answer α × Bool) × List α :=
  let (answer, queue) := queueOperate size dropOnFull queue operation
  ((answer, queue.isEmpty), queue)

/-- The buffer holds the elements of a queue. -/
structure Holds (rb : RingBuffer α size) (queue : List α) : Prop where
  contents : window rb.buffer size rb.tail queue.length = queue
  length_le : queue.length ≤ size
  head_eq : rb.head = (rb.tail + queue.length) % size
  full_iff : rb.isFull = true ↔ queue.length = size

section Steps
variable {rb : RingBuffer α size} {queue : List α}

theorem holds_new (hsize : 0 < size) (buffer : ℕ → α) : Holds (RingBuffer.new hsize buffer) [] :=
  { contents := rfl
    length_le := Nat.zero_le _
    head_eq := (Nat.zero_mod size).symm
    full_iff := by
      simp only [RingBuffer.new, List.length_nil, Bool.false_eq_true, false_iff]
      omega }

theorem Holds.head_wrapped (h : Holds rb queue) : rb.head =
    if rb.tail + queue.length < size then rb.tail + queue.length
    else rb.tail + queue.length - size := by
  rw [h.head_eq, add_mod_wrapped rb.tail_lt h.length_le]

theorem Holds.isFull_eq (h : Holds rb queue) : rb.isFull = decide (queue.length = size) := by
  apply Bool.eq_iff_iff.mpr
  simp [h.full_iff]

/-- IsEmpty says whether the queue is empty. -/
theorem Holds.isEmpty_eq (h : Holds rb queue) : rb.isEmpty = queue.isEmpty := by
  have hhead := h.head_wrapped
  have hle := h.length_le
  have htail := rb.tail_lt
  apply Bool.eq_iff_iff.mpr
  simp only [RingBuffer.isEmpty, h.isFull_eq, Bool.and_eq_true, Bool.not_eq_true',
    decide_eq_false_iff_not, beq_iff_eq, List.isEmpty_iff, ← List.length_eq_zero_iff]
  split_ifs at hhead <;> omega

theorem holds_clear (rb : RingBuffer α size) : Holds rb.clear [] :=
  { contents := rfl
    length_le := Nat.zero_le _
    head_eq := (Nat.zero_mod size).symm
    full_iff := by
      have := rb.size_pos
      simp only [RingBuffer.clear, List.length_nil, Bool.false_eq_true, false_iff]
      omega }

/-- An element is written behind the queue. -/
theorem Holds.write (h : Holds rb queue) (hlt : queue.length < size) (item : α) :
    Holds (rb.write item) (queue ++ [item]) := by
  have hlength : (queue ++ [item]).length = queue.length + 1 := by simp
  have hhead : (rb.head + 1) % size = (rb.tail + (queue.length + 1)) % size := by
    rw [h.head_eq, Nat.mod_add_mod, Nat.add_assoc]
  refine ⟨?_, by omega, ?_, ?_⟩
  · rw [hlength]
    simp only [RingBuffer.write, h.head_eq]
    rw [window_write hlt, h.contents]
  · rw [hlength]
    exact hhead
  · have hwrapped := add_mod_wrapped rb.tail_lt (show queue.length + 1 ≤ size from hlt)
    have htail := rb.tail_lt
    rw [hlength]
    simp only [RingBuffer.write, hhead, h.isFull_eq]
    split_ifs at hwrapped with hwrap <;> simp only [hwrapped] <;> split_ifs <;> simp <;> omega

/-- What follows when elements are taken out: Tail moves on, and the flag is cleared. -/
theorem Holds.drop (h : Holds rb queue) {k : ℕ} (hk : 0 < k) (hle : k ≤ queue.length)
    (htail : (rb.tail + k) % size < size) :
    Holds { rb with
      tail := (rb.tail + k) % size
      isFull := false
      tail_lt := htail } (queue.drop k) := by
  have hmax := h.length_le
  refine ⟨?_, ?_, ?_, ?_⟩
  · simp only [List.length_drop, window_mod]
    rw [← drop_window hle, h.contents]
  · simp only [List.length_drop]
    omega
  · simp only [List.length_drop, Nat.mod_add_mod, h.head_eq]
    congr 1
    omega
  · simp only [List.length_drop, Bool.false_eq_true, false_iff]
    omega

theorem Holds.dropOldest (h : Holds rb queue) (hpos : queue ≠ []) :
    Holds rb.dropOldest queue.tail := by
  have hempty : rb.isEmpty = false := by simpa [h.isEmpty_eq] using hpos
  unfold RingBuffer.dropOldest
  simp only [hempty, Bool.false_eq_true, if_false, ← List.drop_one]
  exact h.drop one_pos (List.length_pos_of_ne_nil hpos) _

theorem Holds.tail_eq_head (h : Holds rb queue) (hpos : queue ≠ []) :
    queue.head? = some (rb.buffer rb.tail) := by
  obtain ⟨n, hn⟩ := Nat.exists_eq_succ_of_ne_zero (List.length_pos_of_ne_nil hpos).ne'
  rw [← h.contents, hn, window_cons, Nat.mod_eq_of_lt rb.tail_lt]
  rfl

theorem Holds.available_eq (h : Holds rb queue) (hpos : queue ≠ []) :
    rb.available = queue.length := by
  have hhead := h.head_wrapped
  have hle := h.length_le
  have htail := rb.tail_lt
  have hlength := List.length_pos_of_ne_nil hpos
  simp only [RingBuffer.available, h.isFull_eq, decide_eq_true_eq]
  split_ifs at hhead ⊢ <;> omega

/-- The copy loops deliver a prefix of the queue. -/
theorem Holds.copied_eq (h : Holds rb queue) (hpos : queue ≠ []) {k : ℕ} (hk : k ≤ queue.length) :
    rb.copied k = queue.take k := by
  have hhead := h.head_wrapped
  have hle := h.length_le
  have htail := rb.tail_lt
  have hlength := List.length_pos_of_ne_nil hpos
  have hwindow : queue.take k = window rb.buffer size rb.tail k := by
    rw [← take_window hk, h.contents]
  rw [hwindow]
  unfold RingBuffer.copied
  by_cases hcontiguous : rb.tail + k ≤ size
  · rw [window_eq_segment hcontiguous]
    split_ifs with hlt hfirst
    · rfl
    · simp [Circular.segment]
    · obtain rfl : k = size - rb.tail := by omega
      simp [Circular.segment]
  · rw [window_wrapped rb.tail_lt (by omega) (by omega)]
    split_ifs at hhead ⊢ <;> first | omega | rfl

theorem Holds.push (h : Holds rb queue) (dropOnFull : Bool) (item : α) :
    (rb.operate dropOnFull (.push item)).1 = (queueOperate size dropOnFull queue (.push item)).1 ∧
      Holds (rb.operate dropOnFull (.push item)).2
        (queueOperate size dropOnFull queue (.push item)).2 := by
  have hle := h.length_le
  simp only [RingBuffer.operate, RingBuffer.push, queueOperate, h.isFull_eq, decide_eq_true_eq]
  by_cases hfull : queue.length = size
  · have hlt : ¬ queue.length < size := by omega
    have hne : queue ≠ [] := by
      rintro rfl
      exact rb.size_pos.ne hfull
    simp only [if_pos hfull, if_neg hlt]
    cases dropOnFull with
    | false => exact ⟨rfl, h⟩
    | true =>
      refine ⟨rfl, (h.dropOldest hne).write ?_ item⟩
      have hpos := List.length_pos_of_ne_nil hne
      rw [List.length_tail]
      omega
  · have hlt : queue.length < size := by omega
    simp only [if_neg hfull, if_pos hlt]
    exact ⟨trivial, h.write hlt item⟩

theorem Holds.pop (h : Holds rb queue) (dropOnFull : Bool) :
    (rb.operate dropOnFull .pop).1 = (queueOperate size dropOnFull queue .pop).1 ∧
      Holds (rb.operate dropOnFull .pop).2 (queueOperate size dropOnFull queue .pop).2 := by
  simp only [RingBuffer.operate, RingBuffer.pop, queueOperate, h.isEmpty_eq, List.isEmpty_iff]
  by_cases hempty : queue = []
  · subst hempty
    exact ⟨rfl, h⟩
  · simp only [if_neg hempty, h.tail_eq_head hempty, ← List.drop_one, true_and]
    exact h.drop one_pos (List.length_pos_of_ne_nil hempty) _

/-- The answer of PopElements is always right, and what is left is right as long as
anything is taken out of a full buffer. -/
theorem Holds.popElements (h : Holds rb queue) (dropOnFull : Bool) (count : ℕ) :
    (rb.operate dropOnFull (.popElements count)).1 =
        (queueOperate size dropOnFull queue (.popElements count)).1 ∧
      (¬ (count = 0 ∧ queue.length = size) →
        Holds (rb.operate dropOnFull (.popElements count)).2
          (queueOperate size dropOnFull queue (.popElements count)).2) := by
  simp only [RingBuffer.operate, RingBuffer.popElements, queueOperate, h.isEmpty_eq,
    List.isEmpty_iff]
  by_cases hempty : queue = []
  · subst hempty
    simp only [if_pos, List.length_nil, Nat.min_zero, List.take_nil, List.drop_nil, true_and]
    exact fun _ => h
  · have hmin : (if count < rb.available then count else rb.available) =
        min count queue.length := by
      rw [h.available_eq hempty]
      split_ifs <;> omega
    simp only [if_neg hempty, hmin, h.copied_eq hempty (Nat.min_le_right _ _),
      ← List.take_eq_take_min, true_and]
    intro hcount
    rw [List.drop_eq_drop_min]
    rcases Nat.eq_zero_or_pos count with rfl | hpos
    · have hfull : rb.isFull = false := by
        rw [h.isFull_eq]
        simpa using hcount
      simpa [Nat.mod_eq_of_lt rb.tail_lt, ← hfull] using h
    · have hlength := List.length_pos_of_ne_nil hempty
      exact h.drop (by omega) (Nat.min_le_right _ _) _

end Steps

/-- PopElements for no elements of a full buffer. -/
def EmptiesFull (size : ℕ) (operation : Operation α) (queue : List α) : Prop :=
  operation = .popElements 0 ∧ queue.length = size

section Runs
variable {rb : RingBuffer α size} {queue : List α} {dropOnFull : Bool}

/-- Every operation but that one is followed. -/
theorem Holds.operate (h : Holds rb queue) {operation : Operation α}
    (hgood : ¬ EmptiesFull size operation queue) :
    (rb.operate dropOnFull operation).1 = (queueOperate size dropOnFull queue operation).1 ∧
      Holds (rb.operate dropOnFull operation).2
        (queueOperate size dropOnFull queue operation).2 := by
  cases operation with
  | push item => exact h.push dropOnFull item
  | pop => exact h.pop dropOnFull
  | popElements count =>
    obtain ⟨hanswer, hholds⟩ := h.popElements dropOnFull count
    refine ⟨hanswer, hholds ?_⟩
    rintro ⟨rfl, hfull⟩
    exact hgood ⟨rfl, hfull⟩
  | clear => exact ⟨rfl, holds_clear rb⟩

/-- A full buffer is empty after PopElements has delivered nothing. -/
theorem Holds.isEmpty_of_emptiesFull (h : Holds rb queue) {operation : Operation α}
    (hbad : EmptiesFull size operation queue) :
    (rb.operate dropOnFull operation).2.isEmpty = true := by
  obtain ⟨rfl, hfull⟩ := hbad
  have hne : queue ≠ [] := by
    rintro rfl
    exact rb.size_pos.ne hfull
  have hempty : rb.isEmpty = false := by simpa [h.isEmpty_eq] using hne
  have hhead : rb.head = rb.tail := by
    rw [h.head_eq, hfull, Nat.add_mod_right, Nat.mod_eq_of_lt rb.tail_lt]
  simp only [RingBuffer.operate, RingBuffer.popElements, hempty, Bool.false_eq_true, if_false]
  have hcount : (if 0 < rb.available then 0 else rb.available) = 0 := by split_ifs <;> omega
  simp [RingBuffer.isEmpty, hcount, hhead, Nat.mod_eq_of_lt rb.tail_lt]

theorem Holds.step_iff (h : Holds rb queue) (operation : Operation α) :
    (rb.step dropOnFull operation).1 = (queueStep size dropOnFull operation queue).1 ↔
      ¬ EmptiesFull size operation queue := by
  constructor
  · intro heq hbad
    have hempty := congrArg Prod.snd heq
    simp only [RingBuffer.step, queueStep, h.isEmpty_of_emptiesFull hbad] at hempty
    obtain ⟨rfl, hfull⟩ := hbad
    simp only [queueOperate, List.drop_zero] at hempty
    obtain rfl : queue = [] := by simpa using hempty.symm
    exact rb.size_pos.ne hfull
  · intro hgood
    obtain ⟨hanswer, hholds⟩ := h.operate hgood
    exact Prod.ext hanswer hholds.isEmpty_eq

end Runs

/-- A new buffer answers every sequence of operations like a bounded queue, and says
in every state whether it is empty, exactly when no PopElements for no elements comes
while it is full. -/
theorem ringBuffer_isQueue_iff {size : ℕ} (hsize : 0 < size) (dropOnFull : Bool)
    (buffer : ℕ → α) (operations : List (Operation α)) :
    answers (RingBuffer.step dropOnFull) operations (RingBuffer.new hsize buffer) =
        answers (queueStep size dropOnFull) operations [] ↔
      Each (queueStep size dropOnFull) (fun operation queue => ¬ EmptiesFull size operation queue)
        operations [] := by
  apply answers_eq_iff (R := Holds)
  · intro operation rb queue h
    exact h.step_iff operation
  · intro operation rb queue h hgood
    exact (h.operate hgood).2
  · exact holds_new hsize buffer

theorem ringBuffer_isQueue_iff_one :
    answers (RingBuffer.step false) [.push 7, .pop] (RingBuffer.new one_pos fun _ => 0) =
        answers (queueStep 1 false) [.push 7, .pop] [] ↔
      Each (queueStep 1 false) (fun operation queue => ¬ EmptiesFull 1 operation queue)
        [.push 7, .pop] [] :=
  ringBuffer_isQueue_iff one_pos false (fun _ => 0) [.push 7, .pop]

/-- One element is held; PopElements for no elements loses it. -/
theorem popElements_loses :
    answers (RingBuffer.step false) [.push 7, .popElements 0, .pop]
        (RingBuffer.new one_pos fun _ => 0) ≠
      answers (queueStep 1 false) [.push 7, .popElements 0, .pop] [] := by
  decide

end Enkel.RingQueue
