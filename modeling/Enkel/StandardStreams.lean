import Mathlib.Algebra.Order.Group.Nat
import Mathlib.Algebra.Ring.Nat
import Mathlib.Data.List.Basic

/-!
Writes to the standard streams. The bytes are converted in pieces of at most 1024, and
each piece is printed. A piece ends at the first NUL, and every piece starts at the
first byte of the buffer: the pointer to it does not move. Strings are the code units
before their NUL.
-/
namespace Enkel.StandardStreams

/-- A char is signed, and its sign is extended. -/
def widen (char : UInt8) : ℕ := if char.toNat < 128 then char.toNat else char.toNat + 0xFF00

/-- The loop of ascii_to_wide from an index on, with so many places left. -/
def asciiLoop (bufferIn : ℕ → UInt8) (index : ℕ) : (left : ℕ) → List ℕ
  | 0 => []
  | left + 1 =>
    if bufferIn index = 0 then [] else widen (bufferIn index) :: asciiLoop bufferIn (index + 1) left

/-- What ascii_to_wide writes before the NUL; it returns the length. -/
def asciiToWide (bufferIn : ℕ → UInt8) (bufferOutBytes : ℕ) : List ℕ :=
  asciiLoop bufferIn 0 bufferOutBytes

structure BMFontColor where
  red : UInt8
  green : UInt8
  blue : UInt8
deriving DecidableEq, Repr

def stdErrColour : BMFontColor := ⟨255, 0, 0⟩

/-- The calls of the console. Printing in a colour starts where the console is, and the
console is then set to where it ended. -/
inductive ConsoleCall
  | consolePrint (string : List ℕ)
  | consolePrintAtPosWithColor (string : List ℕ) (foregroundColor : BMFontColor)
deriving DecidableEq, Repr

def ConsoleCall.string : ConsoleCall → List ℕ
  | consolePrint string => string
  | consolePrintAtPosWithColor string _ => string

/-- What a list of calls prints. -/
def text (calls : List ConsoleCall) : List ℕ := calls.flatMap ConsoleCall.string

/-- The loop of the two functions, with a bound on its turns. -/
def writeLoop (print : List ℕ → ConsoleCall) (bufferString : ℕ → UInt8) :
    (fuel sizeRemaining : ℕ) → Option (List ConsoleCall)
  | _, 0 => some []
  | 0, _ + 1 => none
  | fuel + 1, rest + 1 =>
    let sizeRemaining := rest + 1
    let string := asciiToWide bufferString (if 1024 < sizeRemaining then 1024 else sizeRemaining)
    let written := string.length
    (writeLoop print bufferString fuel (sizeRemaining - written)).map (print string :: ·)

/-- StandardOutputVolume_Write: the calls of the console, and the size returned. -/
def standardOutputVolumeWrite (fuel : ℕ) (buffer : ℕ → UInt8) (size : ℕ) :
    Option (List ConsoleCall × ℕ) :=
  (writeLoop .consolePrint buffer fuel size).map fun calls => (calls, size)

def standardErrorVolumeWrite (fuel : ℕ) (buffer : ℕ → UInt8) (size : ℕ) :
    Option (List ConsoleCall × ℕ) :=
  (writeLoop (.consolePrintAtPosWithColor · stdErrColour) buffer fuel size).map
    fun calls => (calls, size)

abbrev VolumeWrite := (fuel : ℕ) → (buffer : ℕ → UInt8) → (size : ℕ) →
  Option (List ConsoleCall × ℕ)

/-- The write returns. -/
def Terminates (write : VolumeWrite) (buffer : ℕ → UInt8) (size : ℕ) : Prop :=
  ∃ fuel, (write fuel buffer size).isSome

/-- The write returns, and prints this text. -/
def Prints (write : VolumeWrite) (buffer : ℕ → UInt8) (size : ℕ) (t : List ℕ) : Prop :=
  ∃ fuel calls, write fuel buffer size = some (calls, size) ∧ text calls = t

/-- Consecutive writes of these sizes return, and print this text. -/
def PrintsEach (write : VolumeWrite) : (buffer : ℕ → UInt8) → (sizes : List ℕ) → List ℕ → Prop
  | _, [], t => t = []
  | buffer, size :: sizes, t => ∃ a b, Prints write buffer size a ∧
      PrintsEach write (fun i => buffer (size + i)) sizes b ∧ t = a ++ b

/-- The bytes of a buffer, each of them widened. -/
def widened (buffer : ℕ → UInt8) (size : ℕ) : List ℕ :=
  (List.range size).map fun i => widen (buffer i)

/-- A write prints the bytes of its buffer, and so do any consecutive writes of them. -/
structure PrintsBuffer (write : VolumeWrite) (buffer : ℕ → UInt8) (size : ℕ) : Prop where
  whole : Prints write buffer size (widened buffer size)
  split : ∀ sizes : List ℕ, sizes.sum = size → PrintsEach write buffer sizes (widened buffer size)

/-- The bytes after the first 1024 repeat them. -/
def Repeats (buffer : ℕ → UInt8) (size : ℕ) : Prop :=
  ∀ i, i + 1024 < size → buffer (i + 1024) = buffer i

section Piece
variable {buffer : ℕ → UInt8} {index left n : ℕ}

theorem asciiLoop_of_ne_zero (h : ∀ i < left, buffer (index + i) ≠ 0) :
    asciiLoop buffer index left = (List.range left).map fun i => widen (buffer (index + i)) := by
  induction left generalizing index with
  | zero => rfl
  | succ left ih =>
    have hrest : ∀ i < left, buffer (index + 1 + i) ≠ 0 := by
      intro i hi
      have hi := h (i + 1) (by omega)
      rwa [show index + (i + 1) = index + 1 + i by omega] at hi
    unfold asciiLoop
    rw [if_neg (by simpa using h 0), ih hrest, List.range_succ_eq_map]
    simp [Function.comp_def, Nat.add_comm, Nat.add_left_comm]

theorem asciiToWide_of_ne_zero (h : ∀ i < n, buffer i ≠ 0) :
    asciiToWide buffer n = widened buffer n := by
  unfold asciiToWide widened
  rw [asciiLoop_of_ne_zero (by simpa using h)]
  simp

/-- A piece is empty only if the buffer starts with a NUL. -/
theorem length_asciiToWide_pos (hn : 0 < n) (h : buffer 0 ≠ 0) :
    0 < (asciiToWide buffer n).length := by
  obtain ⟨left, rfl⟩ := Nat.exists_eq_succ_of_ne_zero hn.ne'
  unfold asciiToWide asciiLoop
  rw [if_neg h]
  exact Nat.succ_pos _

theorem asciiToWide_nul (h : buffer 0 = 0) : asciiToWide buffer n = [] := by
  cases n with
  | zero => rfl
  | succ n =>
    unfold asciiToWide asciiLoop
    rw [if_pos h]

theorem ofNat_widen (c : UInt8) : UInt8.ofNat (widen c) = c := by
  have hlt := c.toNat_lt
  apply UInt8.toNat_inj.mp
  rw [UInt8.toNat_ofNat', widen]
  split_ifs with hlow
  · omega
  · omega

theorem widen_injective : Function.Injective widen :=
  Function.LeftInverse.injective ofNat_widen

theorem widen_ne_zero {c : UInt8} (hc : c ≠ 0) : widen c ≠ 0 := fun h =>
  hc (widen_injective (h.trans (show widen 0 = 0 from rfl).symm))

end Piece

section Loop
variable {print : List ℕ → ConsoleCall} {buffer : ℕ → UInt8} {fuel n : ℕ}

/-- A buffer that starts with a NUL keeps the loop where it is. -/
theorem writeLoop_nul (h : buffer 0 = 0) : writeLoop print buffer fuel (n + 1) = none := by
  induction fuel with
  | zero => rfl
  | succ fuel ih =>
    unfold writeLoop
    simp only [asciiToWide_nul h, List.length_nil, Nat.sub_zero, ih, Option.map_none]

/-- Otherwise every turn takes a byte at least. -/
theorem writeLoop_isSome (h : buffer 0 ≠ 0) (hn : n ≤ fuel) :
    (writeLoop print buffer fuel n).isSome := by
  induction fuel generalizing n with
  | zero =>
    obtain rfl : n = 0 := by omega
    rfl
  | succ fuel ih =>
    cases n with
    | zero => rfl
    | succ n =>
      unfold writeLoop
      rw [Option.isSome_map]
      apply ih
      have hpos : 0 < (asciiToWide buffer (if 1024 < n + 1 then 1024 else n + 1)).length := by
        apply length_asciiToWide_pos _ h
        split_ifs <;> omega
      omega

theorem terminates_loop_iff :
    (∃ fuel, (writeLoop print buffer fuel n).isSome) ↔ n = 0 ∨ buffer 0 ≠ 0 := by
  constructor
  · rintro ⟨fuel, h⟩
    by_contra hneither
    push Not at hneither
    obtain ⟨m, rfl⟩ := Nat.exists_eq_succ_of_ne_zero hneither.1
    rw [writeLoop_nul hneither.2] at h
    cases h
  · rintro (rfl | hbyte)
    · exact ⟨0, rfl⟩
    · exact ⟨n, writeLoop_isSome hbyte le_rfl⟩

/-- More turns do not change what a loop that ends has printed. -/
theorem writeLoop_unique {fuel' : ℕ} {calls calls' : List ConsoleCall}
    (h : writeLoop print buffer fuel n = some calls)
    (h' : writeLoop print buffer fuel' n = some calls') : calls = calls' := by
  induction fuel generalizing fuel' n calls calls' with
  | zero =>
    cases n with
    | zero =>
      cases fuel' <;> (cases h; cases h'; rfl)
    | succ n => cases h
  | succ fuel ih =>
    cases n with
    | zero =>
      cases fuel' <;> (cases h; cases h'; rfl)
    | succ n =>
      cases fuel' with
      | zero => cases h'
      | succ fuel' =>
        unfold writeLoop at h h'
        obtain ⟨rest, hrest, rfl⟩ := Option.map_eq_some_iff.mp h
        obtain ⟨rest', hrest', rfl⟩ := Option.map_eq_some_iff.mp h'
        rw [ih hrest hrest']

/-- What the first piece and the pieces after it print. -/
theorem cycled_add {a b : ℕ} (ha : a ≤ 1024) (hb : 0 < b → a = 1024) :
    (List.range (a + b)).map (fun i => widen (buffer (i % 1024))) =
      widened buffer a ++ (List.range b).map fun i => widen (buffer (i % 1024)) := by
  rw [List.range_add, List.map_append, List.map_map]
  congr 1
  · apply List.map_congr_left
    intro i hi
    have hi := List.mem_range.mp hi
    rw [Nat.mod_eq_of_lt (by omega)]
  · apply List.map_congr_left
    intro i hi
    have hi := List.mem_range.mp hi
    have ha := hb (by omega)
    simp [ha]

/-- What the loop prints of a buffer without NULs: its first 1024 bytes, over and
over. -/
theorem exists_writeLoop (hprint : ∀ string, (print string).string = string)
    (h : ∀ i < n, buffer i ≠ 0) :
    ∃ fuel calls, writeLoop print buffer fuel n = some calls ∧
      text calls = (List.range n).map fun i => widen (buffer (i % 1024)) := by
  induction n using Nat.strong_induction_on with
  | h n ih =>
    cases n with
    | zero => exact ⟨0, [], rfl, rfl⟩
    | succ m =>
      obtain ⟨a, b, hmin, hsum⟩ : ∃ a b, a = min 1024 (m + 1) ∧ m + 1 = a + b :=
        ⟨_, m + 1 - min 1024 (m + 1), rfl, by omega⟩
      have hpiece : asciiToWide buffer (if 1024 < m + 1 then 1024 else m + 1) =
          widened buffer a := by
        rw [← asciiToWide_of_ne_zero fun i hi => h i (by omega), hmin]
        congr 1
        split_ifs <;> omega
      have hrest : m + 1 - (widened buffer a).length = b := by
        simp only [widened, List.length_map, List.length_range]
        omega
      obtain ⟨fuel, calls, hloop, htext⟩ := ih b (by omega) fun i hi => h i (by omega)
      refine ⟨fuel + 1, print (widened buffer a) :: calls, ?_, ?_⟩
      · unfold writeLoop
        simp only [hpiece, hrest, hloop, Option.map_some]
      · rw [hsum, cycled_add (by omega) (by omega), ← htext]
        simp [text, hprint]

end Loop

/-- Both functions return exactly when nothing is written, or the first byte of the
buffer is not NUL. -/
theorem volumeWrites_terminate_iff (buffer : ℕ → UInt8) (size : ℕ) :
    (Terminates standardOutputVolumeWrite buffer size ↔ size = 0 ∨ buffer 0 ≠ 0) ∧
      (Terminates standardErrorVolumeWrite buffer size ↔ size = 0 ∨ buffer 0 ≠ 0) := by
  unfold Terminates standardOutputVolumeWrite standardErrorVolumeWrite
  simp only [Option.isSome_map]
  exact ⟨terminates_loop_iff, terminates_loop_iff⟩

/-- A process that writes one NUL does not come back. -/
theorem write_nul_hangs : ¬ Terminates standardOutputVolumeWrite (fun _ => 0) 1 := by
  rintro ⟨fuel, h⟩
  unfold standardOutputVolumeWrite at h
  rw [writeLoop_nul rfl] at h
  cases h

section Text
variable {buffer : ℕ → UInt8} {size : ℕ}

theorem Repeats.eq_mod (h : Repeats buffer size) (i : ℕ) (hi : i < size) :
    buffer i = buffer (i % 1024) := by
  induction i using Nat.strong_induction_on with
  | h i ih =>
    by_cases hlt : i < 1024
    · rw [Nat.mod_eq_of_lt hlt]
    · have hstep := h (i - 1024) (by omega)
      rw [Nat.sub_add_cancel (by omega)] at hstep
      rw [hstep, ih (i - 1024) (by omega) (by omega), ← Nat.mod_eq_sub_mod (by omega)]

theorem repeats_iff_widened : Repeats buffer size ↔
    widened buffer size = (List.range size).map fun i => widen (buffer (i % 1024)) := by
  constructor
  · intro h
    apply List.map_congr_left
    intro i hi
    rw [h.eq_mod i (List.mem_range.mp hi)]
  · intro h i hi
    have hbyte : ∀ j < size, buffer j = buffer (j % 1024) := fun j hj =>
      widen_injective (List.map_inj_left.mp h j (List.mem_range.mpr hj))
    rw [hbyte (i + 1024) hi, hbyte i (by omega), Nat.add_mod_right]

theorem widened_add (a b : ℕ) :
    widened buffer (a + b) = widened buffer a ++ widened (fun i => buffer (a + i)) b := by
  simp [widened, List.range_add]

variable {write : VolumeWrite} {print : List ℕ → ConsoleCall}
  (hwrite : ∀ fuel buffer size,
    write fuel buffer size = (writeLoop print buffer fuel size).map fun calls => (calls, size))
  (hprint : ∀ string, (print string).string = string)
include hwrite hprint

theorem prints_iff (h : ∀ i < size, buffer i ≠ 0) {t : List ℕ} :
    Prints write buffer size t ↔ t = (List.range size).map fun i => widen (buffer (i % 1024)) := by
  obtain ⟨fuel, calls, hloop, htext⟩ := exists_writeLoop hprint h
  constructor
  · rintro ⟨fuel', calls', hrun, rfl⟩
    rw [hwrite] at hrun
    obtain ⟨calls'', hloop', heq⟩ := Option.map_eq_some_iff.mp hrun
    cases heq
    rw [writeLoop_unique hloop' hloop, htext]
  · rintro rfl
    refine ⟨fuel, calls, ?_, htext⟩
    rw [hwrite, hloop]
    rfl

/-- Bytes that repeat are printed by any consecutive writes of them. -/
theorem printsEach_widened (sizes : List ℕ) (h : ∀ i < sizes.sum, buffer i ≠ 0)
    (hrepeats : Repeats buffer sizes.sum) :
    PrintsEach write buffer sizes (widened buffer sizes.sum) := by
  induction sizes generalizing buffer with
  | nil => rfl
  | cons size sizes ih =>
    rw [List.sum_cons] at h hrepeats ⊢
    refine ⟨widened buffer size, _, ?_, ih (fun i hi => h _ (by omega)) fun i hi => ?_,
      widened_add _ _⟩
    · apply (prints_iff hwrite hprint fun i hi => h i (by omega)).mpr
      exact repeats_iff_widened.mp fun i hi => hrepeats i (by omega)
    · rw [← Nat.add_assoc]
      exact hrepeats (size + i) (by omega)

theorem printsBuffer_iff (h : ∀ i < size, buffer i ≠ 0) :
    PrintsBuffer write buffer size ↔ Repeats buffer size := by
  constructor
  · intro hprints
    exact repeats_iff_widened.mpr ((prints_iff hwrite hprint h).mp hprints.whole)
  · intro hrepeats
    refine ⟨(prints_iff hwrite hprint h).mpr (repeats_iff_widened.mp hrepeats), ?_⟩
    rintro sizes rfl
    exact printsEach_widened hwrite hprint sizes h hrepeats

end Text

/-- Of a buffer without NULs both functions print the bytes exactly when those after
the first 1024 repeat them. -/
theorem volumeWrites_print_iff (buffer : ℕ → UInt8) (size : ℕ) (h : ∀ i < size, buffer i ≠ 0) :
    (PrintsBuffer standardOutputVolumeWrite buffer size ↔ Repeats buffer size) ∧
      (PrintsBuffer standardErrorVolumeWrite buffer size ↔ Repeats buffer size) :=
  ⟨printsBuffer_iff (fun _ _ _ => rfl) (fun _ => rfl) h,
    printsBuffer_iff (fun _ _ _ => rfl) (fun _ => rfl) h⟩

theorem volumeWrites_print_iff_letter :
    (PrintsBuffer standardOutputVolumeWrite (fun _ => 97) 2000 ↔ Repeats (fun _ => 97) 2000) ∧
      (PrintsBuffer standardErrorVolumeWrite (fun _ => 97) 2000 ↔ Repeats (fun _ => 97) 2000) :=
  volumeWrites_print_iff (fun _ => 97) 2000 fun _ _ => by decide

/-- The last of 1025 letters is printed as the first one. -/
theorem write_repeats_letter :
    ¬ PrintsBuffer standardOutputVolumeWrite (fun i => if i = 1024 then 98 else 97) 1025 := by
  intro h
  have hletter : ∀ i < 1025, (if i = 1024 then 98 else 97 : UInt8) ≠ 0 := by
    intro i _
    split_ifs <;> decide
  have hrepeats := (printsBuffer_iff (fun _ _ _ => rfl) (fun _ => rfl) hletter).mp h
  exact absurd (hrepeats 0 (by decide)) (by decide)

end Enkel.StandardStreams
