import Enkel.RingBuffer
import Enkel.StandardStreams

/-!
The loop of Shell. A blocking read takes up to 1024 of the characters that are queued and puts
them at the cursor, whatever room there is behind it, with a NUL at their end. When the last
character read is a newline, the line is run and the queue is cleared, before and after; what is
typed while a program runs is dropped. The queue of scan codes plays no part.
-/
namespace Enkel.ShellInput

open Outcome RingQueue RequestRuns StandardStreams

inductive Fault
  | buffer
  | bufferWide
deriving DecidableEq, Repr

abbrev bufferSize : ℕ := 1024
abbrev inputBufferLength : ℕ := 4 * 1024
abbrev newline : UInt8 := 0x0A

/-- What RunProgram is called with, less the environment. -/
structure Program where
  path : List ℕ
  argv : List (List ℕ)
deriving DecidableEq, Repr

/-- The characters of buffer are those of the memory from its start on. -/
structure Shell where
  inputBuffer : RingBuffer UInt8 inputBufferLength
  buffer : ℕ → UInt8
  cursorPos : ℕ
  programs : List Program

/-- A key puts a character into the queue; the shell takes a turn. -/
inductive Event
  | key (input : UInt8)
  | turn
deriving DecidableEq, Repr

section Functions

/-- A write to buffer. -/
def store (index : ℕ) (c : UInt8) (buffer : ℕ → UInt8) : Except Fault (ℕ → UInt8) := do
  require (index < bufferSize) .buffer
  return Function.update buffer index c

/-- The writes of PopElements. -/
def storeAll : (elements : List UInt8) → (index : ℕ) → (buffer : ℕ → UInt8) →
    Except Fault (ℕ → UInt8)
  | [], _, buffer => return buffer
  | c :: elements, index, buffer => do storeAll elements (index + 1) (← store index c buffer)

/-- The string in buffer. -/
def cString (buffer : ℕ → UInt8) : List UInt8 :=
  ((List.range bufferSize).map buffer).takeWhile (· ≠ 0)

def units (s : String) : List ℕ := s.toList.map Char.toNat

/-- The string "doom". -/
def doom : List UInt8 := [0x64, 0x6F, 0x6F, 0x6D]

def doomProgram : Program := ⟨units "/doomgeneric", [units "/doomgeneric", units "-iwad",
  units "/doom.wad"]⟩

/-- The program for the line in buffer. ascii_to_wide writes as many characters as it returns,
and a NUL behind them. -/
def programIn (buffer : ℕ → UInt8) : Except Fault Program := do
  if cString buffer = doom then
    return doomProgram
  else
    let bufferWide := asciiToWide buffer bufferSize
    require (bufferWide.length < bufferSize) .bufferWide
    return ⟨bufferWide, [bufferWide]⟩

/-- A turn of the loop, once ReadInputBlocking has found something; else it goes on waiting. -/
def Shell.turn (s : Shell) : Except Fault Shell := do
  let (read, elements, inputBuffer) := s.inputBuffer.popElements bufferSize
  if read = 0 then
    return { s with inputBuffer := inputBuffer }
  else
    let buffer ← storeAll elements s.cursorPos s.buffer
    let buffer ← store (read + s.cursorPos) 0 buffer
    let cursorPos := s.cursorPos + read
    if buffer (cursorPos - 1) = newline then
      let buffer ← store (cursorPos - 1) 0 buffer
      let program ← programIn buffer
      return ⟨inputBuffer.clear.clear, buffer, 0, s.programs ++ [program]⟩
    else
      return { s with inputBuffer := inputBuffer, buffer := buffer, cursorPos := cursorPos }

def Shell.step : Event → Shell → Except Fault Shell
  | .key input, s => return { s with inputBuffer := (s.inputBuffer.push false input).2 }
  | .turn, s => s.turn

/-- Shell up to its loop. -/
def shell (inputBuffer : RingBuffer UInt8 inputBufferLength) (buffer : ℕ → UInt8) : Shell :=
  ⟨inputBuffer.clear, buffer, 0, []⟩

/-- The characters that are queued. -/
def Shell.queued (s : Shell) : List UInt8 := (s.inputBuffer.popElements inputBufferLength).2.1

end Functions

section Lines

/-- The shell as someone at the keyboard has it: what is typed and not read yet, what has been
read of a line, and the lines that were run. -/
structure Typing where
  queue : List UInt8
  line : List UInt8
  commands : List (List UInt8)
deriving DecidableEq, Repr

def Typing.step : Event → Typing → Except Fault Typing
  | .key input, t =>
    return { t with
      queue := if t.queue.length < inputBufferLength then t.queue ++ [input] else t.queue }
  | .turn, t => do
    if t.queue = [] then
      return t
    else
      let text := t.line ++ t.queue
      require (text.length < bufferSize) .buffer
      if text.getLast? = some newline then
        return ⟨[], [], t.commands ++ [text.dropLast.takeWhile (· ≠ 0)]⟩
      else
        return ⟨[], text, t.commands⟩

/-- The program for a line. -/
def programOf (line : List UInt8) : Program :=
  if line = doom then doomProgram else ⟨line.map widen, [line.map widen]⟩

/-- A shell in which this has been typed. -/
structure Types (s : Shell) (t : Typing) : Prop where
  queue : Holds s.inputBuffer t.queue
  cursorPos : s.cursorPos = t.line.length
  line : ∀ i (hi : i < t.line.length), s.buffer i = t.line[i]
  fits : t.line.length < bufferSize
  programs : s.programs = t.commands.map programOf

end Lines

section Stores
variable {buffer buffer' : ℕ → UInt8} {elements : List UInt8} {index : ℕ} {c : UInt8}

theorem store_eq_ok : store index c buffer = .ok buffer' ↔
    index < bufferSize ∧ Function.update buffer index c = buffer' := by
  unfold store
  rw [bind_eq_ok]
  constructor
  · rintro ⟨_, hindex, hupdate⟩
    exact ⟨require_eq_ok.mp hindex, pure_eq_ok.mp hupdate⟩
  · rintro ⟨hindex, hupdate⟩
    exact ⟨(), require_true hindex, pure_eq_ok.mpr hupdate⟩

/-- Characters that fit are stored one after the other, and those before them stay. -/
theorem storeAll_of_fits (hfits : index + elements.length ≤ bufferSize) :
    ∃ buffer', storeAll elements index buffer = .ok buffer' ∧
      (∀ i (hi : i < elements.length), buffer' (index + i) = elements[i]) ∧
      ∀ i < index, buffer' i = buffer i := by
  induction elements generalizing index buffer with
  | nil => exact ⟨buffer, rfl, fun i hi => absurd hi (Nat.not_lt_zero i), fun _ _ => rfl⟩
  | cons c elements ih =>
    rw [List.length_cons] at hfits
    obtain ⟨buffer', hrest, hstored, hkept⟩ :=
      @ih (Function.update buffer index c) (index + 1) (by omega)
    refine ⟨buffer', ?_, ?_, ?_⟩
    · exact bind_eq_ok.mpr ⟨_, store_eq_ok.mpr ⟨by omega, rfl⟩, hrest⟩
    · intro i hi
      cases i with
      | zero =>
        rw [Nat.add_zero, hkept index (Nat.lt_succ_self index)]
        exact Function.update_self _ _ _
      | succ i =>
        have hi : i < elements.length := Nat.lt_of_succ_lt_succ hi
        rw [show index + (i + 1) = index + 1 + i by omega]
        exact hstored i hi
    · intro i hi
      rw [hkept i (by omega)]
      exact Function.update_of_ne hi.ne _ _

end Stores

section Strings
variable {buffer : ℕ → UInt8} {text : List UInt8}

/-- The characters that are converted are those of the string. -/
theorem asciiLoop_eq (buffer : ℕ → UInt8) (index left : ℕ) :
    asciiLoop buffer index left =
      (((List.range' index left).map buffer).takeWhile (· ≠ 0)).map widen := by
  induction left generalizing index with
  | zero => rfl
  | succ left ih =>
    rw [List.range'_succ, List.map_cons]
    unfold asciiLoop
    by_cases hnul : buffer index = 0
    · rw [if_pos hnul, List.takeWhile_cons_of_neg (by simpa using hnul)]
      rfl
    · rw [if_neg hnul, List.takeWhile_cons_of_pos (by simpa using hnul), ih]
      rfl

theorem asciiToWide_eq (buffer : ℕ → UInt8) :
    asciiToWide buffer bufferSize = (cString buffer).map widen := by
  unfold asciiToWide cString
  rw [asciiLoop_eq, List.range_eq_range']

/-- The string of a text with a NUL behind it. -/
theorem cString_of_line (hfits : text.length < bufferSize)
    (htext : ∀ i (hi : i < text.length), buffer i = text[i]) (hnul : buffer text.length = 0) :
    cString buffer = text.takeWhile (· ≠ 0) := by
  obtain ⟨rest, hrest⟩ : ∃ rest, bufferSize = text.length + (rest + 1) :=
    ⟨bufferSize - text.length - 1, by omega⟩
  have hbefore : (List.range text.length).map buffer = text := by
    apply List.ext_getElem
    · rw [List.length_map, List.length_range]
    · intro i _ hi
      rw [List.getElem_map, List.getElem_range]
      exact htext i hi
  unfold cString
  rw [hrest, List.range_add, List.map_append, hbefore, List.range_succ_eq_map, List.map_cons,
    List.map_cons, Nat.add_zero, hnul, List.takeWhile_append]
  rw [List.takeWhile_cons_of_neg (by simp)]
  split_ifs with hall
  · have hstart : text.takeWhile (· ≠ 0) <+: text := List.takeWhile_prefix _
    rw [List.append_nil, hstart.eq_of_length hall]
  · rfl

/-- The line in buffer is run as it is. -/
theorem programIn_eq (hlength : (cString buffer).length < bufferSize) :
    programIn buffer = .ok (programOf (cString buffer)) := by
  unfold programIn programOf
  split_ifs with hdoom
  · rfl
  · have hwide : ((cString buffer).map widen).length < bufferSize := by
      rw [List.length_map]
      exact hlength
    rw [asciiToWide_eq]
    dsimp only
    rw [require_true hwide]
    rfl

end Strings

section Queue
variable {rb : RingBuffer UInt8 inputBufferLength} {queue : List UInt8}

theorem popElements_of_holds (h : Holds rb queue) (count : ℕ) (hcount : 0 < count) :
    (rb.popElements count).1 = min count queue.length ∧
      (rb.popElements count).2.1 = queue.take count ∧
      Holds (rb.popElements count).2.2 (queue.drop count) := by
  obtain ⟨hanswer, hholds⟩ := h.popElements false count
  obtain ⟨hread, helements⟩ := Answer.delivered.inj hanswer
  exact ⟨hread, helements, hholds fun hnone => hcount.ne' hnone.1⟩

theorem push_of_holds (h : Holds rb queue) (input : UInt8) :
    Holds (rb.push false input).2
      (if queue.length < inputBufferLength then queue ++ [input] else queue) := by
  obtain ⟨-, hholds⟩ := h.push false input
  unfold queueOperate at hholds
  dsimp only at hholds
  rw [if_neg Bool.false_ne_true] at hholds
  split_ifs at hholds ⊢
  · exact hholds
  · exact hholds

end Queue

section Turns
variable {s s' : Shell} {t t' : Typing}

theorem Types.queued_eq (h : Types s t) : s.queued = t.queue := by
  obtain ⟨-, helements, -⟩ := popElements_of_holds h.queue inputBufferLength (by decide)
  exact helements.trans (List.take_of_length_le h.queue.length_le)

/-- A turn that finds nothing. -/
theorem Types.turn_of_empty (h : Types s t) (hempty : t.queue = []) :
    ∃ s', s.turn = .ok s' ∧ Types s' t := by
  obtain ⟨hread, -, hholds⟩ := popElements_of_holds h.queue bufferSize (by decide)
  rw [hempty, List.length_nil, Nat.min_zero] at hread
  rw [hempty, List.drop_nil, ← hempty] at hholds
  refine ⟨{ s with inputBuffer := (s.inputBuffer.popElements bufferSize).2.2 }, ?_, ?_⟩
  · unfold Shell.turn
    exact if_pos hread
  · exact ⟨hholds, h.cursorPos, h.line, h.fits, h.programs⟩

/-- The NUL is stored behind the buffer when the line gets too long for it. -/
theorem Types.not_succeeds_turn (h : Types s t) (hne : t.queue ≠ [])
    (hlong : bufferSize ≤ (t.line ++ t.queue).length) : ¬ Succeeds s.turn := by
  have hpos := List.length_pos_of_ne_nil hne
  have hcursor := h.cursorPos
  obtain ⟨hread, -, -⟩ := popElements_of_holds h.queue bufferSize (by decide)
  have hsize : bufferSize = 1024 := rfl
  rw [List.length_append] at hlong
  rintro ⟨s', hturn⟩
  unfold Shell.turn at hturn
  dsimp only at hturn
  rw [if_neg (by omega)] at hturn
  obtain ⟨_, -, hturn⟩ := bind_eq_ok.mp hturn
  obtain ⟨_, hstore, -⟩ := bind_eq_ok.mp hturn
  have hindex := (store_eq_ok.mp hstore).1
  omega

/-- What a turn finds in the buffer when it looks at the last character. -/
theorem Types.turn_eq (h : Types s t) (hne : t.queue ≠ [])
    (hfits : (t.line ++ t.queue).length < bufferSize) :
    ∃ inputBuffer buffer, Holds inputBuffer [] ∧
      (∀ i (hi : i < (t.line ++ t.queue).length), buffer i = (t.line ++ t.queue)[i]) ∧
      buffer (t.line ++ t.queue).length = 0 ∧
      s.turn =
        if buffer ((t.line ++ t.queue).length - 1) = newline then do
          let buffer ← store ((t.line ++ t.queue).length - 1) 0 buffer
          let program ← programIn buffer
          return ⟨inputBuffer.clear.clear, buffer, 0, s.programs ++ [program]⟩
        else
          return { s with
            inputBuffer := inputBuffer
            buffer := buffer
            cursorPos := (t.line ++ t.queue).length } := by
  have hpos := List.length_pos_of_ne_nil hne
  have hcursor := h.cursorPos
  obtain ⟨hread, helements, hholds⟩ :=
    popElements_of_holds h.queue bufferSize (by decide)
  have hlength := @List.length_append _ t.line t.queue
  rw [List.take_of_length_le (by omega)] at helements
  rw [List.drop_of_length_le (by omega)] at hholds
  rw [Nat.min_eq_right (by omega)] at hread
  obtain ⟨stored, hstoreAll, hnew, hold⟩ :=
    @storeAll_of_fits s.buffer t.queue s.cursorPos (by omega)
  have hend : (t.line ++ t.queue).length = t.queue.length + s.cursorPos := by omega
  refine ⟨(s.inputBuffer.popElements bufferSize).2.2,
    Function.update stored (t.queue.length + s.cursorPos) 0, hholds, ?_, ?_, ?_⟩
  · intro i hi
    rw [Function.update_of_ne (by omega)]
    rcases Nat.lt_or_ge i t.line.length with hline | hqueue
    · rw [hold i (by omega), h.line i hline, List.getElem_append_left hline]
    · have hindex := hnew (i - t.line.length) (by omega)
      rw [show s.cursorPos + (i - t.line.length) = i by omega] at hindex
      rw [hindex, List.getElem_append_right hqueue]
  · rw [hend]
    exact Function.update_self _ _ _
  · have hstore : store (t.queue.length + s.cursorPos) 0 stored =
        .ok (Function.update stored (t.queue.length + s.cursorPos) 0) :=
      store_eq_ok.mpr ⟨by omega, rfl⟩
    unfold Shell.turn
    dsimp only
    rw [hread, helements, if_neg (by omega), hstoreAll, ok_bind, hstore, ok_bind, hend,
      Nat.add_comm s.cursorPos]

/-- A line with a newline at its end is run. -/
theorem store_programIn {text : List UInt8} {buffer : ℕ → UInt8} (hpos : 0 < text.length)
    (hfits : text.length < bufferSize) (hline : ∀ i (hi : i < text.length), buffer i = text[i]) :
    ∃ buffer', store (text.length - 1) 0 buffer = .ok buffer' ∧
      programIn buffer' = .ok (programOf (text.dropLast.takeWhile (· ≠ 0))) := by
  have hlength := @List.length_dropLast _ text
  refine ⟨Function.update buffer (text.length - 1) 0, store_eq_ok.mpr ⟨by omega, rfl⟩, ?_⟩
  have hstring : cString (Function.update buffer (text.length - 1) 0) =
      text.dropLast.takeWhile (· ≠ 0) := by
    apply cString_of_line
    · omega
    · intro i hi
      rw [Function.update_of_ne (by omega), hline i (by omega), List.getElem_dropLast]
    · rw [hlength]
      exact Function.update_self _ _ _
  have hstart : text.dropLast.takeWhile (· ≠ 0) <+: text.dropLast := List.takeWhile_prefix _
  have hshort := hstart.length_le
  rw [← hstring] at hshort ⊢
  exact programIn_eq (by omega)

/-- A turn that finds something, by its last character. -/
theorem Typing.step_turn (hne : t.queue ≠ []) (hfits : (t.line ++ t.queue).length < bufferSize) :
    t.step .turn =
      if (t.line ++ t.queue).getLast? = some newline then
        .ok ⟨[], [], t.commands ++ [(t.line ++ t.queue).dropLast.takeWhile (· ≠ 0)]⟩
      else .ok ⟨[], t.line ++ t.queue, t.commands⟩ := by
  unfold Typing.step
  dsimp only
  rw [if_neg hne, require_true hfits, ok_bind]
  rfl

/-- A turn with a line that fits. -/
theorem Types.turn_of_fits (h : Types s t) (hne : t.queue ≠ [])
    (hfits : (t.line ++ t.queue).length < bufferSize) :
    ∃ s' t', s.turn = .ok s' ∧ t.step .turn = .ok t' ∧ Types s' t' := by
  obtain ⟨inputBuffer, buffer, hholds, hline, -, hturn⟩ := h.turn_eq hne hfits
  have hpos : 0 < (t.line ++ t.queue).length := by
    have hqueue := List.length_pos_of_ne_nil hne
    rw [List.length_append]
    omega
  have hlast : (t.line ++ t.queue).getLast? = some newline ↔
      buffer ((t.line ++ t.queue).length - 1) = newline := by
    rw [List.getLast?_eq_getElem?, List.getElem?_eq_getElem (by omega), Option.some_inj,
      hline _ (by omega)]
  rw [hturn, Typing.step_turn hne hfits]
  by_cases hnewline : (t.line ++ t.queue).getLast? = some newline
  · obtain ⟨buffer', hstore, hprogram⟩ := store_programIn hpos hfits hline
    obtain ⟨command, hcommand⟩ : ∃ command,
        command = (t.line ++ t.queue).dropLast.takeWhile (· ≠ 0) := ⟨_, rfl⟩
    rw [← hcommand] at hprogram ⊢
    refine ⟨⟨inputBuffer.clear.clear, buffer', 0, s.programs ++ [programOf command]⟩, _, ?_,
      if_pos hnewline, ?_⟩
    · rw [if_pos (hlast.mp hnewline), hstore, ok_bind, hprogram, ok_bind]
      rfl
    · refine ⟨holds_clear _, rfl, fun i hi => absurd hi (Nat.not_lt_zero i), Nat.zero_lt_succ _, ?_⟩
      rw [h.programs, List.map_append, List.map_singleton]
  · refine ⟨{ s with
        inputBuffer := inputBuffer
        buffer := buffer
        cursorPos := (t.line ++ t.queue).length }, _, ?_, if_neg hnewline, ?_⟩
    · exact if_neg fun hend => hnewline (hlast.mpr hend)
    · exact ⟨hholds, rfl, hline, hfits, h.programs⟩

theorem Typing.step_turn_of_empty (hempty : t.queue = []) : t.step .turn = .ok t := by
  unfold Typing.step
  exact if_pos hempty

theorem Typing.succeeds_turn_iff (hne : t.queue ≠ []) :
    Succeeds (t.step .turn) ↔ (t.line ++ t.queue).length < bufferSize := by
  unfold Typing.step
  dsimp only
  rw [if_neg hne, succeeds_require_bind]
  apply and_iff_left
  split_ifs
  · exact succeeds_pure _
  · exact succeeds_pure _

/-- What a turn can do, seen from the keyboard. -/
theorem Typing.turn_cases (hstep : t.step .turn = .ok t') :
    (t.queue = [] ∧ t' = t) ∨
      t.queue ≠ [] ∧ (t.line ++ t.queue).length < bufferSize ∧
        ((t.line ++ t.queue).getLast? = some newline ∧
            t' = ⟨[], [], t.commands ++ [(t.line ++ t.queue).dropLast.takeWhile (· ≠ 0)]⟩ ∨
          (t.line ++ t.queue).getLast? ≠ some newline ∧
            t' = ⟨[], t.line ++ t.queue, t.commands⟩) := by
  by_cases hempty : t.queue = []
  · cases (Typing.step_turn_of_empty hempty).symm.trans hstep
    exact Or.inl ⟨hempty, rfl⟩
  · have hfits := (Typing.succeeds_turn_iff hempty).mp ⟨t', hstep⟩
    rw [Typing.step_turn hempty hfits] at hstep
    refine Or.inr ⟨hempty, hfits, ?_⟩
    split_ifs at hstep with hnewline
    · exact Or.inl ⟨hnewline, (Except.ok.inj hstep).symm⟩
    · exact Or.inr ⟨hnewline, (Except.ok.inj hstep).symm⟩

/-- The shell does with what is typed what it should look like from the keyboard. -/
theorem shell_related : Related Shell.step Typing.step Types where
  succeeds := by
    intro event s t h
    cases event with
    | key input => exact iff_of_true (succeeds_pure _) (succeeds_pure _)
    | turn =>
      by_cases hempty : t.queue = []
      · obtain ⟨s', hturn, -⟩ := h.turn_of_empty hempty
        exact iff_of_true ⟨s', hturn⟩ ⟨t, Typing.step_turn_of_empty hempty⟩
      · rw [Typing.succeeds_turn_iff hempty]
        constructor
        · intro hsucceeds
          by_contra hlong
          exact h.not_succeeds_turn hempty (Nat.le_of_not_lt hlong) hsucceeds
        · intro hfits
          obtain ⟨s', -, hturn, -⟩ := h.turn_of_fits hempty hfits
          exact ⟨s', hturn⟩
  keeps := by
    intro event s t s' t' h hs ht
    cases event with
    | key input =>
      cases hs
      cases ht
      exact ⟨push_of_holds h.queue input, h.cursorPos, h.line, h.fits, h.programs⟩
    | turn =>
      by_cases hempty : t.queue = []
      · obtain ⟨next, hturn, hnext⟩ := h.turn_of_empty hempty
        cases hturn.symm.trans hs
        cases (Typing.step_turn_of_empty hempty).symm.trans ht
        exact hnext
      · have hfits := (Typing.succeeds_turn_iff hempty).mp ⟨t', ht⟩
        obtain ⟨next, next', hturn, hturn', hnext⟩ := h.turn_of_fits hempty hfits
        cases hturn.symm.trans hs
        cases hturn'.symm.trans ht
        exact hnext

/-- Nothing has been typed yet. -/
theorem types_shell (inputBuffer : RingBuffer UInt8 inputBufferLength) (buffer : ℕ → UInt8) :
    Types (shell inputBuffer buffer) ⟨[], [], []⟩ :=
  ⟨holds_clear _, rfl, fun i hi => absurd hi (Nat.not_lt_zero i), by decide, rfl⟩

end Turns

/-- At a turn there is room in the line for what is queued, and for a NUL behind it. -/
def Fits (event : Event) (s : Shell) : Prop :=
  event = .turn → s.cursorPos + s.queued.length < bufferSize

section Runs
variable {s : Shell} {t : Typing}

/-- A step stays in the buffers if there is room. -/
theorem Types.succeeds_step_iff (h : Types s t) (event : Event) :
    Succeeds (s.step event) ↔ Fits event s := by
  unfold Fits
  rw [shell_related.succeeds event s t h, h.queued_eq, h.cursorPos, ← List.length_append]
  cases event with
  | key input => exact iff_of_true (succeeds_pure _) (nomatch ·)
  | turn =>
    rw [forall_prop_of_true rfl]
    by_cases hempty : t.queue = []
    · rw [Typing.step_turn_of_empty hempty, hempty, List.append_nil]
      exact iff_of_true (succeeds_ok t) h.fits
    · exact Typing.succeeds_turn_iff hempty

theorem Types.of_step (h : Types s t) {event : Event} {s' : Shell}
    (hs : s.step event = .ok s') : ∃ t', Types s' t' := by
  obtain ⟨t', ht⟩ := (shell_related.succeeds event s t h).mp ⟨s', hs⟩
  exact ⟨t', shell_related.keeps event s t s' t' h hs ht⟩

/-- Keys go into the queue until it is full. -/
theorem Typing.run_keys {inputs queue line : List UInt8} {commands : List (List UInt8)}
    {events : List Event} (hlength : queue.length + inputs.length ≤ inputBufferLength) :
    run Typing.step (inputs.map .key ++ events) ⟨queue, line, commands⟩ =
      run Typing.step events ⟨queue ++ inputs, line, commands⟩ := by
  induction inputs generalizing queue with
  | nil => rw [List.append_nil, List.map_nil, List.nil_append]
  | cons input inputs ih =>
    rw [List.length_cons] at hlength
    have hroom : queue.length < inputBufferLength := by omega
    have hkey : Typing.step (.key input) ⟨queue, line, commands⟩ =
        .ok ⟨queue ++ [input], line, commands⟩ := by
      unfold Typing.step
      dsimp only
      rw [if_pos hroom]
      rfl
    have hrest := @ih (queue ++ [input]) (by rw [List.length_append, List.length_singleton]; omega)
    rw [List.append_assoc, List.singleton_append] at hrest
    rw [List.map_cons, List.cons_append, run_cons_of_ok hkey, hrest]

end Runs

/-- When 1024 keys are pressed before the shell takes its turn, the NUL is stored behind the
buffer. -/
theorem long_line_outside :
    ¬ Succeeds (run Shell.step ((List.replicate 1024 0x61).map .key ++ [.turn])
      (shell (RingBuffer.new (by decide) fun _ => 0) fun _ => 0)) := by
  have hlength : (List.replicate 1024 (0x61 : UInt8)).length = 1024 := List.length_replicate
  have hne : List.replicate 1024 (0x61 : UInt8) ≠ [] := by
    apply List.ne_nil_of_length_pos
    omega
  have hsize : bufferSize = 1024 := rfl
  have hroom : inputBufferLength = 4096 := rfl
  rw [shell_related.succeeds_run (types_shell _ _),
    Typing.run_keys (by rw [List.length_nil]; omega)]
  rintro ⟨t, hrun⟩
  obtain ⟨next, hturn, -⟩ := run_cons_eq_ok.mp hrun
  have hfits := (Typing.succeeds_turn_iff hne).mp ⟨next, hturn⟩
  rw [List.nil_append, List.nil_append, hlength] at hfits
  omega

/-- The shell stays in its buffers exactly when at every turn the line as far as it has been
read and what is queued have less than 1024 characters. -/
theorem shell_inside_iff (inputBuffer : RingBuffer UInt8 inputBufferLength) (buffer : ℕ → UInt8)
    (events : List Event) :
    Succeeds (run Shell.step events (shell inputBuffer buffer)) ↔
      Before Shell.step Fits events (shell inputBuffer buffer) := by
  apply succeeds_run_iff (I := fun s => ∃ t, Types s t)
  · rintro event s ⟨t, h⟩
    exact h.succeeds_step_iff event
  · rintro event s s' ⟨t, h⟩ hs
    exact h.of_step hs
  · exact ⟨_, types_shell inputBuffer buffer⟩

end Enkel.ShellInput
