import Mathlib.Data.List.Infix
import Mathlib.Data.List.TakeWhile
import Enkel.ShellInput

/-!
The lines that are typed and the lines that are run. The shell only sees a newline when it is the
last character of a read. A character that is typed behind a newline before this has been read
takes it out of sight, and the two lines become one; a newline that is read first costs nothing.
-/
namespace Enkel.ShellLines

open Outcome RingQueue RequestRuns ShellInput

/-- The characters that are typed. -/
def typed (events : List Event) : List UInt8 :=
  events.filterMap fun
    | .key input => some input
    | .turn => none

/-- Lines as they are typed. -/
def joined (lines : List (List UInt8)) : List UInt8 := lines.flatMap (· ++ [newline])

/-- A line of less than 1000 characters. -/
def IsLine (line : List UInt8) : Prop := line.length < 1000 ∧ newline ∉ line ∧ 0 ∉ line

/-- No newline is queued when a key is pressed. -/
def ReadFirst (event : Event) (s : Shell) : Prop :=
  ∀ input, event = .key input → newline ∉ s.queued

section Joined
variable {lines commands : List (List UInt8)} {line rest : List UInt8}

@[simp] theorem joined_cons : joined (line :: lines) = line ++ newline :: joined lines := by
  unfold joined
  rw [List.flatMap_cons, List.append_assoc, List.singleton_append]

@[simp] theorem joined_append : joined (commands ++ lines) = joined commands ++ joined lines :=
  List.flatMap_append

theorem zero_notMem_joined (hlines : ∀ l ∈ lines, IsLine l) : 0 ∉ joined lines := by
  intro hzero
  obtain ⟨l, hl, hzero⟩ := List.mem_flatMap.mp hzero
  rcases List.mem_append.mp hzero with hzero | hzero
  · exact (hlines l hl).2.2 hzero
  · exact absurd (List.mem_singleton.mp hzero) (by decide)

/-- Text up to a newline can be told from what is behind it. -/
theorem append_newline_inj {a b x y : List UInt8} (ha : newline ∉ a) (hb : newline ∉ b)
    (h : a ++ newline :: x = b ++ newline :: y) : a = b ∧ x = y := by
  have hbefore : ∀ (c z : List UInt8), newline ∉ c →
      (c ++ newline :: z).takeWhile (· ≠ newline) = c := by
    intro c z hc
    rw [List.takeWhile_append_of_pos, List.takeWhile_cons_of_neg (by simp), List.append_nil]
    intro d hd
    rw [decide_eq_true_iff]
    exact ne_of_mem_of_not_mem hd hc
  have heq : a = b := by rw [← hbefore a x ha, h, hbefore b y hb]
  rw [heq] at h
  exact ⟨heq, (List.cons.inj (List.append_cancel_left h)).2⟩

/-- Lines that the text starts with are the first of its lines. -/
theorem exists_of_joined_isPrefix (hcommands : ∀ c ∈ commands, newline ∉ c)
    (hlines : ∀ l ∈ lines, newline ∉ l) (h : joined commands ++ rest <+: joined lines) :
    ∃ later, lines = commands ++ later ∧ rest <+: joined later := by
  induction commands generalizing lines with
  | nil => exact ⟨lines, rfl, h⟩
  | cons c commands ih =>
    obtain ⟨hc, hcommands⟩ := List.forall_mem_cons.mp hcommands
    obtain ⟨behind, hbehind⟩ := h
    cases lines with
    | nil =>
      have hlength := congrArg List.length hbehind
      simp [joined] at hlength
    | cons l lines =>
      obtain ⟨hl, hothers⟩ := List.forall_mem_cons.mp hlines
      rw [joined_cons, joined_cons, List.append_assoc, List.append_assoc,
        List.cons_append] at hbehind
      obtain ⟨heq, hrest⟩ := append_newline_inj hc hl hbehind
      rw [← List.append_assoc] at hrest
      obtain ⟨later, hlater, hstart⟩ := ih hcommands hothers ⟨behind, hrest⟩
      refine ⟨later, ?_, hstart⟩
      rw [← heq, hlater, List.cons_append]

/-- Text in which a newline can only be the last character is no longer than a line. -/
theorem length_le_of_joined_isPrefix (hlines : ∀ l ∈ lines, IsLine l)
    (hrest : newline ∉ rest.dropLast) (h : rest <+: joined lines) : rest.length ≤ 1000 := by
  cases lines with
  | nil =>
    rw [List.prefix_nil.mp h]
    exact Nat.zero_le _
  | cons l lines =>
    have hl := (hlines l List.mem_cons_self).1
    by_contra hlong
    have hnewline : rest[l.length]? = some newline := by
      obtain ⟨behind, hbehind⟩ := h
      have hstart : (rest ++ behind)[l.length]? = rest[l.length]? :=
        List.getElem?_append_left (by omega)
      rw [← hstart, hbehind, joined_cons, List.getElem?_append_right le_rfl, Nat.sub_self]
      rfl
    apply hrest
    apply List.mem_of_getElem? (i := l.length)
    rw [List.getElem?_dropLast, if_pos (by omega), hnewline]

end Joined

section Typing
variable {t t' : Typing} {event : Event} {events : List Event} {lines : List (List UInt8)}

/-- All that has been typed, as it is kept. -/
def content (t : Typing) : List UInt8 := joined t.commands ++ (t.line ++ t.queue)

/-- A newline is only the last character of the queue, if it is there. -/
structure Tidy (t : Typing) : Prop where
  line : newline ∉ t.line
  queue : newline ∉ t.queue.dropLast
  commands : ∀ c ∈ t.commands, newline ∉ c

theorem Tidy.dropLast (h : Tidy t) : newline ∉ (t.line ++ t.queue).dropLast := by
  by_cases hempty : t.queue = []
  · rw [hempty, List.append_nil]
    exact fun hmem => h.line (List.mem_of_mem_dropLast hmem)
  · rw [List.dropLast_append_of_ne_nil hempty]
    exact List.not_mem_append h.line h.queue

/-- As long as the text is tidy there is room in the buffer and in the queue. -/
theorem Tidy.length_le (h : Tidy t) (hlines : ∀ l ∈ lines, IsLine l)
    (hstart : content t <+: joined lines) : (t.line ++ t.queue).length ≤ 1000 := by
  obtain ⟨later, rfl, hlater⟩ := exists_of_joined_isPrefix h.commands
    (fun l hl => (hlines l hl).2.1) hstart
  refine length_le_of_joined_isPrefix (fun l hl => hlines l ?_) h.dropLast hlater
  exact List.mem_append_right _ hl

theorem takeWhile_dropLast {text : List UInt8} (hzero : 0 ∉ text) :
    text.dropLast.takeWhile (· ≠ 0) = text.dropLast := by
  apply List.takeWhile_eq_self_iff.mpr
  intro c hc
  rw [decide_eq_true_iff]
  exact ne_of_mem_of_not_mem (List.mem_of_mem_dropLast hc) hzero

/-- A turn keeps what is there, and the text tidy. -/
theorem Tidy.turn (h : Tidy t) (hfits : (t.line ++ t.queue).length < bufferSize)
    (hzero : 0 ∉ t.line ++ t.queue) :
    ∃ t', t.step .turn = .ok t' ∧ Tidy t' ∧ content t' = content t := by
  by_cases hempty : t.queue = []
  · exact ⟨t, Typing.step_turn_of_empty hempty, h, rfl⟩
  · have hne : t.line ++ t.queue ≠ [] := List.append_ne_nil_of_right_ne_nil _ hempty
    have hlast := h.dropLast
    rw [Typing.step_turn hempty hfits, takeWhile_dropLast hzero]
    unfold content
    obtain ⟨text, htext⟩ : ∃ text, text = t.line ++ t.queue := ⟨_, rfl⟩
    rw [← htext] at hne hlast ⊢
    by_cases hnewline : text.getLast? = some newline
    · have hwhole : text.dropLast ++ [newline] = text := by
        rw [List.getLast?_eq_some_getLast hne] at hnewline
        rw [← Option.some.inj hnewline]
        exact List.dropLast_append_getLast hne
      refine ⟨_, if_pos hnewline, ⟨List.not_mem_nil, List.not_mem_nil, ?_⟩, ?_⟩
      · intro c hc
        rcases List.mem_append.mp hc with hc | hc
        · exact h.commands c hc
        · rw [List.mem_singleton.mp hc]
          exact hlast
      · rw [joined_append, joined_cons, List.append_nil, List.append_nil]
        exact congrArg (joined t.commands ++ ·) hwhole
    · refine ⟨_, if_neg hnewline, ⟨?_, List.not_mem_nil, h.commands⟩, by rw [List.append_nil]⟩
      intro hmem
      rw [← List.dropLast_append_getLast hne] at hmem
      rcases List.mem_append.mp hmem with hmem | hmem
      · exact hlast hmem
      · apply hnewline
        rw [List.getLast?_eq_some_getLast hne, List.mem_singleton.mp hmem]

/-- A key that comes when no newline is queued. -/
theorem Tidy.key (h : Tidy t) {input : UInt8} (hread : newline ∉ t.queue)
    (hroom : t.queue.length < inputBufferLength) :
    ∃ t', t.step (.key input) = .ok t' ∧ Tidy t' ∧ content t' = content t ++ [input] := by
  unfold Typing.step content
  dsimp only
  rw [if_pos hroom]
  refine ⟨_, rfl, ⟨h.line, ?_, h.commands⟩, ?_⟩
  · rw [List.dropLast_concat]
    exact hread
  · rw [List.append_assoc, List.append_assoc]

/-- If each newline is read first, all that is typed is kept. -/
theorem Tidy.run (h : Tidy t) (hlines : ∀ l ∈ lines, IsLine l)
    (htyped : content t ++ typed events = joined lines)
    (hread : Before Typing.step (fun event t => ∀ input, event = .key input → newline ∉ t.queue)
      events t) :
    ∃ t', RequestRuns.run Typing.step events t = .ok t' ∧ Tidy t' ∧ content t' = joined lines := by
  induction events generalizing t with
  | nil => exact ⟨t, rfl, h, by rw [← htyped]; exact (List.append_nil _).symm⟩
  | cons event events ih =>
    obtain ⟨hfirst, hread⟩ := hread
    have hstart : content t <+: joined lines := ⟨_, htyped⟩
    have hlength := h.length_le hlines hstart
    cases event with
    | key input =>
      have hroom : t.queue.length < inputBufferLength := by
        rw [List.length_append] at hlength
        exact (Nat.le_of_add_left_le hlength).trans_lt (by decide)
      obtain ⟨next, hnext, htidy, hcontent⟩ := @Tidy.key t h input (hfirst input rfl) hroom
      rw [run_cons_of_ok hnext]
      refine ih htidy ?_ (hread next hnext)
      rw [hcontent, List.append_assoc]
      exact htyped
    | turn =>
      have hzero : 0 ∉ t.line ++ t.queue := fun hmem =>
        zero_notMem_joined hlines (hstart.subset (List.mem_append_right _ hmem))
      obtain ⟨next, hnext, htidy, hcontent⟩ := h.turn (hlength.trans_lt (by decide)) hzero
      rw [run_cons_of_ok hnext]
      refine ih htidy ?_ (hread next hnext)
      rw [hcontent]
      exact htyped

/-- When everything is read, the lines that were typed are those that were run. -/
theorem Tidy.commands_eq (h : Tidy t) (hlines : ∀ l ∈ lines, IsLine l)
    (hcontent : content t = joined lines) (hqueue : t.queue = []) : t.commands = lines := by
  have hstart : joined t.commands ++ (t.line ++ t.queue) <+: joined lines := by
    rw [← hcontent]
    exact List.prefix_rfl
  obtain ⟨later, hlater, -⟩ := exists_of_joined_isPrefix h.commands
    (fun l hl => (hlines l hl).2.1) hstart
  rw [hlater] at hcontent
  unfold content at hcontent
  rw [joined_append, hqueue, List.append_nil] at hcontent
  have hrest := List.append_cancel_left hcontent
  cases later with
  | nil => rw [hlater, List.append_nil]
  | cons l later =>
    -- the line read so far would have a newline
    rw [joined_cons] at hrest
    exact absurd (hrest ▸ List.mem_append_right _ List.mem_cons_self) h.line

/-- A newline that is not at the end of what is queued, or of what is read, is never seen. -/
inductive Spoiled (t : Typing) : Prop
  | long (h : bufferSize ≤ t.queue.length)
  | queue (a b : List UInt8) (hb : b ≠ []) (h : t.queue = a ++ newline :: b)
  | line (h : newline ∈ t.line)
  | command (c : List UInt8) (hc : c ∈ t.commands) (h : newline ∈ c)

theorem Spoiled.key (h : Spoiled t) {input : UInt8} (hstep : t.step (.key input) = .ok t') :
    Spoiled t' := by
  cases hstep
  cases h with
  | long hlong =>
    apply Spoiled.long
    dsimp only
    split_ifs
    · rw [List.length_append]
      omega
    · exact hlong
  | queue a b hb hqueue =>
    split_ifs
    · refine .queue a (b ++ [input]) (List.append_ne_nil_of_left_ne_nil hb _) ?_
      rw [hqueue, List.append_assoc, List.cons_append]
    · exact .queue a b hb hqueue
  | line hline => exact .line hline
  | command c hc hnewline => exact .command c hc hnewline

/-- A newline before the last character goes into the line or the command. -/
theorem Spoiled.turn (h : Spoiled t) (hzero : 0 ∉ t.line ++ t.queue)
    (hstep : t.step .turn = .ok t') : Spoiled t' := by
  rcases Typing.turn_cases hstep with ⟨-, rfl⟩ | ⟨hne, hfits, hturn⟩
  · exact h
  rw [takeWhile_dropLast hzero] at hturn
  have hspoils : newline ∈ (t.line ++ t.queue).dropLast → Spoiled t' := by
    intro hmem
    rcases hturn with ⟨-, rfl⟩ | ⟨-, rfl⟩
    · exact .command _ (List.mem_append_right _ (List.mem_singleton_self _)) hmem
    · exact .line (List.mem_of_mem_dropLast hmem)
  cases h with
  | long hlong =>
    rw [List.length_append] at hfits
    exact absurd hfits (by omega)
  | queue a b hb hqueue =>
    apply hspoils
    rw [hqueue, ← List.append_assoc, List.dropLast_append_of_ne_nil (List.cons_ne_nil _ _),
      List.dropLast_cons_of_ne_nil hb]
    exact List.mem_append_right _ List.mem_cons_self
  | line hline =>
    apply hspoils
    rw [List.dropLast_append_of_ne_nil hne]
    exact List.mem_append_left _ hline
  | command c hc hnewline =>
    rcases hturn with ⟨-, rfl⟩ | ⟨-, rfl⟩
    · exact .command c (List.mem_append_left _ hc) hnewline
    · exact .command c hc hnewline

/-- No NUL comes into the text. -/
theorem zero_notMem_step (hzero : 0 ∉ t.line ++ t.queue) (hkey : 0 ∉ typed [event])
    (hstep : t.step event = .ok t') : 0 ∉ t'.line ++ t'.queue := by
  cases event with
  | key input =>
    cases hstep
    dsimp only
    split_ifs
    · rw [← List.append_assoc]
      exact List.not_mem_append hzero hkey
    · exact hzero
  | turn =>
    rcases Typing.turn_cases hstep with ⟨-, rfl⟩ | ⟨-, -, ⟨-, rfl⟩ | ⟨-, rfl⟩⟩
    · exact hzero
    · exact List.not_mem_nil
    · rw [List.append_nil]
      exact hzero

/-- Nothing is kept that was not typed. -/
theorem length_content_step (hstep : t.step event = .ok t') :
    (content t').length ≤ (content t).length + (typed [event]).length := by
  unfold content
  cases event with
  | key input =>
    have htyped : (typed [.key input]).length = 1 := rfl
    cases hstep
    rw [htyped]
    dsimp only
    split_ifs
    · simp only [List.length_append, List.length_singleton]
      omega
    · exact Nat.le_succ _
  | turn =>
    rcases Typing.turn_cases hstep with ⟨-, rfl⟩ | ⟨hne, -, ⟨-, rfl⟩ | ⟨-, rfl⟩⟩
    · exact Nat.le_add_right _ _
    · have hpos : 0 < (t.line ++ t.queue).length :=
        List.length_pos_of_ne_nil (List.append_ne_nil_of_right_ne_nil _ hne)
      have hstart : (t.line ++ t.queue).dropLast.takeWhile (· ≠ 0) <+:
          (t.line ++ t.queue).dropLast := List.takeWhile_prefix _
      have hlength := hstart.length_le
      rw [List.length_dropLast] at hlength
      rw [joined_append, joined_cons]
      unfold joined
      simp only [List.length_append, List.length_cons, List.length_nil, List.flatMap_nil] at *
      omega
    · rw [List.append_nil]
      exact Nat.le_add_right _ _

end Typing

section Runs
variable {t t' : Typing} {event : Event} {events : List Event} {lines : List (List UInt8)}

theorem typed_cons : typed (event :: events) = typed [event] ++ typed events := by
  cases event with
  | key input => rfl
  | turn => rfl

theorem length_content_run (hrun : run Typing.step events t = .ok t') :
    (content t').length ≤ (content t).length + (typed events).length := by
  induction events generalizing t with
  | nil =>
    cases hrun
    exact Nat.le_add_right _ _
  | cons event events ih =>
    obtain ⟨next, hnext, hrest⟩ := run_cons_eq_ok.mp hrun
    have hstep := length_content_step hnext
    have hlater := ih hrest
    rw [typed_cons, List.length_append]
    omega

theorem Spoiled.run (h : Spoiled t) (hzero : 0 ∉ t.line ++ t.queue) (hkeys : 0 ∉ typed events)
    (hrun : RequestRuns.run Typing.step events t = .ok t') : Spoiled t' := by
  induction events generalizing t with
  | nil =>
    cases hrun
    exact h
  | cons event events ih =>
    obtain ⟨next, hnext, hrest⟩ := run_cons_eq_ok.mp hrun
    rw [typed_cons] at hkeys
    have hkey : 0 ∉ typed [event] := fun hmem => hkeys (List.mem_append_left _ hmem)
    refine ih ?_ (zero_notMem_step hzero hkey hnext)
      (fun hmem => hkeys (List.mem_append_right _ hmem)) hrest
    cases event with
    | key input => exact h.key hnext
    | turn => exact h.turn hzero hnext

/-- If nothing is spoiled in the end, each newline has been read first. -/
theorem before_of_not_spoiled (hzero : 0 ∉ t.line ++ t.queue) (hkeys : 0 ∉ typed events)
    (hrun : run Typing.step events t = .ok t') (hgood : ¬ Spoiled t') :
    Before Typing.step (fun event t => ∀ input, event = .key input → newline ∉ t.queue)
      events t := by
  induction events generalizing t with
  | nil => trivial
  | cons event events ih =>
    obtain ⟨next, hnext, hrest⟩ := run_cons_eq_ok.mp hrun
    rw [typed_cons] at hkeys
    have hkey : 0 ∉ typed [event] := fun hmem => hkeys (List.mem_append_left _ hmem)
    have hlater : 0 ∉ typed events := fun hmem => hkeys (List.mem_append_right _ hmem)
    have hnextZero := zero_notMem_step hzero hkey hnext
    refine ⟨?_, fun other hother => ?_⟩
    · rintro input rfl hmem
      apply hgood
      refine Spoiled.run ?_ hnextZero hlater hrest
      cases hnext
      obtain ⟨a, b, hqueue⟩ := List.append_of_mem hmem
      split_ifs with hroom
      · refine .queue a (b ++ [input]) ?_ ?_
        · exact List.append_ne_nil_of_right_ne_nil _ (List.cons_ne_nil _ _)
        · rw [hqueue, List.append_assoc, List.cons_append]
      · apply Spoiled.long
        have hsize : inputBufferLength = 4096 := rfl
        have hbuffer : bufferSize = 1024 := rfl
        dsimp only
        omega
    · cases hnext.symm.trans hother
      exact ih hnextZero hlater hrest

end Runs

section Lines
variable {events : List Event} {lines : List (List UInt8)}

/-- Seen from the keyboard, the lines are run exactly if each newline is read first. -/
theorem typing_runs_lines_iff (hlines : ∀ l ∈ lines, IsLine l)
    (htyped : typed events = joined lines)
    (hread : ∀ t, run Typing.step events ⟨[], [], []⟩ = .ok t → t.queue = []) :
    (∃ t, run Typing.step events ⟨[], [], []⟩ = .ok t ∧ t.commands = lines) ↔
      Before Typing.step (fun event t => ∀ input, event = .key input → newline ∉ t.queue)
        events ⟨[], [], []⟩ := by
  have hempty : content ⟨[], [], []⟩ = [] := rfl
  constructor
  · rintro ⟨t, hrun, hcommands⟩
    have hkeys : 0 ∉ typed events := by
      rw [htyped]
      exact zero_notMem_joined hlines
    refine before_of_not_spoiled List.not_mem_nil hkeys hrun fun hspoiled => ?_
    have hqueue := hread t hrun
    have hline : t.line = [] := by
      have hlength := length_content_run hrun
      rw [hempty, htyped] at hlength
      unfold content at hlength
      rw [hcommands, List.length_append, List.length_append, List.length_nil] at hlength
      exact List.length_eq_zero_iff.mp (by omega)
    cases hspoiled with
    | long hlong =>
      rw [hqueue] at hlong
      exact absurd hlong (by decide)
    | queue a b _ h =>
      rw [hqueue] at h
      exact List.append_ne_nil_of_right_ne_nil a (List.cons_ne_nil _ _) h.symm
    | line h =>
      rw [hline] at h
      exact List.not_mem_nil h
    | command c hc h =>
      rw [hcommands] at hc
      exact (hlines c hc).2.1 h
  · intro hbefore
    have htidy : Tidy ⟨[], [], []⟩ :=
      ⟨List.not_mem_nil, List.not_mem_nil, fun c hc => absurd hc List.not_mem_nil⟩
    obtain ⟨t, hrun, htidy, hcontent⟩ := htidy.run hlines (by rw [hempty]; exact htyped) hbefore
    exact ⟨t, hrun, htidy.commands_eq hlines hcontent (hread t hrun)⟩

/-- What is left in the queue after a run, seen from the keyboard. -/
theorem queued_of_run {inputBuffer : RingBuffer UInt8 inputBufferLength} {buffer : ℕ → UInt8}
    {s : Shell} {t : Typing} (hs : run Shell.step events (shell inputBuffer buffer) = .ok s)
    (ht : run Typing.step events ⟨[], [], []⟩ = .ok t) : s.queued = t.queue :=
  (shell_related.run (types_shell inputBuffer buffer) hs ht).queued_eq

theorem programOf_injective : Function.Injective programOf := by
  have hmap : Function.Injective (List.map StandardStreams.widen) :=
    List.map_injective_iff.mpr StandardStreams.widen_injective
  have hargv : ∀ l : List UInt8, (Program.mk (l.map StandardStreams.widen)
      [l.map StandardStreams.widen]) ≠ doomProgram := by
    intro l h
    have hlength : 1 = doomProgram.argv.length := congrArg (fun p => p.argv.length) h
    exact absurd hlength (by decide)
  intro a b h
  unfold programOf at h
  split_ifs at h with ha hb hb
  · rw [ha, hb]
  · exact absurd h.symm (hargv b)
  · exact absurd h (hargv a)
  · exact hmap (congrArg Program.path h)

end Lines

/-- Two lines that are typed before the shell reads the first newline are run as one. -/
theorem two_lines_joined :
    typed [.key 0x61, .key newline, .key 0x62, .turn, .key newline, .turn] =
        joined [[0x61], [0x62]] ∧
      ∃ s, run Shell.step [.key 0x61, .key newline, .key 0x62, .turn, .key newline, .turn]
          (shell (RingBuffer.new (by decide) fun _ => 0) fun _ => 0) = .ok s ∧
        s.queued = [] ∧ s.programs = [programOf [0x61, newline, 0x62]] ∧
        s.programs ≠ [[0x61], [0x62]].map programOf := by
  have htypes := types_shell (RingBuffer.new (by decide) fun _ => 0) fun _ => 0
  have hrun : run Typing.step [.key 0x61, .key newline, .key 0x62, .turn, .key newline, .turn]
      ⟨[], [], []⟩ = .ok ⟨[], [], [[0x61, newline, 0x62]]⟩ := rfl
  obtain ⟨s, hs⟩ := (shell_related.succeeds_run htypes).mpr ⟨_, hrun⟩
  have hend := shell_related.run htypes hs hrun
  refine ⟨rfl, s, hs, hend.queued_eq, hend.programs, fun h => ?_⟩
  have hlength := congrArg List.length (hend.programs.symm.trans h)
  exact absurd hlength (by decide)

/-- Of lines of less than 1000 characters that are typed while the shell waits and that it has
read to the end, it runs all in order exactly if every newline is read before the next key is
pressed. -/
theorem shell_runs_lines_iff (inputBuffer : RingBuffer UInt8 inputBufferLength)
    (buffer : ℕ → UInt8) (lines : List (List UInt8)) (events : List Event)
    (hlines : ∀ l ∈ lines, IsLine l) (htyped : typed events = joined lines)
    (hread : ∀ s, run Shell.step events (shell inputBuffer buffer) = .ok s → s.queued = []) :
    (∃ s, run Shell.step events (shell inputBuffer buffer) = .ok s ∧
        s.programs = lines.map programOf) ↔
      Before Shell.step ReadFirst events (shell inputBuffer buffer) := by
  have htypes := types_shell inputBuffer buffer
  have hreadTyping : ∀ t, run Typing.step events ⟨[], [], []⟩ = .ok t → t.queue = [] := by
    intro t ht
    obtain ⟨s, hs⟩ := (shell_related.succeeds_run htypes).mpr ⟨t, ht⟩
    rw [← queued_of_run hs ht]
    exact hread s hs
  have hbefore : Before Shell.step ReadFirst events (shell inputBuffer buffer) ↔
      Before Typing.step (fun event t => ∀ input, event = .key input → newline ∉ t.queue)
        events ⟨[], [], []⟩ := by
    apply shell_related.before_iff _ htypes
    intro event s t h
    unfold ReadFirst
    rw [h.queued_eq]
  rw [hbefore, ← typing_runs_lines_iff hlines htyped hreadTyping]
  constructor
  · rintro ⟨s, hs, hprograms⟩
    obtain ⟨t, ht⟩ := (shell_related.succeeds_run htypes).mp ⟨s, hs⟩
    refine ⟨t, ht, ?_⟩
    rw [(shell_related.run htypes hs ht).programs] at hprograms
    exact List.map_injective_iff.mpr programOf_injective hprograms
  · rintro ⟨t, ht, hcommands⟩
    obtain ⟨s, hs⟩ := (shell_related.succeeds_run htypes).mpr ⟨t, ht⟩
    refine ⟨s, hs, ?_⟩
    rw [(shell_related.run htypes hs ht).programs, hcommands]

/-- A line that is read in two parts, and a second one. -/
theorem shell_runs_lines_iff_two :
    (∃ s, run Shell.step [.key 0x61, .turn, .key 0x62, .key newline, .turn, .key 0x63,
          .key newline, .turn] (shell (RingBuffer.new (by decide) fun _ => 0) fun _ => 0) = .ok s ∧
        s.programs = [[0x61, 0x62], [0x63]].map programOf) ↔
      Before Shell.step ReadFirst [.key 0x61, .turn, .key 0x62, .key newline, .turn, .key 0x63,
        .key newline, .turn] (shell (RingBuffer.new (by decide) fun _ => 0) fun _ => 0) :=
  shell_runs_lines_iff (RingBuffer.new (by decide) fun _ => 0) (fun _ => 0)
    [[0x61, 0x62], [0x63]] [.key 0x61, .turn, .key 0x62, .key newline, .turn, .key 0x63,
      .key newline, .turn]
    (List.forall_mem_cons.mpr ⟨⟨by decide, by decide, by decide⟩,
      List.forall_mem_singleton.mpr ⟨by decide, by decide, by decide⟩⟩) rfl
    fun _ hs => queued_of_run hs (t := ⟨[], [], [[0x61, 0x62], [0x63]]⟩) rfl

end Enkel.ShellLines
