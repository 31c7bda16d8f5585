import Enkel.BinaryRegistry

/-!
Runs of programs, and the list of loaded binaries. Every binary in the list has one
reference, so the list is right as long as every name that is loaded is new and no
process ends: a second process is not counted, and the end of the first one frees a
binary that stays in the list.
-/
namespace Enkel.BinaryRegistry

open Outcome RequestRuns

namespace State

/-- The state of a run in which the list is right: each binary in it has one reference
and one process, and every process uses only these. -/
structure Inv (s : State) : Prop where
  slots : s.gELFBinaries.length ≤ slots
  entries : ∀ p ∈ s.gELFBinaries, ∃ binary, s.heap p = some binary ∧ binary.refCount = 1 ∧
    s.users p = 1
  uses : ∀ process ∈ s.processes, ∀ p, process.Uses p → p ∈ s.gELFBinaries

/-- A load has entered new binaries, with one reference each. -/
structure Extends (s s' : State) (new : List ℕ) : Prop where
  registry : s'.gELFBinaries = s.gELFBinaries ++ new
  processes : s'.processes = s.processes
  heap : ∀ p, s.heap p ≠ none → s'.heap p = s.heap p
  fresh : ∀ p ∈ new, s.heap p = none
  entered : ∀ p ∈ new, ∃ binary, s'.heap p = some binary ∧ binary.refCount = 1

section Steps
variable {s s1 s2 s' : State} {new new' : List ℕ} {process : Process} {p q fresh : ℕ}
  {files : Name → Option File} {programName : Name} {file : File}

theorem Inv.consistent (h : Inv s) : s.Consistent := by
  refine ⟨h.slots, fun p hp => ?_⟩
  obtain ⟨binary, hheap, hcount, husers⟩ := h.entries p hp
  exact ⟨binary, hheap, hcount.trans husers.symm⟩

theorem users_push : (s.push process).users p = s.users p + if process.Uses p then 1 else 0 := by
  unfold users push
  rw [List.countP_cons]
  simp

/-- A binary outside the list has no process. -/
theorem Inv.users_eq_zero (h : Inv s) (hp : p ∉ s.gELFBinaries) : s.users p = 0 := by
  unfold users
  rw [List.countP_eq_zero]
  intro process hprocess huses
  exact hp (h.uses process hprocess p (by simpa using huses))

theorem Extends.refl (s : State) : Extends s s [] := by
  refine ⟨(List.append_nil _).symm, rfl, fun p _ => rfl, ?_, ?_⟩
  · intro p hp
    cases hp
  · intro p hp
    cases hp

theorem Extends.trans (h : Extends s s1 new) (h' : Extends s1 s2 new') :
    Extends s s2 (new ++ new') := by
  refine ⟨?_, h'.processes.trans h.processes, fun p hp => ?_, fun p hp => ?_, fun p hp => ?_⟩
  · rw [h'.registry, h.registry, List.append_assoc]
  · rw [h'.heap p (by rwa [h.heap p hp]), h.heap p hp]
  · rcases List.mem_append.mp hp with hp | hp
    · exact h.fresh p hp
    · by_contra hne
      have hnone := h'.fresh p hp
      rw [h.heap p hne] at hnone
      exact hne hnone
  · rcases List.mem_append.mp hp with hp | hp
    · obtain ⟨binary, hheap, hcount⟩ := h.entered p hp
      exact ⟨binary, (h'.heap p (by rw [hheap]; exact Option.some_ne_none _)).trans hheap, hcount⟩
    · exact h'.entered p hp

theorem extends_enter (programName : Name) (hfresh : s.heap fresh = none) (interpreter : Option Name) :
    Extends s (s.enter fresh programName interpreter) [fresh] := by
  refine ⟨rfl, rfl, fun p hp => ?_, fun p hp => ?_, fun p hp => ?_⟩
  · apply Function.update_of_ne
    rintro rfl
    exact hp hfresh
  · rw [List.mem_singleton.mp hp]
    exact hfresh
  · rw [List.mem_singleton.mp hp]
    exact ⟨_, Function.update_self _ _ _, rfl⟩

/-- The new entries of a load. -/
theorem Loads.extends {r : Option ℕ × State} (h : Loads files fresh programName file s r) :
    Extends s r.2 [] ∨ r.1 = some fresh ∧ Extends s r.2 [fresh] := by
  cases h with
  | existing hmem hheap hname => exact Or.inl (Extends.refl s)
  | unopened hnew hfresh hopen =>
    refine Or.inl ⟨(List.append_nil _).symm, rfl, fun p hp => ?_, ?_, ?_⟩
    · apply Function.update_of_ne
      rintro rfl
      exact hp hfresh
    · intro p hp
      cases hp
    · intro p hp
      cases hp
  | entered hnew hfresh hopen => exact Or.inr ⟨rfl, extends_enter _ hfresh _⟩

theorem Inv.heap_ne_none (h : Inv s) (hp : p ∈ s.gELFBinaries) : s.heap p ≠ none := by
  obtain ⟨binary, hheap, -⟩ := h.entries p hp
  rw [hheap]
  exact Option.some_ne_none _

/-- A load frees nothing. -/
theorem Extends.freesLast (h : Extends s s1 new) (hle : ∀ p, s.users p ≤ s'.users p)
    (hheap : s'.heap = s1.heap) : FreesLast s s' := by
  intro p hp
  rw [hheap, h.heap p hp]
  have := hle p
  exact iff_of_false hp (by omega)

theorem Extends.users (h : Extends s s1 new) : s1.users p = s.users p := by
  unfold State.users
  rw [h.processes]

/-- A process that uses an old entry is not counted. -/
theorem Inv.not_consistent (h : Inv s) (hext : Extends s s1 new) (hp : p ∈ s.gELFBinaries)
    (huses : process.Uses p) : ¬ (s1.push process).Consistent := by
  intro hcon
  obtain ⟨binary, hheap, hcount, husers⟩ := h.entries p hp
  have hmem : p ∈ (s1.push process).gELFBinaries := by
    show p ∈ s1.gELFBinaries
    rw [hext.registry]
    exact List.mem_append_left new hp
  obtain ⟨binary', hheap', hcount'⟩ := hcon.entries p hmem
  have hsame : s1.heap p = s.heap p := hext.heap p (h.heap_ne_none hp)
  have hheap' : s1.heap p = some binary' := hheap'
  rw [hsame, hheap] at hheap'
  obtain rfl := Option.some.inj hheap'
  rw [users_push, hext.users, if_pos huses] at hcount'
  omega

/-- A process that uses the new entries is counted. -/
theorem Inv.push (h : Inv s) (hext : Extends s s1 new) (huses : ∀ p, process.Uses p ↔ p ∈ new)
    (hslots : s.gELFBinaries.length + new.length ≤ BinaryRegistry.slots) :
    Inv (s1.push process) := by
  have hregistry : (s1.push process).gELFBinaries = s.gELFBinaries ++ new := hext.registry
  have hold : ∀ p ∈ s.gELFBinaries, p ∉ new := fun p hp hmem =>
    h.heap_ne_none hp (hext.fresh p hmem)
  refine ⟨?_, fun p hp => ?_, fun other hother p hused => ?_⟩
  · rw [hregistry, List.length_append]
    exact hslots
  · rw [hregistry] at hp
    rw [users_push, hext.users]
    rcases List.mem_append.mp hp with hp | hp
    · obtain ⟨binary, hheap, hcount, husers⟩ := h.entries p hp
      refine ⟨binary, ?_, hcount, ?_⟩
      · exact (hext.heap p (h.heap_ne_none hp)).trans hheap
      · rw [if_neg fun hused => hold p hp ((huses p).mp hused), husers]
    · obtain ⟨binary, hheap, hcount⟩ := hext.entered p hp
      refine ⟨binary, hheap, hcount, ?_⟩
      rw [if_pos ((huses p).mpr hp), h.users_eq_zero fun hmem => hold p hmem hp]
  · rw [hregistry]
    rcases List.mem_cons.mp hother with rfl | hother
    · exact List.mem_append_right _ ((huses p).mp hused)
    · rw [hext.processes] at hother
      exact List.mem_append_left _ (h.uses other hother p hused)

/-- A start that uses only what it has entered is right exactly if there are slots. -/
theorem Inv.start_iff (h : Inv s) (hext : Extends s s1 new)
    (huses : ∀ p, process.Uses p ↔ p ∈ new) :
    FreesLast s (s1.push process) ∧ (s1.push process).Consistent ↔
      s.gELFBinaries.length + new.length ≤ BinaryRegistry.slots := by
  constructor
  · rintro ⟨-, hcon⟩
    have hslots : s1.gELFBinaries.length ≤ BinaryRegistry.slots := hcon.slots
    rw [hext.registry, List.length_append] at hslots
    exact hslots
  · intro hslots
    refine ⟨hext.freesLast (fun p => ?_) rfl, (h.push hext huses hslots).consistent⟩
    rw [users_push, hext.users]
    exact Nat.le_add_right _ _

end Steps

section Start
variable {s s' s1 s2 : State} {files : Name → Option File} {f g p q : ℕ} {programName i : Name}
  {file : File}

/-- The only name that a load has added to the list. -/
theorem registered_enter (h : Inv s) (hfresh : s.heap f = none) {interpreter : Option Name}
    {n : Name} :
    (s.enter f programName interpreter).Registered n ↔ s.Registered n ∨ programName = n := by
  have hext := extends_enter programName hfresh interpreter
  have hself : (s.enter f programName interpreter).heap f = some ⟨programName, interpreter, 1⟩ :=
    Function.update_self _ _ _
  constructor
  · rintro ⟨p, hp, binary, hheap, hname⟩
    rcases List.mem_append.mp hp with hp | hp
    · rw [hext.heap p (h.heap_ne_none hp)] at hheap
      exact Or.inl ⟨p, hp, binary, hheap, hname⟩
    · rw [List.mem_singleton.mp hp, hself] at hheap
      obtain rfl := Option.some.inj hheap
      exact Or.inr hname
  · rintro (⟨p, hp, binary, hheap, hname⟩ | hname)
    · refine ⟨p, List.mem_append_left _ hp, binary, ?_, hname⟩
      rw [hext.heap p (h.heap_ne_none hp)]
      exact hheap
    · exact ⟨f, List.mem_append_right _ List.mem_cons_self, _, hself, hname⟩

theorem uses_single : (⟨p, none⟩ : Process).Uses q ↔ q ∈ [p] := by
  simp [Process.Uses, eq_comm]

theorem uses_both : (⟨q, some p⟩ : Process).Uses f ↔ f ∈ [p, q] := by
  simp [Process.Uses, or_comm, eq_comm]

/-- A binary that is not entered changes nothing. -/
theorem Inv.of_extends (h : Inv s) (hext : Extends s s1 []) : Inv s1 := by
  have hregistry : s1.gELFBinaries = s.gELFBinaries := hext.registry.trans (List.append_nil _)
  refine ⟨hregistry ▸ h.slots, fun p hp => ?_, fun process hprocess p hused => ?_⟩
  · rw [hregistry] at hp
    rw [hext.users, hext.heap p (h.heap_ne_none hp)]
    exact h.entries p hp
  · rw [hext.processes] at hprocess
    rw [hregistry]
    exact h.uses process hprocess p hused

/-- The interpreter of a new binary, which a start with a new name has just entered. -/
theorem Inv.interpreter_iff (h : Inv s) (hfresh : s.heap f = none)
    (hnew : ¬ s.Registered programName) {interpreterFile : File} {interpreter : Option Name}
    (hload : Loads files g i interpreterFile (s.enter f programName interpreter) (some q, s2)) :
    (FreesLast s (s2.push ⟨q, some f⟩) ∧ (s2.push ⟨q, some f⟩).Consistent ↔
      (i ≠ programName → ¬ s.Registered i) ∧
      s.gELFBinaries.length + (if i = programName then 1 else 2) ≤ BinaryRegistry.slots) ∧
    ((i ≠ programName → ¬ s.Registered i) ∧
      s.gELFBinaries.length + (if i = programName then 1 else 2) ≤ BinaryRegistry.slots →
        Inv (s2.push ⟨q, some f⟩)) := by
  have hext := extends_enter programName hfresh interpreter
  cases hload with
  | existing hmem hheap hname =>
    rename_i binary
    rcases List.mem_append.mp hmem with hold | hself
    · -- an old entry gets a second process
      have hbinary : s.heap q = some binary := by
        rw [← hext.heap q (h.heap_ne_none hold)]
        exact hheap
      have hi : s.Registered i := ⟨q, hold, binary, hbinary, hname⟩
      have hne : i ≠ programName := by
        rintro rfl
        exact hnew hi
      constructor
      · refine iff_of_false (fun hright => ?_) fun hright => hright.1 hne hi
        exact h.not_consistent hext hold (Or.inl rfl) hright.2
      · exact fun hright => absurd hi (hright.1 hne)
    · -- the program is its own interpreter
      obtain rfl := List.mem_singleton.mp hself
      have hbinary : Function.update s.heap q (some ⟨programName, interpreter, 1⟩) q =
          some binary := hheap
      rw [Function.update_self] at hbinary
      obtain rfl := Option.some.inj hbinary
      obtain rfl : programName = i := hname
      have huses : ∀ p, (⟨q, some q⟩ : Process).Uses p ↔ p ∈ [q] := fun p => by
        simp [Process.Uses, eq_comm]
      rw [if_pos rfl]
      constructor
      · rw [h.start_iff hext huses]
        exact (and_iff_right fun hne => absurd rfl hne).symm
      · exact fun hright => h.push hext huses hright.2
  | entered hnewi hfreshi hopen =>
    have hnotold := fun hi => hnewi ((registered_enter h hfresh).mpr hi)
    have hne : i ≠ programName := fun heq => hnotold (Or.inr heq.symm)
    have hext' := hext.trans (extends_enter i hfreshi
      interpreterFile.interp.getLast?)
    have huses : ∀ p, (⟨g, some f⟩ : Process).Uses p ↔ p ∈ [f, g] := fun p => uses_both
    rw [if_neg hne]
    constructor
    · rw [h.start_iff hext' huses]
      exact (and_iff_right fun _ hi => hnotold (Or.inl hi)).symm
    · exact fun hright => h.push hext' huses hright.2

theorem loads_of_open (hopen : ∀ i ∈ file.interp, files i ≠ none) :
    loads files programName file = match file.interp.getLast? with
      | none => [programName]
      | some i => if i = programName then [programName] else [programName, i] :=
  if_pos hopen

/-- A start leaves the list right exactly if every name is new and there are slots. -/
theorem Inv.createProcess_iff (h : Inv s)
    (hstep : createProcess files f g programName s = .ok s') :
    (FreesLast s s' ∧ s'.Consistent ↔ Allowed s (.start files f g programName)) ∧
      (Allowed s (.start files f g programName) → Inv s') := by
  rcases createProcess_ok hstep with ⟨hnone, rfl⟩ | ⟨file, r, hfile, hload, hrest⟩
  · have hallowed : Allowed s' (.start files f g programName) := fun file hfile => by
      rw [hnone] at hfile
      cases hfile
    refine ⟨iff_of_true ⟨?_, h.consistent⟩ hallowed, fun _ => h⟩
    exact (Extends.refl s').freesLast (fun p => le_rfl) rfl
  · have hallowed : Allowed s (.start files f g programName) ↔ ¬ s.Registered programName ∧
        (∀ n ∈ loads files programName file, ¬ s.Registered n) ∧
        s.gELFBinaries.length + (loads files programName file).length ≤ BinaryRegistry.slots := by
      constructor
      · exact fun hall => hall file hfile
      · intro hone other hother
        rw [hfile] at hother
        obtain rfl := Option.some.inj hother
        exact hone
    rw [hallowed]
    cases hload with
    | existing hmem hheap hname =>
      rename_i p binary
      have hregistered : s.Registered programName := ⟨p, hmem, binary, hheap, hname⟩
      refine ⟨iff_of_false (fun hright => ?_) fun hright => hright.1 hregistered,
        fun hright => absurd hregistered hright.1⟩
      rcases hrest with ⟨hnone, -⟩ | ⟨p', other, hsome, -, hrun⟩
      · cases hnone
      · obtain rfl := Option.some.inj hsome
        rcases hrun with ⟨-, rfl⟩ | ⟨i, q, s2, -, hsecond, rfl⟩
        · exact h.not_consistent (Extends.refl s) hmem (Or.inl rfl) hright.2
        · rcases hsecond.extends with hext | ⟨-, hext⟩
          · exact h.not_consistent hext hmem (Or.inr rfl) hright.2
          · exact h.not_consistent hext hmem (Or.inr rfl) hright.2
    | unopened hnew hfresh hopen =>
      rename_i binary
      obtain ⟨-, rfl⟩ := hrest.resolve_right (by
        rintro ⟨p', other, hsome, -⟩
        cases hsome)
      have hext : Extends s { s with heap := Function.update s.heap f (some binary) } [] :=
        (Loads.unopened hnew hfresh hopen).extends.resolve_right fun hsome => by cases hsome.1
      have hinv := h.of_extends hext
      have hloads : loads files programName file = [] := if_neg hopen
      rw [hloads]
      refine ⟨iff_of_true ⟨?_, hinv.consistent⟩ ⟨hnew, List.forall_mem_nil _, h.slots⟩,
        fun _ => hinv⟩
      exact hext.freesLast (fun p => hext.users.ge) rfl
    | entered hnew hfresh hopen =>
      rw [loads_of_open hopen, and_iff_right hnew]
      obtain ⟨p, binary, hsome, hheap, hrun⟩ := hrest.resolve_left fun hnone => by cases hnone.1
      obtain rfl := Option.some.inj hsome
      have hheap : Function.update s.heap f (some ⟨programName, file.interp.getLast?, 1⟩) f =
          some binary := hheap
      rw [Function.update_self] at hheap
      obtain rfl := Option.some.inj hheap
      rcases hrun with ⟨hinterp, rfl⟩ | ⟨i, q, s2, hinterp, hsecond, rfl⟩
      · have hext := extends_enter programName hfresh file.interp.getLast?
        have huses : ∀ p, (⟨f, none⟩ : Process).Uses p ↔ p ∈ [f] := fun p => uses_single
        have hinterp : file.interp.getLast? = none := hinterp
        rw [hinterp] at hext ⊢
        dsimp only
        rw [List.forall_mem_singleton, and_iff_right hnew]
        exact ⟨h.start_iff hext huses, h.push hext huses⟩
      · have hinterp : file.interp.getLast? = some i := hinterp
        have hboth := h.interpreter_iff hfresh hnew hsecond
        rw [hinterp]
        dsimp only
        split_ifs at hboth ⊢ with heq
        · rw [List.forall_mem_singleton, and_iff_right hnew]
          rw [and_iff_right fun hne => absurd heq hne] at hboth
          exact hboth
        · have hall : (∀ n ∈ [programName, i], ¬ s.Registered n) ↔
              (i ≠ programName → ¬ s.Registered i) := by
            rw [List.forall_mem_cons, List.forall_mem_singleton, and_iff_right hnew]
            exact ⟨fun hi _ => hi, fun hi => hi heq⟩
          rw [hall]
          exact hboth

end Start

/-- The end of a process frees a binary that stays in the list. -/
theorem Inv.destroyProcess {s s' : State} (h : Inv s) (hstep : destroyProcess s = .ok s') :
    ¬ s'.Consistent := by
  unfold State.destroyProcess at hstep
  cases hprocesses : s.processes with
  | nil =>
    rw [hprocesses] at hstep
    cases hstep
  | cons process processes =>
    rw [hprocesses] at hstep
    have hmem : process.binary ∈ s.gELFBinaries :=
      h.uses process (hprocesses ▸ List.mem_cons_self) _ (Or.inl rfl)
    obtain ⟨binary, hheap, hcount, -⟩ := h.entries _ hmem
    have hleft : sub64 binary.refCount 1 = 0 := by
      rw [hcount]
      rfl
    have hfreed := unloadElf_frees (s := { s with processes := processes }) hheap hleft hstep
    intro hcon
    obtain ⟨other, hother, -⟩ := hcon.entries process.binary (by rw [hfreed]; exact hmem)
    rw [hfreed] at hother
    have hnone : Function.update s.heap process.binary none process.binary = some other := hother
    rw [Function.update_self] at hnone
    cases hnone

theorem inv_initial : Inv initial := by
  refine ⟨Nat.zero_le _, ?_, ?_⟩
  · intro p hp
    cases hp
  · intro process hprocess
    cases hprocess

end State

/-- In every state of the run the list is right, and every step frees the binaries whose
last process it ends, and no others. -/
def RightThroughout (events : List Event) : Prop :=
  State.initial.Consistent ∧
    Along step (fun _ s s' => FreesLast s s' ∧ s'.Consistent) events State.initial

/-- The list is right throughout a run exactly if every name that is loaded in it is new
in the list, there are slots for all of them, and no process ends. -/
theorem rightThroughout_iff (events : List Event) :
    RightThroughout events ↔ Along step (fun event s _ => Allowed s event) events .initial := by
  unfold RightThroughout
  rw [and_iff_right State.inv_initial.consistent]
  refine along_iff (I := State.Inv) (fun event s s' hinv hstep => ?_)
    (fun event s s' hinv hstep hallowed => ?_) State.inv_initial
  · cases event with
    | start files f g programName => exact (hinv.createProcess_iff hstep).1
    | finish => exact iff_of_false (fun hright => hinv.destroyProcess hstep hright.2) not_false
  · cases event with
    | start files f g programName => exact (hinv.createProcess_iff hstep).2 hallowed
    | finish => exact hallowed.elim

/-- A file system with two programs. -/
def twoFiles (n : Name) : Option File :=
  if n = [65] ∨ n = [66] then some ⟨none, []⟩ else none

/-- A program that has ended is still in the list, freed, and the next start finds it
there. A program that starts itself has one reference and two processes. -/
theorem freed_binary_in_list :
    (∃ s1 s2, step (.start twoFiles 1 2 [65]) .initial = .ok s1 ∧ step .finish s1 = .ok s2 ∧
      s2.gELFBinaries = [1] ∧ s2.heap 1 = none ∧
      step (.start twoFiles 2 3 [66]) s2 = .error .useAfterFree) ∧
    (∃ s1 s2, step (.start twoFiles 1 2 [65]) .initial = .ok s1 ∧
      step (.start twoFiles 2 3 [65]) s1 = .ok s2 ∧
      s2.heap 1 = some ⟨[65], none, 1⟩ ∧ s2.users 1 = 2) ∧
    ¬ RightThroughout [.start twoFiles 1 2 [65], .finish] ∧
    ¬ RightThroughout [.start twoFiles 1 2 [65], .start twoFiles 2 3 [65]] := by
  have hfirst : step (.start twoFiles 1 2 [65]) .initial =
      .ok ((State.initial.enter 1 [65] none).push ⟨1, none⟩) := rfl
  obtain ⟨s1, hs1⟩ : ∃ s1, (State.initial.enter 1 [65] none).push ⟨1, none⟩ = s1 := ⟨_, rfl⟩
  rw [hs1] at hfirst
  have hfinish : ∃ s2, step .finish s1 = .ok s2 ∧ s2.gELFBinaries = [1] ∧ s2.heap 1 = none ∧
      step (.start twoFiles 2 3 [66]) s2 = .error .useAfterFree := by
    subst hs1
    exact ⟨_, rfl, rfl, rfl, rfl⟩
  have hsecond : ∃ s2, step (.start twoFiles 2 3 [65]) s1 = .ok s2 ∧ s2.gELFBinaries = [1] ∧
      s2.heap 1 = some ⟨[65], none, 1⟩ ∧ s2.users 1 = 2 := by
    subst hs1
    exact ⟨_, rfl, rfl, rfl, rfl⟩
  obtain ⟨s2, hstep2, hlist2, hheap2, hafter⟩ := hfinish
  obtain ⟨s3, hstep3, hlist3, hheap3, husers3⟩ := hsecond
  refine ⟨⟨s1, s2, hfirst, hstep2, hlist2, hheap2, hafter⟩,
    ⟨s1, s3, hfirst, hstep3, hheap3, husers3⟩, fun h => ?_, fun h => ?_⟩
  · obtain ⟨-, hcon⟩ := (h.2 s1 hfirst).2 s2 hstep2 |>.1
    obtain ⟨binary, hheap, -⟩ := hcon.entries 1 (hlist2 ▸ List.mem_cons_self)
    rw [hheap2] at hheap
    cases hheap
  · obtain ⟨-, hcon⟩ := (h.2 s1 hfirst).2 s3 hstep3 |>.1
    obtain ⟨binary, hheap, hcount⟩ := hcon.entries 1 (hlist3 ▸ List.mem_cons_self)
    rw [hheap3] at hheap
    obtain rfl := Option.some.inj hheap
    rw [husers3] at hcount
    exact absurd hcount (by decide)

end Enkel.BinaryRegistry
