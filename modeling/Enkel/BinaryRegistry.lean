import Mathlib.Data.List.Basic
import Enkel.RequestRuns
import Enkel.Types

/-!
The list of loaded binaries. A binary is looked up by its name, and it is entered with
one reference; neither a second load nor the end of its process is entered again. What
the loader reads of the files, apart from their identification and the names of their
interpreters, is left out.
-/
namespace Enkel.BinaryRegistry

open Outcome RequestRuns

abbrev Name := List ℕ

/-- What the protocol uses of an ElfBinary. There is an interpreter if
InterpreterFileHandle is not zero. -/
structure ElfBinary where
  name : Name
  interpreter : Option Name
  refCount : ℕ
deriving DecidableEq, Repr

/-- A file: the assertion of the loader that it fails, and its .interp sections. -/
structure File where
  failure : Option String
  interp : List Name
deriving DecidableEq, Repr

/-- What a handle reads whose file is gone. -/
def File.unreadable : File := ⟨some "Not an ELF file", []⟩

/-- A process and the binaries it uses, by their addresses. -/
structure Process where
  binary : ℕ
  subBinary : Option ℕ
deriving DecidableEq, Repr

/-- The binaries in memory, by their addresses, the entries of GELFBinaries below
GELFBinaryCount, and the live processes, the innermost first. -/
structure State where
  heap : ℕ → Option ElfBinary
  gELFBinaries : List ℕ
  processes : List Process

inductive Fault
  | assertion (message : String)
  | useAfterFree
  | nullPointer
  | notFresh
  | noProcess
deriving DecidableEq, Repr

/-- InitializeUserMode. -/
def State.initial : State := ⟨fun _ => none, [], []⟩

/-- The number of slots that InitializeUserMode allocates. -/
abbrev slots : ℕ := 16

namespace State

/-- The loop over the names at the start of LoadElfFromMemory. -/
def lookup (heap : ℕ → Option ElfBinary) (programName : Name) :
    List ℕ → Except Fault (Option ℕ)
  | [] => .ok none
  | p :: entries =>
    match heap p with
    | none => .error .useAfterFree
    | some binary =>
      if binary.name = programName then .ok (some p) else lookup heap programName entries

/-- A binary that is given up at zero references is freed, with its image. -/
def unloadElf (p : ℕ) (s : State) : Except Fault State :=
  match s.heap p with
  | none => .error .useAfterFree
  | some binary =>
    let refCount := sub64 binary.refCount 1
    let left := if refCount = 0 then none else some { binary with refCount := refCount }
    .ok { s with heap := Function.update s.heap p left }

/-- LoadElfFromMemory. The address `fresh` is what rpmalloc returns for the binary. If an
interpreter cannot be opened, the binary is given up before it had a reference. -/
def loadElfFromMemory (files : Name → Option File) (fresh : ℕ) (programName : Name)
    (file : File) (s : State) : Except Fault (Option ℕ × State) := do
  match ← lookup s.heap programName s.gELFBinaries with
  | some existing => return (some existing, s)
  | none =>
    require (s.heap fresh = none) .notFresh
    match file.failure with
    | some message => throw (.assertion message)
    | none =>
      if ∀ i ∈ file.interp, files i ≠ none then
        let binary := ⟨programName, file.interp.getLast?, 1⟩
        return (some fresh,
          { s with
            heap := Function.update s.heap fresh (some binary)
            gELFBinaries := s.gELFBinaries ++ [fresh] })
      else
        let s ← unloadElf fresh
          { s with heap := Function.update s.heap fresh (some ⟨programName, none, 0⟩) }
        return (none, s)

/-- CreateProcess: the binary is loaded, and after it its interpreter, which is the
binary that then runs. -/
def createProcess (files : Name → Option File) (fresh freshInterpreter : ℕ)
    (programName : Name) (s : State) : Except Fault State := do
  match files programName with
  | none => return s
  | some file =>
    match ← loadElfFromMemory files fresh programName file s with
    | (none, s) => return s
    | (some p, s) =>
      match s.heap p with
      | none => throw .useAfterFree
      | some binary =>
        match binary.interpreter with
        | none => return { s with processes := ⟨p, none⟩ :: s.processes }
        | some i =>
          match ← loadElfFromMemory files freshInterpreter i ((files i).getD .unreadable) s with
          | (none, _) => throw .nullPointer
          | (some q, s) => return { s with processes := ⟨q, some p⟩ :: s.processes }

/-- DestroyProcess, for the innermost process. -/
def destroyProcess (s : State) : Except Fault State :=
  match s.processes with
  | [] => .error .noProcess
  | process :: processes => unloadElf process.binary { s with processes := processes }

end State

/-- RunProgram starts a process, and ends it when it has come back. The files are those
of the moment. -/
inductive Event
  | start (files : Name → Option File) (fresh freshInterpreter : ℕ) (programName : Name)
  | finish

def step : Event → State → Except Fault State
  | .start files fresh freshInterpreter programName =>
    State.createProcess files fresh freshInterpreter programName
  | .finish => State.destroyProcess

/-- The process uses the binary. -/
def Process.Uses (process : Process) (p : ℕ) : Prop :=
  process.binary = p ∨ process.subBinary = some p

instance (process : Process) (p : ℕ) : Decidable (process.Uses p) :=
  inferInstanceAs (Decidable (_ ∨ _))

/-- The number of live processes that use the binary. -/
def State.users (s : State) (p : ℕ) : ℕ := s.processes.countP fun process => process.Uses p

/-- The entries fit in the slots, none refers to a freed binary, and the references of
each are the live processes that use it. -/
structure State.Consistent (s : State) : Prop where
  slots : s.gELFBinaries.length ≤ slots
  entries : ∀ p ∈ s.gELFBinaries, ∃ binary, s.heap p = some binary ∧ binary.refCount = s.users p

/-- A step frees exactly the binaries whose last process it ends. -/
def FreesLast (s s' : State) : Prop :=
  ∀ p, s.heap p ≠ none → (s'.heap p = none ↔ 0 < s.users p ∧ s'.users p = 0)

/-- A binary of that name is in the list. -/
def State.Registered (s : State) (programName : Name) : Prop :=
  ∃ p ∈ s.gELFBinaries, ∃ binary, s.heap p = some binary ∧ binary.name = programName

/-- The names under which a start enters binaries, if the list has none of them. -/
def loads (files : Name → Option File) (programName : Name) (file : File) : List Name :=
  if ∀ i ∈ file.interp, files i ≠ none then
    match file.interp.getLast? with
    | none => [programName]
    | some i => if i = programName then [programName] else [programName, i]
  else []

/-- Every name that the start loads is new, and there are slots for them. -/
def Allowed (s : State) : Event → Prop
  | .start files _ _ programName => ∀ file, files programName = some file →
      ¬ s.Registered programName ∧ (∀ n ∈ loads files programName file, ¬ s.Registered n) ∧
      s.gELFBinaries.length + (loads files programName file).length ≤ slots
  | .finish => False

namespace State

/-- The state with one more binary in the list. -/
def enter (fresh : ℕ) (programName : Name) (interpreter : Option Name) (s : State) : State :=
  { s with
    heap := Function.update s.heap fresh (some ⟨programName, interpreter, 1⟩)
    gELFBinaries := s.gELFBinaries ++ [fresh] }

def push (process : Process) (s : State) : State :=
  { s with processes := process :: s.processes }

section Load
variable {files : Name → Option File} {fresh f g p : ℕ} {programName : Name} {file : File}
  {s s' : State} {heap : ℕ → Option ElfBinary} {entries : List ℕ} {r : Option ℕ × State}

theorem lookup_some (h : lookup heap programName entries = .ok (some p)) :
    p ∈ entries ∧ ∃ binary, heap p = some binary ∧ binary.name = programName := by
  induction entries with
  | nil => cases h
  | cons q entries ih =>
    unfold lookup at h
    cases hq : heap q with
    | none =>
      rw [hq] at h
      cases h
    | some binary =>
      rw [hq] at h
      dsimp only at h
      split_ifs at h with hname
      · cases h
        exact ⟨List.mem_cons_self, binary, hq, hname⟩
      · obtain ⟨hmem, hfound⟩ := ih h
        exact ⟨List.mem_cons_of_mem q hmem, hfound⟩

theorem lookup_none (h : lookup heap programName entries = .ok none) :
    ∀ p ∈ entries, ∀ binary, heap p = some binary → binary.name ≠ programName := by
  induction entries with
  | nil =>
    intro p hp
    cases hp
  | cons q entries ih =>
    unfold lookup at h
    cases hq : heap q with
    | none =>
      rw [hq] at h
      cases h
    | some binary =>
      rw [hq] at h
      dsimp only at h
      split_ifs at h with hname
      · cases h
      · intro p hp other hother
        rcases List.mem_cons.mp hp with rfl | hlater
        · rw [hq] at hother
          cases hother
          exact hname
        · exact ih h p hlater other hother

/-- The reference count of a binary that had none. -/
theorem underflow : sub64 0 1 ≠ 0 := by decide

theorem unloadElf_keeps (binary : ElfBinary) (hheap : s.heap p = some binary)
    (hleft : sub64 binary.refCount 1 ≠ 0) (h : unloadElf p s = .ok s') :
    s' = { s with heap := Function.update s.heap p
                    (some { binary with refCount := sub64 binary.refCount 1 }) } := by
  unfold unloadElf at h
  rw [hheap] at h
  dsimp only at h
  rw [if_neg hleft] at h
  exact (Except.ok.inj h).symm

theorem unloadElf_frees {binary : ElfBinary} (hheap : s.heap p = some binary)
    (hleft : sub64 binary.refCount 1 = 0) (h : unloadElf p s = .ok s') :
    s' = { s with heap := Function.update s.heap p none } := by
  unfold unloadElf at h
  rw [hheap] at h
  dsimp only at h
  rw [if_pos hleft] at h
  exact (Except.ok.inj h).symm

/-- What LoadElfFromMemory does: it finds the name in the list, or the interpreter
cannot be opened, or the binary is entered. -/
inductive Loads (files : Name → Option File) (fresh : ℕ) (programName : Name) (file : File)
    (s : State) : Option ℕ × State → Prop
  | existing {p : ℕ} {binary : ElfBinary} (hmem : p ∈ s.gELFBinaries)
      (hheap : s.heap p = some binary) (hname : binary.name = programName) :
      Loads files fresh programName file s (some p, s)
  | unopened {binary : ElfBinary} (hnew : ¬ s.Registered programName)
      (hfresh : s.heap fresh = none) (hopen : ¬ ∀ i ∈ file.interp, files i ≠ none) :
      Loads files fresh programName file s
        (none, { s with heap := Function.update s.heap fresh (some binary) })
  | entered (hnew : ¬ s.Registered programName) (hfresh : s.heap fresh = none)
      (hopen : ∀ i ∈ file.interp, files i ≠ none) :
      Loads files fresh programName file s
        (some fresh, s.enter fresh programName file.interp.getLast?)

theorem loadElfFromMemory_loads (h : loadElfFromMemory files fresh programName file s = .ok r) :
    Loads files fresh programName file s r := by
  obtain ⟨found, hlookup, h⟩ := bind_eq_ok.mp h
  cases found with
  | some p =>
    obtain rfl := pure_eq_ok.mp h
    obtain ⟨hmem, binary, hheap, hname⟩ := lookup_some hlookup
    exact Loads.existing hmem hheap hname
  | none =>
    have hnew : ¬ s.Registered programName := fun ⟨p, hmem, binary, hheap, hname⟩ =>
      lookup_none hlookup p hmem binary hheap hname
    obtain ⟨u, hfresh, h⟩ := bind_eq_ok.mp h
    have hfresh := require_eq_ok.mp hfresh
    cases hfailure : file.failure with
    | some message =>
      rw [hfailure] at h
      cases h
    | none =>
      rw [hfailure] at h
      dsimp only at h
      split_ifs at h with hopen
      · obtain rfl := pure_eq_ok.mp h
        exact Loads.entered hnew hfresh hopen
      · obtain ⟨s1, hunload, h⟩ := bind_eq_ok.mp h
        obtain rfl := pure_eq_ok.mp h
        have hkept := unloadElf_keeps ⟨programName, none, 0⟩
          (by exact Function.update_self fresh _ s.heap) underflow hunload
        dsimp only at hkept
        rw [Function.update_idem] at hkept
        rw [hkept]
        exact Loads.unopened hnew hfresh hopen

/-- What CreateProcess does. -/
theorem createProcess_ok (h : createProcess files f g programName s = .ok s') :
    (files programName = none ∧ s' = s) ∨
    ∃ file r, files programName = some file ∧ Loads files f programName file s r ∧
      ((r.1 = none ∧ s' = r.2) ∨
      ∃ p binary, r.1 = some p ∧ r.2.heap p = some binary ∧
        ((binary.interpreter = none ∧ s' = r.2.push ⟨p, none⟩) ∨
        ∃ i q s2, binary.interpreter = some i ∧
          Loads files g i ((files i).getD .unreadable) r.2 (some q, s2) ∧
          s' = s2.push ⟨q, some p⟩)) := by
  unfold createProcess at h
  cases hfile : files programName with
  | none =>
    rw [hfile] at h
    exact Or.inl ⟨rfl, (pure_eq_ok.mp h).symm⟩
  | some file =>
    rw [hfile] at h
    obtain ⟨r, hload, h⟩ := bind_eq_ok.mp h
    refine Or.inr ⟨file, r, rfl, loadElfFromMemory_loads hload, ?_⟩
    obtain ⟨found, s1⟩ := r
    cases found with
    | none => exact Or.inl ⟨rfl, (pure_eq_ok.mp h).symm⟩
    | some p =>
      dsimp only at h
      cases hheap : s1.heap p with
      | none =>
        rw [hheap] at h
        cases h
      | some binary =>
        rw [hheap] at h
        dsimp only at h
        refine Or.inr ⟨p, binary, rfl, hheap, ?_⟩
        cases hinterp : binary.interpreter with
        | none =>
          rw [hinterp] at h
          exact Or.inl ⟨rfl, (pure_eq_ok.mp h).symm⟩
        | some i =>
          rw [hinterp] at h
          obtain ⟨⟨second, s2⟩, hsecond, h⟩ := bind_eq_ok.mp h
          cases second with
          | none => cases h
          | some q =>
            exact Or.inr ⟨i, q, s2, rfl, loadElfFromMemory_loads hsecond,
              (pure_eq_ok.mp h).symm⟩

end Load

end State

end Enkel.BinaryRegistry
