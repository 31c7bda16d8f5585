import Enkel.FileBounds

/-!
What LoadElfFromMemory returns, by its steps: a binary that is in the list, a new one, or the
null pointer for one that was given up because an interpreter cannot be opened.
-/
namespace Enkel.ElfFile

open Outcome ByteMemory Elf Trace Traced
open VolumeCalls (units)

section Results
variable {σ ε π : Type} {kernel : Kernel σ ε π} {b : ℕ → UInt8} {elfStart shoff strings : ℕ}

theorem call_eq_ok {α : Type} {x : Except ε α} {a : α} :
    (call x : FileReads ε α).result = .ok a ↔ x = .ok a := by
  unfold call
  rw [result_silent, mapError_eq_ok]

/-- The last pass succeeds when all the interpreters can be opened. -/
theorem result_openInterpreters {l : List ℕ} {last last' : List ℕ × ℕ} {s s' : σ} :
    (openInterpreters kernel b elfStart shoff strings l last s).result = .ok (some last', s') ↔
      Opens kernel b elfStart shoff strings l last s last' s' := by
  induction l generalizing last s with
  | nil =>
    unfold openInterpreters Opens
    rw [result_pure, Except.ok.injEq, Prod.mk.injEq, Option.some.injEq]
  | cons i l ih =>
    unfold openInterpreters Opens
    rw [result_bind, result_fetch, ok_bind, result_bind, result_strcmp (add64_lt _ _), ok_bind]
    simp only [decide_eq_true_eq]
    by_cases hnamed : NamesInterpreter b elfStart shoff strings i
    · have hmatches : Matches b elfStart
          (add64 strings (field b elfStart (sectionHeader shoff i) 4)) (units ".interp") :=
        hnamed
      have hoff : interpreterOffset b elfStart shoff i < 2 ^ 64 := field_lt.trans_eq (by decide)
      have hword : field b elfStart (add64 (sectionHeader shoff i) 24) 8 =
          interpreterOffset b elfStart shoff i := rfl
      rw [if_pos hmatches, if_pos hnamed, result_bind, result_fetch, ok_bind, hword, result_bind,
        bind_eq_ok]
      constructor
      · rintro ⟨_, hprint, h⟩
        rw [result_bind, bind_eq_ok] at h
        obtain ⟨⟨handle, s1⟩, hopen, h⟩ := h
        dsimp only at h
        split_ifs at h with hzero
        · cases h
        · exact ⟨(result_serialPrint hoff).mp hprint, handle, s1, call_eq_ok.mp hopen, hzero,
            ih.mp h⟩
      · rintro ⟨hends, handle, s1, hopen, hne, hrest⟩
        refine ⟨(), (result_serialPrint hoff).mpr hends, ?_⟩
        rw [result_bind, bind_eq_ok]
        refine ⟨(handle, s1), call_eq_ok.mpr hopen, ?_⟩
        dsimp only
        rw [if_neg hne]
        exact ih.mpr hrest
    · have hmatches : ¬ Matches b elfStart
          (add64 strings (field b elfStart (sectionHeader shoff i) 4)) (units ".interp") :=
        hnamed
      rw [if_neg hmatches, if_neg hnamed]
      exact ih

/-- A property of the state that opening keeps holds after the last pass. -/
theorem openInterpreters_keeps {R : σ → Prop}
    (hopens : ∀ path s handle s', R s → kernel.volumeOpenHandle path s = .ok (handle, s') → R s')
    {l : List ℕ} {last : List ℕ × ℕ} {s s' : σ} {interpreter : Option (List ℕ × ℕ)} (hs : R s)
    (h : (openInterpreters kernel b elfStart shoff strings l last s).result =
      .ok (interpreter, s')) : R s' := by
  induction l generalizing last s with
  | nil =>
    obtain ⟨-, rfl⟩ := Prod.mk.inj (Except.ok.inj h)
    exact hs
  | cons i l ih =>
    unfold openInterpreters at h
    rw [result_bind, result_fetch, ok_bind, result_bind, result_strcmp (add64_lt _ _), ok_bind] at h
    split_ifs at h
    · rw [result_bind, result_fetch, ok_bind, result_bind, bind_eq_ok] at h
      obtain ⟨_, -, h⟩ := h
      rw [result_bind, bind_eq_ok] at h
      obtain ⟨⟨handle, s1⟩, hopen, h⟩ := h
      have hs1 := hopens _ _ _ _ hs (call_eq_ok.mp hopen)
      dsimp only at h
      split_ifs at h
      · obtain ⟨-, rfl⟩ := Prod.mk.inj (Except.ok.inj h)
        exact hs1
      · exact ih hs1 h
    · exact ih hs h

variable (kernel elfStart)

/-- The steps that load a new binary: the file is taken for a program, there is a block for
it, its interpreters can be opened, and it is entered. -/
structure LoadsNew (programName : List ℕ) (elfBinary : π) (m : Memory) (s : σ) (programStart : ℕ)
    (s1 : σ) (last : List ℕ × ℕ) (s2 : σ) (m' : Memory) (s' : σ) : Prop where
  check : checkHeader m.bytes elfStart = .ok ()
  divides : ∀ i < eShnum m.bytes elfStart, Divides m.bytes elfStart (eShoff m.bytes elfStart) i
  size : blockSize m.bytes elfStart ≠ 0
  alloc : kernel.virtualAlloc (blockSize m.bytes elfStart) s = .ok (programStart, s1)
  memory : m' = (loadLoop elfStart programStart (headerCopy elfStart programStart m) loopBound 0
    (copyHeaders elfStart programStart m)).memory
  opens : Opens kernel m'.bytes elfStart (eShoff m.bytes elfStart) (stringTable m.bytes elfStart)
    (List.range (eShnum m'.bytes elfStart)) ([], 0) s1 last s2
  enter : kernel.enter elfBinary (newBinary elfStart programName (layoutOf m.bytes elfStart)
    programStart m (loadLoop elfStart programStart (headerCopy elfStart programStart m) loopBound
      0 (copyHeaders elfStart programStart m)) (field m'.bytes elfStart 24 8)) last s2 = .ok s'

/-- A binary that is given up once it has its block. -/
structure GivesUp (programName : List ℕ) (elfBinary : π) (m : Memory) (s : σ) (programStart : ℕ)
    (s1 s2 s' : σ) : Prop where
  alloc : kernel.virtualAlloc (blockSize m.bytes elfStart) s = .ok (programStart, s1)
  keeps : ∀ R : σ → Prop, (∀ path s handle s', R s →
    kernel.volumeOpenHandle path s = .ok (handle, s') → R s') → R s1 → R s2
  unload : kernel.unloadElf elfBinary programName s2 = .ok s'

variable {kernel elfStart}

theorem result_loadIntoBlock {programName : List ℕ} {elfBinary : π} {layout : Layout}
    {programStart : ℕ} {m m' : Memory} {s s' : σ} {q : Option π} :
    (loadIntoBlock kernel elfStart programName elfBinary layout programStart m s).result =
        .ok (q, m', s') ↔
      m' = (loadLoop elfStart programStart (headerCopy elfStart programStart m) loopBound 0
        (copyHeaders elfStart programStart m)).memory ∧
      ∃ interpreter s1, (openInterpreters kernel m'.bytes elfStart layout.shoff layout.strings
        (List.range (eShnum m'.bytes elfStart)) ([], 0) s).result = .ok (interpreter, s1) ∧
      ((interpreter = none ∧ q = none ∧ kernel.unloadElf elfBinary programName s1 = .ok s') ∨
        ∃ last, interpreter = some last ∧ q = some elfBinary ∧
          kernel.enter elfBinary (newBinary elfStart programName layout programStart m
            (loadLoop elfStart programStart (headerCopy elfStart programStart m) loopBound 0
              (copyHeaders elfStart programStart m)) (field m'.bytes elfStart 24 8)) last s1 =
            .ok s') := by
  unfold loadIntoBlock
  rw [result_bind, result_note, ok_bind, result_bind, result_loadSegments, ok_bind, result_bind,
    result_fetch, ok_bind, result_bind, bind_eq_ok]
  constructor
  · rintro ⟨⟨interpreter, s1⟩, hopens, h⟩
    cases interpreter with
    | none =>
      rw [result_bind, bind_eq_ok] at h
      obtain ⟨s2, hunload, h⟩ := h
      obtain ⟨rfl, hrest⟩ := Prod.mk.inj (Except.ok.inj h)
      obtain ⟨rfl, rfl⟩ := Prod.mk.inj hrest
      exact ⟨rfl, none, s1, hopens, Or.inl ⟨rfl, rfl, call_eq_ok.mp hunload⟩⟩
    | some last =>
      rw [result_bind, result_fetch, ok_bind, result_bind, bind_eq_ok] at h
      obtain ⟨s2, henter, h⟩ := h
      obtain ⟨rfl, hrest⟩ := Prod.mk.inj (Except.ok.inj h)
      obtain ⟨rfl, rfl⟩ := Prod.mk.inj hrest
      exact ⟨rfl, some last, s1, hopens, Or.inr ⟨last, rfl, rfl, call_eq_ok.mp henter⟩⟩
  · rintro ⟨rfl, interpreter, s1, hopens, hend⟩
    refine ⟨(interpreter, s1), hopens, ?_⟩
    rcases hend with ⟨rfl, rfl, hunload⟩ | ⟨last, rfl, rfl, henter⟩
    · rw [result_bind, bind_eq_ok]
      exact ⟨s', call_eq_ok.mpr hunload, rfl⟩
    · rw [result_bind, result_fetch, ok_bind, result_bind, bind_eq_ok]
      exact ⟨s', call_eq_ok.mpr henter, rfl⟩

theorem result_loadNew {programName : List ℕ} {elfBinary : π} {m m' : Memory} {s s' : σ}
    {q : Option π} (hstart : elfStart < 2 ^ 64) :
    (loadNew kernel elfStart programName elfBinary m s).result = .ok (q, m', s') ↔
      checkHeader m.bytes elfStart = .ok () ∧
      (∀ i < eShnum m.bytes elfStart, Divides m.bytes elfStart (eShoff m.bytes elfStart) i) ∧
      blockSize m.bytes elfStart ≠ 0 ∧ ∃ programStart s1,
        kernel.virtualAlloc (blockSize m.bytes elfStart) s = .ok (programStart, s1) ∧
        (loadIntoBlock kernel elfStart programName elfBinary (layoutOf m.bytes elfStart)
          programStart m s1).result = .ok (q, m', s') := by
  unfold loadNew
  rw [result_bind, bind_eq_ok]
  constructor
  · rintro ⟨layout, hlayout, h⟩
    obtain ⟨hcheck, hdivides, hsize, rfl⟩ := (result_readLayout hstart).mp hlayout
    rw [result_bind, bind_eq_ok] at h
    obtain ⟨⟨programStart, s1⟩, halloc, h⟩ := h
    exact ⟨hcheck, hdivides, hsize, programStart, s1, call_eq_ok.mp halloc, h⟩
  · rintro ⟨hcheck, hdivides, hsize, programStart, s1, halloc, h⟩
    refine ⟨_, (result_readLayout hstart).mpr ⟨hcheck, hdivides, hsize, rfl⟩, ?_⟩
    rw [result_bind, bind_eq_ok]
    exact ⟨(programStart, s1), call_eq_ok.mpr halloc, h⟩

/-- A binary is returned after these steps. -/
theorem result_loadNew_some {programName : List ℕ} {elfBinary q : π} {m m' : Memory} {s s' : σ}
    (hstart : elfStart < 2 ^ 64) :
    (loadNew kernel elfStart programName elfBinary m s).result = .ok (some q, m', s') ↔
      q = elfBinary ∧ ∃ programStart s1 last s2, LoadsNew kernel elfStart programName elfBinary m s
        programStart s1 last s2 m' s' := by
  rw [result_loadNew hstart]
  constructor
  · rintro ⟨hcheck, hdivides, hsize, programStart, s1, halloc, h⟩
    obtain ⟨rfl, interpreter, s2, hopens, ⟨-, hq, -⟩ | ⟨last, rfl, hq, henter⟩⟩ :=
      result_loadIntoBlock.mp h
    · cases hq
    · exact ⟨Option.some.inj hq, programStart, s1, last, s2, hcheck, hdivides, hsize, halloc, rfl,
        result_openInterpreters.mp hopens, henter⟩
  · rintro ⟨rfl, programStart, s1, last, s2, h⟩
    exact ⟨h.check, h.divides, h.size, programStart, s1, h.alloc, result_loadIntoBlock.mpr
      ⟨h.memory, some last, s2, result_openInterpreters.mpr h.opens,
        Or.inr ⟨last, rfl, rfl, h.enter⟩⟩⟩

/-- The null pointer is returned when a binary is given up. -/
theorem result_loadNew_none {programName : List ℕ} {elfBinary : π} {m m' : Memory} {s s' : σ}
    (hstart : elfStart < 2 ^ 64)
    (h : (loadNew kernel elfStart programName elfBinary m s).result = .ok (none, m', s')) :
    ∃ programStart s1 s2, GivesUp kernel elfStart programName elfBinary m s programStart s1 s2
      s' := by
  obtain ⟨-, -, -, programStart, s1, halloc, h⟩ := (result_loadNew hstart).mp h
  obtain ⟨-, interpreter, s2, hopens, ⟨-, -, hunload⟩ | ⟨last, -, hq, -⟩⟩ :=
    result_loadIntoBlock.mp h
  · exact ⟨programStart, s1, s2, halloc,
      fun R hR hs1 => openInterpreters_keeps hR hs1 hopens, hunload⟩
  · cases hq

theorem result_loadElfFromMemory {programName : List ℕ} {m m' : Memory} {s s' : σ}
    {q : Option π} :
    (loadElfFromMemory kernel elfStart programName m s).result = .ok (q, m', s') ↔
      (∃ existing, kernel.lookup programName s = .ok (some existing) ∧ q = some existing ∧ m' = m ∧
        s' = s) ∨
      kernel.lookup programName s = .ok none ∧ ∃ elfBinary s1,
        kernel.rpmalloc s = .ok (elfBinary, s1) ∧
        (loadNew kernel elfStart programName elfBinary m s1).result = .ok (q, m', s') := by
  unfold loadElfFromMemory
  rw [result_bind, bind_eq_ok]
  constructor
  · rintro ⟨found, hfound, h⟩
    cases found with
    | some existing =>
      obtain ⟨rfl, hrest⟩ := Prod.mk.inj (Except.ok.inj h)
      obtain ⟨rfl, rfl⟩ := Prod.mk.inj hrest
      exact Or.inl ⟨existing, call_eq_ok.mp hfound, rfl, rfl, rfl⟩
    | none =>
      rw [result_bind, bind_eq_ok] at h
      obtain ⟨⟨elfBinary, s1⟩, hmalloc, h⟩ := h
      exact Or.inr ⟨call_eq_ok.mp hfound, elfBinary, s1, call_eq_ok.mp hmalloc, h⟩
  · rintro (⟨existing, hfound, rfl, rfl, rfl⟩ | ⟨hfound, elfBinary, s1, hmalloc, h⟩)
    · exact ⟨some existing, call_eq_ok.mpr hfound, rfl⟩
    · refine ⟨none, call_eq_ok.mpr hfound, ?_⟩
      rw [result_bind, bind_eq_ok]
      exact ⟨(elfBinary, s1), call_eq_ok.mpr hmalloc, h⟩

end Results

end Enkel.ElfFile
