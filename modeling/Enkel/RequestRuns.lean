import Enkel.Outcome

/-!
Runs of requests. A machine answers a request and goes to its next state, or stops
with an error; a specification always answers. The machine follows the specification
through a run exactly if it does so on every request, in the state that the
specification has reached by then.
-/
namespace Enkel.RequestRuns

open Outcome

variable {σ ρ α ε : Type}

/-- The answers to a list of requests, each with the state after it. -/
def calls (step : ρ → σ → Except ε (α × σ)) : List ρ → σ → Except ε (List (α × σ))
  | [], _ => .ok []
  | r :: requests, s => do
    let call ← step r s
    let later ← calls step requests call.2
    return call :: later

def specCalls (spec : ρ → σ → α × σ) : List ρ → σ → List (α × σ)
  | [], _ => []
  | r :: requests, s => spec r s :: specCalls spec requests (spec r s).2

/-- Every request has a property in the state in which the specification gets it. -/
def Each (spec : ρ → σ → α × σ) (P : ρ → σ → Prop) : List ρ → σ → Prop
  | [], _ => True
  | r :: requests, s => P r s ∧ Each spec P requests (spec r s).2

variable {step : ρ → σ → Except ε (α × σ)} {spec : ρ → σ → α × σ} {P : ρ → σ → Prop}
  {I : σ → Prop} {requests : List ρ} {s : σ} {r : ρ} {l : List (α × σ)}

theorem calls_cons_eq_ok : calls step (r :: requests) s = .ok l ↔
    ∃ call later, step r s = .ok call ∧ calls step requests call.2 = .ok later ∧
      call :: later = l := by
  constructor
  · intro h
    obtain ⟨call, hcall, h⟩ := bind_eq_ok.mp h
    obtain ⟨later, hlater, h⟩ := bind_eq_ok.mp h
    exact ⟨call, later, hcall, hlater, pure_eq_ok.mp h⟩
  · rintro ⟨call, later, hcall, hlater, h⟩
    apply bind_eq_ok.mpr
    refine ⟨call, hcall, bind_eq_ok.mpr ⟨later, hlater, ?_⟩⟩
    exact pure_eq_ok.mpr h

/-- What every request keeps holds in every state of the run. -/
theorem specCalls_inv (hkeep : ∀ r s, I s → I (spec r s).2) (hs : I s) :
    ∀ call ∈ specCalls spec requests s, I call.2 := by
  induction requests generalizing s with
  | nil => intro call hcall
           cases hcall
  | cons r requests ih =>
    intro call hcall
    rcases List.mem_cons.mp hcall with rfl | hlater
    · exact hkeep r s hs
    · exact ih (hkeep r s hs) call hlater

/-- The machine makes the calls of the specification exactly if every request is one on
which the two agree. -/
theorem calls_eq_iff (hkeep : ∀ r s, I s → I (spec r s).2)
    (hstep : ∀ r s, I s → (step r s = .ok (spec r s) ↔ P r s)) (hs : I s) :
    calls step requests s = .ok (specCalls spec requests s) ↔ Each spec P requests s := by
  induction requests generalizing s with
  | nil => exact iff_of_true rfl trivial
  | cons r requests ih =>
    have hnext := ih (hkeep r s hs)
    constructor
    · intro h
      obtain ⟨call, later, hcall, hlater, heq⟩ := calls_cons_eq_ok.mp h
      obtain ⟨rfl, rfl⟩ := List.cons.inj heq
      exact ⟨(hstep r s hs).mp hcall, hnext.mp hlater⟩
    · rintro ⟨hr, hrest⟩
      apply calls_cons_eq_ok.mpr
      exact ⟨_, _, (hstep r s hs).mpr hr, hnext.mpr hrest, rfl⟩

/-- Every step of the run has a property, as far as the run goes. -/
def Along {σ ρ ε : Type} (step : ρ → σ → Except ε σ) (P : ρ → σ → σ → Prop) : List ρ → σ → Prop
  | [], _ => True
  | r :: requests, s => ∀ s', step r s = .ok s' → P r s s' ∧ Along step P requests s'

/-- Two properties of a step that are the same as long as an invariant holds, which the
steps with the second one keep. -/
theorem along_iff {σ ρ ε : Type} {step : ρ → σ → Except ε σ} {P Q : ρ → σ → σ → Prop}
    {I : σ → Prop} {requests : List ρ} {s : σ}
    (hiff : ∀ r s s', I s → step r s = .ok s' → (P r s s' ↔ Q r s s'))
    (hkeep : ∀ r s s', I s → step r s = .ok s' → Q r s s' → I s') (hs : I s) :
    Along step P requests s ↔ Along step Q requests s := by
  induction requests generalizing s with
  | nil => exact Iff.rfl
  | cons r requests ih =>
    constructor
    · intro h s' hstep
      obtain ⟨hp, hrest⟩ := h s' hstep
      have hq := (hiff r s s' hs hstep).mp hp
      exact ⟨hq, (ih (hkeep r s s' hs hstep hq)).mp hrest⟩
    · intro h s' hstep
      obtain ⟨hq, hrest⟩ := h s' hstep
      exact ⟨(hiff r s s' hs hstep).mpr hq, (ih (hkeep r s s' hs hstep hq)).mpr hrest⟩

section Simulation
variable {σ τ ρ α : Type}

/-- The answers of a machine that always answers. -/
def answers (step : ρ → σ → α × σ) : List ρ → σ → List α
  | [], _ => []
  | r :: requests, s => (step r s).1 :: answers step requests (step r s).2

/-- A machine with states of its own answers like the specification exactly if every
request is one on which the two agree, when these lead to related states. -/
theorem answers_eq_iff {step : ρ → σ → α × σ} {spec : ρ → τ → α × τ} {R : σ → τ → Prop}
    {P : ρ → τ → Prop} {requests : List ρ} {s : σ} {t : τ}
    (hanswer : ∀ r s t, R s t → ((step r s).1 = (spec r t).1 ↔ P r t))
    (hkeep : ∀ r s t, R s t → P r t → R (step r s).2 (spec r t).2) (h : R s t) :
    answers step requests s = answers spec requests t ↔ Each spec P requests t := by
  induction requests generalizing s t with
  | nil => exact iff_of_true rfl trivial
  | cons r requests ih =>
    simp only [answers, Each, List.cons.injEq, hanswer r s t h]
    apply and_congr_right
    intro hr
    exact ih (hkeep r s t h hr)

end Simulation

section Machine
variable {σ τ ρ ε : Type}

/-- The state that a run leads to. -/
def run (step : ρ → σ → Except ε σ) : List ρ → σ → Except ε σ
  | [], s => .ok s
  | r :: requests, s => do run step requests (← step r s)

/-- Something holds before every step of the run, the one that stops it included. -/
def Before (step : ρ → σ → Except ε σ) (P : ρ → σ → Prop) : List ρ → σ → Prop
  | [], _ => True
  | r :: requests, s => P r s ∧ ∀ s', step r s = .ok s' → Before step P requests s'

variable {step : ρ → σ → Except ε σ} {step' : ρ → τ → Except ε τ} {R : σ → τ → Prop}
  {P : ρ → σ → Prop} {Q : ρ → τ → Prop} {requests : List ρ} {s s' : σ} {t t' : τ} {r : ρ}

theorem run_cons_eq_ok : run step (r :: requests) s = .ok s' ↔
    ∃ next, step r s = .ok next ∧ run step requests next = .ok s' :=
  bind_eq_ok

theorem run_cons_of_ok {next : σ} (h : step r s = .ok next) :
    run step (r :: requests) s = run step requests next := by
  change (step r s >>= fun next => run step requests next) = _
  rw [h, ok_bind]

/-- What every step keeps holds at the end of a run. -/
theorem run_inv {I : σ → Prop} (hkeep : ∀ r s s', I s → step r s = .ok s' → I s') (hs : I s)
    (hrun : run step requests s = .ok s') : I s' := by
  induction requests generalizing s with
  | nil =>
    cases hrun
    exact hs
  | cons r requests ih =>
    obtain ⟨next, hnext, hrest⟩ := run_cons_eq_ok.mp hrun
    exact ih (hkeep r s next hs hnext) hrest

/-- A run goes through exactly if before every step something holds that lets it. -/
theorem succeeds_run_iff {I : σ → Prop}
    (hstep : ∀ r s, I s → (Succeeds (step r s) ↔ P r s))
    (hkeep : ∀ r s s', I s → step r s = .ok s' → I s') (hs : I s) :
    Succeeds (run step requests s) ↔ Before step P requests s := by
  induction requests generalizing s with
  | nil => exact iff_of_true (succeeds_ok s) trivial
  | cons r requests ih =>
    constructor
    · rintro ⟨s', hrun⟩
      obtain ⟨next, hnext, hrest⟩ := run_cons_eq_ok.mp hrun
      refine ⟨(hstep r s hs).mp ⟨next, hnext⟩, fun other hother => ?_⟩
      cases hnext.symm.trans hother
      exact (ih (hkeep r s _ hs hnext)).mp ⟨s', hrest⟩
    · rintro ⟨hr, hrest⟩
      obtain ⟨next, hnext⟩ := (hstep r s hs).mpr hr
      obtain ⟨s', hs'⟩ := (ih (hkeep r s _ hs hnext)).mpr (hrest next hnext)
      exact ⟨s', run_cons_eq_ok.mpr ⟨next, hnext, hs'⟩⟩

/-- Two machines that stop together and keep their states related. -/
structure Related (step : ρ → σ → Except ε σ) (step' : ρ → τ → Except ε τ) (R : σ → τ → Prop) :
    Prop where
  succeeds : ∀ r s t, R s t → (Succeeds (step r s) ↔ Succeeds (step' r t))
  keeps : ∀ r s t s' t', R s t → step r s = .ok s' → step' r t = .ok t' → R s' t'

theorem Related.succeeds_run (h : Related step step' R) (hst : R s t) :
    Succeeds (run step requests s) ↔ Succeeds (run step' requests t) := by
  induction requests generalizing s t with
  | nil => exact iff_of_true (succeeds_ok s) (succeeds_ok t)
  | cons r requests ih =>
    constructor
    · rintro ⟨s', hrun⟩
      obtain ⟨next, hnext, hrest⟩ := run_cons_eq_ok.mp hrun
      obtain ⟨next', hnext'⟩ := (h.succeeds r s t hst).mp ⟨next, hnext⟩
      obtain ⟨t', ht'⟩ := (ih (h.keeps r s t _ _ hst hnext hnext')).mp ⟨s', hrest⟩
      exact ⟨t', run_cons_eq_ok.mpr ⟨next', hnext', ht'⟩⟩
    · rintro ⟨t', hrun⟩
      obtain ⟨next', hnext', hrest⟩ := run_cons_eq_ok.mp hrun
      obtain ⟨next, hnext⟩ := (h.succeeds r s t hst).mpr ⟨next', hnext'⟩
      obtain ⟨s', hs'⟩ := (ih (h.keeps r s t _ _ hst hnext hnext')).mpr ⟨t', hrest⟩
      exact ⟨s', run_cons_eq_ok.mpr ⟨next, hnext, hs'⟩⟩

theorem Related.run (h : Related step step' R) (hst : R s t)
    (hs' : RequestRuns.run step requests s = .ok s')
    (ht' : RequestRuns.run step' requests t = .ok t') : R s' t' := by
  induction requests generalizing s t with
  | nil =>
    cases hs'
    cases ht'
    exact hst
  | cons r requests ih =>
    obtain ⟨next, hnext, hrest⟩ := run_cons_eq_ok.mp hs'
    obtain ⟨next', hnext', hrest'⟩ := run_cons_eq_ok.mp ht'
    exact ih (h.keeps r s t _ _ hst hnext hnext') hrest hrest'

/-- What holds before the steps of one machine holds before those of the other. -/
theorem Related.before_iff (h : Related step step' R) (hpq : ∀ r s t, R s t → (P r s ↔ Q r t))
    (hst : R s t) : Before step P requests s ↔ Before step' Q requests t := by
  induction requests generalizing s t with
  | nil => exact Iff.rfl
  | cons r requests ih =>
    refine and_congr (hpq r s t hst) ⟨fun hall next' hnext' => ?_, fun hall next hnext => ?_⟩
    · obtain ⟨next, hnext⟩ := (h.succeeds r s t hst).mpr ⟨next', hnext'⟩
      exact (ih (h.keeps r s t _ _ hst hnext hnext')).mp (hall next hnext)
    · obtain ⟨next', hnext'⟩ := (h.succeeds r s t hst).mp ⟨next, hnext⟩
      exact (ih (h.keeps r s t _ _ hst hnext hnext')).mpr (hall next' hnext')

end Machine

end Enkel.RequestRuns
