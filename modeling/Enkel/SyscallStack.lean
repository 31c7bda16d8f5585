import Enkel.ProcessContext

/-!
The stack of the system calls. The dispatcher always starts at the end of the one
stack, so a system call that is made while another one waits in sys_execve lies on
the bytes of the latter.
-/
namespace Enkel.Processes

open Machine State

/-- The system calls in progress, the innermost first. -/
def State.live (s : State) : List SyscallFrame := s.levels.filterMap Level.syscall

/-- The bytes of the stack that a system call uses. -/
def SyscallFrame.Uses (frame : SyscallFrame) (address : ℕ) : Prop :=
  address < frame.top ∧ frame.top ≤ address + frame.used

def Event.isSyscall : Event → Bool
  | .syscall => true
  | _ => false

/-- No byte of the stack is used by two system calls. -/
def State.LiveDisjoint (s : State) : Prop :=
  s.live.Pairwise fun frame frame' => ∀ address, frame.Uses address → ¬ frame'.Uses address

section Live
variable {syscallStack : ℕ} {s s' start : State} {history : List (State × Event)}

theorem Inv.live_onStack (h : Inv syscallStack s) {frame : SyscallFrame} (hf : frame ∈ s.live) :
    frame.OnStack syscallStack := by
  obtain ⟨level, hlevel, hsyscall⟩ := List.mem_filterMap.mp hf
  exact h.onStack level hlevel frame hsyscall

/-- Two system calls meet at the end of the stack. -/
theorem onStack_meet {frame frame' : SyscallFrame} (hlow : 16 ≤ syscallStack)
    (hhigh : syscallStack < 2 ^ 64) (h : frame.OnStack syscallStack)
    (h' : frame'.OnStack syscallStack) : ∃ address, frame.Uses address ∧ frame'.Uses address := by
  obtain ⟨htop, hused⟩ := h
  obtain ⟨htop', hused'⟩ := h'
  have hmask : syscallStack &&& (2 ^ 64 - 16) = syscallStack / 16 * 16 := by
    have hspan : syscallStack &&& (2 ^ 64 - 16) = syscallStack / 2 ^ 4 % 2 ^ 60 * 2 ^ 4 :=
      Words.and_span syscallStack (show 4 ≤ 64 by omega)
    omega
  rw [hmask] at htop htop'
  unfold dispatcherBytes at hused hused'
  refine ⟨frame.top - 1, ?_, ?_⟩
  all_goals
    unfold SyscallFrame.Uses
    omega

theorem Inv.liveDisjoint_iff (h : Inv syscallStack s) (hlow : 16 ≤ syscallStack)
    (hhigh : syscallStack < 2 ^ 64) : s.LiveDisjoint ↔ s.live.length ≤ 1 := by
  have honStack : ∀ frame ∈ s.live, frame.OnStack syscallStack := fun _ => h.live_onStack
  unfold State.LiveDisjoint
  generalize s.live = live at honStack ⊢
  rcases live with _ | ⟨frame, _ | ⟨frame', live⟩⟩
  · simp
  · simp
  · refine iff_of_false (fun hdisjoint => ?_) (by simp)
    obtain ⟨address, huse, huse'⟩ :=
      onStack_meet hlow hhigh (honStack frame (by simp)) (honStack frame' (by simp))
    exact List.rel_of_pairwise_cons hdisjoint List.mem_cons_self address huse huse'

theorem startProcess_live {process : Process} {m : Machine} {levels : List Level}
    (h : State.startProcess process m levels = some s') :
    s'.live = levels.filterMap Level.syscall := by
  unfold State.startProcess at h
  simp only [Option.bind_eq_bind, Option.bind_eq_some_iff] at h
  obtain ⟨m', -, hs⟩ := h
  obtain rfl := Option.some.inj hs
  rfl

/-- Only the event of a system call makes one more of them live. -/
theorem step_live {e : Event} (hstep : s.step e = some s') :
    if e.isSyscall then s'.live.length = s.live.length + 1
    else s'.live.length ≤ s.live.length := by
  cases transition_of_step hstep with
  | schedule hstart =>
    rw [startProcess_live hstart]
    simp [Event.isSyscall]
  | execve hstart =>
    rw [startProcess_live hstart]
    simp [State.live, Event.isSyscall]
  | @exit _ levels _ _ _ _ _ _ _ hend =>
    cases levels with
    | nil =>
      have hlevels := (endProcess_nil hend).1
      simp [State.live, Event.isSyscall, hlevels]
    | cons outer levels =>
      have hlevels := (endProcess_cons hend).1
      change s'.live.length ≤ _
      unfold State.live
      rw [hlevels, List.filterMap_cons_none rfl]
      refine (List.Sublist.filterMap Level.syscall ?_).length_le
      exact (List.sublist_cons_self outer levels).trans (List.sublist_cons_self _ _)
  | _ => simp [State.live, Event.isSyscall]

/-- In every run: the system calls in progress are disjoint on the stack in all the
states exactly if none was made while another one was in progress. -/
theorem live_disjoint_iff (hboot : AtBoot start) (hrun : Run start history s) :
    ((∀ x ∈ history, x.1.LiveDisjoint) ∧ s.LiveDisjoint) ↔
      ∀ x ∈ history, x.2.isSyscall = true → x.1.live = [] := by
  obtain ⟨base, hstack, hlt⟩ := hboot.syscallStack
  induction hrun with
  | start => simp [State.LiveDisjoint, State.live, hboot.levels]
  | @step history s s' e hrun hstep ih =>
    have hbefore := (hrun.inv hboot).liveDisjoint_iff (by omega) (by omega)
    have hafter := ((hrun.step hstep).inv hboot).liveDisjoint_iff (by omega) (by omega)
    have hlive := step_live hstep
    constructor
    · rintro ⟨hall, hnext⟩ x hx
      obtain ⟨hnow, hpast⟩ := List.forall_mem_cons.mp hall
      rcases List.mem_cons.mp hx with rfl | hx
      · intro hcall
        rw [if_pos hcall] at hlive
        have hone := hafter.mp hnext
        change s.live = []
        exact List.length_eq_zero_iff.mp (by omega)
      · exact ih.mp ⟨hpast, hnow⟩ x hx
    · intro hmade
      obtain ⟨hnow, hpast⟩ := List.forall_mem_cons.mp hmade
      obtain ⟨hdisjoint, hlast⟩ := ih.mpr hpast
      refine ⟨List.forall_mem_cons.mpr ⟨hlast, hdisjoint⟩, hafter.mpr ?_⟩
      split_ifs at hlive with hcall
      · rw [hlive, hnow hcall]
        rfl
      · exact hlive.trans (hbefore.mp hlast)

end Live

theorem live_disjoint_iff_nested :
    ∃ s history, nestedEvents.foldlM State.step bootState = some s ∧ Run bootState history s ∧
      (((∀ x ∈ history, x.1.LiveDisjoint) ∧ s.LiveDisjoint) ↔
        ∀ x ∈ history, x.2.isSyscall = true → x.1.live = []) := by
  obtain ⟨s, hsteps⟩ : ∃ s, nestedEvents.foldlM State.step bootState = some s := ⟨_, rfl⟩
  obtain ⟨history, hrun, -⟩ := exists_run Run.start hsteps
  exact ⟨s, _, hsteps, hrun, live_disjoint_iff atBoot_bootState hrun⟩

/-- The inner program makes a system call: it lies on the registers that the dispatcher
has saved for the outer one. -/
theorem inner_syscall_overlaps :
    ∃ s history, Run bootState history s ∧
      (nestedEvents ++ [Event.syscall]).foldlM State.step bootState = some s ∧
      s.live.map SyscallFrame.top = [0x24000, 0x24000] ∧ ¬ s.LiveDisjoint := by
  obtain ⟨s, hsteps, hlive⟩ :
      ∃ s, (nestedEvents ++ [Event.syscall]).foldlM State.step bootState = some s ∧
        s.live.map SyscallFrame.top = [0x24000, 0x24000] := ⟨_, rfl, rfl⟩
  obtain ⟨history, hrun, -⟩ := exists_run Run.start hsteps
  refine ⟨s, _, hrun, hsteps, hlive, fun hdisjoint => ?_⟩
  have hone := ((hrun.inv atBoot_bootState).liveDisjoint_iff (by decide) (by decide)).mp hdisjoint
  have htwo := congrArg List.length hlive
  rw [List.length_map] at htwo
  exact absurd (htwo ▸ hone) (by decide)

end Enkel.Processes
