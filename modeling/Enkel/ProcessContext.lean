import Mathlib.Data.Option.Basic
import Enkel.ProcessNesting

/-!
Whose context the cells hold. ScheduleProcess stores the context of the process that
it enters over that of the process that waits, and nothing restores the latter when
the inner process ends: the cells belong to the running process exactly as long as
none of the processes that it has started has ended.
-/
namespace Enkel.Processes

open Machine State

section Machine
variable {m m' : Machine} {process : Process} {frame : SyscallFrame}

theorem loadFS_eq_some (h : m.loadFS = some m') :
    m.gsBase ≠ .other ∧ ∃ f, m' = m.setFSBase f := by
  unfold loadFS at h
  cases hgs : m.gsBase with
  | kernel =>
    rw [hgs] at h
    exact ⟨by simp, _, (Option.some.inj h).symm⟩
  | user =>
    rw [hgs] at h
    exact ⟨by simp, _, (Option.some.inj h).symm⟩
  | other =>
    rw [hgs] at h
    cases h

/-- What has not changed: the cells of the context. -/
structure SameContext (m m' : Machine) : Prop where
  kernelEnvironment : m'.kernelEnvironment = m.kernelEnvironment
  userFSBase : m'.userFSBase = m.userFSBase
  currentProcess : m'.currentProcess = m.currentProcess

theorem dispatch_eq_some (h : m.dispatch = some (m', frame)) :
    SameContext m m' ∧ m'.gsBase = .kernel ∧ m'.swapGSBase = m.gsBase ∧
      frame.top = m.kernelEnvironment.syscallStack &&& (2 ^ 64 - 16) ∧
      frame.used = dispatcherBytes := by
  unfold dispatch at h
  simp only [Option.bind_eq_bind, Option.bind_eq_some_iff, Option.guard_eq_some'] at h
  obtain ⟨m1, hload, -, hkernel, hm⟩ := h
  obtain ⟨-, f, rfl⟩ := loadFS_eq_some hload
  obtain ⟨rfl, rfl⟩ := Prod.mk.inj (Option.some.inj hm)
  exact ⟨⟨rfl, rfl, rfl⟩, hkernel, rfl, rfl, rfl⟩

theorem sysret_eq_some (h : m.sysret frame = some m') :
    SameContext m m' ∧ m'.gsBase = m.swapGSBase ∧ m'.swapGSBase = m.gsBase := by
  obtain ⟨-, f, rfl⟩ := loadFS_eq_some h
  exact ⟨⟨rfl, rfl, rfl⟩, rfl, rfl⟩

theorem enterProcess_eq_some (h : m.enterProcess process = some m') :
    m'.gsBase = .user ∧ m'.swapGSBase = .kernel ∧
      m'.currentProcess = some process.address ∧ m'.userFSBase = process.fsBase ∧
      m'.kernelEnvironment.syscallStack = m.kernelEnvironment.syscallStack := by
  unfold enterProcess switchToUserMode at h
  simp only [Option.bind_eq_bind, Option.bind_eq_some_iff, Option.guard_eq_some'] at h
  obtain ⟨-, hkernel, hload⟩ := h
  obtain ⟨-, f, rfl⟩ := loadFS_eq_some hload
  exact ⟨rfl, hkernel, rfl, rfl, rfl⟩

theorem returnToKernel_eq_some (h : m.returnToKernel = some m') :
    SameContext m m' ∧ m.gsBase = .kernel ∧ m'.gsBase = .kernel ∧
      m'.swapGSBase = m.swapGSBase := by
  unfold returnToKernel at h
  simp only [Option.bind_eq_bind, Option.bind_eq_some_iff, Option.guard_eq_some'] at h
  obtain ⟨-, hkernel, hm⟩ := h
  obtain rfl := Option.some.inj hm
  exact ⟨⟨rfl, rfl, rfl⟩, hkernel, hkernel, rfl⟩

end Machine

/-- The cells hold what belongs to the process: GCurrentProcess, its FS base, and what
SwitchToUserMode has stored when it was entered. -/
structure Level.Owns (level : Level) (m : Machine) : Prop where
  currentProcess : m.currentProcess = some level.process.address
  userFSBase : m.userFSBase = level.fsBase
  kernelRBP : m.kernelEnvironment.kernelRBP = level.kernelRBP
  kernelRSP : m.kernelEnvironment.kernelRSP = level.kernelRSP

/-- The GS bases are those of the side that runs. -/
def GSFits (m : Machine) : List Level → Prop
  | [] => m.gsBase = .kernel
  | ⟨_, _, _, _, _, none⟩ :: _ => m.gsBase = .user ∧ m.swapGSBase = .kernel
  | ⟨_, _, _, _, _, some _⟩ :: _ => m.gsBase = .kernel ∧ m.swapGSBase = .user

/-- The context belongs to the running process until one of its processes ends. -/
def ContextFits (m : Machine) : List Level → Prop
  | [] => m.currentProcess = none
  | level :: _ => if level.childEnded then m.currentProcess = none else level.Owns m

/-- Where a system call lies on the stack. -/
def SyscallFrame.OnStack (syscallStack : ℕ) (frame : SyscallFrame) : Prop :=
  frame.top = syscallStack &&& (2 ^ 64 - 16) ∧ dispatcherBytes ≤ frame.used

structure Inv (syscallStack : ℕ) (s : State) : Prop where
  syscallStack_eq : s.machine.kernelEnvironment.syscallStack = syscallStack
  gs : GSFits s.machine s.levels
  context : ContextFits s.machine s.levels
  onStack : ∀ level ∈ s.levels, ∀ frame ∈ level.syscall, frame.OnStack syscallStack
  waits : ∀ level ∈ s.levels.tail, level.syscall ≠ none

section Transitions

/-- What a step can do, by its event. -/
inductive Transition : State → Event → State → Prop
  | schedule {m : Machine} {process : Process} {rsp rbp : ℕ} {s' : State}
      (hstart : startProcess process { m with rsp := rsp, rbp := rbp } [] = some s') :
    Transition ⟨m, []⟩ (.schedule process rsp rbp) s'
  | compute {m : Machine} {levels : List Level} {running : Process} {fsBase krbp krsp : ℕ}
      {ended : Bool} {rsp rbp : ℕ} {word : ℕ → ℕ} :
    Transition ⟨m, ⟨running, fsBase, krbp, krsp, ended, none⟩ :: levels⟩ (.compute rsp rbp word)
      ⟨{ m with rsp := rsp, rbp := rbp, word := word },
        ⟨running, fsBase, krbp, krsp, ended, none⟩ :: levels⟩
  | syscall {m m' : Machine} {levels : List Level} {running : Process} {fsBase krbp krsp : ℕ}
      {ended : Bool} {frame : SyscallFrame} (hdispatch : m.dispatch = some (m', frame)) :
    Transition ⟨m, ⟨running, fsBase, krbp, krsp, ended, none⟩ :: levels⟩ .syscall
      ⟨m', ⟨running, fsBase, krbp, krsp, ended, some frame⟩ :: levels⟩
  | work {m : Machine} {levels : List Level} {running : Process} {fsBase krbp krsp : ℕ}
      {ended : Bool} {frame : SyscallFrame} {bytes : ℕ} :
    Transition ⟨m, ⟨running, fsBase, krbp, krsp, ended, some frame⟩ :: levels⟩ (.work bytes)
      ⟨m, ⟨running, fsBase, krbp, krsp, ended,
        some { frame with used := max frame.used (dispatcherBytes + bytes) }⟩ :: levels⟩
  | archSetFS {m : Machine} {levels : List Level} {running : Process} {fsBase krbp krsp : ℕ}
      {ended : Bool} {frame : SyscallFrame} {address : ℕ} :
    Transition ⟨m, ⟨running, fsBase, krbp, krsp, ended, some frame⟩ :: levels⟩
      (.archSetFS address)
      ⟨m.setUserFSBase address, ⟨running, address, krbp, krsp, ended, some frame⟩ :: levels⟩
  | sysret {m m' : Machine} {levels : List Level} {running : Process} {fsBase krbp krsp : ℕ}
      {ended : Bool} {frame : SyscallFrame} (hsysret : m.sysret frame = some m') :
    Transition ⟨m, ⟨running, fsBase, krbp, krsp, ended, some frame⟩ :: levels⟩ .sysret
      ⟨m', ⟨running, fsBase, krbp, krsp, ended, none⟩ :: levels⟩
  | execve {m : Machine} {levels : List Level} {running : Process} {fsBase krbp krsp : ℕ}
      {ended : Bool} {frame : SyscallFrame} {process : Process} {bytes rbp : ℕ} {s' : State}
      (hstart : startProcess process
        { m with rsp := sub64 frame.top (dispatcherBytes + bytes), rbp := rbp }
        (⟨running, fsBase, krbp, krsp, ended,
          some { frame with used := dispatcherBytes + bytes + 8 * 16 }⟩ :: levels) = some s') :
    Transition ⟨m, ⟨running, fsBase, krbp, krsp, ended, some frame⟩ :: levels⟩
      (.execve process bytes rbp) s'
  | exit {m : Machine} {levels : List Level} {running : Process} {fsBase krbp krsp : ℕ}
      {ended : Bool} {frame : SyscallFrame} {s' : State}
      (hend : endProcess m ⟨running, fsBase, krbp, krsp, ended, some frame⟩ levels = some s') :
    Transition ⟨m, ⟨running, fsBase, krbp, krsp, ended, some frame⟩ :: levels⟩ .exit s'

theorem transition_of_step {s s' : State} {e : Event} (hstep : s.step e = some s') :
    Transition s e s' := by
  obtain ⟨m, levels⟩ := s
  rcases levels with _ | ⟨⟨running, fsBase, krbp, krsp, ended, _ | frame⟩, levels⟩
  · cases e with
    | schedule => exact .schedule hstep
    | _ => cases hstep
  · cases e with
    | compute =>
      obtain rfl := Option.some.inj hstep
      exact .compute
    | syscall =>
      unfold State.step at hstep
      simp only [Option.bind_eq_bind, Option.bind_eq_some_iff] at hstep
      obtain ⟨⟨m', frame⟩, hdispatch, hs⟩ := hstep
      obtain rfl := Option.some.inj hs
      exact .syscall hdispatch
    | _ => cases hstep
  · cases e with
    | work =>
      obtain rfl := Option.some.inj hstep
      exact .work
    | archSetFS =>
      obtain rfl := Option.some.inj hstep
      exact .archSetFS
    | sysret =>
      unfold State.step at hstep
      simp only [Option.bind_eq_bind, Option.bind_eq_some_iff] at hstep
      obtain ⟨m', hsysret, hs⟩ := hstep
      obtain rfl := Option.some.inj hs
      exact .sysret hsysret
    | execve => exact .execve hstep
    | exit => exact .exit hstep
    | _ => cases hstep

end Transitions

section Step
variable {syscallStack : ℕ} {m m' : Machine} {levels : List Level} {process : Process} {s s' : State}

theorem GSFits.congr (h : GSFits m levels) (hgs : m'.gsBase = m.gsBase)
    (hswap : m'.swapGSBase = m.swapGSBase) : GSFits m' levels := by
  cases levels with
  | nil => exact hgs.trans h
  | cons level levels =>
    obtain ⟨_, _, _, _, _, frame⟩ := level
    cases frame with
    | none => exact ⟨hgs.trans h.1, hswap.trans h.2⟩
    | some frame => exact ⟨hgs.trans h.1, hswap.trans h.2⟩

/-- The context does not depend on the system call. -/
theorem ContextFits.same {p : Process} {f b r : ℕ} {ended : Bool} {c c' : Option SyscallFrame}
    {levels' : List Level} (hc : ContextFits m (⟨p, f, b, r, ended, c⟩ :: levels))
    (h : SameContext m m') : ContextFits m' (⟨p, f, b, r, ended, c'⟩ :: levels') := by
  change if ended then m.currentProcess = none else Level.Owns ⟨p, f, b, r, ended, c⟩ m at hc
  change if ended then m'.currentProcess = none else Level.Owns ⟨p, f, b, r, ended, c'⟩ m'
  split_ifs at hc ⊢
  · exact h.currentProcess.trans hc
  · obtain ⟨hcurrent, hfs, hrbp, hrsp⟩ := hc
    constructor
    · rw [h.currentProcess, hcurrent]
    · rw [h.userFSBase, hfs]
    · rw [h.kernelEnvironment, hrbp]
    · rw [h.kernelEnvironment, hrsp]

/-- A process that is entered owns the context. -/
theorem Inv.startProcess (hstart : State.startProcess process m levels = some s')
    (hstack : m.kernelEnvironment.syscallStack = syscallStack)
    (honStack : ∀ level ∈ levels, ∀ frame ∈ level.syscall, frame.OnStack syscallStack)
    (hwaits : ∀ level ∈ levels, level.syscall ≠ none) : Inv syscallStack s' := by
  unfold State.startProcess at hstart
  simp only [Option.bind_eq_bind, Option.bind_eq_some_iff] at hstart
  obtain ⟨m', henter, hs⟩ := hstart
  obtain rfl := Option.some.inj hs
  obtain ⟨hgs, hswap, hcurrent, hfs, hstack'⟩ := enterProcess_eq_some henter
  refine ⟨hstack'.trans hstack, ⟨hgs, hswap⟩, ⟨hcurrent, hfs, rfl, rfl⟩, ?_, hwaits⟩
  rw [List.forall_mem_cons]
  exact ⟨fun _ hnone => absurd hnone (by simp), honStack⟩

theorem endProcess_nil {level : Level} (h : State.endProcess m level [] = some s') :
    s'.levels = [] ∧ s'.machine.gsBase = .kernel ∧ s'.machine.currentProcess = none ∧
      s'.machine.kernelEnvironment = m.kernelEnvironment := by
  unfold State.endProcess at h
  simp only [Option.bind_eq_bind, Option.bind_eq_some_iff, Option.guard_eq_some'] at h
  obtain ⟨-, -, m1, hreturn, hs⟩ := h
  obtain ⟨hsame, -⟩ := returnToKernel_eq_some hreturn
  obtain rfl := Option.some.inj hs
  exact ⟨rfl, rfl, rfl, hsame.kernelEnvironment⟩

/-- When an inner process ends, GCurrentProcess is null, and the other cells are left
as the inner process has left them. -/
theorem endProcess_cons {level outer : Level}
    (h : State.endProcess m level (outer :: levels) = some s') :
    s'.levels = { outer with childEnded := true, syscall := none } :: levels ∧
      s'.machine.gsBase = m.swapGSBase ∧ s'.machine.swapGSBase = .kernel ∧
      s'.machine.currentProcess = none ∧ s'.machine.userFSBase = m.userFSBase ∧
      s'.machine.kernelEnvironment = m.kernelEnvironment ∧
      m.kernelEnvironment.kernelRBP = level.kernelRBP ∧
      m.kernelEnvironment.kernelRSP = level.kernelRSP := by
  unfold State.endProcess at h
  simp only [Option.bind_eq_bind, Option.bind_eq_some_iff, Option.guard_eq_some'] at h
  obtain ⟨-, ⟨hrbp, hrsp⟩, m1, hreturn, frame, -, m2, hsysret, hs⟩ := h
  obtain ⟨hsame, -, -, hswap⟩ := returnToKernel_eq_some hreturn
  obtain ⟨hleave, hgs, hgs'⟩ := sysret_eq_some hsysret
  obtain rfl := Option.some.inj hs
  exact ⟨rfl, hgs.trans hswap, hgs', hleave.currentProcess,
    hleave.userFSBase.trans hsame.userFSBase,
    hleave.kernelEnvironment.trans hsame.kernelEnvironment, hrbp, hrsp⟩

theorem mem_syscall {level : Level} {frame frame' : SyscallFrame}
    (hlevel : level.syscall = some frame) (hmem : frame' ∈ level.syscall) : frame' = frame :=
  (Option.some.inj (hlevel.symm.trans hmem)).symm

/-- One step keeps the invariant. -/
theorem Inv.step (h : Inv syscallStack s) {e : Event} (hstep : s.step e = some s') :
    Inv syscallStack s' := by
  obtain ⟨hstack, hgs, hcontext, honStack, hwaits⟩ := h
  cases transition_of_step hstep with
  | schedule hstart => exact Inv.startProcess hstart hstack honStack (by simp)
  | compute =>
    exact ⟨hstack, hgs.congr rfl rfl, hcontext.same ⟨rfl, rfl, rfl⟩, honStack, hwaits⟩
  | syscall hdispatch =>
    obtain ⟨hsame, hkernel, hswap, htop, hused⟩ := dispatch_eq_some hdispatch
    refine ⟨hsame.kernelEnvironment ▸ hstack, ⟨hkernel, hswap.trans hgs.1⟩,
      hcontext.same hsame, ?_, hwaits⟩
    rw [List.forall_mem_cons] at honStack ⊢
    refine ⟨fun frame' hmem => ?_, honStack.2⟩
    obtain rfl := mem_syscall rfl hmem
    exact ⟨hstack ▸ htop, hused.ge⟩
  | @work _ _ _ _ _ _ _ frame =>
    refine ⟨hstack, hgs, hcontext.same ⟨rfl, rfl, rfl⟩, ?_, hwaits⟩
    rw [List.forall_mem_cons] at honStack ⊢
    refine ⟨fun frame' hmem => ?_, honStack.2⟩
    obtain rfl := mem_syscall rfl hmem
    obtain ⟨htop, hused⟩ := honStack.1 frame rfl
    exact ⟨htop, hused.trans (Nat.le_max_left _ _)⟩
  | @archSetFS _ _ _ _ _ _ ended =>
    refine ⟨hstack, hgs.congr rfl rfl, ?_, ?_, hwaits⟩
    · cases ended with
      | true => exact hcontext
      | false => exact ⟨hcontext.currentProcess, rfl, hcontext.kernelRBP, hcontext.kernelRSP⟩
    · rw [List.forall_mem_cons] at honStack ⊢
      exact honStack
  | sysret hsysret =>
    obtain ⟨hsame, hgs', hswap'⟩ := sysret_eq_some hsysret
    refine ⟨hsame.kernelEnvironment ▸ hstack, ⟨hgs'.trans hgs.2, hswap'.trans hgs.1⟩,
      hcontext.same hsame, ?_, hwaits⟩
    rw [List.forall_mem_cons] at honStack ⊢
    exact ⟨fun _ hnone => absurd hnone (by simp), honStack.2⟩
  | @execve _ _ _ _ _ _ _ frame _ _ _ _ hstart =>
    refine Inv.startProcess hstart hstack ?_ ?_
    · rw [List.forall_mem_cons] at honStack ⊢
      refine ⟨fun frame' hmem => ?_, honStack.2⟩
      obtain rfl := mem_syscall rfl hmem
      refine ⟨(honStack.1 frame rfl).1, ?_⟩
      dsimp only
      omega
    · rw [List.forall_mem_cons]
      exact ⟨by simp, hwaits⟩
  | @exit _ levels _ _ _ _ _ _ _ hend =>
    cases levels with
    | nil =>
      obtain ⟨hlevels, hkernel, hnone, hsame⟩ := endProcess_nil hend
      refine ⟨hsame ▸ hstack, ?_, ?_, ?_, ?_⟩
      all_goals rw [hlevels]
      · exact hkernel
      · exact hnone
      · simp
      · simp
    | cons outer levels =>
      obtain ⟨hlevels, hgs', hswap, hnone, -, hsame, -⟩ := endProcess_cons hend
      refine ⟨hsame ▸ hstack, ?_, ?_, ?_, ?_⟩
      all_goals rw [hlevels]
      · exact ⟨hgs'.trans hgs.2, hswap⟩
      · exact hnone
      · rw [List.forall_mem_cons, List.forall_mem_cons] at honStack
        rw [List.forall_mem_cons]
        exact ⟨fun _ hempty => absurd hempty (by simp), honStack.2.2⟩
      · exact fun level hlevel => hwaits level (List.mem_cons_of_mem _ hlevel)

end Step

/-- The kernel before the first program, with the stack of the system calls made. -/
structure AtBoot (s : State) : Prop where
  levels : s.levels = []
  gsBase : s.machine.gsBase = .kernel
  currentProcess : s.machine.currentProcess = none
  syscallStack : ∃ base, s.machine.kernelEnvironment.syscallStack = base + 16 * 1024 ∧
    base + 16 * 1024 < 2 ^ 64

/-- A run from `start`, with the states in which its events happened, the last one
first. -/
inductive Run (start : State) : List (State × Event) → State → Prop
  | start : Run start [] start
  | step {history : List (State × Event)} {s s' : State} {e : Event} (hrun : Run start history s)
      (hstep : s.step e = some s') : Run start ((s, e) :: history) s'

theorem AtBoot.inv {s : State} (h : AtBoot s) :
    Inv s.machine.kernelEnvironment.syscallStack s := by
  constructor
  · rfl
  all_goals rw [h.levels]
  · exact h.gsBase
  · exact h.currentProcess
  · simp
  · simp

theorem Run.inv {start s : State} {history : List (State × Event)} (hboot : AtBoot start)
    (hrun : Run start history s) : Inv start.machine.kernelEnvironment.syscallStack s := by
  induction hrun with
  | start => exact hboot.inv
  | step _ hstep ih => exact ih.step hstep

/-- A machine at boot; every thread control block points to itself. -/
def bootState : State :=
  { machine :=
      { rsp := 0x8000
        rbp := 0x8000
        fsBase := 0x10000
        gsBase := .kernel
        swapGSBase := .other
        kernelEnvironment := ⟨0x10000, 0x24000, 0, 0⟩
        userFSBase := 0
        currentProcess := none
        word := id }
    levels := [] }

theorem atBoot_bootState : AtBoot bootState := ⟨rfl, rfl, rfl, 0x20000, rfl, by decide⟩

/-- A run by its events. -/
theorem exists_run {start s : State} {history : List (State × Event)} (hrun : Run start history s)
    {events : List Event} {s' : State} (hsteps : events.foldlM State.step s = some s') :
    ∃ history', Run start (history' ++ history) s' ∧
      history'.map Prod.snd = events.reverse := by
  induction events generalizing s history with
  | nil =>
    obtain rfl := Option.some.inj hsteps
    exact ⟨[], hrun, rfl⟩
  | cons e events ih =>
    rw [List.foldlM_cons, Option.bind_eq_bind, Option.bind_eq_some_iff] at hsteps
    obtain ⟨t, hstep, hrest⟩ := hsteps
    obtain ⟨history', hrun', hevents⟩ := ih (hrun.step hstep) hrest
    refine ⟨history' ++ [(s, e)], ?_, ?_⟩
    · rw [List.append_assoc]
      exact hrun'
    · rw [List.map_append, hevents, List.reverse_cons]
      rfl

def outerProcess : Process := ⟨0x100, 0x11000, 0x50000⟩

def innerProcess : Process := ⟨0x200, 0x12000, 0x60000⟩

/-- One program starts another. -/
def nestedEvents : List Event :=
  [.schedule outerProcess 0x8000 0x8000, .syscall, .execve innerProcess 0x300 0x23F00]

/-- In every run: the context belongs to the running process exactly as long as no
process that it has started has ended. After that GCurrentProcess is null. -/
theorem context_restored_iff {start s : State} {history : List (State × Event)} {level : Level}
    {levels : List Level} (hboot : AtBoot start) (hrun : Run start history s)
    (htop : s.levels = level :: levels) :
    (level.Owns s.machine ↔ level.childEnded = false) ∧
      (level.childEnded = true → s.machine.currentProcess = none) := by
  have hcontext := (hrun.inv hboot).context
  rw [htop] at hcontext
  change if level.childEnded then s.machine.currentProcess = none else level.Owns s.machine
    at hcontext
  cases hended : level.childEnded with
  | false =>
    rw [hended] at hcontext
    exact ⟨iff_of_true hcontext rfl, fun h => by cases h⟩
  | true =>
    rw [hended] at hcontext
    refine ⟨iff_of_false (fun howns => ?_) (by simp), fun _ => hcontext⟩
    have hcurrent := howns.currentProcess.symm.trans hcontext
    cases hcurrent

theorem context_restored_iff_nested :
    ∃ s history level levels, nestedEvents.foldlM State.step bootState = some s ∧
      Run bootState history s ∧ s.levels = level :: levels ∧
      level.process = innerProcess ∧ level.Owns s.machine := by
  obtain ⟨s, hsteps, level, hlevels, hprocess, hended⟩ :
      ∃ s, nestedEvents.foldlM State.step bootState = some s ∧ ∃ level, s.levels.head? = some level ∧
        level.process = innerProcess ∧ level.childEnded = false :=
    ⟨_, rfl, _, rfl, rfl, rfl⟩
  obtain ⟨history, hrun, -⟩ := exists_run Run.start hsteps
  obtain ⟨levels, hlevels⟩ := List.head?_eq_some_iff.mp hlevels
  exact ⟨s, _, level, levels, hsteps, hrun, hlevels, hprocess,
    (context_restored_iff atBoot_bootState hrun hlevels).1.mpr hended⟩

/-- The inner program ends, and the outer one goes on with the context of the inner
one and without a current process. -/
theorem execve_loses_context :
    ∃ s history level levels, Run bootState history s ∧
      (nestedEvents ++ [Event.syscall, Event.exit]).foldlM State.step bootState = some s ∧
      s.levels = level :: levels ∧ level.process = outerProcess ∧ level.syscall = none ∧
      s.machine.currentProcess = none ∧ s.machine.userFSBase = innerProcess.fsBase ∧
      s.machine.kernelEnvironment.kernelRSP ≠ level.kernelRSP ∧ ¬ level.Owns s.machine := by
  obtain ⟨s, hsteps, level, hlevels, hprocess, hsyscall, hnone, hfs, hrsp⟩ :
      ∃ s, (nestedEvents ++ [Event.syscall, Event.exit]).foldlM State.step bootState = some s ∧
        ∃ level, s.levels.head? = some level ∧ level.process = outerProcess ∧
          level.syscall = none ∧ s.machine.currentProcess = none ∧
          s.machine.userFSBase = innerProcess.fsBase ∧
          s.machine.kernelEnvironment.kernelRSP ≠ level.kernelRSP :=
    ⟨_, rfl, _, rfl, rfl, rfl, rfl, rfl, by decide⟩
  obtain ⟨history, hrun, -⟩ := exists_run Run.start hsteps
  obtain ⟨levels, hlevels⟩ := List.head?_eq_some_iff.mp hlevels
  exact ⟨s, _, level, levels, hrun, hsteps, hlevels, hprocess, hsyscall, hnone, hfs, hrsp,
    fun howns => hrsp howns.kernelRSP⟩

end Enkel.Processes
