import Mathlib.Data.List.Basic
import Enkel.Types

/-!
Processes that start processes. sys_execve runs a program to its end inside the
system call of the process that asked for it, so processes are nested. The
context of the running process is kept in a few cells of the environments, which
ScheduleProcess, the system call dispatcher and ReturnToKernel read and write,
and every system call runs on the one stack whose end is in the kernel's
environment. The C functions of a system call use any number of bytes of it.
-/
namespace Enkel.Processes

/-- What a GS base points to. -/
inductive Environment
  | kernel
  | user
  | other
deriving DecidableEq, Repr

structure EnvironmentKernel where
  fsBase : ℕ
  syscallStack : ℕ
  kernelRBP : ℕ
  kernelRSP : ℕ
deriving DecidableEq, Repr

/-- The registers and cells that hold the context, and the words of the memory. The
GS base that `swapgs` brings in is the second one. -/
structure Machine where
  rsp : ℕ
  rbp : ℕ
  fsBase : ℕ
  gsBase : Environment
  swapGSBase : Environment
  kernelEnvironment : EnvironmentKernel
  userFSBase : ℕ
  currentProcess : Option ℕ
  word : ℕ → ℕ

/-- What ScheduleProcess reads of a Process. -/
structure Process where
  address : ℕ
  fsBase : ℕ
  stackStart : ℕ
deriving DecidableEq, Repr

namespace Machine

def setUserFSBase (fsBase : ℕ) (m : Machine) : Machine := { m with userFSBase := fsBase }

def setUserGS (m : Machine) : Machine := { m with swapGSBase := .user }

def setKernelGSBase (m : Machine) : Machine := { m with gsBase := .kernel }

def setFSBase (fsBase : ℕ) (m : Machine) : Machine := { m with fsBase := fsBase }

def swapgs (m : Machine) : Machine :=
  { m with
    gsBase := m.swapGSBase
    swapGSBase := m.gsBase }

/-- The FS base is read through the cell at [gs:0]. -/
def loadFS (m : Machine) : Option Machine :=
  match m.gsBase with
  | .kernel => some (m.setFSBase (m.word m.kernelEnvironment.fsBase))
  | .user => some (m.setFSBase (m.word m.userFSBase))
  | .other => none

/-- SwitchToUserMode, called with `m.rsp`: the return address and fifteen registers
are pushed, and their place is kept in the cells. -/
def switchToUserMode (stackPointer : ℕ) (m : Machine) : Option Machine := do
  guard (m.gsBase = .kernel)
  let m :=
    { m with
      kernelEnvironment :=
        { m.kernelEnvironment with
          kernelRBP := m.rbp
          kernelRSP := sub64 m.rsp (8 * 16) }
      rsp := stackPointer
      rbp := stackPointer }
  m.swapgs.loadFS

/-- ReturnToKernel: control is back where SwitchToUserMode was called, if the cells
are those that this call has stored. -/
def returnToKernel (m : Machine) : Option Machine := do
  guard (m.gsBase = .kernel)
  return { m with
    rbp := m.kernelEnvironment.kernelRBP
    rsp := add64 m.kernelEnvironment.kernelRSP (8 * 16) }

/-- ScheduleProcess up to the program. -/
def enterProcess (process : Process) (m : Machine) : Option Machine :=
  (setUserGS (setUserFSBase process.fsBase
    { m with currentProcess := some process.address })).switchToUserMode process.stackStart

/-- The rest of ScheduleProcess. -/
def leaveProcess (m : Machine) : Machine :=
  { m.setKernelGSBase.setFSBase m.kernelEnvironment.fsBase with currentProcess := none }

end Machine

/-- A system call on the stack: the bytes below `top` that are in use, and what the
dispatcher has saved of the program. -/
structure SyscallFrame where
  top : ℕ
  used : ℕ
  userRSP : ℕ
  userRBP : ℕ
deriving DecidableEq, Repr

/-- The dispatcher pushes twelve words, and the call of the handler one. -/
abbrev dispatcherBytes : ℕ := 8 * 13

namespace Machine

/-- The dispatcher up to the handler. -/
def dispatch (m : Machine) : Option (Machine × SyscallFrame) := do
  let user := m
  let m ← m.swapgs.loadFS
  guard (m.gsBase = .kernel)
  let top := m.kernelEnvironment.syscallStack &&& (2 ^ 64 - 16)
  let frame :=
    { top := top
      used := dispatcherBytes
      userRSP := user.rsp
      userRBP := user.rbp }
  return ({ m with rsp := sub64 top dispatcherBytes, rbp := sub64 top 24 }, frame)

/-- The dispatcher after the handler. What it pops is taken to be what it has pushed. -/
def sysret (frame : SyscallFrame) (m : Machine) : Option Machine :=
  { m with rsp := frame.userRSP, rbp := frame.userRBP }.swapgs.loadFS

end Machine

/-- A process that runs or waits for a process that it has started. The cells that
SwitchToUserMode has stored for it, its FS base, and whether a process that it has
started has ended are history. -/
structure Level where
  process : Process
  fsBase : ℕ
  kernelRBP : ℕ
  kernelRSP : ℕ
  childEnded : Bool
  syscall : Option SyscallFrame
deriving DecidableEq, Repr

/-- The processes are listed from the innermost on. -/
structure State where
  machine : Machine
  levels : List Level

inductive Event
  /-- The kernel starts a program on its own stack. -/
  | schedule (process : Process) (rsp rbp : ℕ)
  /-- The program computes. -/
  | compute (rsp rbp : ℕ) (word : ℕ → ℕ)
  | syscall
  /-- The functions of the system call use that many bytes of the stack. -/
  | work (bytes : ℕ)
  /-- sys_arch_prctl with ARCH_SET_FS. -/
  | archSetFS (address : ℕ)
  | sysret
  /-- sys_execve has loaded a program, and calls ScheduleProcess for it with that many
  bytes of the stack in use. -/
  | execve (process : Process) (bytes rbp : ℕ)
  /-- sys_exit: the process ends, and so does the sys_execve that has started it. -/
  | exit

namespace State

/-- A new process runs, with the cells that were stored on the way. -/
def startProcess (process : Process) (m : Machine) (levels : List Level) : Option State := do
  let m ← m.enterProcess process
  let level :=
    { process := process
      fsBase := process.fsBase
      kernelRBP := m.kernelEnvironment.kernelRBP
      kernelRSP := m.kernelEnvironment.kernelRSP
      childEnded := false
      syscall := none }
  return ⟨m, level :: levels⟩

/-- The process ends. What ReturnToKernel finds behind cells that are not those of the
process is not modelled. -/
def endProcess (m : Machine) (level : Level) : List Level → Option State
  | [] => do
    guard (m.kernelEnvironment.kernelRBP = level.kernelRBP ∧
      m.kernelEnvironment.kernelRSP = level.kernelRSP)
    let m ← m.returnToKernel
    return ⟨m.leaveProcess, []⟩
  | outer :: levels => do
    guard (m.kernelEnvironment.kernelRBP = level.kernelRBP ∧
      m.kernelEnvironment.kernelRSP = level.kernelRSP)
    let m ← m.returnToKernel
    let frame ← outer.syscall
    let m ← m.leaveProcess.sysret frame
    return ⟨m, { outer with childEnded := true, syscall := none } :: levels⟩

/-- One step of the machine; the events of a program need a program that runs, those of
a system call one that is in progress. -/
def step (s : State) : Event → Option State
  | .schedule process rsp rbp =>
    match s.levels with
    | [] => startProcess process { s.machine with rsp := rsp, rbp := rbp } []
    | _ :: _ => none
  | .compute rsp rbp word =>
    match s.levels with
    | ⟨_, _, _, _, _, none⟩ :: _ =>
      some { s with machine := { s.machine with rsp := rsp, rbp := rbp, word := word } }
    | _ => none
  | .syscall =>
    match s.levels with
    | ⟨process, fsBase, rbp, rsp, childEnded, none⟩ :: levels => do
      let (m, frame) ← s.machine.dispatch
      return ⟨m, ⟨process, fsBase, rbp, rsp, childEnded, some frame⟩ :: levels⟩
    | _ => none
  | .work bytes =>
    match s.levels with
    | ⟨process, fsBase, rbp, rsp, childEnded, some frame⟩ :: levels =>
      let frame := { frame with used := max frame.used (dispatcherBytes + bytes) }
      some { s with levels := ⟨process, fsBase, rbp, rsp, childEnded, some frame⟩ :: levels }
    | _ => none
  | .archSetFS address =>
    match s.levels with
    | ⟨process, _, rbp, rsp, childEnded, some frame⟩ :: levels =>
      some ⟨s.machine.setUserFSBase address,
        ⟨process, address, rbp, rsp, childEnded, some frame⟩ :: levels⟩
    | _ => none
  | .sysret =>
    match s.levels with
    | ⟨process, fsBase, rbp, rsp, childEnded, some frame⟩ :: levels => do
      let m ← s.machine.sysret frame
      return ⟨m, ⟨process, fsBase, rbp, rsp, childEnded, none⟩ :: levels⟩
    | _ => none
  | .execve process bytes rbp =>
    match s.levels with
    | ⟨process', fsBase, rbp', rsp, childEnded, some frame⟩ :: levels =>
      let used := dispatcherBytes + bytes + 8 * 16
      startProcess process
        { s.machine with rsp := sub64 frame.top (dispatcherBytes + bytes), rbp := rbp }
        (⟨process', fsBase, rbp', rsp, childEnded, some { frame with used := used }⟩ :: levels)
    | _ => none
  | .exit =>
    match s.levels with
    | ⟨process, fsBase, rbp, rsp, childEnded, some frame⟩ :: levels =>
      endProcess s.machine ⟨process, fsBase, rbp, rsp, childEnded, some frame⟩ levels
    | _ => none

end State

end Enkel.Processes
