import Enkel.Types

/-!
The command lists of the SATA ports. All of them are in one block, 1024 bytes for each of the
32 ports, but the block is sized from the register that has a bit for each port, taken for the
number of ports. The product is one of 32 bits, as is the sum that rounds it up.
-/
namespace Enkel.CommandLists

abbrev maxPorts : ℕ := 32
abbrev maxCommands : ℕ := 32
abbrev sizeofHBACommandListHeader : ℕ := 32

/-- The size that SataBus::Initialize allocates, by the register. -/
def commandListSize (portsImplemented : ℕ) : ℕ :=
  (portsImplemented * 1024 % 2 ^ 32 + (pageSize - 1)) % 2 ^ 32 &&& pageMask

def getCommandListBase (commandList portNumber : ℕ) : ℕ :=
  add64 commandList (portNumber * 1024 % 2 ^ 32)

/-- The fields of the headers that CdromPort::Initialize stores to, by address and size. -/
def initializeStores (commandList portNumber : ℕ) : List (ℕ × ℕ) :=
  (List.range maxCommands).flatMap fun commandIndex =>
    let header := add64 (getCommandListBase commandList portNumber)
      (commandIndex * sizeofHBACommandListHeader)
    [(add64 header 8, 4), (add64 header 12, 4), (add64 header 2, 2), (add64 header 4, 4)]

/-- The ports that CdRomDevice::SetupPorts initialises. -/
def setupPorts : List ℕ := List.range maxPorts

/-- Every byte of the list lies in the block. -/
def Inside (commandList size portNumber : ℕ) : Prop :=
  ∀ i < 1024, commandList ≤ add64 (getCommandListBase commandList portNumber) i ∧
    add64 (getCommandListBase commandList portNumber) i < commandList + size

/-- No byte of one list is a byte of the other. -/
def Apart (commandList portNumber other : ℕ) : Prop :=
  ∀ i < 1024, ∀ j < 1024, add64 (getCommandListBase commandList portNumber) i ≠
    add64 (getCommandListBase commandList other) j

section Size
variable {portsImplemented : ℕ}

/-- Only 22 bits of the register count. -/
theorem commandListSize_eq :
    commandListSize portsImplemented =
      if portsImplemented % 2 ^ 22 ≤ 2 ^ 22 - 4 then
        (portsImplemented % 2 ^ 22 + 3) / 4 * 4096
      else 0 := by
  have hpage : pageSize = 4096 := rfl
  unfold commandListSize
  rw [and_pageMask]
  split_ifs <;> omega

end Size

section Lists
variable {commandList size portsImplemented portNumber other : ℕ}

theorem add64_getCommandListBase (hport : portNumber < maxPorts) (i : ℕ) :
    add64 (getCommandListBase commandList portNumber) i =
      (commandList + (portNumber * 1024 + i)) % 2 ^ 64 := by
  have hmax : maxPorts = 32 := rfl
  unfold getCommandListBase add64
  omega

/-- The lists of different ports have no byte in common, wherever they are. -/
theorem apart_of_ne (hport : portNumber < maxPorts) (hother : other < maxPorts)
    (hne : other ≠ portNumber) : Apart commandList portNumber other := by
  intro i hi j hj
  have hmax : maxPorts = 32 := rfl
  rw [add64_getCommandListBase hport, add64_getCommandListBase hother]
  omega

/-- A list is in the block if the block goes that far. -/
theorem inside_iff (hport : portNumber < maxPorts) (hblock : commandList + size ≤ 2 ^ 64) :
    Inside commandList size portNumber ↔ portNumber * 1024 + 1024 ≤ size := by
  have hmax : maxPorts = 32 := rfl
  unfold Inside
  constructor
  · intro hinside
    have hfirst := hinside 0 (by decide)
    have hlast := hinside 1023 (by decide)
    rw [add64_getCommandListBase hport] at hfirst hlast
    omega
  · intro hsize i hi
    rw [add64_getCommandListBase hport]
    omega

theorem inside_commandListSize_iff (hport : portNumber < maxPorts)
    (hblock : commandList + commandListSize portsImplemented ≤ 2 ^ 64) :
    Inside commandList (commandListSize portsImplemented) portNumber ↔
      portNumber / 4 * 4 < portsImplemented % 2 ^ 22 ∧
        portsImplemented % 2 ^ 22 ≤ 2 ^ 22 - 4 := by
  rw [inside_iff hport hblock, commandListSize_eq]
  split_ifs <;> omega

/-- What CdromPort::Initialize stores is in the list. -/
theorem initializeStores_inside (hport : portNumber < maxPorts)
    (hblock : commandList + size ≤ 2 ^ 64) (hinside : Inside commandList size portNumber)
    {s : ℕ × ℕ} (hs : s ∈ initializeStores commandList portNumber) :
    commandList ≤ s.1 ∧ s.1 + s.2 ≤ commandList + size := by
  have hmax : maxPorts = 32 := rfl
  have hsize := (inside_iff hport hblock).mp hinside
  obtain ⟨commandIndex, hindex, hs⟩ := List.mem_flatMap.mp hs
  have hindex := List.mem_range.mp hindex
  have hcommands : maxCommands = 32 := rfl
  have hheader : sizeofHBACommandListHeader = 32 := rfl
  have hfield : ∀ offset, add64 (add64 (getCommandListBase commandList portNumber)
      (commandIndex * sizeofHBACommandListHeader)) offset =
      (commandList + (portNumber * 1024 + (commandIndex * 32 + offset))) % 2 ^ 64 := by
    intro offset
    rw [add64_getCommandListBase hport, hheader]
    unfold add64
    omega
  simp only [List.mem_cons, List.not_mem_nil, or_false] at hs
  rcases hs with rfl | rfl | rfl | rfl
  all_goals
    rw [hfield]
    omega

/-- The ports with a list in the block are the first ones, in groups of four. -/
theorem setupPorts_inside_iff
    (hblock : commandList + commandListSize portsImplemented ≤ 2 ^ 64) :
    (∀ port ∈ setupPorts, Inside commandList (commandListSize portsImplemented) port) ↔
      28 < portsImplemented % 2 ^ 22 ∧ portsImplemented % 2 ^ 22 ≤ 2 ^ 22 - 4 := by
  have hmax : maxPorts = 32 := rfl
  constructor
  · intro hall
    exact (inside_commandListSize_iff (by decide) hblock).mp (hall 31 (by decide))
  · rintro ⟨hlow, hhigh⟩ port hport
    have hport : port < maxPorts := List.mem_range.mp hport
    exact (inside_commandListSize_iff hport hblock).mpr ⟨by omega, hhigh⟩

end Lists

/-- With the six ports of a chipset, whose bits make 63, all is well; with a single one the
block is a page, and the list of the fifth port is behind it. -/
theorem fifth_list_outside : Inside 0x100000 (commandListSize 63) 31 ∧
    commandListSize 1 = 4096 ∧ ¬ Inside 0x100000 (commandListSize 1) 4 := by
  have hsize : commandListSize 1 = 4096 := by decide
  refine ⟨(inside_commandListSize_iff (by decide) (by decide)).mpr (by decide), hsize, ?_⟩
  rw [inside_commandListSize_iff (by decide) (by decide)]
  decide

/-- The command list of a port is in the block if the register, as a number of 22 bits, is at
least the number of ports up to its group of four and not one of the last three. It has no byte
in common with that of another port in any case. -/
theorem commandList_inside_iff (commandList portsImplemented portNumber : ℕ)
    (hport : portNumber < maxPorts)
    (hblock : commandList + commandListSize portsImplemented ≤ 2 ^ 64) :
    (Inside commandList (commandListSize portsImplemented) portNumber ∧
        ∀ other < maxPorts, other ≠ portNumber → Apart commandList portNumber other) ↔
      portNumber / 4 * 4 < portsImplemented % 2 ^ 22 ∧
        portsImplemented % 2 ^ 22 ≤ 2 ^ 22 - 4 := by
  rw [inside_commandListSize_iff hport hblock]
  apply and_iff_left
  intro other hother hne
  exact apart_of_ne hport hother hne

theorem commandList_inside_iff_last :
    (Inside 0x100000 (commandListSize 63) 31 ∧
        ∀ other < maxPorts, other ≠ 31 → Apart 0x100000 31 other) ↔
      31 / 4 * 4 < 63 % 2 ^ 22 ∧ 63 % 2 ^ 22 ≤ 2 ^ 22 - 4 :=
  commandList_inside_iff 0x100000 63 31 (by decide) (by decide)

end Enkel.CommandLists
