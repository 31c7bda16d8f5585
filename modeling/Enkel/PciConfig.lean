import Enkel.MappingReturns
import Enkel.TranslatedWords

/-!
The PCI configuration space of pci.cpp and acpi_os_interface.cpp. A register is
selected by an offset of eight bits, of which the last two are dropped. A read
maps the page of the register and looks at it there; a write takes the physical
address for a virtual one. A read of eight bits loads a whole 64-bit word.
-/
namespace Enkel.PciConfig

open Outcome Paging FileMapping TranslatedMemory ByteMemory

structure McfgAllocation where
  address : ℕ
  startBusNumber : ℕ
  endBusNumber : ℕ
deriving DecidableEq, Repr

structure PciId where
  bus : ℕ
  device : ℕ
  function : ℕ
deriving DecidableEq, Repr

inductive AcpiStatus
  | ok
  | error
  | badParameter
deriving DecidableEq, Repr

inductive Stop
  | memory (e : Enkel.Fault)
  | pageFault
  | assertion (message : String)
deriving DecidableEq, Repr

/-- The page tables and the bytes of the physical address space. -/
structure Machine where
  memory : KernelMemory
  ram : ℕ → UInt8

section Model
variable (depth : ℕ) (table : List McfgAllocation)

def pciConfigGetMMIOAddress (bus device function offset : ℕ) : Except Stop ℕ :=
  let pciOffset := bus <<< 20 ||| device <<< 15 ||| function <<< 12 ||| (offset &&& 0xFF)
  match table.find? fun alloc => alloc.startBusNumber ≤ bus ∧ bus ≤ alloc.endBusNumber with
  | some alloc => return add64 alloc.address (pciOffset >>> 2 * 4)
  | none => throw (.assertion "Bus not found in MMIO")

/-- The address of a register; the parameters of the call have eight bits. -/
def targetAddress (pciId : PciId) (register : ℕ) : Except Stop ℕ :=
  pciConfigGetMMIOAddress table (pciId.bus % 2 ^ 8) (pciId.device % 2 ^ 8)
    (pciId.function % 2 ^ 8) (register % 2 ^ 8)

/-- The size that AcpiOsMapMemory and AcpiOsUnmapMemory compute. -/
def mappedSize (length offset : ℕ) : ℕ := add64 (add64 length offset) pageSize &&& pageMask

def acpiOsMapMemory (location length : ℕ) (k : KernelMemory) :
    Except Enkel.Fault (ℕ × KernelMemory) := do
  let offset := sub64 location (location &&& pageMask)
  let (virtualAddress, k) ← k.physicalAlloc depth (location &&& pageMask)
    (mappedSize length offset) .kernel pageFlagsCacheDisable
  return (add64 virtualAddress offset, k)

def acpiOsUnmapMemory (location length : ℕ) (k : KernelMemory) : Except Enkel.Fault KernelMemory :=
  let offset := sub64 location (location &&& pageMask)
  k.virtualFree depth (location &&& pageMask) (mappedSize length offset)

namespace Machine

def load (address n : ℕ) (m : Machine) : Except Stop ℕ :=
  match loadWord (translate m.memory) m.ram address n with
  | some value => .ok value
  | none => .error .pageFault

def store (address value n : ℕ) (m : Machine) : Except Stop Machine :=
  match storeWord (translate m.memory) address value n m.ram with
  | some ram => .ok { m with ram := ram }
  | none => .error .pageFault

/-- Replace the lowest bits of the word at an address, as it is written out for 8, 16
and 32 bits: the old word, of so many bits itself, is masked first. -/
def replace (address value width : ℕ) (m : Machine) : Except Stop Machine := do
  let old ← m.load address (width / 8)
  m.store address ((old &&& (2 ^ 64 - 2 ^ width)) ||| value % 2 ^ width) (width / 8)

def acpiOsWritePciConfiguration (pciId : PciId) (register value width : ℕ) (m : Machine) :
    Except Stop (AcpiStatus × Machine) := do
  let target ← targetAddress table pciId register
  if width = 8 ∨ width = 16 ∨ width = 32 then
    return (.ok, ← m.replace target value width)
  else if width = 64 then
    return (.ok, ← m.store target value 8)
  else
    return (.badParameter, m)

/-- AcpiOsReadPciConfiguration; `value` is what the result is set to before. -/
def acpiOsReadPciConfiguration (pciId : PciId) (register value width : ℕ) (m : Machine) :
    Except Stop (AcpiStatus × ℕ × Machine) := do
  let target ← targetAddress table pciId register
  if target = 0 then
    return (.error, value, m)
  let (virtualAddress, memory) ←
    (acpiOsMapMemory depth target pageSize m.memory).mapError Stop.memory
  let m := { m with memory := memory }
  let value ← (if width = 8 then m.load virtualAddress 8
    else if width = 16 then m.load virtualAddress 2
    else if width = 32 then m.load virtualAddress 4
    else if width = 64 then m.load virtualAddress 8
    else pure value : Except Stop ℕ)
  let memory ← (acpiOsUnmapMemory depth virtualAddress pageSize m.memory).mapError Stop.memory
  return (.ok, value, { m with memory := memory })

end Machine

end Model

/-- A register of a function on a bus that the first segment for it covers from bus 0 on. -/
structure IsRegister (table : List McfgAllocation) (pciId : PciId) (register width base : ℕ) :
    Prop where
  segment : ∃ alloc, (table.find? fun alloc =>
    alloc.startBusNumber ≤ pciId.bus ∧ pciId.bus ≤ alloc.endBusNumber) = some alloc ∧
      alloc.startBusNumber = 0 ∧ alloc.address = base
  /-- The processor has physical addresses of at most 52 bits. -/
  base_le : base + 2 ^ 28 ≤ 2 ^ 52
  bus_lt : pciId.bus < 2 ^ 8
  device_lt : pciId.device < 2 ^ 5
  function_lt : pciId.function < 2 ^ 3
  register_lt : register < 2 ^ 12
  width_eq : width = 8 ∨ width = 16 ∨ width = 32 ∨ width = 64
  aligned : register % (width / 8) = 0

/-- Where a register of a function lies. -/
def registerAddress (base : ℕ) (pciId : PciId) (register : ℕ) : ℕ :=
  base + (pciId.bus <<< 20 ||| pciId.device <<< 15 ||| pciId.function <<< 12 ||| register)

section Address
variable {table : List McfgAllocation} {pciId : PciId} {register width base x : ℕ}

/-- The fields of an offset do not overlap. -/
theorem fields_eq (hdevice : pciId.device < 2 ^ 5) (hfunction : pciId.function < 2 ^ 3)
    (hx : x < 2 ^ 12) :
    (pciId.bus <<< 20 ||| pciId.device <<< 15 ||| pciId.function <<< 12 ||| x) =
      pciId.bus * 2 ^ 20 + pciId.device * 2 ^ 15 + pciId.function * 2 ^ 12 + x := by
  have hbus : pciId.bus * 2 ^ 20 ||| pciId.device * 2 ^ 15 =
      pciId.bus * 2 ^ 20 + pciId.device * 2 ^ 15 :=
    Words.or_of_dvd (k := 20) (by omega) (by omega)
  have hdevices : pciId.bus * 2 ^ 20 + pciId.device * 2 ^ 15 ||| pciId.function * 2 ^ 12 =
      pciId.bus * 2 ^ 20 + pciId.device * 2 ^ 15 + pciId.function * 2 ^ 12 :=
    Words.or_of_dvd (k := 15) (by omega) (by omega)
  simp only [Nat.shiftLeft_eq]
  rw [hbus, hdevices]
  exact Words.or_of_dvd (k := 12) (by omega) hx

/-- The address that is used in place of the one of the register. -/
def usedAddress (base : ℕ) (pciId : PciId) (register : ℕ) : ℕ :=
  registerAddress base pciId 0 + register % 2 ^ 8 / 4 * 4

theorem IsRegister.registerAddress_eq (h : IsRegister table pciId register width base)
    (hx : x < 2 ^ 12) :
    registerAddress base pciId x = registerAddress base pciId 0 + x := by
  unfold registerAddress
  rw [fields_eq h.device_lt h.function_lt hx, fields_eq h.device_lt h.function_lt (by decide)]
  omega

theorem IsRegister.targetAddress_eq (h : IsRegister table pciId register width base) :
    targetAddress table pciId register = .ok (usedAddress base pciId register) := by
  obtain ⟨alloc, hfind, -, hbase⟩ := h.segment
  have hbus := h.bus_lt
  have hdevice := h.device_lt
  have hfunction := h.function_lt
  have hle := h.base_le
  have hregister : register % 2 ^ 8 &&& 0xFF = register % 2 ^ 8 := by
    rw [Nat.and_two_pow_sub_one_eq_mod _ 8, Nat.mod_mod]
  unfold targetAddress pciConfigGetMMIOAddress
  rw [Nat.mod_eq_of_lt hbus, Nat.mod_eq_of_lt (show pciId.device < 2 ^ 8 by omega),
    Nat.mod_eq_of_lt (show pciId.function < 2 ^ 8 by omega), hfind, hregister]
  rw [fields_eq hdevice hfunction (by omega)]
  refine congrArg Except.ok ?_
  unfold usedAddress registerAddress
  rw [fields_eq hdevice hfunction (by decide), hbase, Nat.shiftRight_eq_div_pow, add64_of_lt]
  · omega
  · omega

/-- Nothing is dropped from the offsets of the first 256 bytes that four divides. -/
theorem IsRegister.usedAddress_eq_iff (h : IsRegister table pciId register width base) :
    usedAddress base pciId register = registerAddress base pciId register ↔
      register < 2 ^ 8 ∧ register % 4 = 0 := by
  rw [h.registerAddress_eq h.register_lt]
  unfold usedAddress
  omega

theorem IsRegister.usedAddress_le (h : IsRegister table pciId register width base) :
    usedAddress base pciId register ≤ registerAddress base pciId register := by
  rw [h.registerAddress_eq h.register_lt]
  unfold usedAddress
  omega

theorem IsRegister.registerAddress_lt (h : IsRegister table pciId register width base) :
    registerAddress base pciId register < 2 ^ 52 := by
  have hbus := h.bus_lt
  have hdevice := h.device_lt
  have hfunction := h.function_lt
  have hregister := h.register_lt
  have hle := h.base_le
  unfold registerAddress
  rw [fields_eq hdevice hfunction hregister]
  omega

end Address

end Enkel.PciConfig
