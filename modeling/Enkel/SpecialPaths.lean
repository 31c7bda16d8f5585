import Enkel.ReadTraces
import Enkel.VolumeCalls

/-!
The volume of special paths in proc.cpp. Read adds the offset to the pointer of the string
and then looks for the end of the string from there. sys_read passes the largest offset, which
stands for the current position; this volume does not keep one.
-/
namespace Enkel.SpecialPaths

open Outcome
open Trace Traced
open VolumeSystem VolumeSystem.FileHandleMask
open VolumeCalls (Volume SameText)

/-- An entry of the table before its last one. -/
structure SpecialPathEntry where
  path : List ℕ
  data : ℕ

inductive Stop
  | outsideTable
  | otherVolume
  | endless
deriving DecidableEq, Repr

/-- The addresses that are read. -/
abbrev Reads (α : Type) := Traced ℕ Stop α

section Volume
variable (table : List SpecialPathEntry) (m : ℕ → UInt8)

/-- OpenHandle; none is the error. -/
def openHandle (volumeHandle : ℕ) (path : List ℕ) : Option ℕ :=
  (table.findIdx? fun entry => SameText entry.path path).map fun index =>
    setFileHandle index volumeHandle

/-- The number of characters before the NUL. -/
def strlen : (fuel address count : ℕ) → Reads ℕ
  | 0, _, _ => silent (.error .endless)
  | fuel + 1, address, count => do
    note address
    if m address = 0 then return count else strlen fuel (add64 address 1) (count + 1)

def memcpy (src count : ℕ) : Reads (List UInt8) := do
  (List.range count).forM fun i => note (add64 src i)
  return (List.range count).map fun i => m (add64 src i)

/-- Read, with the bytes that go to the buffer. -/
def read (handle offset size : ℕ) : Reads (ℕ × List UInt8) := do
  let entry ← silent (match table[fileHandle handle]? with
    | some entry => .ok entry
    | none => .error .outsideTable)
  let data := add64 entry.data offset
  let bytesLeft ← strlen m (2 ^ 64) data 0
  let toCopy := min bytesLeft size
  let bytes ← memcpy m data toCopy
  return (toCopy, bytes)

variable (pages : VolumeIndices Volume)

/-- VolumeRead of a file of this volume. -/
def volumeRead (handle offset size : ℕ) : Reads (ℕ × List UInt8) :=
  if (getVolumeIndex pages handle).volumeImplementation = some .specialProc then
    read table m handle offset size
  else silent (.error .otherVolume)

/-- A call of sys_pread64 or sys_read. -/
inductive Call
  | pread64 (size offset : UInt64)
  | read (size : UInt64)
deriving DecidableEq, Repr

/-- A call, with what it returns and delivers. The offset of sys_read is ~0ULL, and what it
returns is an int. -/
def call (handle : ℕ) : Call → Reads (ℤ × List UInt8)
  | .pread64 size offset => do
    let (returned, bytes) ← volumeRead table m pages handle offset.toNat size.toNat
    return (returned, bytes)
  | .read size => do
    let (returned, bytes) ← volumeRead table m pages handle (2 ^ 64 - 1) size.toNat
    return ((returned : ℤ).bmod (2 ^ 32), bytes)

def run (handle : ℕ) : List Call → Reads (List (ℤ × List UInt8))
  | [] => return []
  | c :: calls => do
    let result ← call table m pages handle c
    let results ← run handle calls
    return result :: results

end Volume

/-- What the calls have to deliver of a text: sys_pread64 what is at its offset, and sys_read
what is at the position behind the calls of sys_read before it. -/
def expected (text : List UInt8) : (position : ℕ) → List Call → List (List UInt8)
  | _, [] => []
  | position, .pread64 size offset :: calls =>
    (text.drop offset.toNat).take size.toNat :: expected text position calls
  | position, .read size :: calls =>
    let bytes := (text.drop position).take size.toNat
    bytes :: expected text (position + bytes.length) calls

/-- A string in memory, with its NUL. -/
structure HoldsText (m : ℕ → UInt8) (data : ℕ) (text : List UInt8) : Prop where
  data_pos : 0 < data
  end_lt : data + text.length < 2 ^ 64
  char : ∀ i (hi : i < text.length), m (data + i) = text[i]
  ne_zero : ∀ c ∈ text, c ≠ 0
  nul : m (data + text.length) = 0

/-- The calls touch the string and its NUL only, and each delivers and returns what it has
to. -/
def Serves (table : List SpecialPathEntry) (m : ℕ → UInt8) (pages : VolumeIndices Volume)
    (handle data : ℕ) (text : List UInt8) (position : ℕ) (calls : List Call) : Prop :=
  (run table m pages handle calls).All (fun a => data ≤ a ∧ a ≤ data + text.length) ∧
    (run table m pages handle calls).result =
      .ok ((expected text position calls).map fun bytes => ((bytes.length : ℤ), bytes))

/-- A call of sys_pread64 up to the end of the text. -/
def InText (text : List UInt8) : Call → Prop
  | .pread64 _ offset => offset.toNat ≤ text.length
  | .read _ => False

section Strlen
variable {m : ℕ → UInt8} {data : ℕ} {text : List UInt8}

/-- The search for the end stays in the string, and counts what is left of it. -/
theorem strlen_text (h : HoldsText m data text) (fuel : ℕ) {i count : ℕ} (hi : i ≤ text.length)
    (hfuel : text.length - i < fuel) :
    (strlen m fuel (data + i) count).result = .ok (count + (text.length - i)) ∧
      (strlen m fuel (data + i) count).All fun a => data ≤ a ∧ a ≤ data + text.length := by
  induction fuel generalizing i count with
  | zero => omega
  | succ fuel ih =>
    have hlt := h.end_lt
    unfold strlen
    rw [result_bind, result_note, ok_bind, all_unit_bind, all_note]
    rcases Nat.eq_or_lt_of_le hi with rfl | hlt'
    · rw [if_pos h.nul]
      exact ⟨by rw [Nat.sub_self]; rfl, by omega, fun _ => all_pure _⟩
    · have hne : m (data + i) ≠ 0 := by
        rw [h.char i hlt']
        exact h.ne_zero _ (List.getElem_mem hlt')
      obtain ⟨hresult, hall⟩ := @ih (i + 1) (count + 1) hlt' (by omega)
      rw [if_neg hne, add64_of_lt (by omega), add_assoc]
      refine ⟨?_, by omega, fun _ => hall⟩
      rw [hresult]
      exact congrArg _ (by omega)

theorem strlen_first {P : ℕ → Prop} {address count : ℕ} (fuel : ℕ)
    (h : (strlen m (fuel + 1) address count).All P) : P address := by
  unfold strlen at h
  exact all_note.mp (all_unit_bind.mp h).1

end Strlen

section Calls
variable {table : List SpecialPathEntry} {m : ℕ → UInt8} {pages : VolumeIndices Volume}
  {handle : ℕ} {entry : SpecialPathEntry} {text : List UInt8}

/-- What memcpy copies of a text. -/
theorem memcpy_text {data : ℕ} (h : HoldsText m data text) {offset n : ℕ}
    (hn : offset + n ≤ text.length) :
    (memcpy m (data + offset) n).result = .ok ((text.drop offset).take n) ∧
      (memcpy m (data + offset) n).All fun a => data ≤ a ∧ a ≤ data + text.length := by
  have hlt := h.end_lt
  have haddress : ∀ i < n, add64 (data + offset) i = data + (offset + i) := fun i hi => by
    rw [add64_of_lt (by omega), add_assoc]
  have hnotes : ((List.range n).forM fun i =>
      (note (add64 (data + offset) i) : Reads Unit)).result = .ok () :=
    result_forM.mpr fun _ _ => rfl
  unfold memcpy
  refine ⟨?_, ?_⟩
  · rw [result_bind, hnotes, ok_bind, result_pure]
    congr 1
    refine List.ext_getElem (by simp; omega) fun i hi _ => ?_
    rw [List.length_map, List.length_range] at hi
    rw [List.getElem_map, List.getElem_range, haddress i hi, h.char _ (by omega), List.getElem_take,
      List.getElem_drop]
  · rw [all_unit_bind]
    refine ⟨all_forM_range.mpr fun i hi _ => ?_, fun _ => all_pure _⟩
    rw [all_note, haddress i hi]
    omega

/-- A read up to the end of the text delivers what is there. -/
theorem read_text (hentry : table[fileHandle handle]? = some entry)
    (h : HoldsText m entry.data text) {offset : ℕ} (size : ℕ) (hoffset : offset ≤ text.length) :
    (read table m handle offset size).result =
        .ok (((text.drop offset).take size).length, (text.drop offset).take size) ∧
      (read table m handle offset size).All fun a =>
        entry.data ≤ a ∧ a ≤ entry.data + text.length := by
  have hlt := h.end_lt
  have hdata : add64 entry.data offset = entry.data + offset := add64_of_lt (by omega)
  obtain ⟨hlength, hstrlen⟩ := @strlen_text _ _ _ h (2 ^ 64) offset 0 hoffset (by omega)
  rw [zero_add] at hlength
  have hinside : offset + min (text.length - offset) size ≤ text.length := by omega
  obtain ⟨hbytes, hcopy⟩ := memcpy_text h hinside
  have htake : (text.drop offset).take (min (text.length - offset) size) =
      (text.drop offset).take size := by
    rw [min_comm, ← List.take_take, ← List.length_drop, List.take_length]
  have hcount : min (text.length - offset) size = ((text.drop offset).take size).length := by
    rw [List.length_take, List.length_drop, min_comm]
  rw [htake] at hbytes
  unfold read
  simp only [hentry]
  refine ⟨?_, ?_⟩
  · rw [result_bind, result_silent, ok_bind, hdata, result_bind, hlength, ok_bind, result_bind, hbytes,
      ok_bind, result_pure, hcount]
  · rw [all_silent_bind]
    rintro _ hsome
    cases hsome
    rw [hdata, all_bind]
    refine ⟨hstrlen, fun n hn => ?_⟩
    rw [hlength] at hn
    cases hn
    rw [all_bind]
    exact ⟨hcopy, fun _ _ => all_pure _⟩

/-- What a read touches first is where its offset leads. -/
theorem read_first {P : ℕ → Prop} (hentry : table[fileHandle handle]? = some entry)
    {offset size : ℕ} (h : (read table m handle offset size).All P) :
    P (add64 entry.data offset) := by
  unfold read at h
  simp only [hentry] at h
  exact strlen_first (2 ^ 64 - 1) (all_bind.mp (all_silent_bind.mp h entry rfl)).1

variable (hspecial : (getVolumeIndex pages handle).volumeImplementation = some .specialProc)
include hspecial

theorem call_pread64 (size offset : UInt64) :
    call table m pages handle (.pread64 size offset) =
      (do
        let r ← read table m handle offset.toNat size.toNat
        return (r.1, r.2)) := by
  unfold call volumeRead
  simp only [if_pos hspecial]

theorem call_read (size : UInt64) :
    call table m pages handle (.read size) =
      (do
        let r ← read table m handle (2 ^ 64 - 1) size.toNat
        return ((r.1 : ℤ).bmod (2 ^ 32), r.2)) := by
  unfold call volumeRead
  simp only [if_pos hspecial]

/-- A call serves the text when it is one of sys_pread64 up to the end. -/
theorem call_text (hentry : table[fileHandle handle]? = some entry)
    (h : HoldsText m entry.data text) {c : Call} (hin : InText text c) :
    ∃ bytes, (∀ position calls,
        expected text position (c :: calls) = bytes :: expected text position calls) ∧
      (call table m pages handle c).result = .ok ((bytes.length : ℤ), bytes) ∧
      (call table m pages handle c).All fun a =>
        entry.data ≤ a ∧ a ≤ entry.data + text.length := by
  cases c with
  | read size => exact hin.elim
  | pread64 size offset =>
    obtain ⟨hresult, hall⟩ := read_text hentry h size.toNat hin
    rw [call_pread64 hspecial]
    refine ⟨(text.drop offset.toNat).take size.toNat, fun _ _ => rfl, ?_, ?_⟩
    · rw [result_bind, hresult, ok_bind]
      rfl
    · rw [all_bind]
      exact ⟨hall, fun _ _ => all_pure _⟩

/-- Any other call touches what is before or after the string. -/
theorem call_outside (hentry : table[fileHandle handle]? = some entry)
    (h : HoldsText m entry.data text) {c : Call} (hout : ¬ InText text c) :
    ¬ (call table m pages handle c).All fun a =>
      entry.data ≤ a ∧ a ≤ entry.data + text.length := by
  have hpos := h.data_pos
  have hlt := h.end_lt
  intro hall
  cases c with
  | read size =>
    rw [call_read hspecial, all_bind] at hall
    have hfirst := read_first hentry hall.1
    unfold add64 at hfirst
    omega
  | pread64 size offset =>
    have hoff := offset.toNat_lt
    rw [call_pread64 hspecial, all_bind] at hall
    have hfirst := read_first hentry hall.1
    unfold InText at hout
    unfold add64 at hfirst
    omega

/-- A run serves the text exactly when each of its calls does. -/
theorem serves_iff_from (hentry : table[fileHandle handle]? = some entry)
    (h : HoldsText m entry.data text) (calls : List Call) (position : ℕ) :
    Serves table m pages handle entry.data text position calls ↔ ∀ c ∈ calls, InText text c := by
  induction calls with
  | nil =>
    refine iff_of_true ⟨all_pure _, rfl⟩ fun c hc => nomatch hc
  | cons c calls ih =>
    rw [List.forall_mem_cons, ← ih]
    by_cases hin : InText text c
    · obtain ⟨bytes, hexpected, hresult, hall⟩ := call_text hspecial hentry h hin
      unfold Serves
      rw [hexpected, run, all_bind, result_bind, hresult, ok_bind, result_bind, bind_eq_ok]
      constructor
      · rintro ⟨⟨-, hrest⟩, results, hresults, heq⟩
        obtain ⟨-, rfl⟩ := List.cons.inj (Except.ok.inj heq)
        exact ⟨hin, (all_bind.mp (hrest _ rfl)).1, hresults⟩
      · rintro ⟨-, hrest, hresults⟩
        refine ⟨⟨hall, fun r hr => ?_⟩, _, hresults, rfl⟩
        rw [all_bind]
        exact ⟨hrest, fun _ _ => all_pure _⟩
    · refine iff_of_false (fun hserves => ?_) fun hboth => hin hboth.1
      have hrun := hserves.1
      rw [run, all_bind] at hrun
      exact call_outside hspecial hentry h hin hrun.1

omit hspecial

end Calls

/-- The handle that OpenHandle returns has the place of the entry with the path, as long as
the field for it is large enough. -/
theorem openHandle_entry {table : List SpecialPathEntry} {volumeHandle handle : ℕ} {path : List ℕ}
    (hopen : openHandle table volumeHandle path = some handle) (hlength : table.length ≤ 2 ^ 21) :
    ∃ entry, table[fileHandle handle]? = some entry ∧ SameText entry.path path := by
  obtain ⟨index, hindex, rfl⟩ := Option.map_eq_some_iff.mp hopen
  obtain ⟨hlt, hsame, -⟩ := List.findIdx?_eq_some_iff_getElem.mp hindex
  have hfield : fileHandle (setFileHandle index volumeHandle) = index := by
    unfold fileHandle setFileHandle
    rw [BitFields.field_setField, Nat.mod_eq_of_lt (by omega)]
  rw [hfield]
  exact ⟨table[index], List.getElem?_eq_getElem hlt, of_decide_eq_true hsame⟩

/-- A file of the volume is read through the volume. -/
theorem implementation_openHandle {table : List SpecialPathEntry} {volumeHandle handle : ℕ}
    {path : List ℕ} {pages : VolumeIndices Volume}
    (hopen : openHandle table volumeHandle path = some handle) :
    getVolumeIndex pages handle = getVolumeIndex pages volumeHandle := by
  obtain ⟨index, -, rfl⟩ := Option.map_eq_some_iff.mp hopen
  unfold getVolumeIndex segments volumeIndex setFileHandle
  rw [BitFields.field_setField_of_ge _ _ (by decide), BitFields.field_setField_of_ge _ _ (by decide)]

/-- The reads of a file of the volume touch its string only, and deliver what they have to,
exactly when they all are calls of sys_pread64 at offsets up to the end of the string. -/
theorem serves_iff (table : List SpecialPathEntry) (m : ℕ → UInt8) (pages : VolumeIndices Volume)
    (volumeHandle handle : ℕ) (path : List ℕ) (entry : SpecialPathEntry) (text : List UInt8)
    (calls : List Call)
    (hspecial : (getVolumeIndex pages volumeHandle).volumeImplementation = some .specialProc)
    (hopen : openHandle table volumeHandle path = some handle)
    (hentry : table[fileHandle handle]? = some entry) (htext : HoldsText m entry.data text) :
    Serves table m pages handle entry.data text 0 calls ↔ ∀ c ∈ calls, InText text c := by
  refine serves_iff_from ?_ hentry htext calls 0
  rw [implementation_openHandle hopen]
  exact hspecial

section Example

/-- The table of the repository, with its string at an address. -/
def osrelease : List SpecialPathEntry := [⟨VolumeCalls.units "/sys/kernel/osrelease", 0x1000⟩]

/-- The string dev, with an x before it. -/
def devMemory : ℕ → UInt8
  | 0xFFF => 0x78
  | 0x1000 => 0x64
  | 0x1001 => 0x65
  | 0x1002 => 0x76
  | _ => 0

def procPages : VolumeIndices Volume := fun _ _ => ⟨0, some .specialProc, 0⟩

theorem holdsText_dev : HoldsText devMemory 0x1000 [0x64, 0x65, 0x76] := by
  refine ⟨by decide, by decide, ?_, by simp, rfl⟩
  decide

end Example

theorem serves_iff_dev :
    Serves osrelease devMemory procPages 0 0x1000 [0x64, 0x65, 0x76] 0 [.pread64 16 1] ↔
      ∀ c ∈ [Call.pread64 16 1], InText [0x64, 0x65, 0x76] c :=
  serves_iff osrelease devMemory procPages 0 0 (VolumeCalls.units "/sys/kernel/osrelease")
    ⟨VolumeCalls.units "/sys/kernel/osrelease", 0x1000⟩ _ _ rfl (by decide) rfl holdsText_dev

/-- sys_read delivers the byte before the string. -/
theorem read_before_string :
    ¬ Serves osrelease devMemory procPages 0 0x1000 [0x64, 0x65, 0x76] 0 [.read 3] := by
  rintro ⟨hall, -⟩
  have hfirst : 0xFFF ∈ (run osrelease devMemory procPages 0 [.read 3]).reads := by decide +kernel
  exact absurd (hall _ hfirst).1 (by decide)

end Enkel.SpecialPaths
