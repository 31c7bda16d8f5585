import Enkel.PixelRows
import Enkel.ReadTraces

/-!
The entries of the MADT. The loop of InitMADT goes on while an int is positive: the size of the
entries, less the length byte of each. The bytes of an entry are read without a look at what
remains, and the ids are stored without a look at the size of the array.
-/
namespace Enkel.MadtEntries

open Trace Traced

/-- What the loop does: it reads bytes of the table, or it stores an id. -/
inductive Access
  | read (offset size : ℕ)
  | store (index : ℕ)
deriving DecidableEq, Repr

inductive Stop
  /-- The loop has not ended yet. -/
  | running
deriving DecidableEq, Repr

abbrev Accesses := Traced Access Stop

abbrev sizeofHeader : ℕ := 44
abbrev maxProcessors : ℕ := 256

/-- What InitMADT finds, with the ids that are stored. -/
structure Madt where
  localApicPhysical : ℕ
  processorIds : List UInt8
deriving DecidableEq, Repr

def Madt.processorCount (m : Madt) : ℕ := m.processorIds.length

section Loop
variable (table : ℕ → UInt8)

def entryType (data : ℕ) : ℕ := (table data).toNat

def entryLength (data : ℕ) : ℕ := (table (data + 1)).toNat

/-- The number in eight bytes, the least significant first. -/
def readUInt64 (offset : ℕ) : ℕ :=
  ((List.range 8).map fun i => (table (offset + i)).toNat * 2 ^ (8 * i)).sum

/-- The switch over the type of an entry: a processor, or another address of the local APIC. -/
def entry (data : ℕ) (m : Madt) : Accesses Madt :=
  match entryType table data with
  | 0 => do
    note (.read (data + 3) 1)
    note (.store m.processorCount)
    return { m with processorIds := m.processorIds ++ [table (data + 3)] }
  | 5 => do
    note (.read (data + 4) 8)
    return { m with localApicPhysical := readUInt64 table (data + 4) }
  | _ => return m

/-- The loop over the entries. -/
def madtLoop : (fuel data : ℕ) → (lengthRemaining : ℤ) → Madt → Accesses Madt
  | 0, _, _, _ => silent (.error .running)
  | fuel + 1, data, lengthRemaining, m =>
    if lengthRemaining > 0 then do
      note (.read data 1)
      note (.read (data + 1) 1)
      let m ← entry table data m
      madtLoop fuel (data + entryLength table data) (lengthRemaining - entryLength table data) m
    else
      return m

/-- The part of InitMADT up to the end of the loop, by the Length and the LocalApicAddress of
the header. -/
def initMADT (length localApicAddress fuel : ℕ) : Accesses Madt :=
  madtLoop table fuel sizeofHeader (Framebuffer.int32 (length - sizeofHeader))
    ⟨localApicAddress, []⟩

end Loop

section Specification
variable (table : ℕ → UInt8) (total : ℕ)

/-- A byte of the table, or an element of the array. -/
def Allowed : Access → Prop
  | .read offset size => offset + size ≤ total
  | .store index => index < maxProcessors

/-- Entries of a length of at least two fill the table from an offset on. -/
inductive Tiled : ℕ → List ℕ → Prop
  | nil : Tiled total []
  | cons {data : ℕ} {rest : List ℕ} (hlength : 2 ≤ entryLength table data)
      (hrest : Tiled (data + entryLength table data) rest) : Tiled data (data :: rest)

/-- The ids of the processors among the entries. -/
def apicIds (entries : List ℕ) : List UInt8 :=
  (entries.filter (entryType table · = 0)).map fun data => table (data + 3)

/-- The loop ends, it stays in the table and in the array, and of entries that fill the table it
leaves the ids. -/
def Correct (localApicAddress : ℕ) : Prop :=
  ∃ fuel m, (initMADT table total localApicAddress fuel).result = .ok m ∧
    (initMADT table total localApicAddress fuel).All (Allowed total) ∧
    ∀ entries, Tiled table total sizeofHeader entries →
      m.processorIds = apicIds table entries ∧
        m.processorCount = (apicIds table entries).length

/-- The bytes that are read of an entry. -/
def sizeRead (data : ℕ) : ℕ :=
  match entryType table data with
  | 0 => 4
  | 5 => 12
  | _ => 2

/-- From an offset on, with so many ids stored, each entry that the loop comes to has left what
is read of it, and there is room for its id. The last one may reach behind the table. -/
inductive Chain : (data stored : ℕ) → Prop
  | last {data stored : ℕ} (hend : total ≤ data) : Chain data stored
  | entry {data stored : ℕ} (hmore : data < total) (hread : data + sizeRead table data ≤ total)
      (hstored : entryType table data = 0 → stored < maxProcessors)
      (hrest : Chain (data + entryLength table data)
        (if entryType table data = 0 then stored + 1 else stored)) : Chain data stored

end Specification

section Entries
variable {table : ℕ → UInt8} {total data : ℕ} {m : Madt}

/-- What an entry adds to the ids. -/
def added (table : ℕ → UInt8) (data : ℕ) : List UInt8 :=
  if entryType table data = 0 then [table (data + 3)] else []

theorem entry_result (table : ℕ → UInt8) (data : ℕ) (m : Madt) :
    ∃ m', (entry table data m).result = .ok m' ∧
      m'.processorIds = m.processorIds ++ added table data := by
  unfold entry added
  split
  · rename_i htype
    exact ⟨_, rfl, by rw [if_pos htype]⟩
  · rename_i htype
    exact ⟨_, rfl, by rw [if_neg (by omega), List.append_nil]⟩
  · rename_i hne _
    exact ⟨_, rfl, by rw [if_neg hne, List.append_nil]⟩

/-- An entry stays in the table and the array when what is read of it is in the table, and there
is room for its id. -/
theorem entry_allowed_iff (hhead : data + 2 ≤ total) :
    (entry table data m).All (Allowed total) ↔ data + sizeRead table data ≤ total ∧
      (entryType table data = 0 → m.processorCount < maxProcessors) := by
  unfold entry sizeRead
  split
  · rename_i htype
    rw [all_unit_bind, all_note, all_unit_bind, all_note]
    constructor
    · exact fun h => ⟨h.1, fun _ => (h.2 rfl).1⟩
    · exact fun h => ⟨h.1, fun _ => ⟨h.2 htype, fun _ => all_pure _⟩⟩
  · rename_i htype
    rw [all_unit_bind, all_note]
    constructor
    · exact fun h => ⟨h.1, fun hzero => absurd (htype.symm.trans hzero) (by decide)⟩
    · exact fun h => ⟨h.1, fun _ => all_pure _⟩
  · rename_i hne _
    exact iff_of_true (all_pure _) ⟨hhead, fun hzero => absurd hzero hne⟩

theorem two_le_sizeRead (table : ℕ → UInt8) (data : ℕ) : 2 ≤ sizeRead table data := by
  unfold sizeRead
  split <;> omega

end Entries

section Loop
variable {table : ℕ → UInt8} {total data fuel : ℕ} {m m' : Madt}

theorem madtLoop_last (hend : total ≤ data) :
    madtLoop table (fuel + 1) data ((total : ℤ) - data) m = pure m := by
  unfold madtLoop
  exact if_neg (by omega)

/-- A turn of the loop, with what remains as the distance to the end. -/
theorem madtLoop_succ (hmore : data < total) :
    madtLoop table (fuel + 1) data ((total : ℤ) - data) m = (do
      note (.read data 1)
      note (.read (data + 1) 1)
      let m ← entry table data m
      madtLoop table fuel (data + entryLength table data)
        ((total : ℤ) - (data + entryLength table data : ℕ)) m) := by
  have hremaining : (total : ℤ) - data - entryLength table data =
      (total : ℤ) - (data + entryLength table data : ℕ) := by omega
  rw [← hremaining]
  exact if_pos (by omega)

/-- The loop returns at an entry when it does so behind it. -/
theorem madtLoop_result (hmore : data < total) {m₁ : Madt}
    (hentry : (entry table data m).result = .ok m₁) :
    (madtLoop table (fuel + 1) data ((total : ℤ) - data) m).result = .ok m' ↔
      (madtLoop table fuel (data + entryLength table data)
        ((total : ℤ) - (data + entryLength table data : ℕ)) m₁).result = .ok m' := by
  rw [madtLoop_succ hmore, result_bind, result_note, Outcome.ok_bind, result_bind, result_note,
    Outcome.ok_bind, result_bind, hentry, Outcome.ok_bind]

/-- What the loop does at an entry is allowed when what is read of it is in the table and there
is room for its id, and what the loop does behind it is allowed. -/
theorem madtLoop_allowed (hmore : data < total) {m₁ : Madt}
    (hentry : (entry table data m).result = .ok m₁) :
    (madtLoop table (fuel + 1) data ((total : ℤ) - data) m).All (Allowed total) ↔
      (data + sizeRead table data ≤ total ∧
        (entryType table data = 0 → m.processorCount < maxProcessors)) ∧
      (madtLoop table fuel (data + entryLength table data)
        ((total : ℤ) - (data + entryLength table data : ℕ)) m₁).All (Allowed total) := by
  have htwo := two_le_sizeRead table data
  rw [madtLoop_succ hmore, all_unit_bind, all_note, all_unit_bind, all_note, all_bind]
  constructor
  · rintro ⟨-, hrest⟩
    obtain ⟨hsecond, hrest⟩ := hrest rfl
    obtain ⟨hallowed, hrest⟩ := hrest rfl
    have hhead : data + 1 + 1 ≤ total := hsecond
    exact ⟨(entry_allowed_iff hhead).mp hallowed, hrest _ hentry⟩
  · rintro ⟨hread, hrest⟩
    have hhead : data + 2 ≤ total := by omega
    refine ⟨?_, fun _ => ⟨hhead, fun _ => ⟨(entry_allowed_iff hhead).mpr hread, ?_⟩⟩⟩
    · show data + 1 ≤ total
      omega
    · intro m₂ hm₂
      cases hentry.symm.trans hm₂
      exact hrest

theorem count_added {m₁ : Madt} (hids : m₁.processorIds = m.processorIds ++ added table data) :
    m₁.processorCount =
      if entryType table data = 0 then m.processorCount + 1 else m.processorCount := by
  unfold Madt.processorCount
  rw [hids, List.length_append]
  unfold added
  split_ifs <;> rfl

/-- The loop ends and stays where it may when the entries do. -/
theorem madtLoop_iff :
    (∃ fuel m', (madtLoop table fuel data ((total : ℤ) - data) m).result = .ok m' ∧
      (madtLoop table fuel data ((total : ℤ) - data) m).All (Allowed total)) ↔
      Chain table total data m.processorCount := by
  constructor
  · rintro ⟨fuel, m', hresult, hall⟩
    induction fuel generalizing data m with
    | zero => cases hresult
    | succ fuel ih =>
      rcases Nat.lt_or_ge data total with hmore | hend
      · obtain ⟨m₁, hentry, hids⟩ := entry_result table data m
        obtain ⟨⟨hread, hstored⟩, hrest⟩ := (madtLoop_allowed hmore hentry).mp hall
        refine .entry hmore hread hstored ?_
        rw [← count_added hids]
        exact ih ((madtLoop_result hmore hentry).mp hresult) hrest
      · exact .last hend
  · intro hchain
    obtain ⟨stored, hstored⟩ : ∃ stored, stored = m.processorCount := ⟨_, rfl⟩
    rw [← hstored] at hchain
    induction hchain generalizing m with
    | last hend =>
      refine ⟨1, m, ?_, ?_⟩
      · rw [madtLoop_last hend]
        rfl
      · rw [madtLoop_last hend]
        exact all_pure _
    | @entry data stored hmore hread hroom hrest ih =>
      obtain ⟨m₁, hentry, hids⟩ := entry_result table data m
      obtain ⟨fuel, m', hresult, hall⟩ := ih (by rw [count_added hids, hstored])
      refine ⟨fuel + 1, m', (madtLoop_result hmore hentry).mpr hresult, ?_⟩
      rw [hstored] at hroom
      exact (madtLoop_allowed hmore hentry).mpr ⟨⟨hread, hroom⟩, hall⟩

theorem Tiled.le {entries : List ℕ} (h : Tiled table total data entries) : data ≤ total := by
  induction h with
  | nil => exact le_rfl
  | cons _ _ ih => omega

/-- Of entries that fill the table the loop adds the ids of the processors. -/
theorem Tiled.processorIds {entries : List ℕ} (h : Tiled table total data entries)
    (hresult : (madtLoop table fuel data ((total : ℤ) - data) m).result = .ok m') :
    m'.processorIds = m.processorIds ++ apicIds table entries := by
  induction h generalizing fuel m with
  | nil =>
    cases fuel with
    | zero => cases hresult
    | succ fuel =>
      rw [madtLoop_last le_rfl] at hresult
      cases hresult
      exact (List.append_nil _).symm
  | @cons data rest hlength hrest ih =>
    cases fuel with
    | zero => cases hresult
    | succ fuel =>
      have hmore : data < total := by
        have hle := hrest.le
        omega
      obtain ⟨m₁, hentry, hids⟩ := entry_result table data m
      rw [ih ((madtLoop_result hmore hentry).mp hresult), hids, List.append_assoc]
      unfold added apicIds
      by_cases htype : entryType table data = 0
      · rw [if_pos htype, List.filter_cons_of_pos (by simpa using htype)]
        rfl
      · rw [if_neg htype, List.filter_cons_of_neg (by simpa using htype)]
        rfl

end Loop

section Tables
variable {table : ℕ → UInt8} {length localApicAddress : ℕ}

theorem correct_iff_chain (hheader : sizeofHeader ≤ length) (hlength : length < 2 ^ 31 + 44) :
    Correct table length localApicAddress ↔ Chain table length sizeofHeader 0 := by
  have hsize : sizeofHeader = 44 := rfl
  have hint : Framebuffer.int32 (length - sizeofHeader) = (length : ℤ) - sizeofHeader :=
    Framebuffer.int32_of_between (by omega) (by omega)
  have hcount : (Madt.mk localApicAddress []).processorCount = 0 := rfl
  unfold Correct initMADT
  rw [hint, ← hcount, ← madtLoop_iff]
  constructor
  · rintro ⟨fuel, m, hresult, hall, -⟩
    exact ⟨fuel, m, hresult, hall⟩
  · rintro ⟨fuel, m, hresult, hall⟩
    refine ⟨fuel, m, hresult, hall, fun entries htiled => ?_⟩
    have hids := htiled.processorIds hresult
    rw [List.nil_append] at hids
    exact ⟨hids, congrArg List.length hids⟩

/-- The size of the entries of a longer table is not a positive int, and none is looked at. -/
theorem correct_iff_none (hlow : 2 ^ 31 + 44 ≤ length) (hword : length < 2 ^ 32) :
    Correct table length localApicAddress ↔
      ∀ entries, Tiled table length sizeofHeader entries →
        ∀ data ∈ entries, entryType table data ≠ 0 := by
  have hsize : sizeofHeader = 44 := rfl
  have hint : Framebuffer.int32 (length - sizeofHeader) ≤ 0 := by
    unfold Framebuffer.int32
    rw [Int.bmod_def]
    split_ifs <;> omega
  have hloop : ∀ fuel m, madtLoop table (fuel + 1) sizeofHeader
      (Framebuffer.int32 (length - sizeofHeader)) m = pure m := by
    intro fuel m
    unfold madtLoop
    exact if_neg (by omega)
  have hnone : ∀ entries, apicIds table entries = [] ↔
      ∀ data ∈ entries, entryType table data ≠ 0 := by
    intro entries
    unfold apicIds
    rw [List.map_eq_nil_iff, List.filter_eq_nil_iff]
    simp
  unfold Correct initMADT
  constructor
  · rintro ⟨fuel, m, hresult, -, hids⟩ entries htiled
    cases fuel with
    | zero => cases hresult
    | succ fuel =>
      rw [hloop] at hresult
      cases hresult
      exact (hnone entries).mp (hids entries htiled).1.symm
  · intro hall
    refine ⟨1, ⟨localApicAddress, []⟩, by rw [hloop]; rfl, by rw [hloop]; exact all_pure _, ?_⟩
    intro entries htiled
    rw [(hnone entries).mpr (hall entries htiled)]
    exact ⟨rfl, rfl⟩

end Tables

/-- The loop over the entries is right for a table whose entries are all in it, as far as they
are read, with ids that fit into the array; none may be of the length 0. A table of more than two
gigabytes has to have no processors. -/
theorem initMADT_correct_iff (table : ℕ → UInt8) (length localApicAddress : ℕ)
    (hheader : sizeofHeader ≤ length) (hword : length < 2 ^ 32) :
    Correct table length localApicAddress ↔
      if length < 2 ^ 31 + 44 then Chain table length sizeofHeader 0
      else ∀ entries, Tiled table length sizeofHeader entries →
        ∀ data ∈ entries, entryType table data ≠ 0 := by
  split_ifs with hlength
  · exact correct_iff_chain hheader hlength
  · exact correct_iff_none (by omega) hword

/-- A table with a processor. -/
def singleTable : ℕ → UInt8
  | 45 => 8
  | 47 => 3
  | _ => 0

theorem initMADT_correct_iff_single : Correct singleTable 52 0xFEE00000 ↔
    if 52 < 2 ^ 31 + 44 then Chain singleTable 52 sizeofHeader 0
    else ∀ entries, Tiled singleTable 52 sizeofHeader entries →
      ∀ data ∈ entries, entryType singleTable data ≠ 0 :=
  initMADT_correct_iff singleTable 52 0xFEE00000 (by decide) (by decide)

/-- A table with an entry of the length 0. -/
def endlessTable : ℕ → UInt8
  | 44 => 1
  | _ => 0

/-- The loop comes to the same entry again and again. -/
theorem endless_not_correct : ¬ Correct endlessTable 46 0xFEE00000 := by
  have hlength : entryLength endlessTable sizeofHeader = 0 := rfl
  have hendless : ∀ data stored, Chain endlessTable 46 data stored → data ≠ sizeofHeader := by
    intro data stored hchain hdata
    induction hchain with
    | last hend =>
      rw [hdata] at hend
      exact absurd hend (by decide)
    | entry _ _ _ _ ih =>
      refine ih ?_
      rw [hdata, hlength]
  rw [correct_iff_chain (by decide) (by decide)]
  exact fun hchain => hendless _ _ hchain rfl

end Enkel.MadtEntries
