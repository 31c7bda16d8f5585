import Enkel.ElfFile
import Enkel.SegmentContents

/-!
Where LoadElfFromMemory reads. Every offset that it follows is compared with nothing, so a
file keeps it inside only by its own numbers: the section headers, the names up to their
first other character, the two passes over the program headers, the sources of the segments
that the turns of the loop find, and the end of the interpreter's name. The string table is
looked up before the identification of the file.
-/
namespace Enkel.ElfFile

open Outcome ByteMemory Elf Trace Traced
open VolumeCalls (units)

section Fields
variable (b : ℕ → UInt8) (elfStart n : ℕ)

/-- strcmp with the text stays in a file of `n` bytes. -/
def ComparesInFile (off : ℕ) (text : List ℕ) : Prop :=
  ∀ k ≤ text.length, (∀ j < k, field b elfStart (add64 off j) 1 = text.getD j 0) →
    add64 off k < n

/-- The string at the offset is the text. -/
def Matches (off : ℕ) (text : List ℕ) : Prop :=
  ∀ j ≤ text.length, field b elfStart (add64 off j) 1 = text.getD j 0

instance (off : ℕ) (text : List ℕ) : Decidable (ComparesInFile b elfStart n off text) :=
  inferInstanceAs (Decidable (∀ k ≤ text.length, _ → _))

instance (off : ℕ) (text : List ℕ) : Decidable (Matches b elfStart off text) :=
  inferInstanceAs (Decidable (∀ j ≤ text.length, _))

/-- The string at the offset ends in the file. -/
def EndsInFile (off : ℕ) : Prop :=
  ∀ k < 2 ^ 64, (∀ j < k, field b elfStart (add64 off j) 1 ≠ 0) → add64 off k < n

/-- The header of the file, and where the names of the sections are. -/
structure TablesInFile : Prop where
  header : 64 ≤ n
  strings : add64 (sectionHeader (eShoff b elfStart) (eShstrndx b elfStart)) 24 + 8 ≤ n

def stringTable : ℕ :=
  field b elfStart (add64 (sectionHeader (eShoff b elfStart) (eShstrndx b elfStart)) 24) 8

end Fields

section Sections
variable (b : ℕ → UInt8) (elfStart n shoff strings i : ℕ)

def sectionName : ℕ := add64 strings (field b elfStart (sectionHeader shoff i) 4)

def shType : ℕ := field b elfStart (add64 (sectionHeader shoff i) 4) 4

/-- The items of a section are counted by a division. -/
def Counted : Prop := shType b elfStart shoff i = shtDynamic ∨ shType b elfStart shoff i = shtDynsym

def shEntsize : ℕ := field b elfStart (add64 (sectionHeader shoff i) 56) 8

instance : Decidable (Counted b elfStart shoff i) := inferInstanceAs (Decidable (_ ∨ _))

/-- The number of items is not divided by zero. -/
def Divides : Prop := Counted b elfStart shoff i → shEntsize b elfStart shoff i ≠ 0

instance : Decidable (Divides b elfStart shoff i) := inferInstanceAs (Decidable (_ → _))

/-- What the search for a section reads. -/
structure FindsInFile (header name : ℕ) (text : List ℕ) : Prop where
  compares : ComparesInFile b elfStart n name text
  offset : Matches b elfStart name text → add64 header 24 + 8 ≤ n

instance (header name : ℕ) (text : List ℕ) :
    Decidable (FindsInFile b elfStart n header name text) :=
  decidable_of_iff (ComparesInFile b elfStart n name text ∧
    (Matches b elfStart name text → add64 header 24 + 8 ≤ n))
    ⟨fun h => ⟨h.1, h.2⟩, fun h => ⟨h.1, h.2⟩⟩

/-- What a turn of the first pass reads. -/
structure SectionInFile : Prop where
  name : sectionHeader shoff i + 4 ≤ n
  type : add64 (sectionHeader shoff i) 4 + 4 ≤ n
  strtab : shType b elfStart shoff i = shtStrtab →
    FindsInFile b elfStart n (sectionHeader shoff i) (sectionName b elfStart shoff strings i)
      (units ".dynstr")
  counted : Counted b elfStart shoff i →
    ∀ off ∈ [24, 32, 56], add64 (sectionHeader shoff i) off + 8 ≤ n
  other : shType b elfStart shoff i ≠ shtStrtab → ¬ Counted b elfStart shoff i →
    FindsInFile b elfStart n (sectionHeader shoff i) (sectionName b elfStart shoff strings i)
      (units ".got")

/-- What the last pass reads for a section. -/
structure InterpreterInFile : Prop where
  name : sectionHeader shoff i + 4 ≤ n
  finds : FindsInFile b elfStart n (sectionHeader shoff i) (sectionName b elfStart shoff strings i)
    (units ".interp")
  text : Matches b elfStart (sectionName b elfStart shoff strings i) (units ".interp") →
    EndsInFile b elfStart n (field b elfStart (add64 (sectionHeader shoff i) 24) 8)

end Sections

section Reads
variable {ε α β : Type} {b : ℕ → UInt8} {elfStart n off len : ℕ}

theorem field_lt : field b elfStart off len < 256 ^ len := readWord_lt

theorem inside_iff (hn : n < 2 ^ 64) (hend : elfStart + n ≤ 2 ^ 64) (hoff : off < 2 ^ 64) :
    Inside elfStart n (add64 elfStart off, len) ↔ len = 0 ∨ off + len ≤ n :=
  inside_add_iff hoff hn hend

@[simp] theorem result_fetch :
    (fetch b elfStart off len : FileReads ε ℕ).result = .ok (field b elfStart off len) := by
  unfold fetch
  rw [result_bind]
  rfl

theorem all_fetch {P : ℕ × ℕ → Prop} {f : ℕ → FileReads ε β} :
    (fetch b elfStart off len >>= f).All P ↔
      P (add64 elfStart off, len) ∧ (f (field b elfStart off len)).All P := by
  rw [all_bind, result_fetch]
  unfold fetch
  rw [all_bind]
  simp

/-- A field that is read lies in the file. -/
theorem fetch_inside_iff (hn : n < 2 ^ 64) (hend : elfStart + n ≤ 2 ^ 64) (hoff : off < 2 ^ 64)
    (hlen : 0 < len) {f : ℕ → FileReads ε β} :
    (fetch b elfStart off len >>= f).All (Inside elfStart n) ↔
      off + len ≤ n ∧ (f (field b elfStart off len)).All (Inside elfStart n) := by
  rw [all_fetch, inside_iff hn hend hoff, or_iff_right (by omega)]

theorem add64_add64 (x y z : ℕ) : add64 (add64 x y) z = add64 x (y + z) := by
  unfold add64
  omega

theorem add64_lt (x y : ℕ) : add64 x y < 2 ^ 64 := Nat.mod_lt _ (Nat.two_pow_pos 64)

theorem add64_zero (hoff : off < 2 ^ 64) : add64 off 0 = off := Nat.mod_eq_of_lt hoff

/-- A scan from 0 on goes one step and then scans the rest. -/
theorem scan_succ {go inside : ℕ → Prop} {m : ℕ} :
    (∀ k < m + 1, (∀ j < k, go j) → inside k) ↔
      inside 0 ∧ (go 0 → ∀ k < m, (∀ j < k, go (j + 1)) → inside (k + 1)) := by
  constructor
  · refine fun h => ⟨h 0 (Nat.succ_pos m) (by omega), fun hgo k hk hbefore => ?_⟩
    refine h (k + 1) (Nat.succ_lt_succ hk) fun j hj => ?_
    cases j with
    | zero => exact hgo
    | succ j => exact hbefore j (Nat.lt_of_succ_lt_succ hj)
  · rintro ⟨h0, hrest⟩ k hk hbefore
    cases k with
    | zero => exact h0
    | succ k =>
      exact hrest (hbefore 0 (Nat.succ_pos k)) k (Nat.lt_of_succ_lt_succ hk)
        fun j hj => hbefore (j + 1) (Nat.succ_lt_succ hj)

theorem add64_succ (j : ℕ) : add64 off (j + 1) = add64 (add64 off 1) j := by
  rw [add64_add64, Nat.add_comm]

theorem matches_nil (hoff : off < 2 ^ 64) :
    Matches b elfStart off [] ↔ field b elfStart off 1 = 0 := by
  unfold Matches
  constructor
  · intro h
    have h0 := h 0 le_rfl
    rwa [add64_zero hoff] at h0
  · intro h j hj
    obtain rfl := Nat.le_zero.mp hj
    rwa [add64_zero hoff]

theorem matches_cons (hoff : off < 2 ^ 64) {c : ℕ} {text : List ℕ} :
    Matches b elfStart off (c :: text) ↔
      field b elfStart off 1 = c ∧ Matches b elfStart (add64 off 1) text := by
  unfold Matches
  constructor
  · intro h
    have h0 := h 0 (Nat.zero_le _)
    rw [add64_zero hoff] at h0
    refine ⟨h0, fun j hj => ?_⟩
    rw [← add64_succ]
    exact h (j + 1) (Nat.succ_le_succ hj)
  · rintro ⟨h0, hrest⟩ j hj
    cases j with
    | zero => rwa [add64_zero hoff]
    | succ j =>
      rw [add64_succ]
      exact hrest j (Nat.le_of_succ_le_succ hj)

theorem compares_nil (hoff : off < 2 ^ 64) : ComparesInFile b elfStart n off [] ↔ off < n := by
  unfold ComparesInFile
  simp [add64_zero hoff]

theorem compares_cons (hoff : off < 2 ^ 64) {c : ℕ} {text : List ℕ} :
    ComparesInFile b elfStart n off (c :: text) ↔
      off < n ∧ (field b elfStart off 1 = c → ComparesInFile b elfStart n (add64 off 1) text) := by
  unfold ComparesInFile
  simp only [← Nat.lt_succ_iff, List.length_cons, Nat.succ_eq_add_one]
  rw [scan_succ, add64_zero hoff]
  simp only [← add64_succ, List.getD_cons_zero, List.getD_cons_succ]

/-- What strcmp returns. -/
@[simp] theorem result_strcmp (hoff : off < 2 ^ 64) {text : List ℕ} :
    (strcmp b elfStart off text : FileReads ε Bool).result =
      .ok (decide (Matches b elfStart off text)) := by
  induction text generalizing off with
  | nil =>
    unfold strcmp
    rw [result_bind, result_fetch, ok_bind, result_pure]
    simp only [matches_nil hoff]
  | cons c text ih =>
    unfold strcmp
    rw [result_bind, result_fetch, ok_bind]
    simp only [matches_cons hoff]
    by_cases hc : field b elfStart off 1 = c
    · rw [if_pos hc, ih (add64_lt _ _)]
      simp [hc]
    · rw [if_neg hc]
      simp [hc]

theorem strcmp_inside_iff (hn : n < 2 ^ 64) (hend : elfStart + n ≤ 2 ^ 64)
    (hoff : off < 2 ^ 64) {text : List ℕ} :
    (strcmp b elfStart off text : FileReads ε Bool).All (Inside elfStart n) ↔
      ComparesInFile b elfStart n off text := by
  induction text generalizing off with
  | nil =>
    unfold strcmp
    rw [fetch_inside_iff hn hend hoff Nat.one_pos, compares_nil hoff,
      Nat.add_one_le_iff]
    simp
  | cons c text ih =>
    unfold strcmp
    rw [fetch_inside_iff hn hend hoff Nat.one_pos, all_ite, ih (add64_lt _ _), compares_cons hoff,
      Nat.add_one_le_iff]
    simp

theorem serialPrint_inside_iff (hn : n < 2 ^ 64) (hend : elfStart + n ≤ 2 ^ 64)
    (hoff : off < 2 ^ 64) (fuel : ℕ) :
    (serialPrint b elfStart off fuel : FileReads ε Unit).All (Inside elfStart n) ↔
      ∀ k < fuel, (∀ j < k, field b elfStart (add64 off j) 1 ≠ 0) → add64 off k < n := by
  induction fuel generalizing off with
  | zero => simp [serialPrint]
  | succ fuel ih =>
    unfold serialPrint
    rw [fetch_inside_iff hn hend hoff Nat.one_pos, all_ite, ih (add64_lt _ _), scan_succ,
      add64_zero hoff, Nat.add_one_le_iff]
    simp [← add64_succ]

theorem sectionHeader_lt (shoff i : ℕ) : sectionHeader shoff i < 2 ^ 64 := add64_lt _ _

theorem tables_inside_iff (hn : n < 2 ^ 64) (hend : elfStart + n ≤ 2 ^ 64) :
    (tables b elfStart : FileReads ε (ℕ × ℕ)).All (Inside elfStart n) ↔
      TablesInFile b elfStart n := by
  unfold tables
  rw [fetch_inside_iff hn hend (by decide) (by decide),
    fetch_inside_iff hn hend (by decide) (by decide),
    fetch_inside_iff hn hend (by decide) (by decide),
    fetch_inside_iff hn hend (add64_lt _ _) (by decide)]
  constructor
  · rintro ⟨-, -, hheader, hstrings, -⟩
    exact ⟨hheader, hstrings⟩
  · rintro ⟨hheader, hstrings⟩
    exact ⟨by omega, by omega, hheader, hstrings, all_pure _⟩

theorem result_tables : (tables b elfStart : FileReads ε (ℕ × ℕ)).result =
    .ok (eShoff b elfStart, stringTable b elfStart) := by
  unfold tables
  simp only [result_bind, result_fetch, ok_bind, result_pure]
  rfl

theorem identify_inside (hn : n < 2 ^ 64) (hend : elfStart + n ≤ 2 ^ 64) (h64 : 64 ≤ n) :
    (identify b elfStart : FileReads ε Unit).All (Inside elfStart n) := by
  refine all_forM_of fun (off, len, value, message) hmem => ?_
  have hoff : off + len ≤ 64 := by
    simp only [identification, List.mem_cons, Prod.mk.injEq, List.not_mem_nil, or_false] at hmem
    omega
  rw [all_fetch, inside_iff hn hend (by omega)]
  exact ⟨Or.inr (by omega), all_silent _⟩

theorem field_one (off : ℕ) : field b elfStart off 1 = (b (add64 elfStart off)).toNat := by
  have hlt : add64 elfStart off < 2 ^ 64 := add64_lt _ _
  unfold field readWord readWord
  rw [Nat.add_zero, Nat.mod_eq_of_lt hlt]
  simp

theorem field_one_iff (off : ℕ) (value : UInt8) :
    field b elfStart off 1 = value.toNat ↔ b (add64 elfStart off) = value := by
  rw [field_one, UInt8.toNat_inj]

/-- The identification passes for the files that are taken for programs. -/
theorem result_identify (hstart : elfStart < 2 ^ 64) :
    (identify b elfStart : FileReads ε Unit).result = .ok () ↔ checkHeader b elfStart = .ok () := by
  have h0 : field b elfStart 0 1 = 0x7F ↔ b (add64 elfStart 0) = 0x7F := field_one_iff 0 0x7F
  have h1 : field b elfStart 1 1 = 0x45 ↔ b (add64 elfStart 1) = 0x45 := field_one_iff 1 0x45
  have h2 : field b elfStart 2 1 = 0x4C ↔ b (add64 elfStart 2) = 0x4C := field_one_iff 2 0x4C
  have h3 : field b elfStart 3 1 = 0x46 ↔ b (add64 elfStart 3) = 0x46 := field_one_iff 3 0x46
  have h4 : field b elfStart 4 1 = 2 ↔ b (add64 elfStart 4) = 2 := field_one_iff 4 2
  rw [add64_zero hstart] at h0
  unfold identify checkHeader
  rw [result_forM]
  simp only [identification, List.forall_mem_cons, List.not_mem_nil, false_implies, implies_true,
    and_true, result_bind, result_fetch, ok_bind, result_silent, bind_eq_ok, require_eq_ok]
  rw [h0, h1, h2, h3, h4]
  simp only [exists_const, and_assoc]
  rfl

theorem findSection_inside_iff (hn : n < 2 ^ 64) (hend : elfStart + n ≤ 2 ^ 64)
    {header name : ℕ} (hname : name < 2 ^ 64) {text : List ℕ} :
    (findSection b elfStart header name text : FileReads ε Unit).All (Inside elfStart n) ↔
      FindsInFile b elfStart n header name text := by
  unfold findSection
  rw [all_bind, strcmp_inside_iff hn hend hname, result_strcmp hname]
  simp only [Except.ok.injEq, forall_eq', decide_eq_true_eq]
  rw [all_ite, fetch_inside_iff hn hend (add64_lt _ _) (by decide)]
  constructor
  · rintro ⟨hcompares, hfound, -⟩
    exact ⟨hcompares, fun hmatches => (hfound hmatches).1⟩
  · rintro ⟨hcompares, hfound⟩
    exact ⟨hcompares, fun hmatches => ⟨hfound hmatches, all_pure _⟩, fun _ => all_pure _⟩

theorem result_findSection {header name : ℕ} (hname : name < 2 ^ 64) {text : List ℕ} :
    (findSection b elfStart header name text : FileReads ε Unit).result = .ok () := by
  unfold findSection
  rw [result_bind, result_strcmp hname, ok_bind]
  split_ifs
  · rw [result_bind, result_fetch]
    rfl
  · rfl

theorem scanSection_inside_iff (hn : n < 2 ^ 64) (hend : elfStart + n ≤ 2 ^ 64)
    {shoff strings i : ℕ} :
    (scanSection b elfStart shoff strings i : FileReads ε Unit).All (Inside elfStart n) ↔
      SectionInFile b elfStart n shoff strings i := by
  unfold scanSection
  rw [fetch_inside_iff hn hend (sectionHeader_lt _ _) (by decide),
    fetch_inside_iff hn hend (add64_lt _ _) (by decide), all_ite, all_ite,
    findSection_inside_iff hn hend (add64_lt _ _), findSection_inside_iff hn hend (add64_lt _ _),
    fetch_inside_iff hn hend (add64_lt _ _) (by decide),
    fetch_inside_iff hn hend (add64_lt _ _) (by decide),
    fetch_inside_iff hn hend (add64_lt _ _) (by decide)]
  constructor
  · rintro ⟨hname, htype, hstrtab, hrest⟩
    refine ⟨hname, htype, hstrtab, fun hcounted => ?_, fun hother hnot => (hrest hother).2 hnot⟩
    have hne : ¬ shType b elfStart shoff i = shtStrtab := by
      rintro heq
      unfold Counted at hcounted
      rw [heq] at hcounted
      revert hcounted
      decide
    obtain ⟨h24, h32, h56, -⟩ := (hrest hne).1 hcounted
    simp only [List.forall_mem_cons, List.not_mem_nil, false_implies, implies_true, and_true]
    exact ⟨h24, h32, h56⟩
  · rintro ⟨hname, htype, hstrtab, hcounted, hother⟩
    refine ⟨hname, htype, hstrtab, fun hne => ⟨fun hc => ?_, hother hne⟩⟩
    have hfields := hcounted hc
    exact ⟨hfields 24 (by simp), hfields 32 (by simp), hfields 56 (by simp), all_silent _⟩

/-- A turn ends unless a number of items is divided by zero. -/
theorem result_scanSection {shoff strings i : ℕ} :
    (scanSection b elfStart shoff strings i : FileReads ε Unit).result = .ok () ↔
      Divides b elfStart shoff i := by
  unfold scanSection Divides
  rw [result_bind, result_fetch, ok_bind, result_bind, result_fetch, ok_bind]
  by_cases hstrtab : shType b elfStart shoff i = shtStrtab
  · have hnot : ¬ Counted b elfStart shoff i := by
      unfold Counted
      rw [hstrtab]
      decide
    unfold shType at hstrtab
    rw [if_pos hstrtab, result_findSection (add64_lt _ _)]
    simp [hnot]
  · have hfield := hstrtab
    unfold shType at hfield
    rw [if_neg hfield]
    by_cases hcounted : Counted b elfStart shoff i
    · have hkinds := hcounted
      unfold Counted shType at hkinds
      rw [if_pos hkinds]
      simp only [result_bind, result_fetch, ok_bind, result_silent, require_eq_ok]
      exact ⟨fun h _ => h, fun h => h hcounted⟩
    · have hkinds := hcounted
      unfold Counted shType at hkinds
      rw [if_neg hkinds, result_findSection (add64_lt _ _)]
      simp [hcounted]

theorem scanSections_inside_iff (hn : n < 2 ^ 64) (hend : elfStart + n ≤ 2 ^ 64)
    (h64 : 64 ≤ n) {shoff strings : ℕ} :
    (scanSections b elfStart shoff strings : FileReads ε Unit).All (Inside elfStart n) ↔
      ∀ i < eShnum b elfStart, (∀ j < i, Divides b elfStart shoff j) →
        SectionInFile b elfStart n shoff strings i := by
  unfold scanSections
  rw [fetch_inside_iff hn hend (by decide) (by decide), and_iff_right (by omega), all_forM_range]
  simp only [result_scanSection, scanSection_inside_iff hn hend]
  rfl

theorem result_scanSections {shoff strings : ℕ} :
    (scanSections b elfStart shoff strings : FileReads ε Unit).result = .ok () ↔
      ∀ i < eShnum b elfStart, Divides b elfStart shoff i := by
  unfold scanSections
  rw [result_bind, result_fetch, ok_bind, result_forM]
  simp only [List.mem_range, result_scanSection]
  rfl

/-- The offset of a program header. -/
def programHeader (b : ℕ → UInt8) (elfStart i : ℕ) : ℕ :=
  add64 (ePhoff b elfStart) (sizeofPhdr * i)

theorem scanSegments_inside_iff (hn : n < 2 ^ 64) (hend : elfStart + n ≤ 2 ^ 64)
    (h64 : 64 ≤ n) :
    (scanSegments b elfStart : FileReads ε ℕ).All (Inside elfStart n) ↔
      ∀ i < ePhnum b elfStart, ∀ off ∈ [16, 40],
        add64 (programHeader b elfStart i) off + 8 ≤ n := by
  have hturn : ∀ phoff i, (scanSegment b elfStart phoff i : FileReads ε Unit).result = .ok () :=
    fun _ _ => rfl
  unfold scanSegments
  rw [fetch_inside_iff hn hend (by decide) (by decide), and_iff_right (by omega),
    fetch_inside_iff hn hend (by decide) (by decide), and_iff_right (by omega), all_bind,
    all_forM_range]
  simp only [hturn, implies_true, true_implies, all_pure, and_true]
  refine forall₂_congr fun i hi => ?_
  unfold scanSegment
  rw [fetch_inside_iff hn hend (add64_lt _ _) (by decide),
    fetch_inside_iff hn hend (add64_lt _ _) (by decide), and_iff_left (all_pure _)]
  simp only [List.forall_mem_cons, List.not_mem_nil, false_implies, implies_true, and_true]
  rfl

theorem result_scanSegments : (scanSegments b elfStart : FileReads ε ℕ).result =
    .ok (highestAddress (segments b elfStart)) := by
  have hturns : ∀ phoff phnum, ((List.range phnum).forM (scanSegment b elfStart phoff) :
      FileReads ε Unit).result = .ok () := fun _ _ => result_forM.mpr fun _ _ => rfl
  unfold scanSegments
  rw [result_bind, result_fetch, ok_bind, result_bind, result_fetch, ok_bind, result_bind, hturns]
  rfl

theorem loadSegments_inside_iff (hn : n < 2 ^ 64) (hend : elfStart + n ≤ 2 ^ 64)
    (h64 : 64 ≤ n) {programStart programHeaders i fuel : ℕ} {s : LoadState}
    (hfuel : loopBound ≤ i + fuel) :
    (loadSegments elfStart programStart programHeaders fuel i s : FileReads ε LoadState).All
        (Inside elfStart n) ↔
      ∀ j t, Takes elfStart programStart programHeaders i s j t →
        (t.header programHeaders j).InFile n := by
  induction fuel generalizing i s with
  | zero =>
    refine iff_of_true (all_pure _) fun j t htakes => ?_
    exact absurd htakes (not_takes_of_loopBound_le hfuel)
  | succ fuel ih =>
    unfold loadSegments
    rw [fetch_inside_iff hn hend (by decide) (by decide), and_iff_right (by omega)]
    have hnum : field s.memory.bytes elfStart 56 2 = ePhnum s.memory.bytes elfStart := rfl
    have hoff : (s.header programHeaders i).pOffset < 2 ^ 64 := readWord_lt.trans_eq (by decide)
    rw [hnum]
    split_ifs with hi
    · rw [all_bind, all_note, inside_iff hn hend hoff]
      constructor
      · rintro ⟨hfirst, hrest⟩ j t htakes
        rcases (takes_iff.mp htakes).2 with ⟨rfl, rfl⟩ | hlater
        · exact hfirst
        · exact (ih (by omega)).mp (hrest () rfl) j t hlater
      · intro h
        refine ⟨h i s (takes_iff.mpr ⟨hi, Or.inl ⟨rfl, rfl⟩⟩), fun _ _ => (ih (by omega)).mpr ?_⟩
        exact fun j t hlater => h j t (takes_iff.mpr ⟨hi, Or.inr hlater⟩)
    · refine iff_of_true (all_pure _) fun j t htakes => ?_
      exact absurd (takes_iff.mp htakes).1 hi

theorem result_loadSegments {programStart programHeaders i fuel : ℕ} {s : LoadState} :
    (loadSegments elfStart programStart programHeaders fuel i s : FileReads ε LoadState).result =
      .ok (loadLoop elfStart programStart programHeaders fuel i s) := by
  induction fuel generalizing i s with
  | zero => rfl
  | succ fuel ih =>
    have hnum : field s.memory.bytes elfStart 56 2 = ePhnum s.memory.bytes elfStart := rfl
    unfold loadSegments loadLoop
    rw [result_bind, result_fetch, ok_bind, hnum]
    split_ifs
    · rw [result_bind, result_note, ok_bind, ih]
    · rfl

theorem result_serialPrint {fuel : ℕ} (hoff : off < 2 ^ 64) :
    (serialPrint b elfStart off fuel : FileReads ε Unit).result = .ok () ↔
      ∃ k < fuel, field b elfStart (add64 off k) 1 = 0 := by
  induction fuel generalizing off with
  | zero => simp [serialPrint]
  | succ fuel ih =>
    unfold serialPrint
    rw [result_bind, result_fetch, ok_bind]
    by_cases hzero : field b elfStart off 1 = 0
    · rw [if_neg (not_not_intro hzero)]
      exact iff_of_true rfl ⟨0, Nat.succ_pos _, by rwa [add64_zero hoff]⟩
    · rw [if_pos hzero, ih (add64_lt _ _)]
      constructor
      · rintro ⟨k, hk, hend⟩
        exact ⟨k + 1, Nat.succ_lt_succ hk, by rwa [add64_succ]⟩
      · rintro ⟨k, hk, hend⟩
        cases k with
        | zero =>
          rw [add64_zero hoff] at hend
          exact absurd hend hzero
        | succ k => exact ⟨k, Nat.lt_of_succ_lt_succ hk, by rwa [← add64_succ]⟩

end Reads

section Interpreters
variable {σ ε π : Type} (kernel : Kernel σ ε π) (b : ℕ → UInt8) (elfStart n shoff strings : ℕ)

/-- Where the name of an interpreter is. -/
def interpreterOffset (i : ℕ) : ℕ := field b elfStart (add64 (sectionHeader shoff i) 24) 8

/-- The section names an interpreter. -/
def NamesInterpreter (i : ℕ) : Prop :=
  Matches b elfStart (sectionName b elfStart shoff strings i) (units ".interp")

instance (i : ℕ) : Decidable (NamesInterpreter b elfStart shoff strings i) :=
  inferInstanceAs (Decidable (Matches _ _ _ _))

/-- The interpreters that the sections name can all be opened, and which is the last. -/
def Opens : List ℕ → (last : List ℕ × ℕ) → σ → (last' : List ℕ × ℕ) → σ → Prop
  | [], last, s, last', s' => last = last' ∧ s = s'
  | i :: rest, last, s, last', s' =>
    if NamesInterpreter b elfStart shoff strings i then
      (∃ k < 2 ^ 64, field b elfStart (add64 (interpreterOffset b elfStart shoff i) k) 1 = 0) ∧
      ∃ handle s1, kernel.volumeOpenHandle
        (interpreterName b elfStart (interpreterOffset b elfStart shoff i)) s = .ok (handle, s1) ∧
        handle ≠ 0 ∧ Opens rest (interpreterName b elfStart (interpreterOffset b elfStart shoff i),
          handle) s1 last' s'
    else Opens rest last s last' s'

variable {kernel b elfStart n shoff strings}

/-- What the last pass reads: sections up to an interpreter that cannot be opened. -/
theorem openInterpreters_inside_iff (hn : n < 2 ^ 64) (hend : elfStart + n ≤ 2 ^ 64)
    {l : List ℕ} {last : List ℕ × ℕ} {s : σ} :
    (openInterpreters kernel b elfStart shoff strings l last s).All (Inside elfStart n) ↔
      ∀ i (hi : i < l.length),
        (∃ last' s', Opens kernel b elfStart shoff strings (l.take i) last s last' s') →
          InterpreterInFile b elfStart n shoff strings l[i] := by
  induction l generalizing last s with
  | nil => simp [openInterpreters]
  | cons i l ih =>
    rw [forall_index_cons (Q := fun before i =>
      (∃ last' s', Opens kernel b elfStart shoff strings before last s last' s') →
        InterpreterInFile b elfStart n shoff strings i)]
    unfold openInterpreters
    rw [fetch_inside_iff hn hend (sectionHeader_lt _ _) (by decide), all_bind,
      strcmp_inside_iff hn hend (add64_lt _ _), result_strcmp (add64_lt _ _)]
    simp only [Except.ok.injEq, forall_eq', decide_eq_true_eq]
    by_cases hnamed : NamesInterpreter b elfStart shoff strings i
    · have hmatches : Matches b elfStart
          (add64 strings (field b elfStart (sectionHeader shoff i) 4)) (units ".interp") := hnamed
      have hoff : interpreterOffset b elfStart shoff i < 2 ^ 64 := field_lt.trans_eq (by decide)
      have hword : field b elfStart (add64 (sectionHeader shoff i) 24) 8 =
          interpreterOffset b elfStart shoff i := rfl
      rw [if_pos hmatches, fetch_inside_iff hn hend (add64_lt _ _) (by decide), hword, all_bind,
        serialPrint_inside_iff hn hend hoff]
      simp only [result_serialPrint hoff, Opens, if_pos hnamed]
      constructor
      · rintro ⟨hname, hcompares, hoffset, hends, hrest⟩
        refine ⟨fun _ => ⟨hname, ⟨hcompares, fun _ => hoffset⟩, fun _ => hends⟩, ?_⟩
        rintro k hk ⟨last', s', hterminated, handle, s1, hopen, hne, hopens⟩
        have hturn := hrest () hterminated
        unfold call at hturn
        rw [all_silent_bind] at hturn
        have hlater := hturn (handle, s1) (by rw [hopen]; rfl)
        dsimp only at hlater
        rw [if_neg hne, ih] at hlater
        exact hlater k hk ⟨last', s', hopens⟩
      · rintro ⟨hfirst, hrest⟩
        obtain ⟨hname, hfinds, htext⟩ := hfirst ⟨last, s, rfl, rfl⟩
        refine ⟨hname, hfinds.compares, hfinds.offset hmatches, htext hmatches, ?_⟩
        intro _ hterminated
        unfold call
        rw [all_silent_bind]
        rintro ⟨handle, s1⟩ hopen
        dsimp only
        split_ifs with hzero
        · exact all_pure _
        · refine ih.mpr fun k hk ⟨last', s', hopens⟩ => hrest k hk ?_
          exact ⟨last', s', hterminated, handle, s1, mapError_eq_ok.mp hopen, hzero, hopens⟩
    · have hmatches : ¬ Matches b elfStart
          (add64 strings (field b elfStart (sectionHeader shoff i) 4)) (units ".interp") := hnamed
      rw [if_neg hmatches, ih]
      simp only [Opens, if_neg hnamed]
      constructor
      · rintro ⟨hname, hcompares, hrest⟩
        exact ⟨fun _ => ⟨hname, ⟨hcompares, fun h => absurd h hnamed⟩, fun h => absurd h hnamed⟩,
          hrest⟩
      · rintro ⟨hfirst, hrest⟩
        obtain ⟨hname, hfinds, -⟩ := hfirst ⟨last, s, rfl, rfl⟩
        exact ⟨hname, hfinds.compares, hrest⟩

theorem openInterpreters_range_inside_iff (hn : n < 2 ^ 64) (hend : elfStart + n ≤ 2 ^ 64)
    {shnum : ℕ} {last : List ℕ × ℕ} {s : σ} :
    (openInterpreters kernel b elfStart shoff strings (List.range shnum) last s).All
        (Inside elfStart n) ↔
      ∀ i < shnum, (∃ last' s', Opens kernel b elfStart shoff strings (List.range i) last s
        last' s') → InterpreterInFile b elfStart n shoff strings i := by
  rw [openInterpreters_inside_iff hn hend]
  exact forall_index_range (Q := fun before i =>
    (∃ last' s', Opens kernel b elfStart shoff strings before last s last' s') →
      InterpreterInFile b elfStart n shoff strings i)

end Interpreters

section Claim
variable {σ ε π : Type} (kernel : Kernel σ ε π) (b : ℕ → UInt8) (elfStart n : ℕ)

/-- What is read to find the size of the block. -/
structure ScansInFile : Prop where
  sections : ∀ i < eShnum b elfStart, (∀ j < i, Divides b elfStart (eShoff b elfStart) j) →
    SectionInFile b elfStart n (eShoff b elfStart) (stringTable b elfStart) i
  segments : (∀ i < eShnum b elfStart, Divides b elfStart (eShoff b elfStart) i) →
    ∀ i < ePhnum b elfStart, ∀ off ∈ [16, 40], add64 (programHeader b elfStart i) off + 8 ≤ n

/-- The memory after the loop that fills the segments. -/
def filled (programStart : ℕ) (m : Memory) : ℕ → UInt8 :=
  (loadLoop elfStart programStart (headerCopy elfStart programStart m) loopBound 0
    (copyHeaders elfStart programStart m)).memory.bytes

/-- What is read once there is a block: the table, the sources of the segments whose headers
the turns of the loop find, and the interpreters. -/
structure LoadInFile (programStart : ℕ) (m : Memory) (s : σ) : Prop where
  table : ePhnum m.bytes elfStart = 0 ∨
    ePhoff m.bytes elfStart + ePhnum m.bytes elfStart * sizeofPhdr ≤ n
  sources : ∀ i t, Takes elfStart programStart (headerCopy elfStart programStart m) 0
      (copyHeaders elfStart programStart m) i t →
    (t.header (headerCopy elfStart programStart m) i).InFile n
  interpreters : ∀ i < eShnum (filled elfStart programStart m) elfStart,
    (∃ last s', Opens kernel (filled elfStart programStart m) elfStart (eShoff m.bytes elfStart)
      (stringTable m.bytes elfStart) (List.range i) ([], 0) s last s') →
    InterpreterInFile (filled elfStart programStart m) elfStart n (eShoff m.bytes elfStart)
      (stringTable m.bytes elfStart) i

/-- The numbers of the file keep the loader in the file, as far as it gets. -/
structure KeepsInFile (m : Memory) (s : σ) : Prop where
  tables : TablesInFile m.bytes elfStart n
  scans : checkHeader m.bytes elfStart = .ok () → ScansInFile m.bytes elfStart n
  load : checkHeader m.bytes elfStart = .ok () →
    (∀ i < eShnum m.bytes elfStart, Divides m.bytes elfStart (eShoff m.bytes elfStart) i) →
    blockSize m.bytes elfStart ≠ 0 → ∀ programStart s',
    kernel.virtualAlloc (blockSize m.bytes elfStart) s = .ok (programStart, s') →
    LoadInFile kernel elfStart n programStart m s'

variable {kernel b elfStart n}

/-- The layout of a file that passes. -/
def layoutOf (b : ℕ → UInt8) (elfStart : ℕ) : Layout :=
  { shoff := eShoff b elfStart
    strings := stringTable b elfStart
    programSize := highestAddress (segments b elfStart)
    allocatedSize := blockSize b elfStart }

theorem readLayout_inside_iff (hn : n < 2 ^ 64) (hend : elfStart + n ≤ 2 ^ 64) :
    (readLayout b elfStart : FileReads ε Layout).All (Inside elfStart n) ↔
      TablesInFile b elfStart n ∧
        (checkHeader b elfStart = .ok () → ScansInFile b elfStart n) := by
  unfold readLayout
  rw [all_bind, tables_inside_iff hn hend, result_tables]
  refine and_congr_right fun htables => ?_
  have h64 := htables.header
  have hstart : elfStart < 2 ^ 64 := by omega
  simp only [Except.ok.injEq, forall_eq']
  rw [all_unit_bind, and_iff_right (identify_inside hn hend h64), result_identify hstart]
  refine imp_congr_right fun _ => ?_
  rw [all_unit_bind, scanSections_inside_iff hn hend h64, result_scanSections, all_bind,
    scanSegments_inside_iff hn hend h64]
  constructor
  · rintro ⟨hsections, hsegments⟩
    exact ⟨hsections, fun h => (hsegments h).1⟩
  · rintro ⟨hsections, hsegments⟩
    refine ⟨hsections, fun h => ⟨hsegments h, fun size _ => ?_⟩⟩
    rw [all_require_bind]
    exact fun _ => all_pure _

theorem blockSize_eq :
    alignSize (add64 (highestAddress (segments b elfStart)) programBreakSize) pageSize =
      blockSize b elfStart := by
  unfold blockSize allocatedSize
  rfl

theorem result_readLayout (hstart : elfStart < 2 ^ 64) {layout : Layout} :
    (readLayout b elfStart : FileReads ε Layout).result = .ok layout ↔
      checkHeader b elfStart = .ok () ∧
      (∀ i < eShnum b elfStart, Divides b elfStart (eShoff b elfStart) i) ∧
      blockSize b elfStart ≠ 0 ∧ layout = layoutOf b elfStart := by
  unfold readLayout
  rw [result_bind, result_tables, ok_bind, result_bind, bind_eq_ok]
  constructor
  · rintro ⟨_, hidentify, h⟩
    rw [result_bind, bind_eq_ok] at h
    obtain ⟨_, hsections, h⟩ := h
    rw [result_bind, result_scanSegments, ok_bind] at h
    simp only [blockSize_eq] at h
    rw [result_require_bind] at h
    exact ⟨(result_identify hstart).mp hidentify, result_scanSections.mp hsections,
      h.1, (Except.ok.inj h.2).symm⟩
  · rintro ⟨hidentify, hsections, hsize, rfl⟩
    refine ⟨(), (result_identify hstart).mpr hidentify, ?_⟩
    rw [result_bind, bind_eq_ok]
    refine ⟨(), result_scanSections.mpr hsections, ?_⟩
    rw [result_bind, result_scanSegments, ok_bind]
    simp only [blockSize_eq]
    rw [result_require_bind]
    exact ⟨hsize, rfl⟩

theorem loadIntoBlock_inside_iff (hn : n < 2 ^ 64) (hend : elfStart + n ≤ 2 ^ 64)
    (h64 : 64 ≤ n) {programName : List ℕ} {elfBinary : π} {programStart : ℕ} {m : Memory} {s : σ} :
    (loadIntoBlock kernel elfStart programName elfBinary (layoutOf m.bytes elfStart) programStart
      m s).All (Inside elfStart n) ↔ LoadInFile kernel elfStart n programStart m s := by
  have hoff : ePhoff m.bytes elfStart < 2 ^ 64 := readWord_lt.trans_eq (by decide)
  have hzero : ePhnum m.bytes elfStart * sizeofPhdr = 0 ↔ ePhnum m.bytes elfStart = 0 := by
    unfold sizeofPhdr
    omega
  unfold loadIntoBlock
  rw [all_bind, all_note, inside_iff hn hend hoff, all_bind,
    loadSegments_inside_iff hn hend h64 (Nat.le_add_left _ _), result_loadSegments]
  simp only [Except.ok.injEq, forall_eq', result_note, forall_const]
  rw [fetch_inside_iff hn hend (by decide) (by decide), all_bind,
    openInterpreters_range_inside_iff hn hend]
  constructor
  · rintro ⟨htable, hsources, -, hinterp, -⟩
    exact ⟨htable.imp_left hzero.mp, hsources, hinterp⟩
  · rintro ⟨htable, hsources, hinterp⟩
    refine ⟨htable.imp_left hzero.mpr, hsources, by omega, hinterp, fun r _ => ?_⟩
    obtain ⟨interpreter, s'⟩ := r
    cases interpreter with
    | none =>
      unfold call
      exact all_silent_bind.mpr fun _ _ => all_pure _
    | some interpreter =>
      refine (fetch_inside_iff hn hend (by decide) (by decide)).mpr ⟨by omega, ?_⟩
      unfold call
      exact all_silent_bind.mpr fun _ _ => all_pure _

theorem loadNew_inside_iff (hn : n < 2 ^ 64) (hend : elfStart + n ≤ 2 ^ 64)
    {programName : List ℕ} {elfBinary : π} {m : Memory} {s : σ} :
    (loadNew kernel elfStart programName elfBinary m s).All (Inside elfStart n) ↔
      KeepsInFile kernel elfStart n m s := by
  unfold loadNew call
  rw [all_bind, readLayout_inside_iff hn hend]
  constructor
  · rintro ⟨⟨htables, hscans⟩, hload⟩
    have hstart : elfStart < 2 ^ 64 := by
      have h64 := htables.header
      omega
    refine ⟨htables, hscans, fun hcheck hdivides hsize programStart s1 halloc => ?_⟩
    have hblock := hload _ ((result_readLayout hstart).mpr ⟨hcheck, hdivides, hsize, rfl⟩)
    rw [all_silent_bind] at hblock
    exact (loadIntoBlock_inside_iff hn hend htables.header).mp
      (hblock (programStart, s1) (mapError_eq_ok.mpr halloc))
  · rintro ⟨htables, hscans, hload⟩
    have hstart : elfStart < 2 ^ 64 := by
      have h64 := htables.header
      omega
    refine ⟨⟨htables, hscans⟩, fun layout hlayout => ?_⟩
    obtain ⟨hcheck, hdivides, hsize, rfl⟩ := (result_readLayout hstart).mp hlayout
    rw [all_silent_bind]
    rintro ⟨programStart, s1⟩ halloc
    exact (loadIntoBlock_inside_iff hn hend htables.header).mpr
      (hload hcheck hdivides hsize programStart s1 (mapError_eq_ok.mp halloc))

end Claim

/-- A string that ends in the file is read in the file. -/
theorem endsInFile_of {b : ℕ → UInt8} {elfStart n off k : ℕ} (hn : n < 2 ^ 64)
    (hzero : field b elfStart (add64 off k) 1 = 0) (hend : off + k < n) :
    EndsInFile b elfStart n off := by
  intro j _ hbefore
  have hle : j ≤ k := by
    by_contra hlt
    exact hbefore k (by omega) hzero
  unfold add64
  omega

/-- A section header with its name, its type and its offset. -/
def shdrImage (shName shType shOffset : ℕ) : List UInt8 :=
  word 4 shName ++ word 4 shType ++ word 16 0 ++ word 8 shOffset ++ word 32 0

/-- A file of 260 bytes with one segment, an interpreter and the names of the sections. -/
def interpFile : ℕ → UInt8 :=
  fileAt 0x10000 <|
    [0x7F, 0x45, 0x4C, 0x46, 2] ++ word 11 0 ++ word 2 3 ++ word 2 62 ++ word 12 0 ++ word 8 64 ++
    word 8 120 ++ word 8 0 ++ word 2 1 ++ word 2 0 ++ word 2 2 ++ word 2 1 ++
    (Phdr.image ⟨ptLoad, 256, 0x200, 3, 8, 4096⟩) ++ shdrImage 0 1 256 ++ shdrImage 7 3 248 ++
    (units ".interp").map UInt8.ofNat ++ [0] ++ (units "/ld").map UInt8.ofNat ++ [0]

/-- A kernel that has one block and opens every path. -/
def openKernel : Kernel Unit Unit Unit :=
  { lookup := fun _ _ => .ok none
    rpmalloc := fun _ => .ok ((), ())
    virtualAlloc := fun _ _ => .ok (0x40000000, ())
    volumeOpenHandle := fun _ _ => .ok (5, ())
    unloadElf := fun _ _ _ => .ok ()
    enter := fun _ _ _ _ => .ok () }

theorem interpFile_read : eShoff interpFile 0x10000 = 120 ∧ eShnum interpFile 0x10000 = 2 ∧
    stringTable interpFile 0x10000 = 248 ∧ ePhnum interpFile 0x10000 = 1 ∧
    headerCopy 0x10000 0x40000000 ⟨interpFile, []⟩ = 0x40000040 := by
  decide +kernel

theorem interpFile_keeps : KeepsInFile openKernel 0x10000 260 ⟨interpFile, []⟩ () := by
  obtain ⟨hshoff, hshnum, hstrings, hphnum, hcopy⟩ := interpFile_read
  refine ⟨⟨by decide, by decide +kernel⟩, fun _ => ⟨fun i hi _ => ?_, fun _ => ?_⟩, ?_⟩
  · rw [hshoff, hstrings]
    rw [hshnum] at hi
    have hcases : i = 0 ∨ i = 1 := by omega
    rcases hcases with rfl | rfl
    · exact
        { name := by decide
          type := by decide
          strtab := by decide +kernel
          counted := by decide +kernel
          other := by decide +kernel }
    · exact
        { name := by decide
          type := by decide
          strtab := by decide +kernel
          counted := by decide +kernel
          other := by decide +kernel }
  · rw [hphnum]
    decide +kernel
  · intro _ _ _ programStart s' halloc
    cases halloc
    refine ⟨Or.inr (by decide +kernel), ?_, ?_⟩
    · rw [hcopy]
      intro i t htakes
      rcases takes_iff.mp htakes with ⟨-, ⟨rfl, rfl⟩ | hnext⟩
      · exact Or.inr (by decide +kernel)
      · exact absurd (takes_iff.mp hnext).1 (by decide +kernel)
    · have hcount : eShnum (filled 0x10000 0x40000000 ⟨interpFile, []⟩) 0x10000 = 2 := by
        decide +kernel
      rw [hcount, hshoff, hstrings]
      intro i hi _
      have hcases : i = 0 ∨ i = 1 := by omega
      rcases hcases with rfl | rfl
      · exact
          { name := by decide
            finds := by decide +kernel
            text := fun _ => endsInFile_of (k := 3) (by decide) (by decide +kernel)
              (by decide +kernel) }
      · exact
          { name := by decide
            finds := by decide +kernel
            text := fun hmatches => absurd hmatches (by decide +kernel) }

/-- A file of 64 zeros, but for e_shoff. It is no program. -/
def wildFile : ℕ → UInt8 := fileAt 0x10000 (word 40 0 ++ word 8 (2 ^ 63) ++ word 16 0)

end Enkel.ElfFile
