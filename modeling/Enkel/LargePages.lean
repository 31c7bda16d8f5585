import Enkel.PageTables

/-!
GetPhysicalAddress against the four-level walk of the architecture, over tables
with arbitrary contents such as those of the firmware. The walk ends at a
PDPT entry that maps 1 GiB, where the function reads on as if the page were a
page directory; and the address of a 2 MiB page starts at bit 21, where the
function takes the bits from 12 on. The tables that the kernel builds have
neither.
-/
namespace Enkel.Paging

open MemoryState RadixTable KernelMemory

/-- The bits from `low` to 51 of an entry, in place. -/
def addressBits (entry low : ℕ) : ℕ := entry / 2 ^ low % 2 ^ (52 - low) * 2 ^ low

/-- The walk of the architecture: bit 0 of an entry is P, bit 7 is PS. -/
def pageWalk (memory : ℕ → ℕ → ℕ) (cr3 x : ℕ) : Option ℕ :=
  let pml4e := memory (addressBits cr3 12) (x / 2 ^ 39 % 512)
  if pml4e % 2 = 0 then none else
  let pdpte := memory (addressBits pml4e 12) (x / 2 ^ 30 % 512)
  if pdpte % 2 = 0 then none else
  if pdpte / 2 ^ 7 % 2 = 1 then some (addressBits pdpte 30 + x % 2 ^ 30) else
  let pde := memory (addressBits pdpte 12) (x / 2 ^ 21 % 512)
  if pde % 2 = 0 then none else
  if pde / 2 ^ 7 % 2 = 1 then some (addressBits pde 21 + x % 2 ^ 21) else
  let pte := memory (addressBits pde 12) (x / 2 ^ 12 % 512)
  if pte % 2 = 0 then none else
  some (addressBits pte 12 + x % 2 ^ 12)

section Entries
variable (k : KernelMemory) (x : ℕ)

/-- The entries that are read one after the other for an address. -/
def pml4e : ℕ := k.entries (addressBits k.cr3 12) (x / 2 ^ 39 % 512)
def pdpte : ℕ := k.entries (addressBits (pml4e k x) 12) (x / 2 ^ 30 % 512)
def pde : ℕ := k.entries (addressBits (pdpte k x) 12) (x / 2 ^ 21 % 512)
def pte : ℕ := k.entries (addressBits (pde k x) 12) (x / 2 ^ 12 % 512)

/-- GetPhysicalAddress returns the translation of the architecture, and
INVALID_ADDRESS exactly when there is none. -/
def Translates : Prop :=
  k.getPhysicalAddress x true = (pageWalk k.entries k.cr3 x).getD invalidAddress ∧
    (k.getPhysicalAddress x true = invalidAddress ↔ pageWalk k.entries k.cr3 x = none)

/-- What lies in the 1 GiB page, read as a page directory, maps the address to where
the page has it. -/
def ReadsAsDirectory : Prop :=
  pde k x % 2 = 1 ∧
    if pde k x / 2 ^ 7 % 2 = 1 then
      addressBits (pde k x) 12 = addressBits (pdpte k x) 30 + x / 2 ^ 21 % 512 * 2 ^ 21
    else
      pte k x % 2 = 1 ∧
        addressBits (pte k x) 12 = addressBits (pdpte k x) 30 + x / 2 ^ 12 % 2 ^ 18 * 2 ^ 12

/-- The walk meets no PDPT entry with PS set, unless the page reads as a directory, and
bits 12 to 20 of a directory entry with PS set are zero. -/
def LargePagesAgree : Prop :=
  pml4e k x % 2 = 1 → pdpte k x % 2 = 1 →
    if pdpte k x / 2 ^ 7 % 2 = 1 then ReadsAsDirectory k x
    else pde k x % 2 = 1 → pde k x / 2 ^ 7 % 2 = 1 → pde k x / 2 ^ 12 % 2 ^ 9 = 0

instance : Decidable (ReadsAsDirectory k x) := inferInstanceAs (Decidable (_ ∧ _))

instance : Decidable (LargePagesAgree k x) := inferInstanceAs (Decidable (_ → _ → _))

end Entries

section Walk
variable {k : KernelMemory} {x : ℕ}

theorem and_addressMask (e : ℕ) : e &&& pml4AddressMask = addressBits e 12 :=
  and_pml4AddressMask e

theorem and_largeOffset (x : ℕ) : x &&& 0x1FFFFF = x % 2 ^ 21 :=
  Nat.and_two_pow_sub_one_eq_mod x 21

theorem addressBits_lt (e low : ℕ) (h : low ≤ 52) : addressBits e low < 2 ^ 52 := by
  unfold addressBits
  calc e / 2 ^ low % 2 ^ (52 - low) * 2 ^ low
      < 2 ^ (52 - low) * 2 ^ low :=
        Nat.mul_lt_mul_of_pos_right (Nat.mod_lt _ (Nat.two_pow_pos _)) (Nat.two_pow_pos _)
    _ = 2 ^ 52 := by rw [← pow_add, Nat.sub_add_cancel h]

/-- GetPhysicalAddress in terms of the entries. -/
theorem getPhysicalAddress_entries : k.getPhysicalAddress x true =
    if pml4e k x % 2 = 0 then invalidAddress else
    if pdpte k x % 2 = 0 then invalidAddress else
    if pde k x % 2 = 0 then invalidAddress else
    if pde k x / 2 ^ 7 % 2 = 1 then addressBits (pde k x) 12 + x % 2 ^ 21 else
    if pte k x % 2 = 0 then invalidAddress else addressBits (pte k x) 12 + x % 2 ^ 12 := by
  have hps : ∀ e, (e &&& page2MB ≠ 0) = (e / 2 ^ 7 % 2 = 1) := fun e => by
    rw [and_page2MB]
    exact propext (by omega)
  unfold KernelMemory.getPhysicalAddress
  simp only [and_present, and_addressMask, and_largeOffset, and_pageOffset, pml4Index_eq,
    pdptIndex_eq, pdIndex_eq, ptIndex_eq, hps, if_true]
  rfl

theorem pageWalk_entries : pageWalk k.entries k.cr3 x =
    if pml4e k x % 2 = 0 then none else
    if pdpte k x % 2 = 0 then none else
    if pdpte k x / 2 ^ 7 % 2 = 1 then some (addressBits (pdpte k x) 30 + x % 2 ^ 30) else
    if pde k x % 2 = 0 then none else
    if pde k x / 2 ^ 7 % 2 = 1 then some (addressBits (pde k x) 21 + x % 2 ^ 21) else
    if pte k x % 2 = 0 then none else some (addressBits (pte k x) 12 + x % 2 ^ 12) := rfl

/-- An address that the walk finds is not INVALID_ADDRESS. -/
theorem pageWalk_lt {f : ℕ} (h : pageWalk k.entries k.cr3 x = some f) : f < invalidAddress := by
  have h30 := addressBits_lt (pdpte k x) 30 (by omega)
  have h21 := addressBits_lt (pde k x) 21 (by omega)
  have h12 := addressBits_lt (pte k x) 12 (by omega)
  rw [pageWalk_entries] at h
  split_ifs at h <;> simp only [Option.some.injEq] at h <;> unfold invalidAddress <;> omega

theorem translates_of_eq
    (h : k.getPhysicalAddress x true = (pageWalk k.entries k.cr3 x).getD invalidAddress) :
    Translates k x := by
  refine ⟨h, ?_⟩
  rw [h]
  cases hwalk : pageWalk k.entries k.cr3 x with
  | none => exact iff_of_true rfl rfl
  | some f => exact iff_of_false (pageWalk_lt hwalk).ne (by simp)

/-- An address in a 1 GiB page: the function agrees if the page reads as a
directory. -/
theorem gigabyte_page_iff (h4 : pml4e k x % 2 = 1) (h3 : pdpte k x % 2 = 1) :
    k.getPhysicalAddress x true = addressBits (pdpte k x) 30 + x % 2 ^ 30 ↔
      ReadsAsDirectory k x := by
  have h30 := addressBits_lt (pdpte k x) 30 (by omega)
  rw [getPhysicalAddress_entries, if_neg (by omega), if_neg (by omega)]
  unfold ReadsAsDirectory invalidAddress
  by_cases h2 : pde k x % 2 = 0
  · rw [if_pos h2]
    omega
  · by_cases hps2 : pde k x / 2 ^ 7 % 2 = 1
    · rw [if_neg h2, if_pos hps2, if_pos hps2]
      omega
    · rw [if_neg h2, if_neg hps2, if_neg hps2]
      by_cases h1 : pte k x % 2 = 0
      · rw [if_pos h1]
        omega
      · rw [if_neg h1]
        omega

/-- An address in a 2 MiB page: the function agrees if the bits below the address of
the page are zero. -/
theorem large_page_iff (h4 : pml4e k x % 2 = 1) (h3 : pdpte k x % 2 = 1)
    (h2 : pde k x % 2 = 1) (hps : pde k x / 2 ^ 7 % 2 = 1) :
    k.getPhysicalAddress x true = addressBits (pde k x) 21 + x % 2 ^ 21 ↔
      pde k x / 2 ^ 12 % 2 ^ 9 = 0 := by
  rw [getPhysicalAddress_entries, if_neg (by omega), if_neg (by omega), if_neg (by omega),
    if_pos hps]
  unfold addressBits
  omega

/-- For every contents of the tables: GetPhysicalAddress translates an address as the
architecture does exactly if the large pages on the walk agree. -/
theorem getPhysicalAddress_translates_iff (k : KernelMemory) (x : ℕ) :
    Translates k x ↔ LargePagesAgree k x := by
  have hwalk := pageWalk_entries (k := k) (x := x)
  constructor
  · rintro ⟨h, -⟩ h4 h3
    rw [hwalk, if_neg (by omega), if_neg (by omega)] at h
    by_cases hps : pdpte k x / 2 ^ 7 % 2 = 1
    · rw [if_pos hps] at h ⊢
      exact (gigabyte_page_iff h4 h3).mp h
    · rw [if_neg hps] at h ⊢
      intro h2 hps2
      rw [if_neg (by omega), if_pos hps2] at h
      exact (large_page_iff h4 h3 h2 hps2).mp h
  · intro hagree
    apply translates_of_eq
    rw [hwalk]
    by_cases h4 : pml4e k x % 2 = 0
    · rw [getPhysicalAddress_entries, if_pos h4, if_pos h4]
      rfl
    by_cases h3 : pdpte k x % 2 = 0
    · rw [getPhysicalAddress_entries, if_neg h4, if_pos h3, if_neg h4, if_pos h3]
      rfl
    have hagree := hagree (by omega) (by omega)
    rw [if_neg h4, if_neg h3]
    by_cases hps : pdpte k x / 2 ^ 7 % 2 = 1
    · rw [if_pos hps] at hagree ⊢
      exact (gigabyte_page_iff (by omega) (by omega)).mpr hagree
    rw [if_neg hps] at hagree ⊢
    by_cases h2 : pde k x % 2 = 0
    · rw [getPhysicalAddress_entries, if_neg h4, if_neg h3, if_pos h2, if_pos h2]
      rfl
    rw [if_neg h2]
    by_cases hps2 : pde k x / 2 ^ 7 % 2 = 1
    · rw [if_pos hps2]
      exact (large_page_iff (by omega) (by omega) (by omega) hps2).mpr
        (hagree (by omega) hps2)
    rw [getPhysicalAddress_entries, if_neg h4, if_neg h3, if_neg h2, if_neg hps2, if_neg hps2]
    split_ifs <;> rfl

end Walk

/-- A kernel that runs on tables of the firmware: a 1 GiB page at 1 GiB, and at 2 GiB
a 2 MiB page with bit 12 of its entry set, which selects a memory type. -/
def onFirmwareTables : KernelMemory :=
  { physicalMemoryState := MemoryState.init 0x100000000
    virtualMemoryState := MemoryState.init pageMask
    entries := fun table index =>
      if table = 0x1000 ∧ index = 0 then 0x2003
      else if table = 0x2000 ∧ index = 1 then 0x40000083
      else if table = 0x2000 ∧ index = 2 then 0x3003
      else if table = 0x3000 ∧ index = 0 then 0x80001083
      else 0
    pml4 := 0x100000
    initialPageTableEntries := 0x200000
    pagingFree := []
    nextFreePageTableEntriesBlock := 0
    pml4Set := false
    cr3 := 0x1000
    linkedBlocks := []
    blocks := []
    heapRequests := [] }

theorem firmware_pages_not_translated :
    (pageWalk onFirmwareTables.entries onFirmwareTables.cr3 0x40000000 = some 0x40000000 ∧
      onFirmwareTables.getPhysicalAddress 0x40000000 true = invalidAddress ∧
      ¬ Translates onFirmwareTables 0x40000000) ∧
    (pageWalk onFirmwareTables.entries onFirmwareTables.cr3 0x80000000 = some 0x80000000 ∧
      onFirmwareTables.getPhysicalAddress 0x80000000 true = 0x80001000 ∧
      ¬ Translates onFirmwareTables 0x80000000) := by
  have hgigabyte : pageWalk onFirmwareTables.entries onFirmwareTables.cr3 0x40000000 =
      some 0x40000000 := by decide
  have hlarge : pageWalk onFirmwareTables.entries onFirmwareTables.cr3 0x80000000 =
      some 0x80000000 := by decide
  have hinvalid : onFirmwareTables.getPhysicalAddress 0x40000000 true = invalidAddress := by
    decide
  have hmoved : onFirmwareTables.getPhysicalAddress 0x80000000 true = 0x80001000 := by decide
  refine ⟨⟨hgigabyte, hinvalid, fun h => ?_⟩, hlarge, hmoved, fun h => ?_⟩
  · have heq := h.1
    rw [hgigabyte, hinvalid] at heq
    exact absurd heq (by decide)
  · have heq := h.1
    rw [hlarge, hmoved] at heq
    exact absurd heq (by decide)

/-- The tables that the kernel builds have no large pages. -/
theorem Tables.largePagesAgree {k : KernelMemory} (hk : Tables k)
    (hcr3 : k.cr3 &&& pml4AddressMask = k.pml4) (x : ℕ) : LargePagesAgree k x := by
  intro h4 h3
  have hform : ∀ q t i, q.length ≤ 2 → tableAt k q = some t → k.entries t i % 2 = 1 →
      k.entries t i / 2 ^ 7 % 2 = 0 ∧
        tableAt k (q ++ [i]) = some (addressBits (k.entries t i) 12) := by
    intro q t i hq ht hpresent
    rcases hk.entry_form q t i hq ht with hzero | ⟨f, hf, hentry⟩
    · rw [hzero] at hpresent
      exact absurd hpresent (by decide)
    · have hmod := hf.mod
      rw [tableAt_snoc ht, next_eq_some hf hentry, ← and_addressMask, hentry,
        flagged_address hf (by decide)]
      exact ⟨by omega, rfl⟩
  have hroot : tableAt k [] = some (addressBits k.cr3 12) := by
    rw [← and_addressMask, hcr3]
    rfl
  obtain ⟨-, h1⟩ := hform _ _ _ (by simp) hroot h4
  obtain ⟨hps, h2⟩ := hform _ _ _ (by simp) h1 h3
  have hps : pdpte k x / 2 ^ 7 % 2 = 0 := hps
  rw [if_neg (by omega)]
  intro hpresent hlarge
  have hsmall : pde k x / 2 ^ 7 % 2 = 0 := (hform _ _ _ (by simp) h2 hpresent).1
  omega

end Enkel.Paging
