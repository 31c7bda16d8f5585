import Enkel.Paging
import Enkel.RadixTable

/-!
The page tables as a map from pages to leaf words. The three upper levels are
tables linked by their entries; the page of an address is found by walking the
three upper indices and reading the fourth in the page table reached. Entries
of the upper levels have one form, so GetPhysicalAddress never meets a large
page in tables that MapPages has built, and returns what the leaf word says.
-/
namespace Enkel.Paging

open Outcome MemoryState RadixTable KernelMemory

theorem pml4Index_eq (x : ℕ) : pml4Index x = x / 2 ^ 39 % 512 := by
  unfold pml4Index
  rw [Nat.shiftRight_eq_div_pow, show (0x1FF : ℕ) = 2 ^ 9 - 1 by rfl, Nat.and_two_pow_sub_one_eq_mod]

theorem pdptIndex_eq (x : ℕ) : pdptIndex x = x / 2 ^ 30 % 512 := by
  unfold pdptIndex
  rw [Nat.shiftRight_eq_div_pow, show (0x1FF : ℕ) = 2 ^ 9 - 1 by rfl, Nat.and_two_pow_sub_one_eq_mod]

theorem pdIndex_eq (x : ℕ) : pdIndex x = x / 2 ^ 21 % 512 := by
  unfold pdIndex
  rw [Nat.shiftRight_eq_div_pow, show (0x1FF : ℕ) = 2 ^ 9 - 1 by rfl, Nat.and_two_pow_sub_one_eq_mod]

theorem ptIndex_eq (x : ℕ) : ptIndex x = x / 2 ^ 12 % 512 := by
  unfold ptIndex
  rw [Nat.shiftRight_eq_div_pow, show (0x1FF : ℕ) = 2 ^ 9 - 1 by rfl, Nat.and_two_pow_sub_one_eq_mod]

theorem and_present (x : ℕ) : x &&& present = x % 2 :=
  Nat.and_two_pow_sub_one_eq_mod x 1

theorem and_pml4AddressMask (x : ℕ) : x &&& pml4AddressMask = x / 4096 % 2 ^ 40 * 4096 :=
  Words.and_span x (show 12 ≤ 52 by omega)

theorem and_pmReservedMask (x : ℕ) : x &&& pmReservedMask = x / 2 ^ 48 % 2 ^ 4 * 2 ^ 48 :=
  Words.and_span x (show 48 ≤ 52 by omega)

theorem and_page2MB (x : ℕ) : x &&& page2MB = x / 2 ^ 7 % 2 * 2 ^ 7 :=
  Words.and_two_pow x 7

theorem and_pml4ReservedMask (x : ℕ) : x &&& pml4ReservedMask =
    x / 2 ^ 48 % 2 ^ 4 * 2 ^ 48 ||| x / 2 ^ 7 % 2 * 2 ^ 7 := by
  have h := Nat.and_or_distrib_left x pmReservedMask page2MB
  rw [and_pmReservedMask, and_page2MB] at h
  exact h

theorem and_pageOffset (x : ℕ) : x &&& 0xFFF = x % 4096 :=
  Nat.and_two_pow_sub_one_eq_mod x 12

/-- A frame or table address as an entry stores it. -/
structure PageAddress (a : ℕ) : Prop where
  aligned : Aligned a
  lt : a < 2 ^ 48

theorem PageAddress.mod {a : ℕ} (h : PageAddress a) : a % 4096 = 0 := h.aligned

theorem or_flags {a b : ℕ} (ha : Aligned a) (hb : b < 4096) : a ||| b = a + b :=
  Words.or_of_dvd (k := 12) (Nat.dvd_of_mod_eq_zero ha) hb

theorem tableEntry_eq {page : ℕ} (h : Aligned page) : tableEntry page = page + 7 := by
  unfold tableEntry
  rw [Nat.or_assoc, Nat.or_assoc]
  exact or_flags h (by decide)

section Flags
variable {a f : ℕ}

theorem flagged_present (h : PageAddress a) : (a + f) % 2 = f % 2 := by
  have := h.mod
  omega

theorem flagged_address (h : PageAddress a) (hf : f < 4096) :
    (a + f) &&& pml4AddressMask = a := by
  have := h.mod
  have := h.lt
  rw [and_pml4AddressMask]
  omega

theorem flagged_pmReserved (h : PageAddress a) (hf : f < 4096) :
    (a + f) &&& pmReservedMask = 0 := by
  have := h.mod
  have := h.lt
  rw [and_pmReservedMask]
  omega

theorem flagged_userCpl (h : PageAddress a) : (a + f) &&& userCpl = f &&& userCpl := by
  have hspan : ∀ x, x &&& userCpl = x / 2 ^ 2 % 2 ^ 1 * 2 ^ 2 := fun x =>
    Words.and_span x (show 2 ≤ 3 by omega)
  have := h.mod
  rw [hspan, hspan]
  omega

end Flags

theorem tableEntry_reserved {page reservedMask : ℕ} (h : PageAddress page)
    (hmask : reservedMask = pmReservedMask ∨ reservedMask = pml4ReservedMask) :
    tableEntry page &&& reservedMask = 0 := by
  have hmod := h.mod
  have hlt := h.lt
  rw [tableEntry_eq h.aligned]
  rcases hmask with rfl | rfl
  · exact flagged_pmReserved h (by decide)
  · rw [and_pml4ReservedMask, show (page + 7) / 2 ^ 48 = 0 by omega,
      show (page + 7) / 2 ^ 7 % 2 = 0 by omega]
    rfl

/-- The table that an entry of an upper level points to. -/
def next (entries : ℕ → ℕ → ℕ) (table index : ℕ) : Option ℕ :=
  if entries table index &&& present ≠ 0 then some (entries table index &&& pml4AddressMask)
  else none

/-- The indices of the three upper levels. -/
def path (x : ℕ) : List ℕ := [pml4Index x, pdptIndex x, pdIndex x]

/-- The leaf word of the page of `x`, zero when a table is missing on the way. -/
def word (k : KernelMemory) (x : ℕ) : ℕ :=
  match walk (next k.entries) k.pml4 (path x) with
  | some pt => k.entries pt (ptIndex x)
  | none => 0

/-- The table reached by a path from the PML4. -/
def tableAt (k : KernelMemory) (q : List ℕ) : Option ℕ := walk (next k.entries) k.pml4 q

theorem path_length (x : ℕ) : (path x).length = 3 := rfl

theorem tableAt_snoc {k : KernelMemory} {q : List ℕ} {t i : ℕ} (ht : tableAt k q = some t) :
    tableAt k (q ++ [i]) = next k.entries t i := by
  unfold tableAt at ht ⊢
  rw [RadixTable.walk_snoc, ht]
  rfl

theorem eq_page_of_indices {x y : ℕ} (hx : x < 2 ^ 48) (hy : y < 2 ^ 48)
    (hpath : path x = path y) (hpt : ptIndex x = ptIndex y) : x / 4096 = y / 4096 := by
  simp only [path, List.cons.injEq, and_true] at hpath
  obtain ⟨h4, h3, h2⟩ := hpath
  rw [pml4Index_eq, pml4Index_eq] at h4
  rw [pdptIndex_eq, pdptIndex_eq] at h3
  rw [pdIndex_eq, pdIndex_eq] at h2
  rw [ptIndex_eq, ptIndex_eq] at hpt
  omega

theorem path_congr {x y : ℕ} (h : x / 4096 = y / 4096) : path x = path y := by
  unfold path
  rw [pml4Index_eq, pml4Index_eq, pdptIndex_eq, pdptIndex_eq, pdIndex_eq, pdIndex_eq]
  have h4 : x / 2 ^ 39 = y / 2 ^ 39 := by omega
  have h3 : x / 2 ^ 30 = y / 2 ^ 30 := by omega
  have h2 : x / 2 ^ 21 = y / 2 ^ 21 := by omega
  rw [h4, h3, h2]

/-- The leaf word depends on the page only. -/
theorem word_congr (k : KernelMemory) {x y : ℕ} (h : x / 4096 = y / 4096) :
    word k x = word k y := by
  have hpt : ptIndex x = ptIndex y := by
    rw [ptIndex_eq, ptIndex_eq]
    omega
  unfold word
  rw [path_congr h, hpt]

/-- The form of the upper levels that MapPages builds. -/
structure Tables (k : KernelMemory) : Prop where
  separate : Separate (next k.entries) k.pml4 3
  entry_form : ∀ q t i, q.length ≤ 2 → tableAt k q = some t →
    k.entries t i = 0 ∨ ∃ f, PageAddress f ∧ k.entries t i = f + 7

theorem next_eq_some {entries : ℕ → ℕ → ℕ} {t i f : ℕ} (hf : PageAddress f)
    (h : entries t i = f + 7) : next entries t i = some f := by
  unfold next
  rw [and_present, h, flagged_present hf, flagged_address hf (by decide)]
  rfl

theorem next_eq_none_iff {entries : ℕ → ℕ → ℕ} {t i : ℕ} :
    next entries t i = none ↔ entries t i &&& present = 0 := by
  unfold next
  by_cases h : entries t i &&& present = 0 <;> simp [h]

theorem Tables.next_pageAddress {k : KernelMemory} (hk : Tables k) {q : List ℕ} {t i u : ℕ}
    (hq : q.length ≤ 2) (ht : tableAt k q = some t) (h : next k.entries t i = some u) :
    PageAddress u ∧ k.entries t i = u + 7 := by
  rcases hk.entry_form q t i hq ht with h0 | ⟨f, hf, hentry⟩
  · have hnone : next k.entries t i = none := by
      rw [next_eq_none_iff, h0]
      rfl
    rw [hnone] at h
    exact absurd h (by simp)
  · rw [next_eq_some hf hentry] at h
    cases h
    exact ⟨hf, hentry⟩

/-- In tables of this form the software walk returns what the leaf word says. -/
theorem getPhysicalAddress_eq {k : KernelMemory} (hk : Tables k) (x : ℕ) :
    k.getPhysicalAddress x false =
      if word k x &&& present = 0 then invalidAddress
      else (word k x &&& pml4AddressMask) + x % 4096 := by
  have hzero : (0 : ℕ) &&& present = 0 := rfl
  unfold KernelMemory.getPhysicalAddress
  simp only [Bool.false_eq_true, if_false]
  cases h4 : next k.entries k.pml4 (pml4Index x) with
  | none =>
    have hw : word k x = 0 := by simp [word, path, walk, h4]
    rw [if_pos (next_eq_none_iff.mp h4), hw, if_pos hzero]
  | some pdpt =>
    have ht4 : tableAt k [pml4Index x] = some pdpt := by simp [tableAt, walk, h4]
    obtain ⟨hp4, he4⟩ := hk.next_pageAddress (q := []) (by decide) rfl h4
    have hpres4 : ¬ k.entries k.pml4 (pml4Index x) &&& present = 0 := by
      rw [← next_eq_none_iff, h4]
      simp
    have haddr4 : k.entries k.pml4 (pml4Index x) &&& pml4AddressMask = pdpt := by
      rw [he4]
      exact flagged_address hp4 (by decide)
    rw [if_neg hpres4, haddr4]
    cases h3 : next k.entries pdpt (pdptIndex x) with
    | none =>
      have hw : word k x = 0 := by simp [word, path, walk, h4, h3]
      rw [if_pos (next_eq_none_iff.mp h3), hw, if_pos hzero]
    | some pd =>
      have ht3 : tableAt k [pml4Index x, pdptIndex x] = some pd := by
        simp [tableAt, walk, h4, h3]
      obtain ⟨hp3, he3⟩ := hk.next_pageAddress (q := [pml4Index x]) (by simp) ht4 h3
      have hpres3 : ¬ k.entries pdpt (pdptIndex x) &&& present = 0 := by
        rw [← next_eq_none_iff, h3]
        simp
      have haddr3 : k.entries pdpt (pdptIndex x) &&& pml4AddressMask = pd := by
        rw [he3]
        exact flagged_address hp3 (by decide)
      rw [if_neg hpres3, haddr3]
      cases h2 : next k.entries pd (pdIndex x) with
      | none =>
        have hw : word k x = 0 := by simp [word, path, walk, h4, h3, h2]
        rw [if_pos (next_eq_none_iff.mp h2), hw, if_pos hzero]
      | some pt =>
        obtain ⟨hp2, he2⟩ := hk.next_pageAddress (q := [pml4Index x, pdptIndex x]) (by simp)
          ht3 h2
        have hpres2 : ¬ k.entries pd (pdIndex x) &&& present = 0 := by
          rw [← next_eq_none_iff, h2]
          simp
        have haddr2 : k.entries pd (pdIndex x) &&& pml4AddressMask = pt := by
          rw [he2]
          exact flagged_address hp2 (by decide)
        have hlarge : ¬ k.entries pd (pdIndex x) &&& page2MB ≠ 0 := by
          have hmod := hp2.mod
          rw [he2, and_page2MB]
          omega
        have hw : word k x = k.entries pt (ptIndex x) := by simp [word, path, walk, h4, h3, h2]
        rw [if_neg hpres2, if_neg hlarge, haddr2, hw, and_pageOffset]

/-- The frame named by the leaf word of a page. -/
def frame (k : KernelMemory) (x : ℕ) : Option ℕ :=
  if word k x &&& present = 0 then none else some (word k x &&& pml4AddressMask)

theorem getPhysicalAddress_eq_frame {k : KernelMemory} (hk : Tables k) (x : ℕ) :
    k.getPhysicalAddress x false = (frame k x).elim invalidAddress fun f => f + x % 4096 := by
  rw [getPhysicalAddress_eq hk]
  unfold frame
  by_cases h : word k x &&& present = 0 <;> simp [h]

theorem frame_eq_some {k : KernelMemory} {x f : ℕ} (h : frame k x = some f) :
    Aligned f ∧ f < 2 ^ 52 := by
  unfold frame at h
  split_ifs at h
  cases h
  rw [and_pml4AddressMask]
  unfold Aligned
  omega

theorem getPhysicalAddress_ne_invalid {k : KernelMemory} (hk : Tables k) (x : ℕ) :
    k.getPhysicalAddress x false ≠ invalidAddress ↔ frame k x ≠ none := by
  rw [getPhysicalAddress_eq_frame hk]
  cases hf : frame k x with
  | none => simp
  | some f =>
    have hlt := (frame_eq_some hf).2
    simp only [Option.elim_some, ne_eq, reduceCtorEq, not_false_eq_true, iff_true, invalidAddress]
    omega

theorem getPhysicalAddress_eq_iff {k : KernelMemory} (hk : Tables k) {x p : ℕ}
    (hx : Aligned x) (hp : p < 2 ^ 52) :
    k.getPhysicalAddress x false = p ↔ frame k x = some p := by
  rw [getPhysicalAddress_eq_frame hk]
  unfold Aligned at hx
  cases hf : frame k x with
  | none =>
    simp only [Option.elim_none, reduceCtorEq, iff_false, invalidAddress]
    omega
  | some f => simp [hx]

theorem frame_congr {k k' : KernelMemory} {x y : ℕ} (h : word k' x = word k y) :
    frame k' x = frame k y := by
  unfold frame
  rw [h]

theorem frame_of_word_eq_zero {k : KernelMemory} {x : ℕ} (h : word k x = 0) :
    frame k x = none := by
  unfold frame
  rw [h]
  rfl

theorem word_of_tableAt {k : KernelMemory} {x pt : ℕ} (h : tableAt k (path x) = some pt) :
    word k x = k.entries pt (ptIndex x) := by
  unfold tableAt at h
  simp [word, h]

theorem word_of_tableAt_none {k : KernelMemory} {x : ℕ} (h : tableAt k (path x) = none) :
    word k x = 0 := by
  unfold tableAt at h
  simp [word, h]

/-- Below a missing table every leaf word is zero. -/
theorem word_of_prefix_none {k : KernelMemory} {q : List ℕ} {x : ℕ} (h : tableAt k q = none)
    (hq : q <+: path x) : word k x = 0 :=
  word_of_tableAt_none (walk_none_of_initial h hq)

section Agree
variable {k k' : KernelMemory}

/-- Tables may be changed where no walk reads them. -/
theorem tableAt_agree (hpml4 : k'.pml4 = k.pml4)
    (h : ∀ q t, q.length < 3 → tableAt k q = some t → ∀ i, k'.entries t i = k.entries t i)
    {q : List ℕ} (hq : q.length ≤ 3) : tableAt k' q = tableAt k q := by
  unfold tableAt
  rw [hpml4]
  refine walk_congr (fun r t hr ht i => ?_) q hq
  unfold next
  rw [h r t hr ht i]

theorem Tables.agree (hk : Tables k) (hpml4 : k'.pml4 = k.pml4)
    (h : ∀ q t, q.length < 3 → tableAt k q = some t → ∀ i, k'.entries t i = k.entries t i) :
    Tables k' := by
  constructor
  · intro p q t hp hq hpt hqt
    have hpt' : tableAt k p = some t := by rw [← tableAt_agree hpml4 h hp]; exact hpt
    have hqt' : tableAt k q = some t := by rw [← tableAt_agree hpml4 h hq]; exact hqt
    exact hk.separate p q t hp hq hpt' hqt'
  · intro q t i hq ht
    have ht' : tableAt k q = some t := by rw [← tableAt_agree hpml4 h (by omega)]; exact ht
    rw [h q t (by omega) ht' i]
    exact hk.entry_form q t i hq ht'

theorem word_agree (hpml4 : k'.pml4 = k.pml4)
    (h : ∀ q t, q.length ≤ 3 → tableAt k q = some t → ∀ i, k'.entries t i = k.entries t i)
    (x : ℕ) : word k' x = word k x := by
  have hat : tableAt k' (path x) = tableAt k (path x) :=
    tableAt_agree hpml4 (fun q t hq => h q t (by omega)) (path_length x).le
  cases hpt : tableAt k (path x) with
  | none => rw [word_of_tableAt_none hpt, word_of_tableAt_none (hat.trans hpt)]
  | some pt =>
    rw [word_of_tableAt hpt, word_of_tableAt (hat.trans hpt), h _ pt (path_length x).le hpt]

end Agree

theorem setEntry_entries (k : KernelMemory) (t i e t' i' : ℕ) :
    (k.setEntry t i e).entries t' i' = if t' = t ∧ i' = i then e else k.entries t' i' := by
  unfold KernelMemory.setEntry
  by_cases ht : t' = t
  · subst ht
    by_cases hi : i' = i
    · simp [hi]
    · simp [hi]
  · simp [ht]

section Link
variable {k : KernelMemory} {q : List ℕ} {t i page : ℕ}

theorem next_setEntry (hpage : PageAddress page) (hclear : ∀ j, k.entries page j = 0) :
    next (k.setEntry t i (tableEntry page)).entries = link (next k.entries) t i page := by
  funext t' i'
  have hform := tableEntry_eq hpage.aligned
  unfold link
  split_ifs with h h'
  · exact next_eq_some hpage (by rw [setEntry_entries, if_pos h, hform])
  · rw [next_eq_none_iff, setEntry_entries, if_neg h, h', hclear i']
    rfl
  · unfold next
    rw [setEntry_entries, if_neg h]

variable (hk : Tables k) (hq : q.length ≤ 2) (ht : tableAt k q = some t)
  (hpage : PageAddress page) (hfresh : ∀ r, r.length ≤ 3 → tableAt k r ≠ some page)
  (hclear : ∀ j, k.entries page j = 0)
include hk hq ht hpage hfresh hclear

/-- Pointing an entry to a cleared page outside the tables adds that page and
cuts off what the entry led to before. -/
theorem tableAt_link {r : List ℕ} (hr : r.length ≤ 3) :
    tableAt (k.setEntry t i (tableEntry page)) r =
      if q ++ [i] <+: r then (if r = q ++ [i] then some page else none) else tableAt k r := by
  unfold tableAt
  rw [next_setEntry hpage hclear]
  exact walk_link hk.separate (by omega) ht hfresh r hr

theorem tables_link : Tables (k.setEntry t i (tableEntry page)) := by
  have hne : t ≠ page := fun h => hfresh q (by omega) (h ▸ ht)
  constructor
  · rw [next_setEntry hpage hclear]
    exact separate_link hk.separate (by omega) ht hfresh
  · intro r u j hr hu
    rw [tableAt_link hk hq ht hpage hfresh hclear (by omega)] at hu
    rw [setEntry_entries]
    split_ifs with hj
    · exact Or.inr ⟨page, hpage, tableEntry_eq hpage.aligned⟩
    · split_ifs at hu with h1 h2
      · cases hu
        exact Or.inl (hclear j)
      · exact hk.entry_form r u j hr hu

theorem word_link (x : ℕ) :
    word (k.setEntry t i (tableEntry page)) x =
      if q ++ [i] <+: path x then 0 else word k x := by
  have hat := tableAt_link (i := i) hk hq ht hpage hfresh hclear (path_length x).le
  have hne : t ≠ page := fun h => hfresh q (by omega) (h ▸ ht)
  split_ifs with h
  · rw [if_pos h] at hat
    split_ifs at hat with hself
    · rw [word_of_tableAt hat, setEntry_entries, if_neg (fun h => hne h.1.symm), hclear]
    · exact word_of_tableAt_none hat
  · rw [if_neg h] at hat
    cases hpt : tableAt k (path x) with
    | none => rw [word_of_tableAt_none hpt, word_of_tableAt_none (hat.trans hpt)]
    | some pt =>
      have hpt' : pt ≠ t := by
        rintro rfl
        have := congrArg List.length (hk.separate _ _ _ (path_length x).le (by omega) hpt ht)
        rw [path_length] at this
        omega
      rw [word_of_tableAt hpt, word_of_tableAt (hat.trans hpt), setEntry_entries,
        if_neg (fun h => hpt' h.1)]

end Link

section Leaf
variable {k : KernelMemory} {x pt : ℕ}

theorem leaf_not_upper (hk : Tables k) (hpt : tableAt k (path x) = some pt) (e : ℕ)
    (q : List ℕ) (t : ℕ) (hq : q.length < 3) (ht : tableAt k q = some t) (i : ℕ) :
    (k.setEntry pt (ptIndex x) e).entries t i = k.entries t i := by
  have hne : t ≠ pt := by
    rintro rfl
    have := congrArg List.length (hk.separate _ _ _ (path_length x).le (by omega) hpt ht)
    rw [path_length] at this
    omega
  rw [setEntry_entries, if_neg (fun h => hne h.1)]

/-- Writing the leaf word of a page changes that word alone. -/
theorem word_setLeaf (hk : Tables k) (hpt : tableAt k (path x) = some pt) (e : ℕ) {y : ℕ}
    (hx : x < 2 ^ 48) (hy : y < 2 ^ 48) :
    word (k.setEntry pt (ptIndex x) e) y = if y / 4096 = x / 4096 then e else word k y := by
  have hpml4 : (k.setEntry pt (ptIndex x) e).pml4 = k.pml4 := rfl
  have hat : tableAt (k.setEntry pt (ptIndex x) e) (path y) = tableAt k (path y) :=
    tableAt_agree hpml4 (leaf_not_upper hk hpt e) (path_length y).le
  split_ifs with h
  · have hpt' : tableAt (k.setEntry pt (ptIndex x) e) (path y) = some pt := by
      rw [hat, path_congr h, hpt]
    have hindex : ptIndex y = ptIndex x := by
      rw [ptIndex_eq, ptIndex_eq]
      omega
    rw [word_of_tableAt hpt', setEntry_entries, if_pos ⟨rfl, hindex⟩]
  · cases hpt' : tableAt k (path y) with
    | none => rw [word_of_tableAt_none hpt', word_of_tableAt_none (hat.trans hpt')]
    | some u =>
      have hne : ¬ (u = pt ∧ ptIndex y = ptIndex x) := by
        rintro ⟨rfl, hindex⟩
        have hpath := hk.separate _ _ _ (path_length y).le (path_length x).le hpt' hpt
        exact h (eq_page_of_indices hy hx hpath hindex)
      rw [word_of_tableAt hpt', word_of_tableAt (hat.trans hpt'), setEntry_entries, if_neg hne]

end Leaf

end Enkel.Paging
