import Enkel.KernelInvariant

/-!
What MapPages does, for any source of paging structure pages that keeps the
invariant. The entry of a missing table is tested before the page for it is
fetched and written afterwards; what a refill puts below the entry meanwhile is
cut off, so the words there are zero again, as they were before the test.
-/
namespace Enkel.Paging

open Outcome MemoryState KernelMemory

/-- What the loop of MapPages relies on. -/
def PageSpec (refill : Prop) (E : Fault → Prop) (getPage : PageSource) : Prop :=
  ∀ k, Ok k → Meets E
    (fun r => Ok r.2 ∧ Env refill (fun _ => False) k r.2 ∧ Fresh r.2 r.1) (getPage k)

/-- The model may also stop because a refill has moved a paging structure. -/
def MapFault (refill : Prop) (E : Fault → Prop) (e : Fault) : Prop :=
  E e ∨ (refill ∧ e = .pagingPageRemapped)

namespace Mapping
variable (m : Mapping)

/-- The USER_CPL bit of the new leaf entry. -/
def userBit (old : ℕ) : ℕ :=
  if m.privilegeLevel = .user ∨
      (old &&& present ≠ 0 ∧ m.privilegeLevel = .keep ∧ old &&& userCpl = userCpl)
  then userCpl else 0

/-- The flags of the new leaf entry of a page that is being mapped. -/
def flags (old : ℕ) : ℕ :=
  present ||| (m.userBit old ||| ((if m.writable then writableBit else 0) |||
    ((if m.pageFlags = pageFlagsCacheDisable then cacheDisable else 0) |||
      if m.pageFlags = pageFlagsCacheWriteThrough then writeThrough else 0)))

theorem flags_lt (old : ℕ) : m.flags old < 4096 := by
  unfold flags userBit
  split_ifs <;> decide

theorem flags_odd (old : ℕ) : m.flags old % 2 = 1 := by
  unfold flags userBit
  split_ifs <;> decide

theorem flags_userCpl (old : ℕ) : m.flags old &&& userCpl = m.userBit old := by
  unfold flags userBit
  split_ifs <;> decide

variable {m} {p : ℕ}

theorem userBit_user (h : m.privilegeLevel = .user) (old : ℕ) : m.userBit old = userCpl :=
  if_pos (Or.inl h)

theorem userBit_kernel (h : m.privilegeLevel = .kernel) (old : ℕ) : m.userBit old = 0 :=
  if_neg (by simp [h])

theorem leafEntry_free (h : m.newState = .free) (hp : PageAddress p) (old : ℕ) :
    m.leafEntry old p = p := by
  unfold leafEntry
  rw [if_pos h, and_pageMask_of_aligned hp.aligned hp.lt]

theorem leafEntry_mapped (h : m.newState ≠ .free) (hp : PageAddress p) (old : ℕ) :
    m.leafEntry old p = p + m.flags old := by
  rw [← or_flags hp.aligned (m.flags_lt old)]
  unfold leafEntry flags userBit
  rw [if_neg h, and_pageMask_of_aligned hp.aligned hp.lt]
  simp only [enableNX, Bool.and_false, Bool.false_eq_true, if_false]
  split_ifs <;> simp only [Nat.or_assoc, Nat.or_zero, Nat.zero_or]

end Mapping

/-- A page is mapped by writing its frame with an odd set of flags. -/
theorem frame_of_word_mapped {k : KernelMemory} {x p f : ℕ} (hp : PageAddress p) (hf : f < 4096)
    (hodd : f % 2 = 1) (h : word k x = p + f) : frame k x = some p := by
  unfold frame
  rw [h, and_present, flagged_present hp, hodd, flagged_address hp hf]
  rfl

theorem frame_of_word_free {k : KernelMemory} {x p : ℕ} (hp : PageAddress p)
    (h : word k x = p) : frame k x = none := by
  have hmod := hp.mod
  unfold frame
  rw [h, and_present, if_pos (by omega)]

section NextTable
variable {refill : Prop} {k k1 : KernelMemory} {q : List ℕ} {t i page : ℕ}

/-- The words below the entry are zero before the test and after the write. -/
theorem env_link (hq : q.length ≤ 2) (ht : tableAt k q = some t)
    (habsent : tableAt k (q ++ [i]) = none) (hk1 : Ok k1)
    (henv : Env refill (fun _ => False) k k1) (hfresh : Fresh k1 page) :
    Env refill (fun _ => False) k (k1.setEntry t i (tableEntry page)) := by
  have ht1 := henv.walk q t (by omega) ht
  have hword : ∀ x, word (k1.setEntry t i (tableEntry page)) x =
      if q ++ [i] <+: path x then word k x else word k1 x := by
    intro x
    rw [word_link hk1.tables hq ht1 hfresh.spare.pageAddress hfresh.spare.unlinked hfresh.cleared]
    split_ifs with h
    · exact (word_of_prefix_none habsent h).symm
    · rfl
  exact
    { henv with
      words := fun x hx => by
        rw [hword x]
        split_ifs with h
        · exact Or.inl rfl
        · exact henv.words x hx
      walk := fun r u hr hu => by
        rw [tableAt_link hk1.tables hq ht1 hfresh.spare.pageAddress hfresh.spare.unlinked
          hfresh.cleared hr]
        have hnot : ¬ q ++ [i] <+: r := fun h => by
          rw [show tableAt k r = none from RadixTable.walk_none_of_initial habsent h] at hu
          cases hu
        rw [if_neg hnot]
        exact henv.walk r u hr hu
      paging_frame := fun hset x hx => by
        have h := hword x
        split_ifs at h with hpre
        · exact frame_congr h
        · rw [frame_congr h]
          exact henv.paging_frame hset x hx }

/-- Linking keeps the invariant, provided that linked blocks stay mapped. -/
theorem ok_link (hk1 : Ok k1) (hq : q.length ≤ 2) (ht1 : tableAt k1 q = some t)
    (hfresh : Fresh k1 page)
    (hmapped : (k1.setEntry t i (tableEntry page)).linkedMapped) :
    Ok (k1.setEntry t i (tableEntry page)) := by
  have htables := tables_link (i := i) hk1.tables hq ht1 hfresh.spare.pageAddress
    hfresh.spare.unlinked hfresh.cleared
  have hat : ∀ r u, r.length ≤ 3 → tableAt (k1.setEntry t i (tableEntry page)) r = some u →
      u = page ∨ tableAt k1 r = some u := by
    intro r u hr hu
    rw [tableAt_link hk1.tables hq ht1 hfresh.spare.pageAddress hfresh.spare.unlinked
      hfresh.cleared hr] at hu
    split_ifs at hu with h1 h2
    · cases hu
      exact Or.inl rfl
    · exact Or.inr hu
  have hspare : ∀ f, f ≠ page → Spare k1 f →
      Spare (k1.setEntry t i (tableEntry page)) f := by
    intro f hne hf
    refine ⟨hf.pageAddress, fun r hr h => ?_⟩
    rcases hat r f hr h with heq | hold
    · exact hne heq
    · exact hf.unlinked r hr hold
  have hframe : ∀ x, frame (k1.setEntry t i (tableEntry page)) x = none ∨
      frame (k1.setEntry t i (tableEntry page)) x = frame k1 x := by
    intro x
    have h := word_link (i := i) hk1.tables hq ht1 hfresh.spare.pageAddress
      hfresh.spare.unlinked hfresh.cleared x
    split_ifs at h with hpre
    · exact Or.inl (frame_of_word_eq_zero h)
    · exact Or.inr (frame_congr h)
  exact
    { hk1 with
      tables := htables
      table_home := fun r u hr hu => by
        rcases hat r u hr hu with rfl | hold
        · exact hfresh.home
        · exact hk1.table_home r u hr hold
      pool := fun f hf => by
        refine ⟨hspare f ?_ (hk1.pool f hf).1, (hk1.pool f hf).2⟩
        rintro rfl
        exact hfresh.not_pooled hf
      reserve := fun f hf => by
        refine ⟨hspare f ?_ (hk1.reserve f hf).1, (hk1.reserve f hf).2⟩
        rintro rfl
        exact hfresh.not_reserved hf
      block_frame := fun b hb j hj => by
        rcases hframe (b.1 + pageSize * j) with h | h
        · exact Or.inl h
        · rw [h]
          exact hk1.block_frame b hb j hj
      linked_frame := fun b hb hlink j hj => by
        have hmap := hmapped b.1 hlink _ (mem_blockPages.mpr ⟨j, hj, rfl⟩)
        rw [getPhysicalAddress_eq_frame htables] at hmap
        rcases hframe (b.1 + pageSize * j) with h | h
        · rw [h] at hmap
          exact absurd rfl hmap
        · rw [h]
          exact hk1.linked_frame b hb hlink j hj }

/-- Without a refill the blocks that are linked have kept their frames. -/
theorem linkedMapped_of_env (hk : Ok k) (hrefill : ¬ refill) {own : ℕ → Prop}
    {k' : KernelMemory} (htables : Tables k') (henv : Env refill own k k') : k'.linkedMapped := by
  intro block hblock page hpage
  obtain ⟨-, -, -, hlinked, -, -⟩ := henv.steady hrefill
  rw [hlinked] at hblock
  obtain ⟨P, hP⟩ := hk.linked_block block hblock
  obtain ⟨j, hj, rfl⟩ := mem_blockPages.mp hpage
  have hset := hk.blocks_live (List.ne_nil_of_mem hP)
  have hpaging : k.isPagingPage (block + pageSize * j) = true :=
    isPagingPage_iff.mpr (Or.inr (Or.inr ⟨_, hP, inBlock_page hj⟩))
  have hframe := hk.linked_frame _ hP hblock j hj
  rw [getPhysicalAddress_ne_invalid htables, henv.paging_frame hset _ hpaging, hframe]
  simp

theorem nextTable_meets {E : Fault → Prop} {getPage : PageSource} (hget : PageSpec refill E getPage)
    (hk : Ok k) (hq : q.length ≤ 2) (ht : tableAt k q = some t) {reservedMask : ℕ}
    (hmask : reservedMask = pmReservedMask ∨ reservedMask = pml4ReservedMask) :
    Meets (MapFault refill E)
      (fun r => Ok r.2 ∧ Env refill (fun _ => False) k r.2 ∧ tableAt r.2 (q ++ [i]) = some r.1)
      (nextTable getPage t i reservedMask k) := by
  have hsnoc : tableAt k (q ++ [i]) = next k.entries t i := by
    unfold tableAt at ht ⊢
    rw [RadixTable.walk_snoc, ht]
    rfl
  unfold nextTable
  refine meets_ite (fun hpresent => ?_) fun hpresent => ?_
  · refine meets_ok ⟨hk, Env.refl k, ?_⟩
    rw [hsnoc, next, if_pos hpresent]
  · have habsent : tableAt k (q ++ [i]) = none := by
      rw [hsnoc, next, if_neg hpresent]
    refine meets_bind (meets_mono (hget k hk) (fun _ he => Or.inl he) fun _ h => h) fun r hr => ?_
    obtain ⟨page, k1⟩ := r
    obtain ⟨hk1, henv, hfresh⟩ := hr
    have ht1 := henv.walk q t (by omega) ht
    have hlink := env_link (i := i) hq ht habsent hk1 henv hfresh
    have hentry : (k1.setEntry t i (tableEntry page)).entries t i = tableEntry page := by
      rw [setEntry_entries, if_pos ⟨rfl, rfl⟩]
    refine meets_require (fun h => ?_) fun _ => ?_
    · rw [hentry] at h
      exact absurd (tableEntry_reserved hfresh.spare.pageAddress hmask) h
    have htables := tables_link (i := i) hk1.tables hq ht1 hfresh.spare.pageAddress
      hfresh.spare.unlinked hfresh.cleared
    refine meets_require (fun h => ?_) fun hmapped => ?_
    · by_cases hrefill : refill
      · exact Or.inr ⟨hrefill, rfl⟩
      · exact absurd (linkedMapped_of_env hk hrefill htables hlink) h
    refine meets_pure ⟨ok_link hk1 hq ht1 hfresh hmapped, hlink, ?_⟩
    have hat := tableAt_link (i := i) hk1.tables hq ht1 hfresh.spare.pageAddress
      hfresh.spare.unlinked hfresh.cleared (r := q ++ [i]) (by simp; omega)
    rw [if_pos List.prefix_rfl, if_pos rfl] at hat
    exact hat

end NextTable

/-- Whole pages hold paging structures. -/
theorem Ok.isPagingPage_base {k : KernelMemory} (hk : Ok k) {t v : ℕ} (hv : Aligned v)
    (hpage : t / 4096 = v / 4096) (ht : k.isPagingPage t = true) : k.isPagingPage v = true := by
  have hpml4 := hk.pml4_aligned
  have hinitial := hk.initial_aligned
  unfold Aligned at hv hpml4 hinitial
  rw [isPagingPage_iff] at ht ⊢
  rcases ht with rfl | ⟨hlo, hhi⟩ | ⟨b, hb, ht⟩
  · exact Or.inl (by omega)
  · refine Or.inr (Or.inl ⟨by omega, by omega⟩)
  · have hblock := hk.block_aligned b hb
    unfold Aligned at hblock
    rw [inBlock_iff] at ht
    exact Or.inr (Or.inr ⟨b, hb, inBlock_iff.mpr ⟨by omega, by omega⟩⟩)

section Leaf
variable {k : KernelMemory} {v p pt : ℕ} {m : Mapping}

/-- The state after the write of a leaf entry. -/
def setLeaf (k : KernelMemory) (m : Mapping) (v p pt : ℕ) : KernelMemory :=
  k.setEntry pt (ptIndex v) (m.leafEntry (k.entries pt (ptIndex v)) p)

variable (hk : Ok k) (hpt : tableAt k (path v) = some pt)
include hk hpt

theorem tableAt_leaf {q : List ℕ} (hq : q.length ≤ 3) :
    tableAt (setLeaf k m v p pt) q = tableAt k q := by
  have hpml4 : (setLeaf k m v p pt).pml4 = k.pml4 := rfl
  exact tableAt_agree hpml4 (leaf_not_upper hk.tables hpt _) hq

theorem tables_leaf : Tables (setLeaf k m v p pt) := by
  have hpml4 : (setLeaf k m v p pt).pml4 = k.pml4 := rfl
  exact hk.tables.agree hpml4 (leaf_not_upper hk.tables hpt _)

variable (hv : PageAddress v)
include hv

theorem word_leaf {x : ℕ} (hx : x < 2 ^ 48) : word (setLeaf k m v p pt) x =
    if x / 4096 = v / 4096 then m.leafEntry (word k v) p else word k x := by
  unfold setLeaf
  rw [word_setLeaf hk.tables hpt _ hv.lt hx, word_of_tableAt hpt]

variable (hp : PageAddress p) (hkeep : k.keepsPagingPage m v p)
include hp hkeep

/-- Pages of paging structures keep their frames. -/
theorem frame_leaf (hset : k.pml4Set = true) {t : ℕ} (ht : k.isPagingPage t = true) :
    frame (setLeaf k m v p pt) t = frame k t := by
  have hword := word_leaf (p := p) (m := m) hk hpt hv (hk.paging_lt t ht)
  split_ifs at hword with hpage
  · obtain ⟨hmapped, hphys⟩ := hkeep hset (hk.isPagingPage_base hv.aligned hpage ht)
    have hlt := hp.lt
    rw [getPhysicalAddress_eq_iff hk.tables hv.aligned (by omega)] at hphys
    rw [frame_congr (word_congr k hpage), hphys]
    rw [Mapping.leafEntry_mapped hmapped hp] at hword
    exact frame_of_word_mapped hp (m.flags_lt _) (m.flags_odd _) hword
  · exact frame_congr hword

theorem env_leaf (refill : Prop) :
    Env refill (fun x => x / 4096 = v / 4096) k (setLeaf k m v p pt) :=
  { (Env.refl k : Env refill (fun x => x / 4096 = v / 4096) k k) with
    words := fun x hx => by
      rw [word_leaf hk hpt hv hx]
      split_ifs with hpage
      · exact Or.inr (Or.inl hpage)
      · exact Or.inl rfl
    walk := fun q t hq ht => (tableAt_leaf hk hpt hq).trans ht
    paging_frame := fun hset _ ht => frame_leaf hk hpt hv hp hkeep hset ht }

theorem ok_leaf : Ok (setLeaf k m v p pt) := by
  have hframe : ∀ b ∈ k.blocks, ∀ i < nextPagingBlockSize,
      frame (setLeaf k m v p pt) (b.1 + pageSize * i) = frame k (b.1 + pageSize * i) :=
    fun b hb i hi => frame_leaf hk hpt hv hp hkeep (hk.blocks_live (List.ne_nil_of_mem hb))
      (isPagingPage_iff.mpr (Or.inr (Or.inr ⟨b, hb, inBlock_page hi⟩)))
  have hspare : ∀ f, Spare k f → Spare (setLeaf k m v p pt) f := fun f hf =>
    ⟨hf.pageAddress, fun q hq => by
      rw [tableAt_leaf hk hpt hq]
      exact hf.unlinked q hq⟩
  exact
    { hk with
      tables := tables_leaf hk hpt
      table_home := fun q t hq ht => hk.table_home q t hq (by
        rwa [tableAt_leaf hk hpt hq] at ht)
      pool := fun f hf => ⟨hspare f (hk.pool f hf).1, (hk.pool f hf).2⟩
      reserve := fun f hf => ⟨hspare f (hk.reserve f hf).1, (hk.reserve f hf).2⟩
      block_frame := fun b hb i hi => by
        rw [hframe b hb i hi]
        exact hk.block_frame b hb i hi
      linked_frame := fun b hb hlink i hi => by
        rw [hframe b hb i hi]
        exact hk.linked_frame b hb hlink i hi }

omit hkeep in
/-- A turn whose tables are in place writes its leaf entry, and its checks hold. -/
theorem writeLeaf_eq {ov op : ℕ} (hkeep : k.keepsPagingPage m v p)
    (horig : m.newState ≠ .free → ov = v ∧ op = p) :
    writeLeaf m v p ov op pt k = .ok (setLeaf k m v p pt) := by
  have hk4 := ok_leaf hk hpt hv hp hkeep
  have hword := word_leaf (p := p) (m := m) hk hpt hv hv.lt
  rw [if_pos rfl] at hword
  unfold writeLeaf
  rw [require_true hkeep, ok_bind]
  by_cases hfree : m.newState = .free
  · rw [if_pos hfree]
    rfl
  · rw [if_neg hfree]
    obtain ⟨rfl, rfl⟩ := horig hfree
    have hmapped := Mapping.leafEntry_mapped hfree hp (word k ov)
    have hentry : (setLeaf k m ov op pt).entries pt (ptIndex ov) = op + m.flags (word k ov) := by
      rw [← hmapped, ← hword, word_of_tableAt]
      rw [tableAt_leaf hk hpt (path_length ov).le, hpt]
    have hreserved : (setLeaf k m ov op pt).entries pt (ptIndex ov) &&& pmReservedMask = 0 :=
      (congrArg (· &&& pmReservedMask) hentry).trans (flagged_pmReserved hp (m.flags_lt _))
    have hlt := hp.lt
    have hphys : op = (setLeaf k m ov op pt).getPhysicalAddress ov false := by
      refine ((getPhysicalAddress_eq_iff hk4.tables hv.aligned (by omega)).mpr ?_).symm
      exact frame_of_word_mapped hp (m.flags_lt _) (m.flags_odd _) (hword.trans hmapped)
    unfold setLeaf at hreserved hphys
    rw [require_true hreserved, ok_bind, require_true hphys, ok_bind, require_true rfl, ok_bind,
      require_true rfl, ok_bind]
    rfl

end Leaf

/-- A source of tables for the entries in `A`, which keeps `Inv`. -/
structure TableSource (A : List ℕ → Prop) (Inv : KernelMemory → Prop) (refill : Prop)
    (E : Fault → Prop) (getPage : PageSource) : Prop where
  next : ∀ {k q t i reservedMask}, Ok k → Inv k → q.length ≤ 2 → tableAt k q = some t →
    A (q ++ [i]) → (reservedMask = pmReservedMask ∨ reservedMask = pml4ReservedMask) →
    Meets (MapFault refill E)
      (fun r => Ok r.2 ∧ Env refill (fun _ => False) k r.2 ∧ tableAt r.2 (q ++ [i]) = some r.1 ∧
        Inv r.2)
      (nextTable getPage t i reservedMask k)
  leaf : ∀ {k v p pt m}, Ok k → Inv k → PageAddress v → tableAt k (path v) = some pt →
    Inv (setLeaf k m v p pt)

theorem PageSpec.tableSource {refill : Prop} {E : Fault → Prop} {getPage : PageSource}
    (hget : PageSpec refill E getPage) :
    TableSource (fun _ => True) (fun _ => True) refill E getPage where
  next hk _ hq ht _ hmask := meets_post (nextTable_meets hget hk hq ht hmask)
    fun _ hr => ⟨hr.1, hr.2.1, hr.2.2, trivial⟩
  leaf _ _ _ _ := trivial

theorem Env.keepsPagingPage {refill : Prop} {own : ℕ → Prop} {k k' : KernelMemory}
    (h : Env refill own k k') (hk : Tables k) (hk' : Tables k') (hrefill : ¬ refill)
    {m : Mapping} {v p : ℕ} (hkeep : k.keepsPagingPage m v p) : k'.keepsPagingPage m v p := by
  intro hset hpaging
  have hset' := h.pml4Set.symm.trans hset
  rcases h.paging_new v hpaging with hold | ⟨hr, -⟩
  · obtain ⟨hmapped, hphys⟩ := hkeep hset' hold
    refine ⟨hmapped, ?_⟩
    rw [getPhysicalAddress_eq_frame hk', h.paging_frame hset' v hold,
      ← getPhysicalAddress_eq_frame hk, hphys]
  · exact absurd hr hrefill

/-- The entries that lead to the page of an address. -/
def Prefixes (A : List ℕ → Prop) (x : ℕ) : Prop :=
  A [pml4Index x] ∧ A [pml4Index x, pdptIndex x] ∧ A (path x)

/-- A page that a refill has taken for itself. -/
def Taken (refill : Prop) (k k' : KernelMemory) (x : ℕ) : Prop :=
  refill ∧ x < pageMask ∧ virtState k x = .free ∧ virtState k' x = .used

/-- The leaf word of `x` was written for the frame `y`, unless a refill took the page. -/
def Written (refill : Prop) (m : Mapping) (k k' : KernelMemory) (x y : ℕ) : Prop :=
  word k' x = m.leafEntry (word k x) y ∨ Taken refill k k' x

section Loop
variable {A : List ℕ → Prop} {Inv : KernelMemory → Prop} {refill : Prop} {E : Fault → Prop}
  {getPage : PageSource} {own own' : ℕ → Prop} {k k1 k' : KernelMemory} {m : Mapping}

theorem Taken.before (h : Env refill own k k1) {x : ℕ} (ht : Taken refill k1 k' x) :
    Taken refill k k' x :=
  ⟨ht.1, ht.2.1, h.free_of_free ht.2.1 ht.2.2.1, ht.2.2.2⟩

theorem Taken.after (h : Env refill own k1 k') {x : ℕ} (ht : Taken refill k k1 x) :
    Taken refill k k' x := by
  have hne : virtState k1 x ≠ .free := by
    rw [ht.2.2.2]
    decide
  exact ⟨ht.1, ht.2.1, ht.2.2.1, (h.virt_of_ne_free ht.2.1 hne).trans ht.2.2.2⟩

/-- Steps before the write do not matter, when they do not own the page. -/
theorem Written.before (h : Env refill own k k1) (h' : Env refill own' k1 k') {x y : ℕ}
    (hx : x < 2 ^ 48) (hown : ¬ own x) (hw : Written refill m k1 k' x y) :
    Written refill m k k' x y := by
  rcases hw with hw | ht
  · rcases h.words x hx with hsame | ho | ht
    · exact Or.inl (by rw [hw, hsame])
    · exact absurd ho hown
    · exact Or.inr (Taken.after h' ht)
  · exact Or.inr (ht.before h)

/-- Nor do steps after it. -/
theorem Written.after (h : Env refill own k k1) (h' : Env refill own' k1 k') {x y : ℕ}
    (hx : x < 2 ^ 48) (hown : ¬ own' x) (hw : Written refill m k k1 x y) :
    Written refill m k k' x y := by
  rcases hw with hw | ht
  · rcases h'.words x hx with hsame | ho | ht
    · exact Or.inl (hsame.trans hw)
    · exact absurd ho hown
    · exact Or.inr (Taken.before h ht)
  · exact Or.inr (ht.after h')

theorem mapPage_meets (hsrc : TableSource A Inv refill E getPage) (hk : Ok k) (hinv : Inv k)
    {v p ov op : ℕ} (hv : PageAddress v) (hp : PageAddress p) (hA : Prefixes A v)
    (horig : m.newState ≠ .free → ov = v ∧ op = p)
    (hkeep : ¬ refill → k.keepsPagingPage m v p) :
    Meets (MapFault refill E)
      (fun k' => Ok k' ∧ Inv k' ∧ Env refill (fun x => x / 4096 = v / 4096) k k' ∧
        tableAt k' (path v) ≠ none ∧ Written refill m k k' v p)
      (mapPage getPage m v p ov op k) := by
  unfold mapPage
  refine meets_bind (hsrc.next hk hinv (q := []) (by simp) rfl hA.1 (Or.inr rfl)) fun r hr => ?_
  obtain ⟨pdpt, k1⟩ := r
  obtain ⟨hk1, henv1, ht1, hinv1⟩ := hr
  refine meets_bind (hsrc.next hk1 hinv1 (q := [pml4Index v]) (by simp) ht1 hA.2.1 (Or.inl rfl))
    fun r hr => ?_
  obtain ⟨pd, k2⟩ := r
  obtain ⟨hk2, henv2, ht2, hinv2⟩ := hr
  refine meets_bind (hsrc.next hk2 hinv2 (q := [pml4Index v, pdptIndex v]) (by simp) ht2
    hA.2.2 (Or.inl rfl)) fun r hr => ?_
  obtain ⟨pt, k3⟩ := r
  obtain ⟨hk3, henv3, hpt, hinv3⟩ := hr
  have henv : Env refill (fun _ => False) k k3 := (henv1.trans_own henv2).trans_own henv3
  change tableAt k3 (path v) = some pt at hpt
  change Ok k3 at hk3
  change Meets _ _ (writeLeaf m v p ov op pt k3)
  by_cases hkeep3 : k3.keepsPagingPage m v p
  · rw [writeLeaf_eq hk3 hpt hv hp hkeep3 horig]
    have henv4 := env_leaf hk3 hpt hv hp hkeep3 refill
    have hword := word_leaf (p := p) (m := m) hk3 hpt hv hv.lt
    rw [if_pos rfl] at hword
    refine meets_ok ⟨ok_leaf hk3 hpt hv hp hkeep3, hsrc.leaf hk3 hinv3 hv hpt,
      (henv.trans henv4).mono id fun _ h => h.elim False.elim id, ?_,
      Written.before henv henv4 hv.lt id (Or.inl hword)⟩
    rw [tableAt_leaf hk3 hpt (path_length v).le, hpt]
    simp
  · unfold writeLeaf
    refine meets_require (fun _ => ?_) fun h => absurd h hkeep3
    by_cases hrefill : refill
    · exact Or.inr ⟨hrefill, rfl⟩
    · exact absurd (henv.keepsPagingPage hk.tables hk3.tables hrefill (hkeep hrefill)) hkeep3

/-- The addresses of `turns` pages from `v` on. -/
def InPages (v turns x : ℕ) : Prop := v ≤ x ∧ x < v + 4096 * turns

/-- The effect of the loop of MapPages. -/
structure Mapped (refill : Prop) (m : Mapping) (v p turns : ℕ) (k k' : KernelMemory) : Prop where
  env : Env refill (InPages v turns) k k'
  table : ∀ i < turns, tableAt k' (path (v + 4096 * i)) ≠ none
  written : ∀ i < turns, Written refill m k k' (v + 4096 * i) (p + 4096 * i)

theorem mapLoop_meets (hsrc : TableSource A Inv refill E getPage) (turns : ℕ) (hk : Ok k)
    (hinv : Inv k) {v p ov op : ℕ} (hv : Aligned v) (hvt : v + 4096 * turns ≤ 2 ^ 48)
    (hp : Aligned p) (hpt : p + 4096 * turns ≤ 2 ^ 48)
    (hA : ∀ i < turns, Prefixes A (v + 4096 * i)) (horig : m.newState ≠ .free → ov = v ∧ op = p)
    (hkeep : ¬ refill → ∀ i < turns, k.keepsPagingPage m (v + 4096 * i) (p + 4096 * i)) :
    Meets (MapFault refill E) (fun k' => Ok k' ∧ Inv k' ∧ Mapped refill m v p turns k k')
      (mapLoop getPage m turns v p ov op k) := by
  induction turns generalizing k v p ov op with
  | zero =>
    refine meets_ok ⟨hk, hinv, Env.refl k, ?_, ?_⟩
    · intro i hi
      exact absurd hi (Nat.not_lt_zero i)
    · intro i hi
      exact absurd hi (Nat.not_lt_zero i)
  | succ turns ih =>
    have hva : PageAddress v := ⟨hv, by omega⟩
    have hpa : PageAddress p := ⟨hp, by omega⟩
    unfold Aligned at hv hp
    unfold mapLoop
    refine meets_bind (mapPage_meets hsrc hk hinv hva hpa (hA 0 (by omega)) horig
      fun hr => hkeep hr 0 (by omega)) fun k1 h1 => ?_
    obtain ⟨hk1, hinv1, henv1, htable1, hwritten1⟩ := h1
    have hshift : ∀ a i : ℕ, a + 4096 + 4096 * i = a + 4096 * (i + 1) := by
      intro a i
      omega
    have hv1 : Aligned (v + 4096) := by
      unfold Aligned
      omega
    have hp1 : Aligned (p + 4096) := by
      unfold Aligned
      omega
    have hvt1 : v + 4096 + 4096 * turns ≤ 2 ^ 48 := by omega
    have hpt1 : p + 4096 + 4096 * turns ≤ 2 ^ 48 := by omega
    have hA1 : ∀ i < turns, Prefixes A (v + 4096 + 4096 * i) := fun i hi => by
      rw [hshift]
      exact hA (i + 1) (by omega)
    have hkeep1 : ¬ refill → ∀ i < turns,
        k1.keepsPagingPage m (v + 4096 + 4096 * i) (p + 4096 + 4096 * i) := fun hr i hi => by
      rw [hshift, hshift]
      exact henv1.keepsPagingPage hk.tables hk1.tables hr (hkeep hr (i + 1) (by omega))
    have hpost : ∀ k', Ok k' ∧ Inv k' ∧ Mapped refill m (v + 4096) (p + 4096) turns k1 k' →
        Ok k' ∧ Inv k' ∧ Mapped refill m v p (turns + 1) k k' := by
      rintro k' ⟨hk', hinv', hm⟩
      refine ⟨hk', hinv', ?_, ?_, ?_⟩
      · refine (henv1.trans hm.env).mono id fun x hx => ?_
        unfold InPages at hx ⊢
        rcases hx with hx | hx <;> omega
      · rintro (_ | i) hi
        · cases ht : tableAt k1 (path v) with
          | none => exact absurd ht htable1
          | some t =>
            rw [Nat.mul_zero, Nat.add_zero, hm.env.walk _ t (path_length v).le ht]
            simp
        · rw [← hshift]
          exact hm.table i (by omega)
      · rintro (_ | i) hi
        · refine Written.after henv1 hm.env (by omega) ?_ hwritten1
          unfold InPages
          omega
        · rw [← hshift, ← hshift]
          refine Written.before henv1 hm.env (by omega) ?_ (hm.written i (by omega))
          omega
    refine meets_ite (fun hfree => ?_) fun hfree => ?_
    · exact meets_post (ih hk1 hinv1 hv1 hvt1 hp1 hpt1 hA1 (fun h => absurd hfree h) hkeep1) hpost
    · obtain ⟨rfl, rfl⟩ := horig hfree
      exact meets_post (ih hk1 hinv1 hv1 hvt1 hp1 hpt1 hA1 (fun _ => ⟨rfl, rfl⟩) hkeep1) hpost

end Loop

/-- The end of the physical range that MapPages tags. -/
def physicalEnd (p size : ℕ) : ℕ := add64 p (add64 size (pageSize - 1) &&& pageMask)

/-- How often the loop of MapPages turns. -/
def callTurns (v size : ℕ) : ℕ := loopTurns v (add64 v size)

section Turns
variable {v p size : ℕ}

theorem callTurns_spec (hv : PageAddress v) (hsize : size % 4096 = 0) (hlt : size < 2 ^ 64) :
    callTurns v size = 0 ∨ (add64 v size = v + size ∧ size = 4096 * callTurns v size) := by
  have hmod := hv.mod
  have hv' := hv.lt
  unfold callTurns loopTurns add64 pageSize
  omega

theorem callTurns_of_lt (hv : PageAddress v) (hsize : size % 4096 = 0)
    (hlt : v + size < 2 ^ 64) : callTurns v size = size / 4096 := by
  have hmod := hv.mod
  unfold callTurns loopTurns add64 pageSize
  omega

theorem physicalEnd_of_lt (hp : PageAddress p) (hsize : size % 4096 = 0)
    (hlt : p + size < 2 ^ 48) : physicalEnd p size = p + size := by
  have hmod := hp.mod
  unfold physicalEnd
  rw [and_pageMask]
  unfold add64 pageSize
  omega

end Turns

/-- The state in which the loop of MapPages starts. -/
def withTrees (k : KernelMemory) (physical virt : MemoryState) : KernelMemory :=
  { k with physicalMemoryState := physical, virtualMemoryState := virt }

/-- What a call of MapPages that returns has been given, and has done. -/
structure Called (refill : Prop) (m : Mapping) (v p size : ℕ) (k kt k' : KernelMemory) : Prop where
  virtual_page : PageAddress v
  physical_page : PageAddress p
  size_mod : size % 4096 = 0
  tags : ∃ physical virt, kt = withTrees k physical virt ∧
    k.physicalMemoryState.tagRange p (physicalEnd p size) m.newState = .ok physical ∧
    k.virtualMemoryState.tagRange v (add64 v size) m.newState = .ok virt
  keeps : ∀ i < callTurns v size, k.keepsPagingPage m (v + 4096 * i) (p + 4096 * i)
  bounds : 0 < callTurns v size → size = 4096 * callTurns v size ∧ v + size ≤ pageMask ∧
    p + size ≤ k.physicalMemoryState.highestAddress
  ok_tagged : Ok kt
  mapped : Mapped refill m v p (callTurns v size) kt k'

/-- The arguments for which MapPages fails no assertion. -/
def ValidCall (k : KernelMemory) (v p size : ℕ) : Prop :=
  0 < size ∧ p + size ≤ k.physicalMemoryState.highestAddress ∧ v + size ≤ pageMask

/-- One of the two tags of a call stops with `e`. -/
def TagsFail (m : Mapping) (k : KernelMemory) (v p size : ℕ) (e : Fault) : Prop :=
  k.physicalMemoryState.tagRange p (physicalEnd p size) m.newState = .error e ∨
    k.virtualMemoryState.tagRange v (add64 v size) m.newState = .error e

/-- The ways in which MapPages can stop. -/
def CallFault (refill : Prop) (E : Fault → Prop) (m : Mapping) (k : KernelMemory) (v p size : ℕ)
    (e : Fault) : Prop :=
  MapFault refill E e ∨ (TagsFail m k v p size e ∧ e.NodeListEmpty) ∨
    ((∃ i < callTurns v size, ¬ k.keepsPagingPage m (v + 4096 * i) (p + 4096 * i)) ∧
      e = .pagingPageRemapped) ∨
    (¬ (PageAddress v ∧ PageAddress p ∧ size % 4096 = 0) ∧ ∃ msg, e = .assertion .mapPages msg) ∨
    (TagsFail m k v p size e ∧ ¬ ValidCall k v p size ∧
      ∃ msg, e = .assertion .tagRangeInternal msg)

theorem pageAddress_and_pageMask (a : ℕ) : PageAddress (a &&& pageMask) :=
  ⟨aligned_and_pageMask a, and_pageMask_lt a⟩

section Call
variable {A : List ℕ → Prop} {Inv : KernelMemory → Prop} {refill : Prop} {E : Fault → Prop}
  {getPage : PageSource} {k : KernelMemory} {m : Mapping} {v p size : ℕ}

/-- Tagging keeps the invariant when no page of a paging structure is freed. -/
theorem ok_withTrees (hk : Ok k) (hv : PageAddress v) (hsize : size % 4096 = 0)
    (hlt : size < 2 ^ 64) {low high : ℕ} {physical virt : MemoryState}
    (hphysical : k.physicalMemoryState.tagRange low high m.newState = .ok physical)
    (hvirt : k.virtualMemoryState.tagRange v (add64 v size) m.newState = .ok virt)
    (hkeep : ∀ i < callTurns v size, k.keepsPagingPage m (v + 4096 * i) (p + 4096 * i)) :
    Ok (withTrees k physical virt) := by
  obtain ⟨hphysical', -⟩ := tagRange_eq_ok hk.physical hphysical
  obtain ⟨hvirt', hhigh, -, hpages⟩ := tagRange_eq_ok hk.virt hvirt
  have hsame : SameTables k (withTrees k physical virt) := sameTables_of_eq rfl rfl
  exact
    { hk with
      physical := hphysical'
      virt := hvirt'
      virt_highest := hhigh.trans hk.virt_highest
      tables := hsame.tables hk.tables
      pool := fun f hf => ⟨hsame.spare (hk.pool f hf).1, (hk.pool f hf).2⟩
      reserve := fun f hf => ⟨hsame.spare (hk.reserve f hf).1, (hk.reserve f hf).2⟩
      live := fun hset t ht hpaging => by
        have hold := hk.live hset t ht hpaging
        unfold virtState at hold
        have hnew := hpages t (by rw [hk.virt_highest]; exact ht)
        unfold virtState withTrees
        simp only
        rw [hnew]
        unfold tagged
        split_ifs with hin
        · obtain ⟨hlo, hhi, -⟩ := hin
          rcases callTurns_spec hv hsize hlt with hzero | ⟨hadd, hturns⟩
          · have hmod := hv.mod
            unfold callTurns loopTurns pageSize at hzero
            omega
          · have hmod := hv.mod
            have hbase : k.isPagingPage (v + 4096 * ((t - v) / 4096)) = true :=
              hk.isPagingPage_base (by unfold Aligned; omega) (by omega) hpaging
            exact (hkeep _ (by omega) hset hbase).1
        · exact hold }

/-- The pages of a call whose tags return lie below the ends of both trees. -/
theorem call_bounds (hk : Ok k) (hv : PageAddress v) (hp : PageAddress p) (hsize : size % 4096 = 0)
    (hlt : size < 2 ^ 64) {physical virt : MemoryState}
    (hphysical : k.physicalMemoryState.tagRange p (physicalEnd p size) m.newState = .ok physical)
    (hvirt : k.virtualMemoryState.tagRange v (add64 v size) m.newState = .ok virt)
    (hpos : 0 < callTurns v size) :
    size = 4096 * callTurns v size ∧ v + size ≤ pageMask ∧
      p + size ≤ k.physicalMemoryState.highestAddress := by
  rcases callTurns_spec hv hsize hlt with hzero | ⟨hadd, hturns⟩
  · omega
  · have hve := (tagRange_eq_ok hk.virt hvirt).2.2.1
    have hpe := (tagRange_eq_ok hk.physical hphysical).2.2.1
    rw [hadd, hk.virt_highest] at hve
    have hpmod := hp.mod
    have hplt := hp.lt
    have hsum : physicalEnd p size = p + size := by
      unfold physicalEnd
      rw [and_pageMask]
      unfold add64 pageSize pageMask at *
      omega
    rw [hsum] at hpe
    exact ⟨hturns, hve, hpe⟩

theorem mapPagesWith_meets (hsrc : TableSource A Inv refill E getPage)
    (hInv : ∀ k physical virt, Inv k → Inv (withTrees k physical virt))
    (hk : Ok k) (hinv : Inv k) (hlt : size < 2 ^ 64)
    (hA : ∀ i < callTurns v size, Prefixes A (v + 4096 * i)) :
    Meets (CallFault refill E m k v p size)
      (fun k' => Ok k' ∧ Inv k' ∧ ∃ kt, Called refill m v p size k kt k')
      (mapPagesWith getPage v p size m k) := by
  have hmod : size &&& (pageSize - 1) = size % 4096 := Nat.and_two_pow_sub_one_eq_mod size 12
  have hbad : ∀ msg, ¬ (PageAddress v ∧ PageAddress p ∧ size % 4096 = 0) →
      CallFault refill E m k v p size (.assertion .mapPages msg) :=
    fun msg h => Or.inr (Or.inr (Or.inr (Or.inl ⟨h, msg, rfl⟩)))
  unfold mapPagesWith
  refine meets_require (fun h => hbad _ fun hargs => h (by rw [hmod]; exact hargs.2.2)) fun hsize => ?_
  rw [hmod] at hsize
  refine meets_require (fun h => hbad _ fun hargs =>
    h (and_pageMask_of_aligned hargs.1.aligned hargs.1.lt).symm) fun hv => ?_
  refine meets_require (fun h => hbad _ fun hargs =>
    h (and_pageMask_of_aligned hargs.2.1.aligned hargs.2.1.lt).symm) fun hp => ?_
  rw [← hv, ← hp]
  have hva : PageAddress v := by
    rw [hv]
    exact pageAddress_and_pageMask v
  have hpa : PageAddress p := by
    rw [hp]
    exact pageAddress_and_pageMask p
  refine meets_require (fun h => ?_) fun hkeep => ?_
  · push Not at h
    exact Or.inr (Or.inr (Or.inl ⟨h, rfl⟩))
  -- a valid call has valid ranges in both trees
  have htag : ∀ e, TagsFail m k v p size e → (TagFault (ValidRange p (physicalEnd p size) 0
        k.physicalMemoryState.highestAddress) e ∨
      TagFault (ValidRange v (add64 v size) 0 k.virtualMemoryState.highestAddress) e) →
      CallFault refill E m k v p size e := by
    have hH := hk.physical.lt
    have hpmod := hpa.mod
    have hvmod := hva.mod
    intro e hfail he
    by_cases hvalid : ValidCall k v p size
    · obtain ⟨hpos, hpe, hve⟩ := hvalid
      have h1 : ValidRange p (physicalEnd p size) 0 k.physicalMemoryState.highestAddress := by
        rw [physicalEnd_of_lt hpa hsize (by omega)]
        exact ⟨Nat.zero_le p, by omega, hpe, hpa.aligned, by unfold Aligned; omega⟩
      have h2 : ValidRange v (add64 v size) 0 k.virtualMemoryState.highestAddress := by
        unfold pageMask at hve
        rw [add64_of_lt (by omega), hk.virt_highest]
        exact ⟨Nat.zero_le v, by omega, hve, hva.aligned, by unfold Aligned; omega⟩
      rcases he with (he | ⟨hn, -⟩) | (he | ⟨hn, -⟩)
      · exact Or.inr (Or.inl ⟨hfail, he⟩)
      · exact absurd h1 hn
      · exact Or.inr (Or.inl ⟨hfail, he⟩)
      · exact absurd h2 hn
    · rcases he with (he | ⟨-, hmsg⟩) | (he | ⟨-, hmsg⟩)
      · exact Or.inr (Or.inl ⟨hfail, he⟩)
      · exact Or.inr (Or.inr (Or.inr (Or.inr ⟨hfail, hvalid, hmsg⟩)))
      · exact Or.inr (Or.inl ⟨hfail, he⟩)
      · exact Or.inr (Or.inr (Or.inr (Or.inr ⟨hfail, hvalid, hmsg⟩)))
  refine meets_bind (meets_mono (tagRange_meets hk.physical _ _ _).and_eq
    (fun e he => htag e (Or.inl he.1) (Or.inl he.2)) fun _ h => h) fun physical hphysical => ?_
  refine meets_bind (meets_mono (tagRange_meets hk.virt _ _ _).and_eq
    (fun e he => htag e (Or.inr he.1) (Or.inr he.2)) fun _ h => h) fun virt hvirt => ?_
  have hkt := ok_withTrees hk hva hsize hlt hphysical.1 hvirt.1 hkeep
  have hbounds := call_bounds hk hva hpa hsize hlt hphysical.1 hvirt.1
  have hH := hk.physical.lt
  have hend : v + 4096 * callTurns v size ≤ 2 ^ 48 ∧ p + 4096 * callTurns v size ≤ 2 ^ 48 := by
    have hvlt := hva.lt
    have hplt := hpa.lt
    unfold pageMask at hbounds
    by_cases hpos : 0 < callTurns v size
    · have := hbounds hpos
      omega
    · omega
  refine meets_mono (mapLoop_meets hsrc (callTurns v size) hkt (hInv k physical virt hinv)
    hva.aligned hend.1 hpa.aligned hend.2 hA (fun _ => ⟨rfl, rfl⟩) fun _ i hi => ?_)
    (fun e he => Or.inl he) fun k' hk' => ?_
  · exact hkeep i hi
  · exact ⟨hk'.1, hk'.2.1, withTrees k physical virt, hva, hpa, hsize,
      ⟨physical, virt, rfl, hphysical.1, hvirt.1⟩, hkeep, hbounds, hkt, hk'.2.2⟩

end Call

end Enkel.Paging
