import Mathlib.Data.List.Nodup
import Enkel.FreeBlockSearch
import Enkel.PageTables

/-!
The invariant of the memory management state, and what one of its operations
may change. Pages that hold paging structures are static or belong to a block
that was linked into the free list; they are no table twice, are never Free
while the tables are live, and keep their frames. An operation owns the pages
it was asked to map. Elsewhere it changes nothing, except that a refill on the
way may turn Free pages into Used ones and map them.
-/
namespace Enkel.Paging

open Outcome MemoryState KernelMemory

def physState (k : KernelMemory) (x : ℕ) : RangeState := k.physicalMemoryState.getPageState x

def virtState (k : KernelMemory) (x : ℕ) : RangeState := k.virtualMemoryState.getPageState x

/-- The static pages, and the pages of the blocks that have been linked. -/
def Home (k : KernelMemory) (t : ℕ) : Prop :=
  t = k.pml4 ∨
    (k.initialPageTableEntries ≤ t ∧ t < k.initialPageTableEntries + pageSize * staticPageEntries) ∨
    ∃ b ∈ k.linkedBlocks, inBlock b t = true

/-- A page that can become a table: no entry leads to it. -/
structure Spare (k : KernelMemory) (f : ℕ) : Prop where
  pageAddress : PageAddress f
  unlinked : ∀ q, q.length ≤ 3 → tableAt k q ≠ some f

/-- The pages of the next block, as long as it has not been linked. -/
def ReservePage (k : KernelMemory) (f : ℕ) : Prop :=
  k.nextFreePageTableEntriesBlock ≠ 0 ∧ k.nextFreePageTableEntriesBlock ∉ k.linkedBlocks ∧
    f ∈ blockPages k.nextFreePageTableEntriesBlock nextPagingBlockSize

/-- The invariant of the memory management state. -/
structure Ok (k : KernelMemory) : Prop where
  physical : k.physicalMemoryState.Valid
  virt : k.virtualMemoryState.Valid
  virt_highest : k.virtualMemoryState.highestAddress = pageMask
  tables : Tables k
  table_home : ∀ q t, q.length ≤ 3 → tableAt k q = some t → Home k t
  pool_nodup : k.pagingFree.Nodup
  pool : ∀ f ∈ k.pagingFree, Spare k f ∧ Home k f
  reserve : ∀ f, ReservePage k f → Spare k f ∧ f ∉ k.pagingFree
  pml4_aligned : Aligned k.pml4
  initial_aligned : Aligned k.initialPageTableEntries
  block_aligned : ∀ b ∈ k.blocks, Aligned b.1
  paging_lt : ∀ t, k.isPagingPage t = true → t < 2 ^ 48
  live : k.pml4Set = true → ∀ t, t < pageMask → k.isPagingPage t = true → virtState k t ≠ .free
  heap_lt : ∀ sizes ∈ k.heapRequests, ∀ size ∈ sizes, size < 2 ^ 64
  blocks_live : k.blocks ≠ [] → k.pml4Set = true
  linked_block : ∀ b ∈ k.linkedBlocks, ∃ P, (b, P) ∈ k.blocks
  reserve_block : k.nextFreePageTableEntriesBlock ≠ 0 →
    ∃ P, (k.nextFreePageTableEntriesBlock, P) ∈ k.blocks
  block_frame : ∀ b ∈ k.blocks, ∀ i < nextPagingBlockSize,
    frame k (b.1 + pageSize * i) = none ∨
      frame k (b.1 + pageSize * i) = some (b.2 + pageSize * i)
  linked_frame : ∀ b ∈ k.blocks, b.1 ∈ k.linkedBlocks → ∀ i < nextPagingBlockSize,
    frame k (b.1 + pageSize * i) = some (b.2 + pageSize * i)

/-- What may happen between two states of one operation: its own pages are
mapped anew, and when it may refill, Free pages may become Used and mapped. -/
structure Env (refill : Prop) (own : ℕ → Prop) (k k' : KernelMemory) : Prop where
  pml4 : k'.pml4 = k.pml4
  initial : k'.initialPageTableEntries = k.initialPageTableEntries
  pml4Set : k'.pml4Set = k.pml4Set
  cr3 : k'.cr3 = k.cr3
  highest : k'.physicalMemoryState.highestAddress = k.physicalMemoryState.highestAddress
  phys : ∀ x < k.physicalMemoryState.highestAddress, physState k' x = physState k x ∨
    (refill ∧ physState k x = .free ∧ physState k' x = .used)
  virt : ∀ x < pageMask, virtState k' x = virtState k x ∨
    (refill ∧ virtState k x = .free ∧ virtState k' x = .used)
  words : ∀ x < 2 ^ 48, word k' x = word k x ∨ own x ∨
    (refill ∧ x < pageMask ∧ virtState k x = .free ∧ virtState k' x = .used)
  walk : ∀ q t, q.length ≤ 3 → tableAt k q = some t → tableAt k' q = some t
  linked : ∀ b ∈ k.linkedBlocks, b ∈ k'.linkedBlocks
  blocks : ∀ b ∈ k.blocks, b ∈ k'.blocks
  paging_new : ∀ t, k'.isPagingPage t = true → k.isPagingPage t = true ∨
    (refill ∧ t < pageMask ∧ virtState k t = .free)
  paging_frame : k.pml4Set = true → ∀ t, k.isPagingPage t = true → frame k' t = frame k t
  steady : ¬ refill → k'.physicalMemoryState = k.physicalMemoryState ∧
    k'.virtualMemoryState = k.virtualMemoryState ∧
    k'.nextFreePageTableEntriesBlock = k.nextFreePageTableEntriesBlock ∧
    k'.linkedBlocks = k.linkedBlocks ∧ k'.blocks = k.blocks ∧
    k'.heapRequests = k.heapRequests

section Env
variable {refill : Prop} {own own' : ℕ → Prop} {k k' k'' : KernelMemory}

theorem Env.refl (k : KernelMemory) : Env refill own k k :=
  { pml4 := rfl, initial := rfl, pml4Set := rfl, cr3 := rfl, highest := rfl
    phys := fun _ _ => Or.inl rfl, virt := fun _ _ => Or.inl rfl
    words := fun _ _ => Or.inl rfl, walk := fun _ _ _ h => h
    linked := fun _ h => h, blocks := fun _ h => h
    paging_new := fun _ h => Or.inl h, paging_frame := fun _ _ _ => rfl
    steady := fun _ => ⟨rfl, rfl, rfl, rfl, rfl, rfl⟩ }

theorem Env.mono {refill' : Prop} (h : Env refill own k k') (hr : refill → refill')
    (ho : ∀ x, own x → own' x) : Env refill' own' k k' where
  pml4 := h.pml4
  initial := h.initial
  pml4Set := h.pml4Set
  cr3 := h.cr3
  highest := h.highest
  phys := fun x hx => (h.phys x hx).imp id fun ⟨a, b⟩ => ⟨hr a, b⟩
  virt := fun x hx => (h.virt x hx).imp id fun ⟨a, b⟩ => ⟨hr a, b⟩
  words := fun x hx => (h.words x hx).imp id (Or.imp (ho x) fun ⟨a, b⟩ => ⟨hr a, b⟩)
  walk := h.walk
  linked := h.linked
  blocks := h.blocks
  paging_new := fun t ht => (h.paging_new t ht).imp id fun ⟨a, b⟩ => ⟨hr a, b⟩
  paging_frame := h.paging_frame
  steady := fun hn => h.steady fun hq => hn (hr hq)

theorem Env.isPagingPage (h : Env refill own k k') {t : ℕ} (ht : k.isPagingPage t = true) :
    k'.isPagingPage t = true := by
  simp only [KernelMemory.isPagingPage, Bool.or_eq_true, Bool.and_eq_true, decide_eq_true_eq,
    List.any_eq_true, h.pml4, h.initial] at ht ⊢
  rcases ht with ht | ⟨b, hb, ht⟩
  · exact Or.inl ht
  · exact Or.inr ⟨b, h.blocks b hb, ht⟩

theorem Env.home (h : Env refill own k k') {t : ℕ} (ht : Home k t) : Home k' t := by
  rcases ht with ht | ht | ⟨b, hb, ht⟩
  · exact Or.inl (ht.trans h.pml4.symm)
  · refine Or.inr (Or.inl ?_)
    rw [h.initial]
    exact ht
  · exact Or.inr (Or.inr ⟨b, h.linked b hb, ht⟩)

theorem Env.table {refill : Prop} {own : ℕ → Prop} {k k' : KernelMemory}
    (h : Env refill own k k') {q : List ℕ} (hq : q.length ≤ 3) (ht : tableAt k q ≠ none) :
    tableAt k' q ≠ none := by
  obtain ⟨t, ht⟩ := Option.ne_none_iff_exists'.mp ht
  rw [h.walk q t hq ht]
  simp

/-- A page that is not Free keeps its state. -/
theorem Env.virt_of_ne_free (h : Env refill own k k') {x : ℕ} (hx : x < pageMask)
    (hfree : virtState k x ≠ .free) : virtState k' x = virtState k x := by
  rcases h.virt x hx with heq | ⟨-, hf, -⟩
  · exact heq
  · exact absurd hf hfree

theorem Env.free_of_free (h : Env refill own k k') {x : ℕ} (hx : x < pageMask)
    (hfree : virtState k' x = .free) : virtState k x = .free := by
  rcases h.virt x hx with heq | ⟨-, -, hu⟩
  · rw [← heq, hfree]
  · rw [hu] at hfree
    cases hfree

theorem Env.trans (h : Env refill own k k') (h' : Env refill own' k' k'') :
    Env refill (fun x => own x ∨ own' x) k k'' where
  pml4 := h'.pml4.trans h.pml4
  initial := h'.initial.trans h.initial
  pml4Set := h'.pml4Set.trans h.pml4Set
  cr3 := h'.cr3.trans h.cr3
  highest := h'.highest.trans h.highest
  phys := by
    intro x hx
    rcases h.phys x hx with h1 | ⟨hr, hf, hu⟩
    · rcases h'.phys x (by rw [h.highest]; exact hx) with h2 | ⟨hr, hf, hu⟩
      · exact Or.inl (h2.trans h1)
      · exact Or.inr ⟨hr, h1.symm.trans hf, hu⟩
    · rcases h'.phys x (by rw [h.highest]; exact hx) with h2 | ⟨-, hf', -⟩
      · exact Or.inr ⟨hr, hf, h2.trans hu⟩
      · rw [hu] at hf'
        cases hf'
  virt := by
    intro x hx
    rcases h.virt x hx with h1 | ⟨hr, hf, hu⟩
    · rcases h'.virt x hx with h2 | ⟨hr, hf, hu⟩
      · exact Or.inl (h2.trans h1)
      · exact Or.inr ⟨hr, h1.symm.trans hf, hu⟩
    · have hne : virtState k' x ≠ .free := by
        rw [hu]
        decide
      exact Or.inr ⟨hr, hf, (h'.virt_of_ne_free hx hne).trans hu⟩
  words := by
    intro x hx
    rcases h'.words x hx with h2 | ho | ⟨hr, hlt, hf, hu⟩
    · rcases h.words x hx with h1 | ho | ⟨hr, hlt, hf, hu⟩
      · exact Or.inl (h2.trans h1)
      · exact Or.inr (Or.inl (Or.inl ho))
      · have hne : virtState k' x ≠ .free := by
          rw [hu]
          decide
        exact Or.inr (Or.inr ⟨hr, hlt, hf, (h'.virt_of_ne_free hlt hne).trans hu⟩)
    · exact Or.inr (Or.inl (Or.inr ho))
    · exact Or.inr (Or.inr ⟨hr, hlt, h.free_of_free hlt hf, hu⟩)
  walk := fun q t hq ht => h'.walk q t hq (h.walk q t hq ht)
  linked := fun b hb => h'.linked b (h.linked b hb)
  blocks := fun b hb => h'.blocks b (h.blocks b hb)
  paging_new := by
    intro t ht
    rcases h'.paging_new t ht with h2 | ⟨hr, hlt, hf⟩
    · exact h.paging_new t h2
    · exact Or.inr ⟨hr, hlt, h.free_of_free hlt hf⟩
  paging_frame := by
    intro hset t ht
    rw [h'.paging_frame (h.pml4Set.trans hset) t (h.isPagingPage ht), h.paging_frame hset t ht]
  steady := by
    intro hn
    obtain ⟨a1, a2, a3, a4, a5, a6⟩ := h.steady hn
    obtain ⟨b1, b2, b3, b4, b5, b6⟩ := h'.steady hn
    exact ⟨b1.trans a1, b2.trans a2, b3.trans a3, b4.trans a4, b5.trans a5, b6.trans a6⟩

/-- The own pages of both parts may be described in one way. -/
theorem Env.trans_own (h : Env refill own k k') (h' : Env refill own k' k'') :
    Env refill own k k'' :=
  (h.trans h').mono id fun _ hx => hx.elim id id

/-- Off the own pages, a page that is not Free keeps its leaf word. -/
theorem Env.word_of_ne_free (h : Env refill own k k') {x : ℕ} (hx : x < 2 ^ 48)
    (hown : ¬ own x) (hfree : x < pageMask → virtState k x ≠ .free) : word k' x = word k x := by
  rcases h.words x hx with heq | ho | ⟨-, hlt, hf, -⟩
  · exact heq
  · exact absurd ho hown
  · exact absurd hf (hfree hlt)

end Env

theorem isPagingPage_iff {k : KernelMemory} {t : ℕ} : k.isPagingPage t = true ↔
    t = k.pml4 ∨
      (k.initialPageTableEntries ≤ t ∧
        t < k.initialPageTableEntries + pageSize * staticPageEntries) ∨
      ∃ b ∈ k.blocks, inBlock b.1 t = true := by
  simp only [KernelMemory.isPagingPage, Bool.or_eq_true, Bool.and_eq_true, decide_eq_true_eq,
    List.any_eq_true, or_assoc]

theorem inBlock_iff {block t : ℕ} :
    inBlock block t = true ↔ block ≤ t ∧ t < block + pagingBlockBytes := by
  simp [inBlock]

theorem mem_blockPages {block count f : ℕ} :
    f ∈ blockPages block count ↔ ∃ i < count, f = block + pageSize * i := by
  simp only [blockPages, List.mem_map, List.mem_range]
  constructor
  · rintro ⟨i, hi, rfl⟩
    exact ⟨i, hi, rfl⟩
  · rintro ⟨i, hi, rfl⟩
    exact ⟨i, hi, rfl⟩

theorem blockPages_nodup (block count : ℕ) : (blockPages block count).Nodup := by
  unfold blockPages
  refine List.nodup_range.map fun a b hab => ?_
  simp only [pageSize] at hab
  omega

theorem inBlock_page {block i : ℕ} (hi : i < nextPagingBlockSize) :
    inBlock block (block + pageSize * i) = true := by
  rw [inBlock_iff]
  unfold nextPagingBlockSize at hi
  unfold pagingBlockBytes pageSize
  omega

theorem Home.isPagingPage {k : KernelMemory} (hk : Ok k) {t : ℕ} (h : Home k t) :
    k.isPagingPage t = true := by
  rcases h with h | h | ⟨b, hb, h⟩
  · exact isPagingPage_iff.mpr (Or.inl h)
  · exact isPagingPage_iff.mpr (Or.inr (Or.inl h))
  · obtain ⟨P, hP⟩ := hk.linked_block b hb
    exact isPagingPage_iff.mpr (Or.inr (Or.inr ⟨_, hP, h⟩))

/-- When CR3 holds the PML4 the live lookup is the lookup in the tables. -/
theorem getPhysicalAddress_live {k : KernelMemory} (hk : Ok k) (hcr3 : k.cr3 = k.pml4) (x : ℕ) :
    k.getPhysicalAddress x true = k.getPhysicalAddress x false := by
  have hpaging : k.isPagingPage k.pml4 = true := isPagingPage_iff.mpr (Or.inl rfl)
  have hpml4 : PageAddress k.pml4 := ⟨hk.pml4_aligned, hk.paging_lt _ hpaging⟩
  have hmask : k.cr3 &&& pml4AddressMask = k.pml4 := by
    rw [hcr3]
    exact flagged_address (f := 0) hpml4 (by decide)
  unfold KernelMemory.getPhysicalAddress
  simp only [hmask, if_true, Bool.false_eq_true, if_false]

/-- Two states whose tables have the same contents. -/
structure SameTables (k k' : KernelMemory) : Prop where
  pml4 : k'.pml4 = k.pml4
  entries : ∀ q t, q.length ≤ 3 → tableAt k q = some t → ∀ i, k'.entries t i = k.entries t i

section SameTables
variable {k k' : KernelMemory}

theorem SameTables.tableAt (h : SameTables k k') {q : List ℕ} (hq : q.length ≤ 3) :
    Paging.tableAt k' q = Paging.tableAt k q :=
  tableAt_agree h.pml4 (fun r t hr => h.entries r t (by omega)) hq

theorem SameTables.word (h : SameTables k k') (x : ℕ) : Paging.word k' x = Paging.word k x :=
  word_agree h.pml4 h.entries x

theorem SameTables.frame (h : SameTables k k') (x : ℕ) : Paging.frame k' x = Paging.frame k x :=
  frame_congr (h.word x)

theorem SameTables.tables (h : SameTables k k') (hk : Tables k) : Tables k' :=
  hk.agree h.pml4 fun r t hr => h.entries r t (by omega)

theorem SameTables.spare (h : SameTables k k') {f : ℕ} (hf : Spare k f) : Spare k' f := by
  refine ⟨hf.pageAddress, fun q hq => ?_⟩
  rw [h.tableAt hq]
  exact hf.unlinked q hq

theorem SameTables.trans {k'' : KernelMemory} (h : SameTables k k') (h' : SameTables k' k'') :
    SameTables k k'' := by
  refine ⟨h'.pml4.trans h.pml4, fun q t hq ht i => ?_⟩
  rw [h'.entries q t hq ((h.tableAt hq).trans ht) i, h.entries q t hq ht i]

theorem sameTables_of_eq (hpml4 : k'.pml4 = k.pml4) (hentries : k'.entries = k.entries) :
    SameTables k k' :=
  ⟨hpml4, fun _ _ _ _ _ => by rw [hentries]⟩

theorem sameTables_clearPages {c : ℕ → Bool}
    (hc : ∀ q t, q.length ≤ 3 → Paging.tableAt k q = some t → c t = false) :
    SameTables k (k.clearPages c) := by
  refine ⟨rfl, fun q t hq ht i => ?_⟩
  unfold KernelMemory.clearPages
  simp [hc q t hq ht]

/-- Clearing pages that are no tables keeps the invariant. -/
theorem Ok.clearPages (hk : Ok k) {c : ℕ → Bool}
    (hc : ∀ q t, q.length ≤ 3 → Paging.tableAt k q = some t → c t = false) :
    Ok (k.clearPages c) :=
  have hsame := sameTables_clearPages hc
  { hk with
    tables := hsame.tables hk.tables
    table_home := fun q t hq ht => hk.table_home q t hq (by rwa [hsame.tableAt hq] at ht)
    pool := fun f hf => ⟨hsame.spare (hk.pool f hf).1, (hk.pool f hf).2⟩
    reserve := fun f hf => ⟨hsame.spare (hk.reserve f hf).1, (hk.reserve f hf).2⟩
    block_frame := fun b hb i hi => by
      rw [hsame.frame]
      exact hk.block_frame b hb i hi
    linked_frame := fun b hb hlinked i hi => by
      rw [hsame.frame]
      exact hk.linked_frame b hb hlinked i hi }

theorem env_clearPages {refill : Prop} {own : ℕ → Prop} {c : ℕ → Bool}
    (hc : ∀ q t, q.length ≤ 3 → Paging.tableAt k q = some t → c t = false) :
    Env refill own k (k.clearPages c) :=
  have hsame := sameTables_clearPages hc
  { (Env.refl k : Env refill own k k) with
    words := fun x _ => Or.inl (hsame.word x)
    walk := fun _ _ hq ht => (hsame.tableAt hq).trans ht
    paging_frame := fun _ t _ => hsame.frame t }

end SameTables

/-- A page just taken from the list. -/
structure Fresh (k : KernelMemory) (f : ℕ) : Prop where
  spare : Spare k f
  home : Home k f
  not_pooled : f ∉ k.pagingFree
  not_reserved : ¬ ReservePage k f
  cleared : ∀ i, k.entries f i = 0

section Steps
variable {k : KernelMemory}

theorem takePage_meets (hk : Ok k) (refill : Prop) :
    Meets (fun e => e = .pagingListEmpty ∧ k.pagingFree = [])
      (fun r => Ok r.2 ∧ Env refill (fun _ => False) k r.2 ∧ Fresh r.2 r.1 ∧
        k.pagingFree = r.1 :: r.2.pagingFree ∧ SameTables k r.2)
      k.takePage := by
  unfold KernelMemory.takePage
  split
  case h_1 h => exact meets_error ⟨rfl, h⟩
  case h_2 page rest h =>
    have hnodup := hk.pool_nodup
    rw [h, List.nodup_cons] at hnodup
    have hpage := hk.pool page (by simp [h])
    have hsame : SameTables k { k with pagingFree := rest } := sameTables_of_eq rfl rfl
    have hpool : Ok { k with pagingFree := rest } :=
      { hk with
        tables := hsame.tables hk.tables
        pool_nodup := hnodup.2
        pool := fun f hf =>
          have hmem := hk.pool f (by simp [h, show f ∈ rest from hf])
          ⟨hsame.spare hmem.1, hmem.2⟩
        reserve := fun f hf => ⟨hsame.spare (hk.reserve f hf).1, fun hmem =>
          (hk.reserve f hf).2 (by simp [h, show f ∈ rest from hmem])⟩ }
    have hc : ∀ q t, q.length ≤ 3 → tableAt { k with pagingFree := rest } q = some t →
        decide (t = page) = false := by
      intro q _ hq ht
      rw [decide_eq_false_iff_not]
      rintro rfl
      exact hpage.1.unlinked q hq ht
    refine meets_ok ⟨hpool.clearPages hc, ?_, ?_, h, hsame.trans (sameTables_clearPages hc)⟩
    · have henv : Env refill (fun _ => False) k { k with pagingFree := rest } := { Env.refl k with }
      exact henv.trans_own (env_clearPages hc)
    · exact
        { spare := (sameTables_clearPages hc).spare (hsame.spare hpage.1)
          home := hpage.2
          not_pooled := hnodup.1
          not_reserved := fun hr => (hk.reserve page hr).2 (by simp [h])
          cleared := fun i => by simp [KernelMemory.clearPages] }

/-- Linking the reserve block puts its pages on the list, each of them mapped. -/
theorem linkReserve_meets (hk : Ok k) :
    Meets (fun _ => True) (fun k' => Ok k' ∧ Env True (fun _ => False) k k' ∧
      k'.physicalMemoryState = k.physicalMemoryState ∧
      k'.virtualMemoryState = k.virtualMemoryState ∧ k'.pml4Set = true) (linkReserve k) := by
  unfold linkReserve
  refine meets_require (fun _ => trivial) fun hblock => ?_
  obtain ⟨P, hP⟩ := hk.reserve_block hblock
  refine meets_require (fun _ => trivial) fun hlinked => ?_
  refine meets_require (fun _ => trivial) fun hmapped => ?_
  have hmem : ∀ f ∈ blockPages k.nextFreePageTableEntriesBlock nextPagingBlockSize,
      ReservePage k f ∧ inBlock k.nextFreePageTableEntriesBlock f = true := by
    intro f hf
    obtain ⟨i, hi, heq⟩ := mem_blockPages.mp hf
    rw [heq] at hf ⊢
    exact ⟨⟨hblock, hlinked, hf⟩, inBlock_page hi⟩
  have hnodup := blockPages_nodup k.nextFreePageTableEntriesBlock nextPagingBlockSize
  have hframe : ∀ b ∈ k.blocks, b.1 = k.nextFreePageTableEntriesBlock →
      ∀ i < nextPagingBlockSize, frame k (b.1 + pageSize * i) = some (b.2 + pageSize * i) := by
    intro b hb hnew i hi
    have hpage := hmapped (b.1 + pageSize * i) (mem_blockPages.mpr ⟨i, hi, by rw [hnew]⟩)
    rw [getPhysicalAddress_eq_frame hk.tables] at hpage
    rcases hk.block_frame b hb i hi with hnone | hsome
    · rw [hnone] at hpage
      exact absurd rfl hpage
    · exact hsome
  generalize blockPages k.nextFreePageTableEntriesBlock nextPagingBlockSize = pages at hmem hnodup ⊢
  have hsame : SameTables k { k with
      pagingFree := pages
      linkedBlocks := k.nextFreePageTableEntriesBlock :: k.linkedBlocks } :=
    sameTables_of_eq rfl rfl
  have hok : Ok { k with
      pagingFree := pages
      linkedBlocks := k.nextFreePageTableEntriesBlock :: k.linkedBlocks } :=
    { hk with
      tables := hsame.tables hk.tables
      table_home := fun q t hq ht => (hk.table_home q t hq ht).imp_right fun h => h.imp_right
        fun ⟨b, hb, h⟩ => ⟨b, List.mem_cons_of_mem _ hb, h⟩
      pool_nodup := hnodup
      pool := fun f hf => ⟨hsame.spare (hk.reserve f (hmem f hf).1).1,
        Or.inr (Or.inr ⟨_, List.mem_cons_self, (hmem f hf).2⟩)⟩
      reserve := fun f hf => absurd List.mem_cons_self hf.2.1
      linked_block := fun b hb => by
        rcases List.mem_cons.mp hb with rfl | hb
        · exact hk.reserve_block hblock
        · exact hk.linked_block b hb
      linked_frame := fun b hb hlink => by
        rcases List.mem_cons.mp hlink with hnew | hold
        · exact hframe b hb hnew
        · exact hk.linked_frame b hb hold }
  exact meets_pure ⟨hok,
    { (Env.refl k : Env True (fun _ => False) k k) with
      linked := fun b hb => List.mem_cons_of_mem _ hb
      steady := fun h => absurd trivial h }, rfl, rfl, hk.blocks_live (List.ne_nil_of_mem hP)⟩

end Steps

end Enkel.Paging
