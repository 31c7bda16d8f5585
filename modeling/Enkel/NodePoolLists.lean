import Enkel.NodePools
import Mathlib.Data.List.Perm.Basic

/-!
What holds of the node storage while a tree is updated: the nodes of the tree and
those that the update holds are distinct entries of the tables, and the two free
lists run through other entries. Taking a node, giving one back and storing into a
node in use keep this. A refill keeps it if the page that becomes the list links
only its own entries, in a list that ends.
-/
namespace Enkel.NodePools

open Outcome MemoryState IntrusiveList

variable {y : Layout} {s : Pools} {nodes nodes' : List (Kind × ℕ)} {free : Kind → List ℕ}
  {k k' : Kind} {n i a : ℕ}

def Layout.InTable (y : Layout) (k : Kind) (n a : ℕ) : Prop :=
  y.table k n ≤ a ∧ a < y.table k n + k.bytes

/-- The initial entries and the pages of rpmalloc are different memory, none at zero. -/
structure Layout.Fresh (y : Layout) : Prop where
  table_pos : ∀ k n, 0 < y.table k n
  apart : ∀ k n k' n' a, y.InTable k n a → y.InTable k' n' a → k = k' ∧ n = n'

def Layout.IsEntry (y : Layout) (k : Kind) (n a : ℕ) : Prop :=
  ∃ i < k.tableEntries, a = y.entry k n i

/-- An entry of a table. A branch does not fit in an entry for a leaf. -/
def Pools.IsNode (y : Layout) (s : Pools) (k : Kind) (a : ℕ) : Prop :=
  ∃ k' n, n ≤ s.pages k' ∧ (k = .branch → k' = .branch) ∧ y.IsEntry k' n a

/-- The page that rpmalloc returned holds a list of its own entries that starts with
the first of them. -/
def Layout.PageLinked (y : Layout) (k : Kind) (n : ℕ) : Prop :=
  ∃ l, Chain (y.rpmalloc k n).words (y.table k (n + 1)) l ∧ ∀ a ∈ l, y.IsEntry k (n + 1) a

/-- All pages but the prepared one held a list when they were returned. -/
def Pools.RefillsLinked (y : Layout) (s : Pools) : Prop :=
  ∀ k n, n + 1 < s.pages k → y.PageLinked k n

section Tables

theorem Layout.IsEntry.inTable (h : y.IsEntry k n a) : y.InTable k n a := by
  obtain ⟨i, hi, rfl⟩ := h
  unfold InTable entry Kind.bytes
  refine ⟨Nat.le_add_right _ _, Nat.add_lt_add_left ?_ _⟩
  exact Nat.mul_lt_mul_of_pos_left hi (by cases k <;> decide)

theorem Layout.Fresh.pos_of_inTable (hy : y.Fresh) (h : y.InTable k n a) : 0 < a :=
  Nat.lt_of_lt_of_le (hy.table_pos k n) h.1

theorem Pools.IsNode.ne_zero (hy : y.Fresh) (h : s.IsNode y k a) : a ≠ 0 := by
  obtain ⟨k', n, -, -, hentry⟩ := h
  exact (hy.pos_of_inTable hentry.inTable).ne'

theorem Pools.IsNode.mono {s' : Pools} (h : s.IsNode y k a) (hpages : s.pages ≤ s'.pages) :
    s'.IsNode y k a := by
  obtain ⟨k', n, hn, hk, hentry⟩ := h
  exact ⟨k', n, hn.trans (hpages k'), hk, hentry⟩

theorem Pools.IsNode.leaf (h : s.IsNode y k a) : s.IsNode y .leaf a := by
  obtain ⟨k', n, hn, -, hentry⟩ := h
  exact ⟨k', n, hn, nofun, hentry⟩

/-- No node lies in a page that rpmalloc has not returned yet. -/
theorem Pools.IsNode.not_inTable (hy : y.Fresh) (h : s.IsNode y k a) (hn : s.pages k' < n) :
    ¬ y.InTable k' n a := by
  intro hin
  obtain ⟨k'', n'', hle, -, hentry⟩ := h
  obtain ⟨rfl, rfl⟩ := hy.apart _ _ _ _ _ hentry.inTable hin
  omega

end Tables

/-- The free lists, beside the nodes that are in use. -/
structure Listed (y : Layout) (s : Pools) (nodes : List (Kind × ℕ)) (free : Kind → List ℕ) :
    Prop where
  chain : ∀ k, Chain s.word (s.freeHead k) (free k)
  nodup : (nodes.map Prod.snd).Nodup
  inUse : s.inUse.Perm (nodes.map Prod.snd)
  isNode : ∀ x ∈ nodes, s.IsNode y x.1 x.2
  free_isNode : ∀ k, ∀ a ∈ free k, s.IsNode y k a
  unused : ∀ k, ∀ a ∈ free k, a ∉ nodes.map Prod.snd
  separate : ∀ k k', k ≠ k' → ∀ a ∈ free k, a ∉ free k'

/-- The prepared page is as rpmalloc has returned it, and nothing uses it. -/
def Prepared (y : Layout) (s : Pools) (nodes : List (Kind × ℕ)) (free : Kind → List ℕ)
    (k : Kind) : Prop :=
  s.nextFreeHead k = 0 ∨ ∃ n, s.pages k = n + 1 ∧ s.nextFreeHead k = y.table k (n + 1) ∧
    ∀ a, y.InTable k (n + 1) a → s.word a = (y.rpmalloc k n).words a ∧
      a ∉ nodes.map Prod.snd ∧ ∀ k', a ∉ free k'

structure Holds (y : Layout) (s : Pools) (nodes : List (Kind × ℕ)) (free : Kind → List ℕ) :
    Prop where
  listed : Listed y s nodes free
  prepared : ∀ k, Prepared y s nodes free k

section Steps

theorem Listed.perm (h : Listed y s nodes free) (hperm : nodes.Perm nodes') :
    Listed y s nodes' free := by
  have hmap := hperm.map Prod.snd
  exact ⟨h.chain, (hmap.nodup_iff).mp h.nodup, h.inUse.trans hmap,
    fun x hx => h.isNode x (hperm.mem_iff.mpr hx), h.free_isNode,
    fun k a ha hmem => h.unused k a ha (hmap.mem_iff.mpr hmem), h.separate⟩

theorem Prepared.perm (h : Prepared y s nodes free k) (hperm : nodes.Perm nodes') :
    Prepared y s nodes' free k := by
  refine h.imp_right fun ⟨n, hpages, hnext, hpage⟩ => ⟨n, hpages, hnext, fun a ha => ?_⟩
  obtain ⟨hword, hnot, hfree⟩ := hpage a ha
  exact ⟨hword, fun hmem => hnot ((hperm.map Prod.snd).mem_iff.mpr hmem), hfree⟩

theorem Holds.perm (h : Holds y s nodes free) (hperm : nodes.Perm nodes') :
    Holds y s nodes' free :=
  ⟨h.listed.perm hperm, fun k => (h.prepared k).perm hperm⟩

/-- Storing into a node that is in use. -/
theorem Holds.store (h : Holds y s nodes free) (ha : a ∈ nodes.map Prod.snd) (w : ℕ) :
    Holds y { s with word := Function.update s.word a w } nodes free := by
  obtain ⟨⟨hchain, hnodup, hinUse, hnode, hfree, hunused, hseparate⟩, hprepared⟩ := h
  refine ⟨⟨fun k => (hchain k).update (fun hmem => hunused k a hmem ha) w, hnodup, hinUse, hnode,
    hfree, hunused, hseparate⟩, fun k => ?_⟩
  refine (hprepared k).imp_right fun ⟨n, hpages, hnext, hpage⟩ => ⟨n, hpages, hnext, fun b hb => ?_⟩
  obtain ⟨hword, hnot, hfree⟩ := hpage b hb
  have hne : b ≠ a := fun heq => hnot (heq ▸ ha)
  exact ⟨(Function.update_of_ne hne w s.word).trans hword, hnot, hfree⟩

/-- The first node of a list is taken. -/
theorem Holds.pop {l : List ℕ} (h : Holds y s nodes free) (hl : free k = a :: l) :
    s.freeHead k = a ∧ a ≠ 0 ∧
      Holds y { s with
        freeHead := Function.update s.freeHead k (s.word a)
        inUse := a :: s.inUse } ((k, a) :: nodes) (Function.update free k l) := by
  obtain ⟨⟨hchain, hnodup, hinUse, hnode, hfree, hunused, hseparate⟩, hprepared⟩ := h
  obtain ⟨hhead, hne, hrest⟩ := chains_pop hchain hl
  have hmem : a ∈ free k := hl ▸ List.mem_cons_self
  have hsub : ∀ k', ∀ b ∈ Function.update free k l k', b ∈ free k' ∧ b ≠ a := by
    intro k' b hb
    by_cases hk : k' = k
    · subst hk
      rw [Function.update_self] at hb
      have hnodup := (hchain k').nodup
      rw [hl, List.nodup_cons] at hnodup
      exact ⟨hl ▸ List.mem_cons_of_mem a hb, ne_of_mem_of_not_mem hb hnodup.1⟩
    · rw [Function.update_of_ne hk] at hb
      exact ⟨hb, fun heq => hseparate k' k hk b hb (heq ▸ hmem)⟩
  refine ⟨hhead, hne, ⟨hrest, ?_, hinUse.cons a, ?_, fun k' b hb => hfree k' b (hsub k' b hb).1,
    fun k' b hb hin => ?_, fun k₁ k₂ hk b hb hb' => ?_⟩, fun k' => ?_⟩
  · exact List.nodup_cons.mpr ⟨hunused k a hmem, hnodup⟩
  · exact List.forall_mem_cons.mpr ⟨hfree k a hmem, hnode⟩
  · obtain ⟨hb, hne⟩ := hsub k' b hb
    exact (List.mem_cons.mp hin).elim hne fun hin => hunused k' b hb hin
  · exact hseparate k₁ k₂ hk b (hsub k₁ b hb).1 (hsub k₂ b hb').1
  · refine (hprepared k').imp_right fun ⟨n, hpages, hnext, hpage⟩ =>
      ⟨n, hpages, hnext, fun b hb => ?_⟩
    obtain ⟨hword, hnot, hfree⟩ := hpage b hb
    refine ⟨hword, fun hin => ?_, fun k'' hin => hfree k'' (hsub k'' b hin).1⟩
    rcases List.mem_cons.mp hin with heq | hin
    · exact hfree k (heq ▸ hmem)
    · exact hnot hin

/-- A node in use is put in front of its list. -/
theorem Holds.push (hy : y.Fresh) (h : Holds y s ((k, a) :: nodes) free) :
    Holds y { s with
      word := Function.update s.word a (s.freeHead k)
      freeHead := Function.update s.freeHead k a
      inUse := s.inUse.erase a } nodes (Function.update free k (a :: free k)) := by
  obtain ⟨⟨hchain, hnodup, hinUse, hnode, hfree, hunused, hseparate⟩, hprepared⟩ := h
  rw [List.map_cons, List.nodup_cons] at hnodup
  have hself : s.IsNode y k a := hnode (k, a) List.mem_cons_self
  have hnot : ∀ k', a ∉ free k' := fun k' hmem => hunused k' a hmem List.mem_cons_self
  have hsub : ∀ k', ∀ b ∈ Function.update free k (a :: free k) k',
      b ∈ free k' ∨ b = a ∧ k' = k := by
    intro k' b hb
    by_cases hk : k' = k
    · subst hk
      rw [Function.update_self, List.mem_cons] at hb
      exact hb.symm.imp_right fun h => ⟨h, rfl⟩
    · rw [Function.update_of_ne hk] at hb
      exact Or.inl hb
  refine ⟨⟨chains_push hchain (hself.ne_zero hy) hnot k, hnodup.2, ?_,
    fun x hx => hnode x (List.mem_cons_of_mem _ hx), fun k' b hb => ?_, fun k' b hb hin => ?_,
    fun k₁ k₂ hk b hb hb' => ?_⟩, fun k' => ?_⟩
  · have herase := hinUse.erase a
    rwa [List.map_cons, List.erase_cons_head] at herase
  · rcases hsub k' b hb with hb | ⟨rfl, rfl⟩
    · exact hfree k' b hb
    · exact hself
  · rcases hsub k' b hb with hb | ⟨rfl, rfl⟩
    · exact hunused k' b hb (List.mem_cons_of_mem _ hin)
    · exact hnodup.1 hin
  · rcases hsub k₁ b hb with h₁ | ⟨rfl, rfl⟩ <;> rcases hsub k₂ b hb' with h₂ | ⟨heq, rfl⟩
    · exact hseparate k₁ k₂ hk b h₁ h₂
    · exact hnot k₁ (heq ▸ h₁)
    · exact hnot k₂ h₂
    · exact hk rfl
  · refine (hprepared k').imp_right fun ⟨n, hpages, hnext, hpage⟩ =>
      ⟨n, hpages, hnext, fun b hb => ?_⟩
    obtain ⟨hword, hout, hlists⟩ := hpage b hb
    have hne : b ≠ a := fun heq => hout (heq ▸ List.mem_cons_self)
    refine ⟨(Function.update_of_ne hne _ _).trans hword,
      fun hin => hout (List.mem_cons_of_mem _ hin), fun k'' hin => ?_⟩
    exact (hsub k'' b hin).elim (hlists k'') fun h => hne h.1

end Steps

section Refill

theorem Pools.pages_le_allocate : s.pages ≤ (s.allocateNewPage y k).pages := by
  intro k'
  unfold allocateNewPage
  by_cases hk : k' = k
  · subst hk
    exact (Nat.le_succ _).trans (Function.update_self k' _ s.pages).ge
  · exact (Function.update_of_ne hk _ s.pages).ge

/-- A new page changes no word outside it. -/
theorem Pools.allocate_word (h : ¬ y.InTable k (s.pages k + 1) a) :
    (s.allocateNewPage y k).word a = s.word a :=
  if_neg h

theorem Listed.allocate (hy : y.Fresh) (h : Listed y s nodes free) (k : Kind) :
    Listed y (s.allocateNewPage y k) nodes free := by
  obtain ⟨hchain, hnodup, hinUse, hnode, hfree, hunused, hseparate⟩ := h
  refine ⟨fun k' => (hchain k').congr fun a ha => ?_, hnodup, hinUse,
    fun x hx => (hnode x hx).mono Pools.pages_le_allocate,
    fun k' a ha => (hfree k' a ha).mono Pools.pages_le_allocate, hunused, hseparate⟩
  exact Pools.allocate_word ((hfree k' a ha).not_inTable hy (Nat.lt_succ_self _))

theorem Listed.prepared_allocate (hy : y.Fresh) (h : Listed y s nodes free) (k : Kind) :
    Prepared y (s.allocateNewPage y k) nodes free k := by
  refine Or.inr ⟨s.pages k, Function.update_self k _ _, Function.update_self k _ _,
    fun a ha => ⟨if_pos ha, fun hin => ?_, fun k' hin => ?_⟩⟩
  · obtain ⟨x, hx, rfl⟩ := List.mem_map.mp hin
    exact (h.isNode x hx).not_inTable hy (Nat.lt_succ_self _) ha
  · exact (h.free_isNode k' a hin).not_inTable hy (Nat.lt_succ_self _) ha

/-- The page prepared for the other kind stays as it is. -/
theorem Prepared.allocate (hy : y.Fresh) (h : Prepared y s nodes free k') (hk : k' ≠ k) :
    Prepared y (s.allocateNewPage y k) nodes free k' := by
  have hnextEq : (s.allocateNewPage y k).nextFreeHead k' = s.nextFreeHead k' :=
    Function.update_of_ne hk _ _
  have hpagesEq : (s.allocateNewPage y k).pages k' = s.pages k' := Function.update_of_ne hk _ _
  unfold Prepared
  rw [hnextEq, hpagesEq]
  refine h.imp_right fun ⟨n, hpages, hnext, hpage⟩ => ⟨n, hpages, hnext, fun a ha => ?_⟩
  obtain ⟨hword, hrest⟩ := hpage a ha
  refine ⟨(Pools.allocate_word fun hin => ?_).trans hword, hrest⟩
  exact hk (hy.apart _ _ _ _ _ ha hin).1

theorem Holds.allocate (hy : y.Fresh) (h : Holds y s nodes free) (k : Kind) :
    Holds y (s.allocateNewPage y k) nodes free := by
  refine ⟨h.listed.allocate hy k, fun k' => ?_⟩
  by_cases hk : k' = k
  · subst hk
    exact h.listed.prepared_allocate hy k'
  · exact (h.prepared k').allocate hy hk

/-- An empty list is replaced by the list in the prepared page. -/
theorem Holds.refill (hy : y.Fresh) (h : Holds y s nodes free) (hnil : free k = [])
    (hnext : s.nextFreeHead k ≠ 0) (hlinked : (s.refill y k).RefillsLinked y) :
    ∃ l, l ≠ [] ∧ Holds y (s.refill y k) nodes (Function.update free k l) := by
  obtain ⟨n, hpages, hhead, hpage⟩ := (h.prepared k).resolve_left hnext
  have hafter : (s.refill y k).pages k = s.pages k + 1 := Function.update_self k _ _
  obtain ⟨l, hchain, hentries⟩ := hlinked k n (by omega)
  have hin : ∀ a ∈ l, y.InTable k (n + 1) a := fun a ha => (hentries a ha).inTable
  have hlists : ∀ k', ∀ a ∈ Function.update free k l k', a ∈ free k' ∨ a ∈ l ∧ k' = k := by
    intro k' a ha
    by_cases hk : k' = k
    · subst hk
      rw [Function.update_self] at ha
      exact Or.inr ⟨ha, rfl⟩
    · rw [Function.update_of_ne hk] at ha
      exact Or.inl ha
  obtain ⟨⟨hchains, hnodup, hinUse, hnode, hfree, hunused, hseparate⟩, hprepared⟩ := h
  have hlisted : Listed y { s with freeHead := Function.update s.freeHead k (s.nextFreeHead k) }
      nodes (Function.update free k l) := by
    refine ⟨fun k' => ?_, hnodup, hinUse, hnode, fun k' a ha => ?_, fun k' a ha hmem => ?_,
      fun k₁ k₂ hk a ha ha' => ?_⟩
    · by_cases hk : k' = k
      · subst hk
        simp only [Function.update_self]
        rw [hhead]
        exact hchain.congr fun a ha => (hpage a (hin a ha)).1
      · simpa only [Function.update_of_ne hk] using hchains k'
    · rcases hlists k' a ha with hold | ⟨hnew, rfl⟩
      · exact hfree k' a hold
      · exact ⟨k', n + 1, hpages.ge, id, hentries a hnew⟩
    · rcases hlists k' a ha with hold | ⟨hnew, rfl⟩
      · exact hunused k' a hold hmem
      · exact (hpage a (hin a hnew)).2.1 hmem
    · rcases hlists k₁ a ha with hold | ⟨hnew, rfl⟩ <;>
        rcases hlists k₂ a ha' with hold' | ⟨hnew', rfl⟩
      · exact hseparate k₁ k₂ hk a hold hold'
      · exact (hpage a (hin a hnew')).2.2 k₁ hold
      · exact (hpage a (hin a hnew)).2.2 k₂ hold'
      · exact hk rfl
  refine ⟨l, fun hl => ?_, hlisted.allocate hy k, fun k' => ?_⟩
  · subst hl
    exact hnext (hhead.trans hchain)
  by_cases hk : k' = k
  · subst hk
    exact hlisted.prepared_allocate hy k'
  · refine Prepared.allocate hy ?_ hk
    refine (hprepared k').imp_right fun ⟨n', hpages', hnext', hpage'⟩ =>
      ⟨n', hpages', hnext', fun a ha => ?_⟩
    obtain ⟨hword, hout, hnot⟩ := hpage' a ha
    refine ⟨hword, hout, fun k'' hmem => ?_⟩
    rcases hlists k'' a hmem with hold | ⟨hnew, rfl⟩
    · exact hnot k'' hold
    · exact hk (hy.apart _ _ _ _ _ ha (hin a hnew)).1

end Refill

end Enkel.NodePools
