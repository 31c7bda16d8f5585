import Enkel.NestedRefill

/-!
What a call of MapPages that returns has needed. Either the free list had a page for every
table that was missing, or it was refilled on the way, and then a page off the range of the
call that was Free is not Free any more.
-/
namespace Enkel.Paging

open Outcome MemoryState KernelMemory

/-- Every table that was added has taken a page of the list, or a refill has taken pages. -/
structure Drawn (S : Finset (List ℕ)) (k0 k : KernelMemory) : Prop where
  virt : ∀ x < pageMask, virtState k0 x ≠ .free → virtState k x ≠ .free
  pool : Counted S k0 k ∨ ∃ x < pageMask, virtState k0 x = .free ∧ virtState k x ≠ .free

section Drawn
variable {S : Finset (List ℕ)} {k k0 k' : KernelMemory} {own : ℕ → Prop} {refill : Prop}

theorem Drawn.refl (S : Finset (List ℕ)) (k : KernelMemory) : Drawn S k k :=
  ⟨fun _ _ h => h, Or.inl (Counted.refl S k)⟩

/-- Pages that a refill has taken stay taken. -/
theorem Drawn.of_env (h : Drawn S k0 k) (henv : Env refill own k k')
    (hcount : Counted S k0 k → Counted S k0 k' ∨
      ∃ x < pageMask, virtState k0 x = .free ∧ virtState k' x ≠ .free) : Drawn S k0 k' := by
  have hstays : ∀ x < pageMask, virtState k x ≠ .free → virtState k' x ≠ .free :=
    fun x hx hne => by rwa [henv.virt_of_ne_free hx hne]
  refine ⟨fun x hx hne => hstays x hx (h.virt x hx hne), ?_⟩
  rcases h.pool with hcounted | ⟨x, hx, hfree, hne⟩
  · exact hcount hcounted
  · exact Or.inr ⟨x, hx, hfree, hstays x hx hne⟩

/-- A step takes the head of the list, or refills it first. -/
theorem tableSource_drawn (hS : ∀ q ∈ S, q.length ≤ 3) (k0 : KernelMemory) (depth : ℕ) :
    TableSource (· ∈ S) (Drawn S k0) True (fun _ => True) (getPML4FreePage depth) where
  next := by
    intro k q t i reservedMask hk hdrawn hq ht hmem hmask
    refine meets_mono (meets_and (nextTable_meets (i := i) (getPML4FreePage_spec depth) hk hq ht
      hmask) (meets_self _)) (fun e he => he.1) fun r hr => ?_
    obtain ⟨⟨hk', henv, hat⟩, hrun⟩ := hr
    refine ⟨hk', henv, hat, hdrawn.of_env henv fun hcount => ?_⟩
    by_cases habsent : k.entries t i &&& present = 0 ∧ k.pagingFree = []
    · obtain ⟨block, p, hf, -, hused⟩ := refill_step hk hq ht habsent.1 habsent.2 hrun
      have hle := hf.virt_le hk
      have hpos : 0 < pagingBlockBytes := by decide
      refine Or.inr ⟨block, by omega, ?_, ?_⟩
      · by_contra hne
        exact hdrawn.virt block (by omega) hne (hf.virt_free hk le_rfl (by omega))
      · rw [hused block le_rfl (by omega)]
        decide
    · have hzero : nextTable (getPML4FreePage depth) t i reservedMask k =
          nextTable (getPML4FreePage 0) t i reservedMask k := by
        unfold nextTable
        by_cases hpresent : k.entries t i &&& present = 0
        · rw [getPML4FreePage_of_ne_nil (fun hnil => habsent ⟨hpresent, hnil⟩) depth]
        · rw [if_pos hpresent, if_pos hpresent]
      rw [hzero] at hrun
      exact Or.inl (((tableSource_zero hS k0).next hk hcount hq ht hmem hmask).of_eq_ok
        hrun).2.2.2
  leaf := by
    intro k v p pt m hk hdrawn hv hpt
    refine ⟨hdrawn.virt, hdrawn.pool.imp (fun hcount => ?_) id⟩
    exact hcount.congr rfl (fun q hq => tableAt_leaf hk hpt hq) hS

end Drawn

/-- A call that maps and returns without the pages of the list for it takes a page that was
Free, off its own range. -/
theorem mapPages_enough_or_refilled {k k' : KernelMemory} {m : Mapping} {depth v p size : ℕ}
    (hk : Ok k) (hlt : size < 2 ^ 64) (hm : m.newState ≠ .free)
    (h : k.mapPages depth v p size m = .ok k') :
    missingTables k v size ≤ k.pagingFree.length ∨
      ∃ x < pageMask, ¬(v ≤ x ∧ x < add64 v size) ∧ virtState k x = .free ∧
        virtState k' x ≠ .free := by
  obtain ⟨-, kt, hc⟩ := mapPages_eq_ok hk hlt h
  obtain ⟨physical, virt, hphysical, hvirt, hloop⟩ := mapPages_loop h
  obtain rfl := hc.tagged_eq hphysical hvirt
  have hS := length_of_mem_callPrefixes v (callTurns v size)
  have hH := hk.physical.lt
  have hvlt := hc.virtual_page.lt
  have hplt := hc.physical_page.lt
  have hend : v + 4096 * callTurns v size ≤ 2 ^ 48 ∧ p + 4096 * callTurns v size ≤ 2 ^ 48 := by
    have hbounds := hc.bounds
    unfold pageMask at hbounds
    by_cases hpos : 0 < callTurns v size
    · have := hbounds hpos
      omega
    · omega
  obtain ⟨-, hdrawn, hmapped⟩ := (mapLoop_meets (tableSource_drawn hS _ depth) (callTurns v size)
    hc.ok_tagged (Drawn.refl _ (withTrees k physical virt)) hc.virtual_page.aligned hend.1
    hc.physical_page.aligned hend.2 (fun i hi => prefixes_callPrefixes hi) (fun _ => ⟨rfl, rfl⟩)
    fun hrefill => absurd trivial hrefill).of_eq_ok hloop
  rcases hdrawn.pool with hcount | ⟨x, hx, hfree, hne⟩
  · have hlength := hcount.length
    rw [missing_callPrefixes_eq_zero hmapped.table] at hlength
    have hlength : k'.pagingFree.length + missingTables k v size = k.pagingFree.length := hlength
    exact Or.inl (by omega)
  · have hout : ¬(v ≤ x ∧ x < add64 v size) := fun hin =>
      hc.tagged_ne_free hk hm hx hin.1 hin.2 hfree
    have htag := hc.virt_tagged hk hx
    rw [hfree] at htag
    unfold tagged at htag
    rw [if_neg fun hin => hout ⟨hin.1, hin.2.1⟩] at htag
    exact Or.inr ⟨x, hx, hout, htag.symm, hne⟩

end Enkel.Paging
