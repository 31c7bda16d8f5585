import Enkel.AddressMap
import Enkel.RefillReturns

/-!
Refills in the middle of a call of MapPages. The outer call tests an entry,
fetches a page for it and stores the page; a refill on the way allocates a
block and may have to fill the same entry. The block keeps its mapping exactly
when first fit has put it where no page of it lies below that entry. What the
outer call maps, and what was mapped before, is right in any case.
-/
namespace Enkel.Paging

open Outcome MemoryState KernelMemory

section Refills
variable (C : KernelMemory → List ℕ → Prop) (getPage : PageSource)

/-- `C` holds if this step finds its entry missing and the list empty. -/
def NextTableRefills (entry : List ℕ) (table index : ℕ) (k : KernelMemory) : Prop :=
  k.entries table index &&& present = 0 → k.pagingFree = [] → C k entry

/-- `C` holds of the state and the entry of every refill in one turn of the loop. -/
def MapPageRefills (v : ℕ) (k : KernelMemory) : Prop :=
  NextTableRefills C [pml4Index v] k.pml4 (pml4Index v) k ∧
    ∀ pdpt k1, nextTable getPage k.pml4 (pml4Index v) pml4ReservedMask k = .ok (pdpt, k1) →
      NextTableRefills C [pml4Index v, pdptIndex v] pdpt (pdptIndex v) k1 ∧
        ∀ pd k2, nextTable getPage pdpt (pdptIndex v) pmReservedMask k1 = .ok (pd, k2) →
          NextTableRefills C (path v) pd (pdIndex v) k2

/-- The same for the whole loop of a call that maps. -/
def LoopRefills (m : Mapping) : (turns v p : ℕ) → KernelMemory → Prop
  | 0, _, _, _ => True
  | turns + 1, v, p, k => MapPageRefills C getPage v k ∧
      ∀ k1, mapPage getPage m v p v p k = .ok k1 →
        LoopRefills m turns (v + pageSize) (p + pageSize) k1

end Refills

/-- `C` holds of every refill in a call of MapPages: of the state in which the
list is empty, and of the entry that waits for a page. -/
def CallRefills (C : KernelMemory → List ℕ → Prop) (depth v p size : ℕ) (m : Mapping)
    (k : KernelMemory) : Prop :=
  ∀ physical virt,
    k.physicalMemoryState.tagRange p (physicalEnd p size) m.newState = .ok physical →
    k.virtualMemoryState.tagRange v (add64 v size) m.newState = .ok virt →
    LoopRefills C (getPML4FreePage depth) m (callTurns v size) v p (withTrees k physical virt)

/-- No page of the block that the search will find lies below the entry. -/
def BlockAvoids (k : KernelMemory) (entry : List ℕ) : Prop :=
  ∀ block, k.virtualMemoryState.findMinimumSizeFreeBlock pagingBlockBytes = .ok block →
    ∀ i < pagingBlockBytes, ¬ entry <+: path (block + i)

/-- In the state `k'` every page of the block has the frame that it was given. -/
def BlockKept (k' k : KernelMemory) (_entry : List ℕ) : Prop :=
  ∀ block p, k.virtualMemoryState.findMinimumSizeFreeBlock pagingBlockBytes = .ok block →
    k.physicalMemoryState.findMinimumSizeFreeBlock pagingBlockBytes = .ok p →
    ∀ i < pagingBlockBytes, k'.getPhysicalAddress (block + i) false = p + i

section Step
variable {depth : ℕ} {k k2 k' : KernelMemory} {q : List ℕ} {t i u mask : ℕ} {own : ℕ → Prop}

/-- A refill step: the block is mapped when the nested calls return, and loses
its pages below the entry when the page is stored. -/
theorem refill_step (hk : Ok k) (hq : q.length ≤ 2) (ht : tableAt k q = some t)
    (habsent : k.entries t i &&& present = 0) (hempty : k.pagingFree = [])
    (h : nextTable (getPML4FreePage depth) t i mask k = .ok (u, k2)) :
    ∃ block p, Found k block p pagingBlockBytes ∧
      (∀ j < nextPagingBlockSize, frame k2 (block + 4096 * j) =
        if q ++ [i] <+: path (block + 4096 * j) then none else some (p + 4096 * j)) ∧
      ∀ x, block ≤ x → x < block + pagingBlockBytes → virtState k2 x = .used := by
  unfold nextTable at h
  rw [if_neg (not_not.mpr habsent)] at h
  obtain ⟨⟨page, k1⟩, hpage, h⟩ := bind_eq_ok.mp h
  obtain ⟨-, -, h⟩ := bind_eq_ok.mp h
  obtain ⟨-, -, h⟩ := bind_eq_ok.mp h
  cases h
  cases depth with
  | zero =>
    have := (takePage_meets hk False).of_eq_ok hpage
    rw [hempty] at this
    cases this.2.2.2.1
  | succ depth =>
    obtain ⟨hk1, henv, hfresh, hgiven⟩ :=
      (getPML4FreePage_succ_meets (getPML4FreePage_spec depth) hk).of_eq_ok hpage
    obtain ⟨block, p, hg⟩ := hgiven hempty
    have ht1 := henv.walk q t (by omega) ht
    refine ⟨block, p, hg.found, fun j hj => ?_, hg.used⟩
    have hword := word_link (i := i) hk1.tables hq ht1 hfresh.spare.pageAddress
      hfresh.spare.unlinked hfresh.cleared (block + 4096 * j)
    split_ifs at hword ⊢ with hpre
    · exact frame_of_word_eq_zero hword
    · rw [frame_congr hword]
      exact hg.mapped j hj

/-- Pages that were not Free when the call began keep out of the way of a block. -/
def Guarded (own : ℕ → Prop) (k : KernelMemory) : Prop :=
  ∀ x, own x → x < pageMask ∧ virtState k x ≠ .free

theorem Guarded.of_env (h : Guarded own k) {own' : ℕ → Prop} (henv : Env True own' k k2) :
    Guarded own k2 := by
  intro x hx
  obtain ⟨hlt, hne⟩ := h x hx
  exact ⟨hlt, by rwa [henv.virt_of_ne_free hlt hne]⟩

/-- Nothing after the step changes the block, so it is kept to the end exactly
when first fit had put it clear of the entry. -/
theorem refill_step_iff (hk : Ok k) (hk' : Ok k') (hq : q.length ≤ 2)
    (ht : tableAt k q = some t) (hown : Guarded own k)
    (h : nextTable (getPML4FreePage depth) t i mask k = .ok (u, k2)) (henv : Env True own k2 k') :
    NextTableRefills (BlockKept k') (q ++ [i]) t i k ↔
      NextTableRefills BlockAvoids (q ++ [i]) t i k := by
  refine forall_congr' fun habsent => forall_congr' fun hempty => ?_
  obtain ⟨block, p, hf, hframe, hused⟩ := refill_step hk hq ht habsent hempty h
  have hle := hf.virt_le hk
  have hple := hf.phys_le hk
  have hH := hk.physical.lt
  unfold pageMask at hle
  obtain ⟨halign, -⟩ := firstFit_spec hk.virt hf.virt hf.virt_ne
  unfold Aligned at halign
  -- the lookup of an address of the block, at the end
  have hphys : ∀ j < pagingBlockBytes, k'.getPhysicalAddress (block + j) false =
      if q ++ [i] <+: path (block + j) then invalidAddress else p + j := by
    intro j hj
    have hpage : (block + 4096 * (j / 4096)) / 4096 = (block + j) / 4096 := by omega
    have hne : block + j < pageMask → virtState k2 (block + j) ≠ .free := fun _ => by
      rw [hused (block + j) (by omega) (by omega)]
      decide
    have hnot : ¬ own (block + j) := fun ho =>
      (hown _ ho).2 (hf.virt_free hk (by omega) (by omega))
    have hword := henv.word_of_ne_free (by omega) hnot hne
    have hf2 := hframe (j / 4096) (by unfold nextPagingBlockSize; unfold pagingBlockBytes at hj; omega)
    rw [frame_congr (word_congr k2 hpage), path_congr hpage] at hf2
    rw [getPhysicalAddress_eq_frame hk'.tables, frame_congr hword, hf2]
    split_ifs with hpre
    · rfl
    · simp only [Option.elim_some]
      omega
  have hvirt : k.virtualMemoryState.findMinimumSizeFreeBlock pagingBlockBytes = .ok block := by
    rw [findMinimumSizeFreeBlock_eq hk.virt, hf.virt]
  have hphysical : k.physicalMemoryState.findMinimumSizeFreeBlock pagingBlockBytes = .ok p := by
    rw [findMinimumSizeFreeBlock_eq hk.physical, hf.phys]
  constructor
  · intro hkept b hb j hj hpre
    have hbb : b = block := Except.ok.inj (hb.symm.trans hvirt)
    rw [hbb] at hpre
    have hphysj := hkept block p hvirt hphysical j hj
    rw [hphys j hj, if_pos hpre] at hphysj
    unfold invalidAddress at hphysj
    omega
  · intro havoids b f hb hfr j hj
    have hbb : b = block := Except.ok.inj (hb.symm.trans hvirt)
    have hff : f = p := Except.ok.inj (hfr.symm.trans hphysical)
    rw [hbb, hff, hphys j hj, if_neg (havoids block hvirt j hj)]

end Step

/-- One turn of the loop, step by step. -/
theorem mapPage_eq_ok {getPage : PageSource} {m : Mapping} {v p ov op : ℕ} {k k' : KernelMemory}
    (h : mapPage getPage m v p ov op k = .ok k') :
    ∃ pdpt k1 pd k2 pt k3,
      nextTable getPage k.pml4 (pml4Index v) pml4ReservedMask k = .ok (pdpt, k1) ∧
      nextTable getPage pdpt (pdptIndex v) pmReservedMask k1 = .ok (pd, k2) ∧
      nextTable getPage pd (pdIndex v) pmReservedMask k2 = .ok (pt, k3) ∧
      k3.keepsPagingPage m v p ∧ k' = setLeaf k3 m v p pt := by
  unfold mapPage at h
  obtain ⟨⟨pdpt, k1⟩, h1, h⟩ := bind_eq_ok.mp h
  obtain ⟨⟨pd, k2⟩, h2, h⟩ := bind_eq_ok.mp h
  obtain ⟨⟨pt, k3⟩, h3, h⟩ := bind_eq_ok.mp h
  unfold writeLeaf at h
  obtain ⟨u, hkeep, h⟩ := bind_eq_ok.mp h
  refine ⟨pdpt, k1, pd, k2, pt, k3, h1, h2, h3, require_eq_ok.mp hkeep, ?_⟩
  split_ifs at h with hfree
  · cases h
    rfl
  · obtain ⟨-, -, h⟩ := bind_eq_ok.mp h
    obtain ⟨-, -, h⟩ := bind_eq_ok.mp h
    obtain ⟨-, -, h⟩ := bind_eq_ok.mp h
    obtain ⟨-, -, h⟩ := bind_eq_ok.mp h
    cases h
    rfl

section Loop
variable {depth : ℕ} {m : Mapping} {own : ℕ → Prop} {k k' : KernelMemory}

theorem mapPageRefills_iff (hk : Ok k) (hk' : Ok k') {v p ov op : ℕ} (hv : PageAddress v)
    (hp : PageAddress p) (hown : Guarded own k) (hpage : ∀ x, x / 4096 = v / 4096 → own x)
    {k1 : KernelMemory} (h : mapPage (getPML4FreePage depth) m v p ov op k = .ok k1)
    (henv : Env True own k1 k') :
    MapPageRefills (BlockKept k') (getPML4FreePage depth) v k ↔
      MapPageRefills BlockAvoids (getPML4FreePage depth) v k := by
  obtain ⟨pdpt, ka, pd, kb, pt, kc, h1, h2, h3, hkeep, rfl⟩ := mapPage_eq_ok h
  have hspec := getPML4FreePage_spec depth
  obtain ⟨hka, henva, hta⟩ :=
    (nextTable_meets (q := []) hspec hk (by simp) rfl (Or.inr rfl)).of_eq_ok h1
  obtain ⟨hkb, henvb, htb⟩ :=
    (nextTable_meets (q := [pml4Index v]) hspec hka (by simp) hta (Or.inl rfl)).of_eq_ok h2
  obtain ⟨hkc, henvc, htc⟩ :=
    (nextTable_meets (q := [pml4Index v, pdptIndex v]) hspec hkb (by simp) htb
      (Or.inl rfl)).of_eq_ok h3
  have hleaf : Env True own kc (setLeaf kc m v p pt) :=
    (env_leaf hkc htc hv hp hkeep True).mono id fun x hx => hpage x hx
  have henvC := hleaf.trans_own henv
  have henvB := (henvc.mono id fun _ hx => hx.elim).trans_own henvC
  have henvA := (henvb.mono id fun _ hx => hx.elim).trans_own henvB
  have hiff1 := refill_step_iff (q := []) hk hk' (by simp) rfl hown h1 henvA
  have hiff2 := refill_step_iff (q := [pml4Index v]) hka hk' (by simp) hta
    (hown.of_env henva) h2 henvB
  have hiff3 := refill_step_iff (q := [pml4Index v, pdptIndex v]) hkb hk' (by simp) htb
    ((hown.of_env henva).of_env henvb) h3 henvC
  have hunfold : ∀ C : KernelMemory → List ℕ → Prop,
      MapPageRefills C (getPML4FreePage depth) v k ↔
        NextTableRefills C [pml4Index v] k.pml4 (pml4Index v) k ∧
          NextTableRefills C [pml4Index v, pdptIndex v] pdpt (pdptIndex v) ka ∧
            NextTableRefills C (path v) pd (pdIndex v) kb := by
    intro C
    refine and_congr_right fun _ => ⟨fun hall => ?_, fun hall a b hab => ?_⟩
    · exact ⟨(hall pdpt ka h1).1, (hall pdpt ka h1).2 pd kb h2⟩
    · rw [h1] at hab
      cases hab
      refine ⟨hall.1, fun c d hcd => ?_⟩
      rw [h2] at hcd
      cases hcd
      exact hall.2
  rw [hunfold, hunfold]
  exact and_congr hiff1 (and_congr hiff2 hiff3)

theorem loopRefills_iff (hm : m.newState ≠ .free) (turns : ℕ) (hk : Ok k) {v p : ℕ}
    (hv : Aligned v) (hvt : v + 4096 * turns ≤ 2 ^ 48) (hp : Aligned p)
    (hpt : p + 4096 * turns ≤ 2 ^ 48) (hown : Guarded own k)
    (hpages : ∀ x, InPages v turns x → own x)
    (h : mapLoop (getPML4FreePage depth) m turns v p v p k = .ok k') :
    LoopRefills (BlockKept k') (getPML4FreePage depth) m turns v p k ↔
      LoopRefills BlockAvoids (getPML4FreePage depth) m turns v p k := by
  induction turns generalizing k v p with
  | zero => rfl
  | succ turns ih =>
    have hva : PageAddress v := ⟨hv, by omega⟩
    have hpa : PageAddress p := ⟨hp, by omega⟩
    unfold Aligned at hv hp
    have hsrc := (getPML4FreePage_spec depth).tableSource
    unfold mapLoop at h
    obtain ⟨k1, hpage, h⟩ := bind_eq_ok.mp h
    rw [if_neg hm] at h
    obtain ⟨hk1, -, henv1, -⟩ := (mapPage_meets hsrc hk trivial hva hpa
      ⟨trivial, trivial, trivial⟩ (fun _ => ⟨rfl, rfl⟩) fun hr => absurd trivial hr).of_eq_ok hpage
    have hv1 : Aligned (v + 4096) := by
      unfold Aligned
      omega
    have hp1 : Aligned (p + 4096) := by
      unfold Aligned
      omega
    obtain ⟨hk', -, hmapped⟩ := (mapLoop_meets hsrc turns hk1 trivial hv1 (by omega) hp1 (by omega)
      (fun _ _ => ⟨trivial, trivial, trivial⟩) (fun _ => ⟨rfl, rfl⟩)
      fun hr => absurd trivial hr).of_eq_ok h
    have hrest : ∀ x, InPages (v + 4096) turns x → own x := fun x hx =>
      hpages x ⟨by have := hx.1; omega, by have := hx.2; omega⟩
    have hfirst : ∀ x, x / 4096 = v / 4096 → own x := fun x hx =>
      hpages x ⟨by omega, by omega⟩
    have hiff := mapPageRefills_iff hk hk' hva hpa hown hfirst hpage
      (hmapped.env.mono id hrest)
    have hrec := ih hk1 hv1 (by omega) hp1 (by omega) (hown.of_env henv1) hrest h
    refine and_congr hiff ⟨fun hall k2 h2 => ?_, fun hall k2 h2 => ?_⟩
    · rw [hpage] at h2
      cases h2
      exact hrec.mp (hall k1 hpage)
    · rw [hpage] at h2
      cases h2
      exact hrec.mpr (hall k1 hpage)

end Loop

section Call
variable {depth : ℕ} {m : Mapping} {k k' : KernelMemory} {v p size : ℕ}

/-- The pages of a call lie below 2^48. -/
theorem Called.end_le {refill : Prop} {kt : KernelMemory} (hc : Called refill m v p size k kt k')
    (hk : Ok k) : v + 4096 * callTurns v size ≤ 2 ^ 48 ∧ p + 4096 * callTurns v size ≤ 2 ^ 48 := by
  have hvlt := hc.virtual_page.lt
  have hplt := hc.physical_page.lt
  have hH := hk.physical.lt
  by_cases hpos : 0 < callTurns v size
  · have := hc.bounds hpos
    unfold pageMask at this
    omega
  · omega

/-- The blocks of the refills of a call are all kept exactly when each was
clear of the entry that waited. -/
theorem callRefills_iff (hk : Ok k) (hm : m.newState ≠ .free) (hlt : size < 2 ^ 64)
    (h : k.mapPages depth v p size m = .ok k') :
    CallRefills (BlockKept k') depth v p size m k ↔ CallRefills BlockAvoids depth v p size m k := by
  obtain ⟨-, kt, hc⟩ := mapPages_eq_ok hk hlt h
  obtain ⟨physical, virt, hphysical, hvirt, hloop⟩ := mapPages_loop h
  have hkt : kt = withTrees k physical virt := hc.tagged_eq hphysical hvirt
  have hok : Ok (withTrees k physical virt) := hkt ▸ hc.ok_tagged
  have hend := hc.end_le hk
  have hown : Guarded (InPages v (callTurns v size)) (withTrees k physical virt) := by
    rintro x ⟨hlo, hhi⟩
    obtain ⟨hsize, hve, -⟩ := hc.bounds (by omega)
    rw [← hkt]
    exact ⟨by omega, hc.tagged_ne_free hk hm (by omega) hlo
      (by rw [add64_of_lt (by unfold pageMask at hve; omega)]; omega)⟩
  have hiff := loopRefills_iff hm (callTurns v size) hok hc.virtual_page.aligned hend.1
    hc.physical_page.aligned hend.2 hown (fun _ hx => hx) hloop
  have hunfold : ∀ C : KernelMemory → List ℕ → Prop, CallRefills C depth v p size m k ↔
      LoopRefills C (getPML4FreePage depth) m (callTurns v size) v p
        (withTrees k physical virt) := by
    intro C
    refine ⟨fun hall => hall physical virt hphysical hvirt, fun hall a b ha hb => ?_⟩
    rw [hphysical] at ha
    rw [hvirt] at hb
    cases ha
    cases hb
    exact hall
  rw [hunfold, hunfold]
  exact hiff

/-- The addresses of the range of a call are translated as it asks. -/
def OwnMapped (k' : KernelMemory) (v p size : ℕ) (m : Mapping) : Prop :=
  ∀ x, v ≤ x → x < add64 v size →
    k'.getPhysicalAddress x false = if m.newState = .free then invalidAddress else p + (x - v)

/-- What was translated before, outside the range of a call, is translated alike. -/
def OutsideKept (k k' : KernelMemory) (v size : ℕ) : Prop :=
  ∀ x < 2 ^ 48, ¬ (v ≤ x ∧ x < add64 v size) → k.getPhysicalAddress x false ≠ invalidAddress →
    k'.getPhysicalAddress x false = k.getPhysicalAddress x false

section Called
variable {refill : Prop} {kt : KernelMemory}

theorem Called.ownMapped (hc : Called refill m v p size k kt k') (hk : Ok k) (hk' : Ok k')
    (hm : m.newState ≠ .free) (hlt : size < 2 ^ 64) : OwnMapped k' v p size m := by
  intro x hlo hhi
  obtain ⟨hadd, hve⟩ := hc.range_of_mem hlt hlo hhi
  rw [if_neg hm]
  exact hc.translation_mapped hk hk' (by unfold pageMask at hve; omega) hm hlo (by omega)

/-- Whatever refills there were, nothing else has lost its translation. -/
theorem Called.outsideKept (hc : Called True m v p size k kt k') (hk : Ok k) (hk' : Ok k')
    (hfree : FreeUnmapped k) : OutsideKept k k' v size := by
  intro x hx hout hmapped
  have hne : frame k x ≠ none := by
    intro hnone
    rw [getPhysicalAddress_eq_frame hk.tables, hnone] at hmapped
    exact hmapped rfl
  rw [getPhysicalAddress_eq_frame hk'.tables,
    frame_congr (hc.word_of_not_mem hk hfree hx hout hne), ← getPhysicalAddress_eq_frame hk.tables]

end Called

/-- There is no refill at an entry that is present. -/
theorem nextTableRefills_present {q : List ℕ} {t i u : ℕ} (C : KernelMemory → List ℕ → Prop)
    (ht : tableAt k q = some t) (hu : tableAt k (q ++ [i]) = some u) :
    NextTableRefills C (q ++ [i]) t i k := by
  intro habsent
  rw [tableAt_snoc ht, next_eq_none_iff.mpr habsent] at hu
  cases hu

/-- A call whose tables exist never refills. -/
theorem loopRefills_of_tables (C : KernelMemory → List ℕ → Prop) (turns : ℕ) (hk : Ok k)
    (hv : Aligned v) (hvt : v + 4096 * turns ≤ 2 ^ 48) (hp : Aligned p)
    (hpt : p + 4096 * turns ≤ 2 ^ 48)
    (htables : ∀ i < turns, tableAt k (path (v + 4096 * i)) ≠ none) :
    LoopRefills C (getPML4FreePage depth) m turns v p k := by
  induction turns generalizing k v p with
  | zero => trivial
  | succ turns ih =>
    unfold Aligned at hv hp
    have htable := fun q => table_of_mem_pagePrefixes (q := q) (htables 0 (by omega))
    obtain ⟨pdpt, h1⟩ := Option.ne_none_iff_exists'.mp
      (htable [pml4Index v] (by simp [pagePrefixes]))
    obtain ⟨pd, h2⟩ := Option.ne_none_iff_exists'.mp
      (htable [pml4Index v, pdptIndex v] (by simp [pagePrefixes]))
    obtain ⟨pt, h3⟩ := Option.ne_none_iff_exists'.mp (htable (path v) (by simp [pagePrefixes]))
    have hstep1 := nextTable_present (q := []) rfl h1 (getPML4FreePage depth) pml4ReservedMask
    have hstep2 := nextTable_present (q := [pml4Index v]) h1 h2 (getPML4FreePage depth)
      pmReservedMask
    have hstep3 := nextTable_present (q := [pml4Index v, pdptIndex v]) h2 h3
      (getPML4FreePage depth) pmReservedMask
    refine ⟨⟨nextTableRefills_present (q := []) C rfl h1, fun a k1 ha => ?_⟩, fun k1 hpage => ?_⟩
    · rw [hstep1] at ha
      cases ha
      refine ⟨nextTableRefills_present (q := [pml4Index v]) C h1 h2, fun b k2 hb => ?_⟩
      rw [hstep2] at hb
      cases hb
      exact nextTableRefills_present (q := [pml4Index v, pdptIndex v]) C h2 h3
    · obtain ⟨a, ka, b, kb, c, kc, ha, hb, hc, hkeep, rfl⟩ := mapPage_eq_ok hpage
      rw [hstep1] at ha
      cases ha
      rw [hstep2] at hb
      cases hb
      rw [hstep3] at hc
      cases hc
      have hva : PageAddress v := ⟨hv, by omega⟩
      have hpa : PageAddress p := ⟨hp, by omega⟩
      refine ih (ok_leaf hk h3 hva hpa hkeep) (by unfold Aligned pageSize; omega)
        (by unfold pageSize; omega) (by unfold Aligned pageSize; omega)
        (by unfold pageSize; omega) fun i hi => ?_
      rw [tableAt_leaf hk h3 (path_length _).le]
      have := htables (i + 1) (by omega)
      rwa [show v + 4096 * (i + 1) = v + pageSize + 4096 * i by unfold pageSize; omega] at this

theorem callRefills_of_tables (C : KernelMemory → List ℕ → Prop) (hk : Ok k) (hlt : size < 2 ^ 64)
    (htables : TablesPresent k v size) (h : k.mapPages depth v p size m = .ok k') :
    CallRefills C depth v p size m k := by
  obtain ⟨-, kt, hc⟩ := mapPages_eq_ok hk hlt h
  intro physical virt hphysical hvirt
  have hkt : kt = withTrees k physical virt := hc.tagged_eq hphysical hvirt
  obtain ⟨hvt, hpt⟩ := hc.end_le hk
  exact loopRefills_of_tables C (callTurns v size) (hkt ▸ hc.ok_tagged) hc.virtual_page.aligned hvt
    hc.physical_page.aligned hpt htables

end Call

end Enkel.Paging
