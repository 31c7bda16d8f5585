import Enkel.NestedRefill

/-!
When MapPages returns, refills included. A page that is missing comes from the
free list as long as it lasts, and then from a refill. A call whose arguments
are in order returns exactly when each of its refills does, unless it reaches a
limit of the model.
-/
namespace Enkel

/-- The model does not follow these runs to their end. -/
def Fault.Limit (e : Fault) : Prop :=
  e.NodeListEmpty ∨ e = .pagingListEmpty ∨ e = .blockLinkedTwice ∨ e = .pagingPageRemapped

end Enkel

namespace Enkel.Paging

open Outcome MemoryState KernelMemory

/-- The page source returns when it is asked in this state. -/
def Served (getPage : PageSource) (k : KernelMemory) (_entry : List ℕ) : Prop :=
  ∃ r, getPage k = .ok r

/-- The source that finds its list empty wherever another one stops. -/
def orEmpty (getPage : PageSource) (k : KernelMemory) : Except Fault (ℕ × KernelMemory) :=
  (getPage k).mapError fun _ => .pagingListEmpty

theorem PageSpec.orEmpty {refill : Prop} {E : Fault → Prop} {getPage : PageSource}
    (h : PageSpec refill E getPage) : PageSpec refill (· = .pagingListEmpty) (orEmpty getPage) := by
  intro k hk
  have hspec := h k hk
  unfold Paging.orEmpty
  cases hpage : getPage k with
  | error e => exact meets_error rfl
  | ok r =>
    rw [hpage] at hspec
    exact meets_ok (hspec.of_eq_ok rfl)

section Serve
variable {depth : ℕ} {k k' : KernelMemory} {entry : List ℕ} {table index mask : ℕ} {m : Mapping}
  {v p size : ℕ}

/-- The list gives its head as long as it is not empty. -/
theorem exists_page_of_ne_nil (h : k.pagingFree ≠ []) :
    ∃ r, getPML4FreePage depth k = .ok r := by
  obtain ⟨page, rest, hfree⟩ := List.exists_cons_of_ne_nil h
  rw [getPML4FreePage_of_ne_nil h depth]
  unfold getPML4FreePage takePage
  rw [hfree]
  exact ⟨_, rfl⟩

theorem served_of_nextTable {getPage : PageSource} {r : ℕ × KernelMemory}
    (h : nextTable getPage table index mask k = .ok r) :
    NextTableRefills (Served getPage) entry table index k := by
  intro habsent _
  unfold nextTable at h
  rw [if_neg (not_not.mpr habsent)] at h
  obtain ⟨r', hpage, -⟩ := bind_eq_ok.mp h
  exact ⟨r', hpage⟩

/-- A step whose refill returns does not see the difference. -/
theorem nextTable_orEmpty
    (h : NextTableRefills (Served (getPML4FreePage depth)) entry table index k) :
    nextTable (orEmpty (getPML4FreePage depth)) table index mask k =
      nextTable (getPML4FreePage depth) table index mask k := by
  unfold nextTable
  split_ifs with hpresent
  · rfl
  · obtain ⟨r, hr⟩ : ∃ r, getPML4FreePage depth k = .ok r := by
      by_cases hempty : k.pagingFree = []
      · exact h (not_not.mp hpresent) hempty
      · exact exists_page_of_ne_nil hempty
    have hsame : orEmpty (getPML4FreePage depth) k = .ok r := mapError_eq_ok.mpr hr
    rw [hr, hsame]

theorem mapPage_orEmpty {ov op : ℕ}
    (h : MapPageRefills (Served (getPML4FreePage depth)) (getPML4FreePage depth) v k) :
    mapPage (orEmpty (getPML4FreePage depth)) m v p ov op k =
      mapPage (getPML4FreePage depth) m v p ov op k := by
  obtain ⟨h1, h⟩ := h
  unfold mapPage
  rw [nextTable_orEmpty h1]
  refine bind_congr_ok fun ⟨pdpt, k1⟩ hstep1 => ?_
  obtain ⟨h2, h⟩ := h pdpt k1 hstep1
  dsimp only
  rw [nextTable_orEmpty h2]
  refine bind_congr_ok fun ⟨pd, k2⟩ hstep2 => ?_
  dsimp only
  rw [nextTable_orEmpty (h pd k2 hstep2)]

/-- The loop whose refills return does not see the difference either. -/
theorem mapLoop_orEmpty (hm : m.newState ≠ .free) (turns : ℕ)
    (h : LoopRefills (Served (getPML4FreePage depth)) (getPML4FreePage depth) m turns v p k) :
    mapLoop (orEmpty (getPML4FreePage depth)) m turns v p v p k =
      mapLoop (getPML4FreePage depth) m turns v p v p k := by
  induction turns generalizing v p k with
  | zero => rfl
  | succ turns ih =>
    obtain ⟨hpage, hrest⟩ := h
    unfold mapLoop
    rw [mapPage_orEmpty hpage]
    cases hstep : mapPage (getPML4FreePage depth) m v p v p k with
    | error e => rfl
    | ok k1 =>
      rw [ok_bind, ok_bind, if_neg hm, if_neg hm]
      exact ih (hrest k1 hstep)

/-- The refills of a loop that returns have returned. -/
theorem served_of_mapLoop (hm : m.newState ≠ .free) (turns : ℕ)
    (h : mapLoop (getPML4FreePage depth) m turns v p v p k = .ok k') :
    LoopRefills (Served (getPML4FreePage depth)) (getPML4FreePage depth) m turns v p k := by
  induction turns generalizing v p k with
  | zero => trivial
  | succ turns ih =>
    unfold mapLoop at h
    obtain ⟨k1, hpage, h⟩ := bind_eq_ok.mp h
    rw [if_neg hm] at h
    refine ⟨?_, fun k2 hpage' => ?_⟩
    · obtain ⟨pdpt, ka, pd, kb, pt, kc, ha, hb, hc, -, -⟩ := mapPage_eq_ok hpage
      refine ⟨served_of_nextTable ha, fun a k2 ha' => ?_⟩
      obtain ⟨rfl, rfl⟩ := Prod.mk.inj (Except.ok.inj (ha.symm.trans ha'))
      refine ⟨served_of_nextTable hb, fun b k3 hb' => ?_⟩
      obtain ⟨rfl, rfl⟩ := Prod.mk.inj (Except.ok.inj (hb.symm.trans hb'))
      exact served_of_nextTable hc
    · obtain rfl := Except.ok.inj (hpage.symm.trans hpage')
      exact ih h

/-- The refills of a call that returns have returned. -/
theorem served_of_mapPages (hm : m.newState ≠ .free) (h : k.mapPages depth v p size m = .ok k') :
    CallRefills (Served (getPML4FreePage depth)) depth v p size m k := by
  obtain ⟨physical, virt, hphysical, hvirt, hloop⟩ := mapPages_loop h
  intro physical' virt' hphysical' hvirt'
  obtain rfl := Except.ok.inj (hphysical.symm.trans hphysical')
  obtain rfl := Except.ok.inj (hvirt.symm.trans hvirt')
  exact served_of_mapLoop hm _ hloop

/-- A call whose refills return stops for its arguments only, or at a limit. -/
theorem mapPages_served_meets (hk : Ok k) (hlt : size < 2 ^ 64) (hm : m.newState ≠ .free)
    (h : CallRefills (Served (getPML4FreePage depth)) depth v p size m k) :
    Meets (CallFault True (· = .pagingListEmpty) m k v p size)
      (fun k' => Ok k' ∧ ∃ kt, Called True m v p size k kt k') (k.mapPages depth v p size m) := by
  have hsame : mapPagesWith (orEmpty (getPML4FreePage depth)) v p size m k =
      k.mapPages depth v p size m := by
    unfold KernelMemory.mapPages mapPagesWith
    refine bind_congr_ok fun _ _ => bind_congr_ok fun _ hv => bind_congr_ok fun _ hp => ?_
    rw [← require_eq_ok.mp hv, ← require_eq_ok.mp hp]
    refine bind_congr_ok fun _ _ => bind_congr_ok fun physical hphysical =>
      bind_congr_ok fun virt hvirt => ?_
    exact mapLoop_orEmpty hm _ (h physical virt hphysical hvirt)
  rw [← hsame]
  exact meets_post (mapPagesWith_meets (getPML4FreePage_spec depth).orEmpty.tableSource
    (fun _ _ _ h => h) hk trivial hlt fun _ _ => ⟨trivial, trivial, trivial⟩)
    fun k' h => ⟨h.1, h.2.2⟩

end Serve

end Enkel.Paging
