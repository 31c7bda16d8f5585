import Enkel.AllocationRuns
import Enkel.MemoryMap

/-!
The page states after BuildPML4 has read the memory map. The descriptors are
disjoint, so each page is tagged for its own descriptor only. The gap loop never
stands inside a descriptor; every second turn at least it leaves one behind, so it
comes to the highest end, and what it reserves is covered by none.
-/
namespace Enkel.Paging

open Outcome MemoryState KernelMemory

/-- The bytes that a descriptor describes. -/
def MemoryDescriptor.Covers (d : MemoryDescriptor) (x : ℕ) : Prop :=
  d.physicalStart ≤ x ∧ x < d.endAddress

instance (d : MemoryDescriptor) (x : ℕ) : Decidable (d.Covers x) :=
  inferInstanceAs (Decidable (_ ∧ _))

/-- A descriptor of whole pages below 2^48. -/
structure MemoryDescriptor.WholePages (d : MemoryDescriptor) : Prop where
  aligned : Aligned d.physicalStart
  pages_pos : 0 < d.numberOfPages
  end_lt : d.physicalStart + d.numberOfPages * pageSize < 2 ^ 48

/-- The memory map of the firmware, in any order. -/
structure IsMemoryMap (ds : List MemoryDescriptor) : Prop where
  wholePages : ∀ d ∈ ds, d.WholePages
  disjoint : ds.Pairwise fun d d' => ∀ x, d.Covers x → ¬ d'.Covers x

/-- The pages can be mapped where the descriptor asks for them. -/
def MemoryDescriptor.VirtualFits (d : MemoryDescriptor) : Prop :=
  d.virtualStart = 0 ∨ Aligned d.virtualStart ∧ d.virtualStart + d.size ≤ pageMask

/-- The tag of a page of a descriptor that is not free. -/
def MemoryDescriptor.state (d : MemoryDescriptor) : RangeState :=
  if d.isReserved then .reserved else .used

section Descriptor
variable {d : MemoryDescriptor} {l : SpecialLocations} {x : ℕ}

theorem MemoryDescriptor.WholePages.size_eq (h : d.WholePages) :
    d.size = d.numberOfPages * 4096 := by
  have hend := h.end_lt
  unfold MemoryDescriptor.size pageSize at *
  omega

theorem MemoryDescriptor.WholePages.end_eq (h : d.WholePages) :
    d.endAddress = d.physicalStart + d.numberOfPages * 4096 := by
  have hend := h.end_lt
  unfold MemoryDescriptor.endAddress add64
  rw [h.size_eq]
  unfold pageSize at hend
  omega

theorem MemoryDescriptor.WholePages.start_lt (h : d.WholePages) :
    d.physicalStart < d.endAddress := by
  have hpos := h.pages_pos
  rw [h.end_eq]
  omega

theorem MemoryDescriptor.WholePages.end_aligned (h : d.WholePages) : Aligned d.endAddress := by
  have hmod := h.aligned
  rw [h.end_eq]
  unfold Aligned at *
  omega

theorem MemoryDescriptor.WholePages.end_le (h : d.WholePages) : d.endAddress ≤ pageMask := by
  have hend := h.end_lt
  have hmod := h.end_aligned
  rw [h.end_eq] at hmod ⊢
  unfold Aligned at hmod
  unfold pageSize at hend
  unfold pageMask
  omega

/-- Marking a descriptor changes neither what it describes nor how it is mapped. -/
theorem MemoryDescriptor.mark_eq (d : MemoryDescriptor) (l : SpecialLocations) :
    (d.mark l).isFree = d.isFree ∧ (d.mark l).mappedAt = d.mappedAt ∧
      (d.mark l).physicalStart = d.physicalStart ∧ (d.mark l).size = d.size ∧
      (d.mark l).mapping = d.mapping := by
  have hflag : ∀ flag, flag &&& efiMemoryRuntime = 0 → flag &&& efiMemoryRO = 0 →
      ({ d with attributes := d.attributes ||| flag } : MemoryDescriptor).mapping = d.mapping := by
    intro flag hruntime hro
    have h1 : (d.attributes ||| flag) &&& efiMemoryRuntime = d.attributes &&& efiMemoryRuntime := by
      rw [Nat.and_or_distrib_right, hruntime, Nat.or_zero]
    have h2 : (d.attributes ||| flag) &&& efiMemoryRO = d.attributes &&& efiMemoryRO := by
      rw [Nat.and_or_distrib_right, hro, Nat.or_zero]
    unfold mapping isReadOnly isReserved isExecutable
    dsimp only
    rw [h1, h2]
  unfold mark
  split_ifs
  · exact ⟨rfl, rfl, rfl, rfl, hflag _ (by decide) (by decide)⟩
  · exact ⟨rfl, rfl, rfl, rfl, hflag _ (by decide) (by decide)⟩
  · exact ⟨rfl, rfl, rfl, rfl, hflag _ (by decide) (by decide)⟩
  · exact ⟨rfl, rfl, rfl, rfl, hflag _ (by decide) (by decide)⟩
  · exact ⟨rfl, rfl, rfl, rfl, hflag _ (by decide) (by decide)⟩
  · exact ⟨rfl, rfl, rfl, rfl, rfl⟩

end Descriptor

/-- The abstract effect of one descriptor on the page states. -/
def describe (pages : ℕ → RangeState) (d : MemoryDescriptor) : ℕ → RangeState :=
  if d.isFree then pages else tagged pages d.physicalStart d.endAddress d.state

section Describe
variable {ds : List MemoryDescriptor} {pages : ℕ → RangeState} {d : MemoryDescriptor} {x : ℕ}

theorem describe_of_not_covers (h : d.isFree = true ∨ ¬ d.Covers x) :
    describe pages d x = pages x := by
  unfold describe
  split_ifs with hfree
  · rfl
  · have hout := h.resolve_left hfree
    unfold tagged
    exact if_neg fun hin => hout ⟨hin.1, hin.2.1⟩

theorem describe_all_of_not_covers (h : ∀ d ∈ ds, d.isFree = true ∨ ¬ d.Covers x) :
    ds.foldl describe pages x = pages x := by
  induction ds generalizing pages with
  | nil => rfl
  | cons d ds ih =>
    rw [List.forall_mem_cons] at h
    rw [List.foldl_cons, ih h.2, describe_of_not_covers h.1]

/-- A page of a descriptor that is not free has the tag of this descriptor. -/
theorem describe_all_of_covers (hdisjoint : ds.Pairwise fun d d' => ∀ x, d.Covers x → ¬ d'.Covers x)
    (hd : d ∈ ds) (hfree : d.isFree = false) (hx : d.Covers x) (hpages : pages x = .free) :
    ds.foldl describe pages x = d.state := by
  induction ds generalizing pages with
  | nil => cases hd
  | cons a ds ih =>
    obtain ⟨ha, hds⟩ := List.pairwise_cons.mp hdisjoint
    rw [List.foldl_cons]
    rcases List.mem_cons.mp hd with rfl | hd
    · rw [describe_all_of_not_covers fun d' hd' => Or.inr (ha d' hd' x hx)]
      unfold describe tagged
      rw [if_neg (by rw [hfree]; decide), if_pos ⟨hx.1, hx.2, by rw [hpages]; decide⟩]
    · refine ih hds hd ?_
      rw [describe_of_not_covers (Or.inr fun hax => ha d hd x hax hx), hpages]

end Describe

/-- Too few pages for the trees or for the tables. -/
def Exhausted (e : Fault) : Prop := e = .pagingListEmpty ∨ e.NodeListEmpty

section DescriptorLoop
variable {highest : ℕ} {l : SpecialLocations} {ds : List MemoryDescriptor} {d : MemoryDescriptor}
  {k : KernelMemory} {pages : ℕ → RangeState}

/-- A state of BuildPML4 with given page states. -/
structure Describes (highest : ℕ) (k : KernelMemory) (pages : ℕ → RangeState) : Prop where
  boot : Boot k
  highest_eq : k.physicalMemoryState.highestAddress = highest
  state_eq : ∀ x < highest, physState k x = pages x

theorem MemoryDescriptor.WholePages.mappedAt (h : d.WholePages) (hvirt : d.VirtualFits) :
    PageAddress d.mappedAt ∧ d.mappedAt + d.size ≤ pageMask := by
  have hend := h.end_le
  have hsize := h.size_eq
  rw [h.end_eq] at hend
  unfold MemoryDescriptor.mappedAt
  split_ifs with hzero
  · refine ⟨⟨h.aligned, ?_⟩, ?_⟩
    all_goals
      unfold pageMask at *
      omega
  · obtain ⟨haligned, hle⟩ := hvirt.resolve_left hzero
    refine ⟨⟨haligned, ?_⟩, hle⟩
    unfold pageMask at *
    omega

/-- Mapping one descriptor tags its pages. -/
theorem mapDescriptor_meets (hk : Describes highest k pages) (hd : d.WholePages)
    (hend : d.endAddress ≤ highest) (hvirt : d.isFree = false → d.VirtualFits) :
    Meets Exhausted (fun k' => Describes highest k' (describe pages d)) (mapDescriptor 0 l k d) := by
  obtain ⟨hfree, hmapped, hstart, hsize, hmapping⟩ := d.mark_eq l
  unfold mapDescriptor
  dsimp only
  rw [hfree, hmapped, hstart, hsize, hmapping]
  refine meets_ite (fun h => ?_) fun h => ?_
  · refine meets_pure ⟨hk.boot, hk.highest_eq, fun x hx => ?_⟩
    rw [describe_of_not_covers (Or.inl h)]
    exact hk.state_eq x hx
  · obtain ⟨hok, hset, -⟩ := hk.boot.inv
    obtain ⟨hv, hve⟩ := hd.mappedAt (hvirt (Bool.eq_false_of_not_eq_true h))
    have hp : PageAddress d.physicalStart := by
      have hlt := hd.start_lt
      have hle := hd.end_le
      unfold pageMask at hle
      exact ⟨hd.aligned, by omega⟩
    have hmod : d.size % 4096 = 0 := by
      rw [hd.size_eq]
      omega
    have hpend : d.physicalStart + d.size = d.endAddress := by
      rw [hd.size_eq, hd.end_eq]
    have hpos := hd.start_lt
    have hendlt := hd.end_le
    unfold pageMask at hve hendlt
    refine meets_mono (mapPages_zero_meets hok (by omega)).and_eq (fun e he => ?_) fun k' hk' => ?_
    · rcases he.2 with (⟨he, -⟩ | ⟨hfalse, -⟩) | ⟨-, he⟩ | ⟨⟨i, -, hnot⟩, -⟩ | ⟨hargs, -⟩ |
        ⟨-, hvalid, -⟩
      · exact Or.inl he
      · exact hfalse.elim
      · exact Or.inr he
      · exact absurd (fun hset' => absurd (hset.symm.trans hset') (by decide)) hnot
      · exact absurd ⟨hv, hp, hmod⟩ hargs
      · refine absurd ⟨by omega, ?_, hve⟩ hvalid
        rw [hk.highest_eq, hpend]
        exact hend
    · obtain ⟨hmap, -, -, -, kt, hc⟩ := hk'
      refine ⟨hk.boot.map (by omega) hmap, (hc.highest_eq hok).trans hk.highest_eq,
        fun x hx => ?_⟩
      rw [hc.physState_quiet, hc.phys_tagged hok (by rw [hk.highest_eq]; exact hx),
        physicalEnd_of_lt hp hmod (by omega), hpend]
      unfold describe
      rw [if_neg h]
      unfold tagged MemoryDescriptor.state MemoryDescriptor.mapping
      dsimp only
      rw [hk.state_eq x hx]

theorem descriptorLoop_meets (hk : Describes highest k pages)
    (hds : ∀ d ∈ ds, d.WholePages ∧ d.endAddress ≤ highest ∧ (d.isFree = false → d.VirtualFits)) :
    Meets Exhausted (fun k' => Describes highest k' (ds.foldl describe pages))
      (descriptorLoop 0 l ds k) :=
  meets_foldlM (f := mapDescriptor 0 l) (g := describe) ds (fun d hd _ _ h =>
    mapDescriptor_meets h (hds d hd).1 (hds d hd).2.1 (hds d hd).2.2) hk

end DescriptorLoop

section Gaps
variable {ds : List MemoryDescriptor} {d d' : MemoryDescriptor} {startP highest x fuel : ℕ}
  {pages : ℕ → RangeState} {m : MemoryState}

theorem endAddress_le_highestEnd (hd : d ∈ ds) : d.endAddress ≤ highestEnd ds := by
  have hfold : ∀ (ds : List MemoryDescriptor) (acc : ℕ), d ∈ ds ∨ d.endAddress ≤ acc →
      d.endAddress ≤ ds.foldl (fun highest d =>
        if highest < d.endAddress then d.endAddress else highest) acc := by
    intro ds
    induction ds with
    | nil => exact fun acc h => h.resolve_left List.not_mem_nil
    | cons a ds ih =>
      intro acc h
      refine ih _ ?_
      rcases h with h | h
      · rcases List.mem_cons.mp h with rfl | h
        · right
          dsimp only
          split_ifs <;> omega
        · exact Or.inl h
      · right
        dsimp only
        split_ifs <;> omega
  exact hfold ds 0 (Or.inl hd)

theorem exists_highestEnd (hpos : 0 < highestEnd ds) : ∃ d ∈ ds, d.endAddress = highestEnd ds := by
  have hfold : ∀ (ds : List MemoryDescriptor) (acc : ℕ),
      ds.foldl (fun highest d => if highest < d.endAddress then d.endAddress else highest) acc =
        acc ∨ ∃ d ∈ ds, d.endAddress =
          ds.foldl
            (fun highest d => if highest < d.endAddress then d.endAddress else highest) acc := by
    intro ds
    induction ds with
    | nil => exact fun acc => Or.inl rfl
    | cons a ds ih =>
      intro acc
      rw [List.foldl_cons]
      rcases ih (if acc < a.endAddress then a.endAddress else acc) with h | ⟨d, hd, h⟩
      · rw [h]
        split_ifs
        · exact Or.inr ⟨a, List.mem_cons_self, rfl⟩
        · exact Or.inl rfl
      · exact Or.inr ⟨d, List.mem_cons_of_mem _ hd, h⟩
  rcases hfold ds 0 with h | h
  · exact absurd h hpos.ne'
  · exact h

/-- What the search for the lowest start finds. -/
theorem lowestStart_spec (ds : List MemoryDescriptor) (startP : ℕ) :
    (∀ d ∈ ds, startP < d.physicalStart → lowestStart ds startP ≤ d.physicalStart) ∧
      (lowestStart ds startP = 2 ^ 64 - 1 ∨
        ∃ d ∈ ds, startP < d.physicalStart ∧ d.physicalStart = lowestStart ds startP) := by
  have hfold : ∀ (ds : List MemoryDescriptor) (acc : ℕ),
      let lowest := ds.foldl (fun lowest d =>
        if startP < d.physicalStart ∧ d.physicalStart < lowest then d.physicalStart else lowest) acc
      (lowest ≤ acc ∧ ∀ d ∈ ds, startP < d.physicalStart → lowest ≤ d.physicalStart) ∧
        (lowest = acc ∨ ∃ d ∈ ds, startP < d.physicalStart ∧ d.physicalStart = lowest) := by
    intro ds
    induction ds with
    | nil => exact fun acc => ⟨⟨le_rfl, by simp⟩, Or.inl rfl⟩
    | cons a ds ih =>
      intro acc
      obtain ⟨⟨hle, hall⟩, hex⟩ := ih
        (if startP < a.physicalStart ∧ a.physicalStart < acc then a.physicalStart else acc)
      simp only [List.foldl_cons]
      refine ⟨⟨?_, ?_⟩, ?_⟩
      · split_ifs at hle ⊢ <;> omega
      · rw [List.forall_mem_cons]
        refine ⟨fun ha => ?_, hall⟩
        split_ifs at hle ⊢ <;> omega
      · rcases hex with h | ⟨d, hd, h⟩
        · rw [h]
          split_ifs with ha
          · exact Or.inr ⟨a, List.mem_cons_self, ha.1, rfl⟩
          · exact Or.inl rfl
        · exact Or.inr ⟨d, List.mem_cons_of_mem _ hd, h⟩
  obtain ⟨⟨-, hall⟩, hex⟩ := hfold ds (2 ^ 64 - 1)
  exact ⟨hall, hex⟩

/-- Two descriptors of a memory map lie one behind the other. -/
theorem IsMemoryMap.apart (h : IsMemoryMap ds) (hd : d ∈ ds) (hd' : d' ∈ ds) (hne : d ≠ d') :
    d.endAddress ≤ d'.physicalStart ∨ d'.endAddress ≤ d.physicalStart := by
  have hsymm : Std.Symm fun d d' : MemoryDescriptor => ∀ x, d.Covers x → ¬ d'.Covers x :=
    ⟨fun _ _ h x hx hx' => h x hx' hx⟩
  have hdisjoint := h.disjoint.forall hd hd' hne
  have hpos := (h.wholePages d hd).start_lt
  have hpos' := (h.wholePages d' hd').start_lt
  by_contra hcon
  push Not at hcon
  unfold MemoryDescriptor.Covers at hdisjoint
  exact hdisjoint (max d.physicalStart d'.physicalStart) (by omega) (by omega)

/-- The page states once everything between the descriptors is reserved. -/
def withGaps (ds : List MemoryDescriptor) (pages : ℕ → RangeState) (x : ℕ) : RangeState :=
  if ∃ d ∈ ds, d.Covers x then pages x else .reserved

/-- The loop has come to `startP`, which lies inside no descriptor. -/
structure Walked (ds : List MemoryDescriptor) (highest : ℕ) (pages : ℕ → RangeState) (startP : ℕ)
    (m : MemoryState) : Prop where
  valid : m.Valid
  highest_eq : m.highestAddress = highest
  le : startP ≤ highest
  aligned : Aligned startP
  outside : ∀ d ∈ ds, d.endAddress ≤ startP ∨ startP ≤ d.physicalStart
  behind : ∀ x < startP, m.getPageState x = withGaps ds pages x
  ahead : ∀ x, startP ≤ x → x < highest → m.getPageState x = pages x

/-- A turn at the start of a descriptor goes to its end. -/
theorem Walked.found (h : Walked ds highest pages startP m) (hds : IsMemoryMap ds)
    (hhighest : ∀ d ∈ ds, d.endAddress ≤ highest) (hd : d ∈ ds) (hstart : startP = d.physicalStart) :
    Walked ds highest pages d.endAddress m := by
  have hwhole := hds.wholePages d hd
  have hend := hhighest d hd
  refine ⟨h.valid, h.highest_eq, hend, hwhole.end_aligned, fun d' hd' => ?_, fun x hx => ?_,
    fun x hx => h.ahead x ?_⟩
  · by_cases heq : d' = d
    · exact Or.inl (heq ▸ le_rfl)
    · have hapart := hds.apart hd' hd heq
      have hlt := hwhole.start_lt
      omega
  · by_cases hlow : x < startP
    · exact h.behind x hlow
    · have hcovers : ∃ d ∈ ds, d.Covers x := ⟨d, hd, by omega, hx⟩
      rw [h.ahead x (by omega) (by omega), withGaps, if_pos hcovers]
  · have hlt := hwhole.start_lt
    omega

/-- A turn between two descriptors reserves the gap. -/
theorem Walked.gap (h : Walked ds highest pages startP m) (hds : IsMemoryMap ds)
    (hhighest : ∀ d ∈ ds, d.endAddress ≤ highest) (hnone : ∀ d ∈ ds, startP ≠ d.physicalStart)
    (hd : d ∈ ds) (hstart : startP < d.physicalStart)
    (hlowest : ∀ d' ∈ ds, startP < d'.physicalStart → d.physicalStart ≤ d'.physicalStart) :
    Meets Fault.NodeListEmpty (Walked ds highest pages d.physicalStart)
      (m.tagRange startP d.physicalStart .reserved) := by
  have hwhole := hds.wholePages d hd
  have hlt := hwhole.start_lt
  have hend := hhighest d hd
  have hvalid : ValidRange startP d.physicalStart 0 m.highestAddress :=
    ⟨Nat.zero_le _, hstart, by rw [h.highest_eq]; omega, h.aligned, hwhole.aligned⟩
  refine meets_mono (tagRange_meets h.valid _ _ _) (fun e he => ?_) fun m' hm' => ?_
  · exact he.resolve_right fun hnot => hnot.1 hvalid
  · obtain ⟨hvalid', hhigh', hpages⟩ := hm'
    refine ⟨hvalid', hhigh'.trans h.highest_eq, by omega, hwhole.aligned, fun d' hd' => ?_,
      fun x hx => ?_, fun x hx hxh => ?_⟩
    · rcases h.outside d' hd' with hout | hout
      · exact Or.inl (by omega)
      · exact Or.inr (hlowest d' hd' (lt_of_le_of_ne hout (hnone d' hd')))
    · rw [hpages x (by rw [h.highest_eq]; omega)]
      by_cases hlow : x < startP
      · unfold tagged
        rw [if_neg (by omega), h.behind x hlow]
      · have huncovered : ¬ ∃ d ∈ ds, d.Covers x := by
          rintro ⟨d', hd', hcovers⟩
          unfold MemoryDescriptor.Covers at hcovers
          rcases h.outside d' hd' with hout | hout
          · omega
          · have := hlowest d' hd' (lt_of_le_of_ne hout (hnone d' hd'))
            omega
        unfold tagged withGaps
        rw [if_neg huncovered]
        split_ifs with hin
        · rfl
        · by_contra hne
          exact hin ⟨by omega, hx, hne⟩
    · rw [hpages x (by rw [h.highest_eq]; omega)]
      unfold tagged
      rw [if_neg (by omega), h.ahead x (by omega) hxh]

/-- The descriptors that the loop has before it. -/
def before (ds : List MemoryDescriptor) (startP : ℕ) : ℕ :=
  ds.countP fun d => decide (startP ≤ d.physicalStart)

theorem before_le {startP' : ℕ} (h : startP ≤ startP') : before ds startP' ≤ before ds startP := by
  apply List.countP_mono_left
  intro d _ hd
  rw [decide_eq_true_eq] at hd ⊢
  omega

theorem before_lt {startP' : ℕ} (hd : d ∈ ds) (hstart : startP = d.physicalStart)
    (hlt : startP < startP') : before ds startP' < before ds startP := by
  have hperm := List.perm_cons_erase hd
  have hrest : before (ds.erase d) startP' ≤ before (ds.erase d) startP := before_le hlt.le
  unfold before at hrest ⊢
  rw [hperm.countP_eq, hperm.countP_eq, List.countP_cons_of_neg (by simpa using by omega),
    List.countP_cons_of_pos (by simpa using hstart.le)]
  omega

/-- The loop ends after at most two turns for each descriptor before it, and one for
a gap that it stands at. -/
theorem gapLoop_meets (hds : IsMemoryMap ds) (hhighest : highest = highestEnd ds)
    (h : Walked ds highest pages startP m)
    (hfuel : 2 * before ds startP + (if ∃ d ∈ ds, startP = d.physicalStart then 0 else 1) ≤ fuel) :
    ∃ r, gapLoop ds highest fuel startP m = some r ∧
      Meets (fun e => ∃ f, e = .memory f ∧ f.NodeListEmpty)
        (Walked ds highest pages highest) r := by
  have hend : ∀ d ∈ ds, d.endAddress ≤ highest := fun d hd =>
    hhighest ▸ endAddress_le_highestEnd hd
  induction fuel generalizing startP m with
  | zero =>
    split_ifs at hfuel with hstart
    · obtain ⟨d, hd, rfl⟩ := hstart
      have hlt := before_lt hd rfl (hds.wholePages d hd).start_lt
      omega
    · omega
  | succ fuel ih =>
    unfold gapLoop
    by_cases hdone : startP = highest
    · rw [if_pos hdone]
      exact ⟨_, rfl, meets_ok (hdone ▸ h)⟩
    rw [if_neg hdone]
    cases hfind : ds.find? fun d => decide (startP = d.physicalStart) with
    | some d =>
      have hd := List.mem_of_find?_eq_some hfind
      have hstart : startP = d.physicalStart := by simpa using List.find?_some hfind
      have hlt := before_lt hd hstart (hstart ▸ (hds.wholePages d hd).start_lt)
      rw [if_pos ⟨d, hd, hstart⟩] at hfuel
      refine ih (h.found hds hend hd hstart) ?_
      split_ifs <;> omega
    | none =>
      have hnone : ∀ d ∈ ds, startP ≠ d.physicalStart := by simpa using hfind
      have hnot : ¬ ∃ d ∈ ds, startP = d.physicalStart := fun ⟨d, hd, heq⟩ => hnone d hd heq
      rw [if_neg hnot] at hfuel
      obtain ⟨hall, hex⟩ := lowestStart_spec ds startP
      -- the descriptor with the highest end starts behind the gap
      have hpos : 0 < highestEnd ds := by
        have hle := h.le
        omega
      obtain ⟨top, htop, htopEnd⟩ := exists_highestEnd hpos
      have hbehind : startP < top.physicalStart := by
        have hle := h.le
        have hout := h.outside top htop
        have hne := hnone top htop
        omega
      have hsmall := hall top htop hbehind
      have htoplt := (hds.wholePages top htop).start_lt
      have htople := (hds.wholePages top htop).end_le
      unfold pageMask at htople
      obtain ⟨d, hd, hstart, hlowest⟩ := hex.resolve_left (by omega)
      dsimp only
      rw [if_neg (by omega), ← hlowest]
      have htag := h.gap hds hend hnone hd hstart fun d' hd' hlt => hlowest ▸ hall d' hd' hlt
      rcases htag.ok_or_error with ⟨m', hm', hwalked⟩ | ⟨e, he, hempty⟩
      · rw [hm']
        refine ih hwalked ?_
        rw [if_pos ⟨d, hd, rfl⟩]
        have hmono : before ds d.physicalStart ≤ before ds startP := before_le hstart.le
        omega
      · rw [he]
        exact ⟨_, rfl, meets_error ⟨e, rfl, hempty⟩⟩

end Gaps

section Build
variable {ds : List MemoryDescriptor} {d : MemoryDescriptor} {x : ℕ}

/-- The state of every page below the highest end, by the descriptor that covers it. -/
structure PageStates (ds : List MemoryDescriptor) (k : KernelMemory) : Prop where
  free : ∀ x < highestEnd ds, physState k x = .free ↔
    ∃ d ∈ ds, d.Covers x ∧ d.isFree = true
  reserved : ∀ x < highestEnd ds, physState k x = .reserved ↔
    (∀ d ∈ ds, ¬ d.Covers x) ∨ ∃ d ∈ ds, d.Covers x ∧ d.isFree = false ∧ d.isReserved = true
  used : ∀ x < highestEnd ds, physState k x = .used ↔
    ∃ d ∈ ds, d.Covers x ∧ d.isFree = false ∧ d.isReserved = false

/-- At most one descriptor covers a page. -/
theorem IsMemoryMap.covers_unique (h : IsMemoryMap ds) {d' : MemoryDescriptor} (hd : d ∈ ds)
    (hd' : d' ∈ ds) (hx : d.Covers x) (hx' : d'.Covers x) : d = d' := by
  by_contra hne
  have hapart := h.apart hd hd' hne
  unfold MemoryDescriptor.Covers at hx hx'
  omega

/-- The page states after the two loops, descriptor by descriptor. -/
theorem withGaps_describe (h : IsMemoryMap ds) (hd : d ∈ ds) (hx : d.Covers x) :
    withGaps ds (ds.foldl describe fun _ => .free) x =
      if d.isFree then .free else d.state := by
  rw [withGaps, if_pos ⟨d, hd, hx⟩]
  split_ifs with hfree
  · refine describe_all_of_not_covers fun d' hd' => ?_
    by_cases hx' : d'.Covers x
    · exact Or.inl (h.covers_unique hd hd' hx hx' ▸ hfree)
    · exact Or.inr hx'
  · exact describe_all_of_covers h.disjoint hd (Bool.eq_false_of_not_eq_true hfree) hx rfl

theorem PageStates.of_withGaps {k : KernelMemory} (h : IsMemoryMap ds)
    (hstate : ∀ x < highestEnd ds,
      physState k x = withGaps ds (ds.foldl describe fun _ => .free) x) : PageStates ds k := by
  have hcovered : ∀ x < highestEnd ds, ∀ d ∈ ds, d.Covers x →
      physState k x = if d.isFree then .free else d.state := fun x hx d hd hc =>
    (hstate x hx).trans (withGaps_describe h hd hc)
  have hgap : ∀ x < highestEnd ds, (¬ ∃ d ∈ ds, d.Covers x) → physState k x = .reserved :=
    fun x hx hnone => by rw [hstate x hx, withGaps, if_neg hnone]
  constructor
  all_goals
    intro x hx
    by_cases hex : ∃ d ∈ ds, d.Covers x
    · obtain ⟨d, hd, hc⟩ := hex
      have hunique : ∀ d' ∈ ds, d'.Covers x → d' = d := fun d' hd' hc' =>
        h.covers_unique hd' hd hc' hc
      rw [hcovered x hx d hd hc]
      unfold MemoryDescriptor.state
      constructor
      · intro heq
        cases hfree : d.isFree <;> cases hreserved : d.isReserved <;>
          simp only [hfree, hreserved] at heq <;> grind
      · grind
    · rw [hgap x hx hex]
      grind

/-- The state before the first loop is one of BuildPML4. -/
theorem describes_prepare (start : KernelStart) {highest : ℕ} (hpos : 0 < highest)
    (haligned : Aligned highest) (hle : highest ≤ pageMask) :
    Describes highest (start.prepare highest) fun _ => .free := by
  refine ⟨?_, rfl, fun x _ => rfl⟩
  exact Boot.start
    { highestAddress := highest
      pml4 := start.pml4
      initialPageTableEntries := start.initialPageTableEntries
      highest_pos := hpos
      highest_aligned := haligned
      highest_le := hle
      pml4_aligned := start.pml4_aligned
      pml4_lt := start.pml4_lt
      initial_aligned := start.initial_aligned
      initial_le := start.initial_le
      separate := start.separate }
    start.memory start.cr3 start.heapRequests start.heap_lt

/-- The loop for gaps starts at zero. -/
theorem walked_zero {k : KernelMemory} {pages : ℕ → RangeState}
    (hk : Describes (highestEnd ds) k pages) :
    Walked ds (highestEnd ds) pages 0 k.physicalMemoryState :=
  ⟨hk.boot.inv.1.physical, hk.highest_eq, Nat.zero_le _, by decide,
    fun d _ => Or.inr (Nat.zero_le _), fun x hx => absurd hx (Nat.not_lt_zero x),
    fun x _ hx => hk.state_eq x hx⟩

end Build

/-- For every memory map in any order, whose descriptors that are not free can be
mapped where they ask: both loops end, and unless the pages for the trees or the
tables run out, every page below the highest end has the state of its descriptor, or
is Reserved if it has none. -/
theorem buildPML4_page_states (start : KernelStart) (ds : List MemoryDescriptor)
    (hds : IsMemoryMap ds) (hvirt : ∀ d ∈ ds, d.isFree = false → d.VirtualFits) (fuel : ℕ)
    (hfuel : 2 * ds.length + 1 ≤ fuel) :
    ∃ r, buildPML4 start ds 0 fuel = some r ∧
      Meets (fun e => ∃ f, e = .memory f ∧ Exhausted f) (PageStates ds) r := by
  rcases (Nat.zero_le (highestEnd ds)).eq_or_lt with hzero | hpos
  · -- without descriptors there is nothing to do
    have hnil : ds = [] := by
      cases ds with
      | nil => rfl
      | cons d ds =>
        have hlt := (hds.wholePages d List.mem_cons_self).start_lt
        have hle : d.endAddress ≤ highestEnd (d :: ds) :=
          endAddress_le_highestEnd List.mem_cons_self
        omega
    subst hnil
    refine ⟨.ok (start.prepare 0), ?_, meets_ok (.of_withGaps hds fun x hx => ?_)⟩
    · cases fuel <;> rfl
    · exact absurd hx (Nat.not_lt_zero x)
  · obtain ⟨top, htop, htopEnd⟩ := exists_highestEnd hpos
    have haligned : Aligned (highestEnd ds) := htopEnd ▸ (hds.wholePages top htop).end_aligned
    have hle : highestEnd ds ≤ pageMask := htopEnd ▸ (hds.wholePages top htop).end_le
    have hmask : highestEnd ds &&& pageMask = highestEnd ds := by
      unfold pageMask at hle
      exact and_pageMask_of_aligned haligned (by omega)
    have hprepared := describes_prepare start hpos haligned hle
    have hloop : Meets Exhausted _ (descriptorLoop 0 start.special ds _) :=
      descriptorLoop_meets hprepared fun d hd =>
        ⟨hds.wholePages d hd, endAddress_le_highestEnd hd, hvirt d hd⟩
    unfold buildPML4
    dsimp only
    rw [hmask]
    rcases hloop.ok_or_error with ⟨k, hk, hdescribes⟩ | ⟨e, he, hexhausted⟩
    · have hcount : before ds 0 ≤ ds.length := List.countP_le_length
      obtain ⟨r, hr, hmeets⟩ := gapLoop_meets hds rfl (walked_zero hdescribes)
        (show _ ≤ fuel by split_ifs <;> omega)
      rw [hk]
      dsimp only
      rw [hr]
      refine ⟨_, rfl, ?_⟩
      rcases hmeets.ok_or_error with ⟨m, rfl, hwalked⟩ | ⟨e, rfl, f, rfl, hempty⟩
      · exact meets_ok (.of_withGaps hds hwalked.behind)
      · exact meets_error ⟨f, rfl, Or.inr hempty⟩
    · rw [he]
      exact ⟨_, rfl, meets_error ⟨e, rfl, hexhausted⟩⟩

theorem aligned_twoMegabytes : Aligned 0x200000 := by decide

/-- An empty kernel for the runs on fixed memory maps. -/
def exampleStart : KernelStart :=
  { special := ⟨0, 0, 0, 0, 0⟩
    pml4 := 0x100000
    initialPageTableEntries := 0x200000
    memory := fun _ _ => 0
    cr3 := 0
    heapRequests := []
    pml4_aligned := by decide
    pml4_lt := by decide
    initial_aligned := aligned_twoMegabytes
    initial_le := by decide
    separate := by decide
    heap_lt := by simp }

/-- Memory of the kernel at 0x3000, free memory behind a gap, and the first page. -/
def exampleMap : List MemoryDescriptor :=
  [⟨efiLoaderData, 0x3000, 0, 1, 0⟩, ⟨efiConventionalMemory, 0x2000, 0, 1, 0⟩,
    ⟨efiUnusableMemory, 0, 0, 1, 0⟩]

theorem buildPML4_page_states_example :
    IsMemoryMap exampleMap ∧
      ∃ k, buildPML4 exampleStart exampleMap 0 7 = some (.ok k) ∧ PageStates exampleMap k ∧
        physState k 0x1000 = .reserved ∧ physState k 0x2000 = .free ∧
        physState k 0x3000 = .used := by
  have hmap : IsMemoryMap exampleMap := by
    refine ⟨?_, ?_⟩
    · unfold exampleMap
      simp only [List.forall_mem_cons]
      exact ⟨⟨by decide, by decide, by decide⟩, ⟨by decide, by decide, by decide⟩,
        ⟨by decide, by decide, by decide⟩, by simp⟩
    · unfold exampleMap MemoryDescriptor.Covers MemoryDescriptor.endAddress MemoryDescriptor.size
        add64 pageSize
      simp only [List.pairwise_cons, List.forall_mem_cons, List.not_mem_nil, false_implies,
        implies_true, and_true, List.Pairwise.nil]
      refine ⟨⟨fun x => ?_, fun x => ?_⟩, fun x => ?_⟩ <;> omega
  have hvirt : ∀ d ∈ exampleMap, d.isFree = false → d.VirtualFits := by
    unfold exampleMap MemoryDescriptor.VirtualFits
    simp
  obtain ⟨r, hr, hmeets⟩ :=
    buildPML4_page_states exampleStart exampleMap hmap hvirt 7 (by decide)
  have hrun : (buildPML4 exampleStart exampleMap 0 7).map errorOf = some none := by
    decide +kernel
  rw [hr, Option.map_some, Option.some_inj] at hrun
  obtain ⟨k, rfl⟩ := exists_ok_of_errorOf hrun
  have hstates : PageStates exampleMap k := hmeets.of_eq_ok rfl
  refine ⟨hmap, k, hr, hstates, ?_, ?_, ?_⟩
  · exact (hstates.reserved 0x1000 (by decide)).mpr (Or.inl (by decide))
  · exact (hstates.free 0x2000 (by decide)).mpr (by decide)
  · exact (hstates.used 0x3000 (by decide)).mpr (by decide)

/-- The image of an application that asks for a virtual address. -/
def virtualMap : List MemoryDescriptor := [⟨efiLoaderData, 0, 0xFFFF800000000000, 1, 0⟩]

/-- MapPages takes no virtual address above the mask of the page tables. -/
theorem virtual_start_asserts :
    IsMemoryMap virtualMap ∧ (buildPML4 exampleStart virtualMap 0 3).map errorOf =
      some (some (.memory (.assertion .mapPages "Virtual address mismatch."))) := by
  refine ⟨⟨?_, List.pairwise_singleton _ _⟩, by decide +kernel⟩
  unfold virtualMap
  simp only [List.forall_mem_cons]
  exact ⟨⟨by decide, by decide, by decide⟩, by simp⟩

end Enkel.Paging
