import Enkel.LongestRoot

/-!
Unmounting. The lookup takes the first slot without a hash for the end of the
page, so a volume that is unmounted must be the last one of its page. Then the
table is the one that mounting the other volumes alone would have made.
-/
namespace Enkel.VolumeSystem

open BitFields Outcome FileHandleMask

section Model
variable {V : Type} (xxh64 : List ℕ → ℕ)

/-- The handle selects the slot of the volume, and every later slot of the page is empty. -/
def UnmountsLast (pages : VolumeIndices V) (m : Mounted V) : Prop :=
  selected m.handle = m.slot ∧
    ∀ i, m.slot.2 < i → (pages m.slot.1 i).volumeImplementation = none

/-- The states that calls of MountVolume and UnmountVolume reach, with the volumes
that are mounted and those that were. When `inOrder` holds, only the last volume
of a page is unmounted. -/
inductive VolumeRun (inOrder : Prop) : List (Mounted V) → List (Mounted V) → VolumeIndices V → Prop
  | init : VolumeRun inOrder [] [] (initializeVolumeSystem V)
  | mount {live gone : List (Mounted V)} {pages pages' : VolumeIndices V} {c : MountCall V}
      {handle : ℕ} {slot : ℕ × ℕ} (hrun : VolumeRun inOrder live gone pages)
      (hroot : ∀ m ∈ live, m.call.rootPath ≠ c.rootPath)
      (hmount : mountVolume xxh64 c.uninitialised c.volume c.rootPath c.context pages =
        .ok (handle, pages'))
      (hfills : Fills xxh64 c slot pages pages') :
      VolumeRun inOrder (live ++ [⟨c, handle, slot⟩]) gone pages'
  | unmount {before after gone : List (Mounted V)} {m : Mounted V} {pages : VolumeIndices V}
      (hrun : VolumeRun inOrder (before ++ m :: after) gone pages)
      (hlast : inOrder → UnmountsLast pages m) :
      VolumeRun inOrder (before ++ after) (m :: gone) (unmountVolume m.handle pages)

/-- The slot of each volume is the number of volumes before it on its page. -/
def Consecutive (live : List (Mounted V)) : Prop :=
  ∀ before m after, live = before ++ m :: after →
    m.slot = (segmentsOf m.call.rootPath, onPage before (segmentsOf m.call.rootPath))

end Model

section Congr
variable {V : Type} {xxh64 : List ℕ → ℕ} {pages pages' : VolumeIndices V}

theorem scanPage_congr {page page' : ℕ → VolumeIndex V} {hash index : ℕ}
    (h : ∀ i, (page i).rootHash = (page' i).rootHash) (slots pageIndex : ℕ) (c : Cursor) :
    scanPage page hash index slots pageIndex c = scanPage page' hash index slots pageIndex c := by
  induction slots generalizing pageIndex c with
  | zero => rfl
  | succ slots ih =>
    unfold scanPage
    simp only [h, ih]

/-- The lookup depends on the hashes in the table only. -/
theorem breakPath_congr (h : ∀ p i, (pages p i).rootHash = (pages' p i).rootHash) (path : List ℕ) :
    breakPath xxh64 pages path = breakPath xxh64 pages' path := by
  have hturn : breakPathTurn xxh64 pages path = breakPathTurn xxh64 pages' path := by
    funext c index
    unfold breakPathTurn
    simp only [scanPage_congr (h _)]
  unfold breakPath
  rw [hturn]

end Congr

section Unmount
variable {V : Type} {xxh64 : List ℕ → ℕ} {pages : VolumeIndices V} {before after : List (Mounted V)}
  {m : Mounted V}

theorem unmountVolume_of_ne {handle : ℕ} {s : ℕ × ℕ} (h : selected handle ≠ s) :
    unmountVolume handle pages s.1 s.2 = pages s.1 s.2 := by
  unfold unmountVolume
  by_cases hpage : s.1 = segments handle
  · rw [hpage, Function.update_self, Function.update_of_ne]
    exact fun hslot => h (Prod.ext hpage.symm hslot.symm)
  · rw [Function.update_of_ne hpage]

theorem unmountVolume_selected (pages : VolumeIndices V) (handle : ℕ) :
    (unmountVolume handle pages (selected handle).1 (selected handle).2).rootHash = 0 ∧
      (unmountVolume handle pages (selected handle).1 (selected handle).2).volumeImplementation =
        none := by
  unfold unmountVolume selected
  rw [Function.update_self, Function.update_self]
  exact ⟨rfl, rfl⟩

theorem onPage_middle (before after : List (Mounted V)) (m : Mounted V) (p : ℕ) :
    onPage (before ++ m :: after) p =
      onPage (before ++ after) p + if segmentsOf m.call.rootPath = p then 1 else 0 := by
  unfold onPage
  rw [List.countP_append, List.countP_append, List.countP_cons]
  simp only [decide_eq_true_eq]
  omega

theorem mem_middle {m' : Mounted V} (h : m' ∈ before ++ after) : m' ∈ before ++ m :: after := by
  rcases List.mem_append.mp h with h | h
  · exact List.mem_append_left _ h
  · exact List.mem_append_right _ (List.mem_cons_of_mem _ h)

section Last
variable (h : TableInv xxh64 (before ++ m :: after) pages) (hlast : UnmountsLast pages m)
include h hlast

/-- The volume has the last slot that is filled. -/
theorem TableInv.slot_of_last :
    onPage (before ++ after) (segmentsOf m.call.rootPath) = m.slot.2 := by
  have hm : m ∈ before ++ m :: after := List.mem_append_right _ List.mem_cons_self
  obtain ⟨hpage, -⟩ := h.page m hm
  have hlt := (h.index m hm).1
  have hcount := onPage_middle before after m
    (segmentsOf m.call.rootPath)
  rw [if_pos rfl] at hcount
  rw [hpage, hcount] at hlt
  by_contra hne
  obtain ⟨m', hm', hslot⟩ := h.occupied (segmentsOf m.call.rootPath) (m.slot.2 + 1) (by omega)
  have hentry := h.entry m' hm'
  rw [hslot, ← hpage] at hentry
  have hempty := hlast.2 (m.slot.2 + 1) (Nat.lt_succ_self _)
  rw [show pages m.slot.1 (m.slot.2 + 1) = _ from hentry] at hempty
  cases hempty

/-- Unmounting the last volume of a page keeps the invariant. -/
theorem TableInv.unmount : TableInv xxh64 (before ++ after) (unmountVolume m.handle pages) := by
  have hm : m ∈ before ++ m :: after := List.mem_append_right _ List.mem_cons_self
  have hslot := h.slot_of_last hlast
  have hpage := (h.page m hm).1
  have hne : ∀ m' ∈ before ++ after, m.slot ≠ m'.slot := by
    intro m' hm'
    have hdistinct := List.pairwise_middle (fun h => Ne.symm h) |>.mp h.distinct
    exact (List.pairwise_cons.mp hdistinct).1 m' hm'
  have hentry : ∀ m' ∈ before ++ after, unmountVolume m.handle pages m'.slot.1 m'.slot.2 =
      pages m'.slot.1 m'.slot.2 := fun m' hm' =>
    unmountVolume_of_ne (by rw [hlast.1]; exact hne m' hm')
  refine ⟨fun m' hm' => h.page m' (mem_middle hm'), fun m' hm' =>
    ⟨?_, (h.index m' (mem_middle hm')).2⟩,
    fun m' hm' => (hentry m' hm').trans (h.entry m' (mem_middle hm')),
    fun m' hm' => h.handle m' (mem_middle hm'), fun p i hi => ?_, fun p i hi => ?_,
    h.distinct.sublist (List.Sublist.append_left (List.sublist_cons_self m after) before)⟩
  · have hlt := (h.index m' (mem_middle hm')).1
    rw [onPage_middle] at hlt
    split_ifs at hlt with hp
    · rw [← hp, hslot] at hlt ⊢
      have hother : m'.slot.2 ≠ m.slot.2 := fun heq =>
        hne m' hm' (Prod.ext (hpage.trans hp) heq.symm)
      omega
    · exact hlt
  · obtain ⟨m', hm', hslot'⟩ := h.occupied p i (by rw [onPage_middle]; omega)
    refine ⟨m', ?_, hslot'⟩
    rcases List.mem_append.mp hm' with hm' | hm'
    · exact List.mem_append_left _ hm'
    · rcases List.mem_cons.mp hm' with rfl | hm'
      · rw [hslot'] at hpage hslot
        dsimp only at hpage hslot
        rw [hpage, hslot] at hi
        exact absurd hi (lt_irrefl i)
      · exact List.mem_append_right _ hm'
  · by_cases hs : m.slot = (p, i)
    · have hsel := unmountVolume_selected pages m.handle
      rw [hlast.1, hs] at hsel
      exact hsel
    · rw [unmountVolume_of_ne (s := (p, i)) (by rw [hlast.1]; exact hs)]
      refine h.empty p i ?_
      rw [onPage_middle]
      split_ifs with hp
      · rw [← hp, hslot] at hi
        have : m.slot.2 ≠ i := fun heq => hs (Prod.ext (hpage.trans hp) heq)
        rw [← hp, hslot]
        omega
      · exact hi

/-- The volumes behind the last one of its page are on other pages. -/
theorem Consecutive.unmount (hc : Consecutive (before ++ m :: after)) :
    Consecutive (before ++ after) := by
  intro l m' r heq
  have hbehind : ∀ l', l = before ++ l' → after = l' ++ m' :: r →
      m'.slot = (segmentsOf m'.call.rootPath, onPage l (segmentsOf m'.call.rootPath)) := by
    rintro l' rfl hafter
    have hfull := hc (before ++ m :: l') m' r (by rw [hafter, List.append_assoc, List.cons_append])
    rw [hfull, onPage_middle, if_neg, Nat.add_zero]
    intro hp
    have hm := hc before m after rfl
    have hle : onPage before (segmentsOf m.call.rootPath) ≤
        onPage (before ++ l') (segmentsOf m.call.rootPath) := by
      unfold onPage
      rw [List.countP_append]
      omega
    rw [onPage_middle, if_pos hp, ← hp] at hfull
    have hempty := hlast.2 m'.slot.2 (by rw [hm, hfull]; dsimp only; omega)
    have hentry := h.entry m' (mem_middle (by rw [hafter]; simp))
    rw [show m.slot.1 = m'.slot.1 by rw [hm, hfull], hentry] at hempty
    cases hempty
  rcases List.append_eq_append_iff.mp heq with ⟨l', hl, hafter⟩ | ⟨r', hbefore, hr⟩
  · exact hbehind l' hl hafter
  · cases r' with
    | nil => exact hbehind [] (by rw [hbefore, List.append_nil, List.append_nil]) hr.symm
    | cons a r' =>
      obtain ⟨rfl, rfl⟩ := List.cons.inj hr
      exact hc l m' (r' ++ m :: after) (by rw [hbefore, List.append_assoc]; rfl)

end Last

end Unmount

section Reference
variable {V : Type} {xxh64 : List ℕ → ℕ} {live gone : List (Mounted V)}
  {pages pages' : VolumeIndices V}

theorem Consecutive.mount {m : Mounted V} (h : Consecutive live)
    (hslot : m.slot = (segmentsOf m.call.rootPath, onPage live (segmentsOf m.call.rootPath))) :
    Consecutive (live ++ [m]) := by
  intro l m' r heq
  rcases List.append_eq_append_iff.mp heq with ⟨l', rfl, hr⟩ | ⟨r', rfl, hr⟩
  · cases l' with
    | nil =>
      rw [List.nil_append] at hr
      obtain ⟨rfl, -⟩ := List.cons.inj hr
      rw [List.append_nil]
      exact hslot
    | cons a l' =>
      obtain ⟨-, hnil⟩ := List.cons.inj hr
      simp at hnil
  · cases r' with
    | nil =>
      rw [List.nil_append] at hr
      obtain ⟨rfl, -⟩ := List.cons.inj hr
      rw [List.append_nil] at hslot
      exact hslot
    | cons a r' =>
      obtain ⟨rfl, -⟩ := List.cons.inj hr
      exact h l m' r' rfl

/-- In a run that unmounts last volumes only the slots stay contiguous. -/
theorem VolumeRun.inv (h : VolumeRun xxh64 True live gone pages) :
    TableInv xxh64 live pages ∧ Consecutive live := by
  induction h with
  | init =>
    refine ⟨MountRun.init.inv, fun l m r heq => ?_⟩
    simp at heq
  | mount hrun hroot hmount hfills ih =>
    refine ⟨ih.1.mount hmount hfills, ih.2.mount ?_⟩
    obtain ⟨index, hfree, -, -, hfills'⟩ := mountVolume_eq_ok hmount
    rw [hfills.unique hfills', ih.1.firstFree hfree]
  | unmount hrun hlast ih => exact ⟨ih.1.unmount (hlast trivial), ih.2.unmount ih.1 (hlast trivial)⟩

/-- Volumes whose slots are consecutive can be mounted one after the other. -/
theorem exists_mountRun_of_consecutive (xxh64 : List ℕ → ℕ) (hc : Consecutive live)
    (hpage : ∀ m ∈ live, m.slot.1 < maxSegments ∧ m.slot.2 < volumesPerPage)
    (hhandle : ∀ m ∈ live, m.handle = slotHandle m.call.uninitialised m.slot.1 m.slot.2) :
    ∃ pages', MountRun xxh64 live pages' := by
  induction live using List.reverseRecOn with
  | nil => exact ⟨_, .init⟩
  | append_singleton live m ih =>
    have hm : m ∈ live ++ [m] := List.mem_append_right _ (List.mem_singleton_self m)
    have hslot := hc live m [] rfl
    obtain ⟨pages', hrun⟩ := ih
      (fun l m' r heq => hc l m' (r ++ [m]) (by rw [heq, List.append_assoc]; rfl))
      (fun m' hm' => hpage m' (List.mem_append_left _ hm'))
      fun m' hm' => hhandle m' (List.mem_append_left _ hm')
    have hbounds := hpage m hm
    have hhandle' := hhandle m hm
    rw [hslot] at hbounds hhandle'
    obtain ⟨handle, pages'', slot, hmount, hfills⟩ := hrun.inv.exists_mount hbounds.1 hbounds.2
    obtain ⟨index, hfree, -, hh, hfills'⟩ := mountVolume_eq_ok hmount
    have hnext := MountRun.mount hrun hmount hfills
    rw [hfills.unique hfills', hh, hrun.inv.firstFree hfree, ← hhandle', ← hslot] at hnext
    exact ⟨pages'', hnext⟩

/-- Two tables with the same volumes have the same hashes and implementations,
and the same contents where volumes are mounted. -/
theorem TableInv.agree (h : TableInv xxh64 live pages) (h' : TableInv xxh64 live pages') (p i : ℕ) :
    (pages p i).rootHash = (pages' p i).rootHash ∧
      (pages p i).volumeImplementation = (pages' p i).volumeImplementation := by
  by_cases hi : i < onPage live p
  · obtain ⟨m, hm, hslot⟩ := h.occupied p i hi
    have hentry := (h.entry m hm).trans (h'.entry m hm).symm
    rw [hslot] at hentry
    rw [show pages p i = pages' p i from hentry]
    exact ⟨rfl, rfl⟩
  · obtain ⟨h1, h2⟩ := h.empty p i (by omega)
    obtain ⟨h1', h2'⟩ := h'.empty p i (by omega)
    exact ⟨h1.trans h1'.symm, h2.trans h2'.symm⟩

/-- A root that is not mounted has its hash in no slot. -/
theorem TableInv.rootHash_ne (h : TableInv xxh64 live pages) {root : List ℕ}
    (hne : xxh64 root ≠ 0) (hother : ∀ m ∈ live, xxh64 m.call.rootPath ≠ xxh64 root) (p i : ℕ) :
    (pages p i).rootHash ≠ xxh64 root := by
  by_cases hi : i < onPage live p
  · obtain ⟨m, hm, hslot⟩ := h.occupied p i hi
    have hentry := h.entry m hm
    rw [hslot] at hentry
    rw [show pages p i = _ from hentry]
    exact hother m hm
  · rw [(h.empty p i (by omega)).1]
    exact hne.symm

theorem MountRun.volumeRun (inOrder : Prop) (h : MountRun xxh64 live pages)
    (hroots : live.Pairwise fun a b => a.call.rootPath ≠ b.call.rootPath) :
    VolumeRun xxh64 inOrder live [] pages := by
  induction h with
  | init => exact .init
  | mount hrun hmount hfills ih =>
    obtain ⟨hlive, -, hlast⟩ := List.pairwise_append.mp hroots
    exact .mount (ih hlive) (fun m hm => hlast m hm _ (List.mem_singleton_self _)) hmount hfills

end Reference

/-- Volumes at the roots "a/" and "b/". -/
theorem exists_twoMounts : ∃ (a b : Mounted ℕ) (pages : VolumeIndices ℕ),
    MountRun encodeHash [a, b] pages ∧ a.call = letterCall 0 ∧ b.call = letterCall 1 ∧
      a.slot = (1, 0) ∧ b.slot = (1, 1) ∧ selected a.handle = a.slot ∧ selected b.handle = b.slot := by
  obtain ⟨mounts, pages, hrun, hcalls⟩ := exists_mountRun encodeHash
    [letterCall 0, letterCall 1] (by decide) fun p => List.countP_le_length.trans (by decide)
  obtain ⟨a, rest, rfl, ha, hrest⟩ := List.map_eq_cons_iff.mp hcalls
  obtain ⟨b, rfl, hb⟩ := List.map_eq_singleton_iff.mp hrest
  have hinv := hrun.inv
  obtain ⟨-, hc⟩ := (hrun.volumeRun True (by rw [List.pairwise_pair, ha, hb]; decide)).inv
  have hslota := hc [] a [b] rfl
  have hslotb := hc [a] b [] rfl
  rw [ha] at hslota
  rw [hb] at hslotb
  have hpage : onPage [a] (segmentsOf (letterCall 1).rootPath) = 1 := by
    unfold onPage
    rw [List.countP_singleton, ha]
    rfl
  rw [hpage] at hslotb
  have hslota' : a.slot = (1, 0) := hslota
  have hslotb' : b.slot = (1, 1) := hslotb
  refine ⟨a, b, pages, hrun, ha, hb, hslota', hslotb', ?_, ?_⟩
  · rw [hinv.selected_eq_iff (by simp), hslota']
    decide
  · rw [hinv.selected_eq_iff (by simp), hslotb']
    decide

section Reference
variable {V : Type} {xxh64 : List ℕ → ℕ} {live gone : List (Mounted V)}
  {pages pages' : VolumeIndices V}

/-- In every run in which only last volumes of pages are unmounted: the lookup
of every path is what it would be if the volumes that are gone had never been
mounted, and it resolves to none of their roots. -/
theorem unmount_keeps_others {V : Type} (xxh64 : List ℕ → ℕ) (live gone : List (Mounted V))
    (pages : VolumeIndices V) (hrun : VolumeRun xxh64 True live gone pages)
    (hinjective : ∀ a ∈ live ++ gone, ∀ b ∈ live ++ gone,
      xxh64 a.call.rootPath = xxh64 b.call.rootPath → a.call.rootPath = b.call.rootPath)
    (hne : ∀ m ∈ live ++ gone, xxh64 m.call.rootPath ≠ 0) :
    (∃ pages', MountRun xxh64 live pages' ∧
      (∀ path, breakPath xxh64 pages path = breakPath xxh64 pages' path) ∧
      (∀ handle, (getVolumeIndex pages handle).rootHash = (getVolumeIndex pages' handle).rootHash ∧
        (getVolumeIndex pages handle).volumeImplementation =
          (getVolumeIndex pages' handle).volumeImplementation) ∧
      ∀ m ∈ live, pages m.slot.1 m.slot.2 = pages' m.slot.1 m.slot.2) ∧
    ∀ m ∈ gone, (∀ m' ∈ live, m'.call.rootPath ≠ m.call.rootPath) → ∀ path handle position,
      breakPath xxh64 pages path = .ok (handle, position) →
        (getVolumeIndex pages handle).rootHash ≠ xxh64 m.call.rootPath := by
  obtain ⟨hinv, hc⟩ := hrun.inv
  obtain ⟨pages', hreference⟩ := exists_mountRun_of_consecutive xxh64 hc
    (fun m hm => ⟨(hinv.page m hm).2, (hinv.index m hm).2⟩) hinv.handle
  have hagree := hinv.agree hreference.inv
  refine ⟨⟨pages', hreference, breakPath_congr fun p i => (hagree p i).1, fun handle => hagree _ _,
    fun m hm => (hinv.entry m hm).trans (hreference.inv.entry m hm).symm⟩, ?_⟩
  intro m hm hother path handle position _
  refine hinv.rootHash_ne (hne m (List.mem_append_right _ hm)) (fun m' hm' heq => ?_) _ _
  exact hother m' hm' (hinjective m' (List.mem_append_left _ hm') m (List.mem_append_right _ hm) heq)

theorem unmount_keeps_others_two :
    ∃ (a b : Mounted ℕ) (pages : VolumeIndices ℕ), MountRun encodeHash [a, b] pages ∧
      VolumeRun encodeHash True [a] [b] (unmountVolume b.handle pages) ∧
      ∃ pages', MountRun encodeHash [a] pages' ∧ ∀ path,
        breakPath encodeHash (unmountVolume b.handle pages) path =
          breakPath encodeHash pages' path := by
  obtain ⟨a, b, pages, hrun, ha, hb, hslota, hslotb, hsela, hselb⟩ := exists_twoMounts
  have hlast : UnmountsLast pages b := by
    refine ⟨hselb, fun i hi => (hrun.inv.empty _ i ?_).2⟩
    rw [hslotb] at hi
    exact List.countP_le_length.trans hi
  have hvolume : VolumeRun encodeHash True ([a] ++ []) [b] (unmountVolume b.handle pages) :=
    .unmount (hrun.volumeRun True (by rw [List.pairwise_pair, ha, hb]; decide)) fun _ => hlast
  have hinjective : ∀ x ∈ [a] ++ [b], ∀ y ∈ [a] ++ [b],
      encodeHash x.call.rootPath = encodeHash y.call.rootPath →
        x.call.rootPath = y.call.rootPath :=
    fun _ _ _ _ h => Encodable.encode_injective (Nat.succ_injective h)
  obtain ⟨⟨pages', hreference, hpath, -⟩, -⟩ := unmount_keeps_others encodeHash [a] [b] _ hvolume
    hinjective fun _ _ => Nat.succ_ne_zero _
  exact ⟨a, b, pages, hrun, hvolume, pages', hreference, hpath⟩

/-- A volume at "b/" alone is found. -/
theorem exists_letter_found : ∃ (m : Mounted ℕ) (pages : VolumeIndices ℕ),
    MountRun encodeHash [m] pages ∧ m.call = letterCall 1 ∧
      ∃ handle, breakPath encodeHash pages (letterCall 1).rootPath = .ok (handle, 1) ∧
        getVolumeIndex pages handle = (letterCall 1).entry encodeHash := by
  obtain ⟨mounts, pages, hrun, hcalls⟩ := exists_mountRun encodeHash
    [letterCall 1] (by decide) fun p => List.countP_le_length.trans (by decide)
  obtain ⟨m, rfl, hcall⟩ := List.map_eq_singleton_iff.mp hcalls
  have hm : m ∈ [m] := List.mem_singleton_self m
  have hroots : RootsFit [m] := by
    refine ⟨fun m' hm' => ?_, fun m' hm' => ?_, List.pairwise_singleton _ _,
      fun page => List.countP_le_length.trans_lt (by simp)⟩
    · rw [List.mem_singleton.mp hm', hcall]
      rfl
    · rw [List.mem_singleton.mp hm', hcall]
      decide
  have hfits : LookupFits encodeHash [m] pages (letterCall 1).rootPath :=
    ⟨hrun.inv, hroots, hashFits_encodeHash _ _, by decide⟩
  have hharm : MovesHarmlessly [m] (letterCall 1).rootPath := fun m' hm' =>
    Or.inl (by rw [List.mem_singleton.mp hm'.1, hcall])
  obtain ⟨handle, position, hbreak, hres⟩ := hfits.resolves_iff.mpr hharm
  refine ⟨m, pages, hrun, hcall, handle, ?_⟩
  rcases hres with ⟨-, -, hnone⟩ | ⟨m', hm', -, -, hsame, hposition⟩
  · exact absurd (by rw [hcall]) (hnone m hm)
  · rw [List.mem_singleton.mp hm', hcall] at hposition
    obtain rfl : position = 1 := Nat.succ_injective hposition
    refine ⟨hbreak, ?_⟩
    have hslot : selected m.handle = m.slot := by
      rw [hrun.inv.selected_eq_iff hm]
      exact (hrun.inv.index m hm).1.trans (hroots.few _)
    have hentry := hrun.inv.entry m hm
    rw [← hslot, ← List.mem_singleton.mp hm', ← hsame.2.2, List.mem_singleton.mp hm', hcall] at hentry
    exact hentry

/-- With "a/" and "b/" mounted in this order, unmounting "a/" hides "b/", which
would be found if "a/" had never been mounted. -/
theorem unmount_hides_later :
    ∃ (a b : Mounted ℕ) (pages : VolumeIndices ℕ), MountRun encodeHash [a, b] pages ∧
      VolumeRun encodeHash False [b] [a] (unmountVolume a.handle pages) ∧
      breakPath encodeHash (unmountVolume a.handle pages) b.call.rootPath = .ok (0, 0) ∧
      ∃ (b' : Mounted ℕ) (pages' : VolumeIndices ℕ), MountRun encodeHash [b'] pages' ∧
        b'.call = b.call ∧ ∃ handle, breakPath encodeHash pages' b.call.rootPath = .ok (handle, 1) ∧
          getVolumeIndex pages' handle = b.call.entry encodeHash := by
  obtain ⟨a, b, pages, hrun, ha, hb, hslota, hslotb, hsela, hselb⟩ := exists_twoMounts
  have hvolume : VolumeRun encodeHash False ([] ++ [b]) [a] (unmountVolume a.handle pages) :=
    .unmount (hrun.volumeRun False (by rw [List.pairwise_pair, ha, hb]; decide)) fun h => h.elim
  have hempty := (unmountVolume_selected pages a.handle).1
  rw [hsela, hslota] at hempty
  obtain ⟨b', pages', hreference, hb', hhandle⟩ := exists_letter_found
  refine ⟨a, b, pages, hrun, hvolume, ?_, b', pages', hreference, hb'.trans hb.symm, ?_⟩
  · have hscan : scanPage (unmountVolume a.handle pages 1) (encodeHash (letterCall 1).rootPath) 1
        volumesPerPage 0 ⟨0, 1, 0⟩ = ⟨0, 1, 0⟩ := scanPage_stop hempty (Nat.succ_ne_zero _)
    have hturn : breakPathTurn encodeHash (unmountVolume a.handle pages) (letterCall 1).rootPath
        ⟨0, 0, 0⟩ 1 = .ok ⟨0, 1, 0⟩ :=
      (breakPathTurn_slash rfl (by decide)).trans (congrArg Except.ok hscan)
    rw [hb, breakPath_eq]
    change turns _ _ _ 0 (1 + 1) _ >>= _ = _
    rw [turns_add, turns_one, breakPathTurn_other 0x62 rfl (by decide), ok_bind, turns_one, hturn]
    rfl
  · rw [hb]
    exact hhandle

end Reference

end Enkel.VolumeSystem
