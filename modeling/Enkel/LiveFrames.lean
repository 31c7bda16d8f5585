import Enkel.AllocationRuns
import Enkel.FailedSearch

/-!
The frames of live blocks. VirtualFree translates the first page only and frees as many
frames from there on, while sys_memory_map gives single pages of a block other frames. No
frame of a live block is freed as long as the pages of a block that is freed map the frames
from the first one's on, and the frames that sys_memory_map takes are not in use.
-/
namespace Enkel.LiveFrames

open Outcome MemoryState Paging KernelMemory

/-- A block that VirtualAlloc has given. -/
structure Block where
  address : ℕ
  size : ℕ
deriving DecidableEq, Repr

def Block.Holds (b : Block) (x : ℕ) : Prop := b.address ≤ x ∧ x < b.address + b.size

def pagesOf (live : List Block) (x : ℕ) : Prop := ∃ b ∈ live, b.Holds x

/-- The pages in `own` are not Free, and their frames are neither. A frame that is not
Reserved belongs to one of the pages only. -/
structure Keeps (k : KernelMemory) (own : ℕ → Prop) : Prop where
  virt : ∀ x, own x → x < pageMask ∧ virtState k x ≠ .free
  phys : ∀ x f, own x → frame k x = some f →
    f < k.physicalMemoryState.highestAddress ∧ physState k f ≠ .free
  alone : ∀ x y f, own x → own y → frame k x = some f → frame k y = some f →
    physState k f = .reserved ∨ x / 4096 = y / 4096

section Steps
variable {own own' : ℕ → Prop} {k kt k' : KernelMemory} {m : Mapping} {v p size x f : ℕ}

theorem Keeps.mono (h : Keeps k own) (hsub : ∀ x, own' x → own x) : Keeps k own' where
  virt x hx := h.virt x (hsub x hx)
  phys x f hx := h.phys x f (hsub x hx)
  alone x y f hx hy := h.alone x y f (hsub x hx) (hsub y hy)

theorem inPages_callTurns (hv : PageAddress v) (hmod : size % 4096 = 0) (hlt : size < 2 ^ 64) :
    InPages v (callTurns v size) x ↔ v ≤ x ∧ x < add64 v size := by
  unfold InPages
  rcases callTurns_spec hv hmod hlt with hzero | ⟨hadd, hturns⟩
  · have hle : add64 v size ≤ v := by
      unfold callTurns loopTurns pageSize at hzero
      omega
    omega
  · omega

/-- Off its pages a call keeps the frame of a page that is not Free. -/
theorem frame_of_called (hc : Called True m v p size k kt k') (hk : Ok k) (hlt : size < 2 ^ 64)
    (hx : x < pageMask) (hne : virtState k x ≠ .free)
    (hout : ¬InPages v (callTurns v size) x) :
    frame k' x = frame k x ∧ virtState k' x ≠ .free := by
  have hkt : virtState kt x ≠ .free := by
    rw [hc.virt_tagged hk hx]
    unfold tagged
    rw [inPages_callTurns hc.virtual_page hc.size_mod hlt] at hout
    rwa [if_neg fun h => hout ⟨h.1, h.2.1⟩]
  have henv := hc.mapped.env
  have hword := henv.word_of_ne_free (by unfold pageMask at hx; omega) hout fun _ => hkt
  obtain ⟨physical, virt, rfl, -⟩ := hc.tags
  refine ⟨frame_congr hword, ?_⟩
  rwa [henv.virt_of_ne_free hx hkt]

/-- A frame that is not Free after the tag keeps its state. -/
theorem physState_of_called (hc : Called True m v p size k kt k') (hk : Ok k)
    (hf : f < k.physicalMemoryState.highestAddress)
    (hne : tagged (physState k) p (physicalEnd p size) m.newState f ≠ .free) :
    physState k' f = tagged (physState k) p (physicalEnd p size) m.newState f := by
  rw [← hc.phys_tagged hk hf] at hne ⊢
  have henv := hc.mapped.env
  rcases henv.phys f (by rw [← henv.highest, hc.highest_eq hk]; exact hf) with h | ⟨-, h, -⟩
  · exact h
  · exact absurd h hne

/-- The frames that a call takes are not Free afterwards. -/
theorem phys_of_inPages (hc : Called True m v p size k kt k') (hk : Ok k)
    (hm : m.newState = .used) {i : ℕ} (hi : i < callTurns v size) :
    p + 4096 * i < k.physicalMemoryState.highestAddress ∧ physState k' (p + 4096 * i) ≠ .free := by
  obtain ⟨hsize, -, hend⟩ := hc.bounds (by omega)
  have hH := hk.physical.lt
  have htag : tagged (physState k) p (physicalEnd p size) m.newState (p + 4096 * i) ≠ .free := by
    rw [physicalEnd_of_lt hc.physical_page hc.size_mod (by omega), hm]
    unfold tagged
    split_ifs with hcond
    · decide
    · intro hfree
      exact hcond ⟨by omega, by omega, by rw [hfree]; decide⟩
  refine ⟨by omega, ?_⟩
  rwa [physState_of_called hc hk (by omega) htag]

/-- A call that maps keeps the pages, and its own ones, when it takes no frame that is Used. -/
theorem Keeps.map (h : Keeps k own) (hk : Ok k) (hm : m.newState = .used) (hlt : size < 2 ^ 64)
    (hc : Called True m v p size k kt k')
    (hunused : ∀ x, p ≤ x → x < p + size → physState k x ≠ .used) :
    Keeps k' fun x => own x ∨ InPages v (callTurns v size) x := by
  have hne : m.newState ≠ .free := by
    rw [hm]
    decide
  have hvmod := hc.virtual_page.mod
  -- the pages of the call, with their new frames
  have hnew : ∀ x, InPages v (callTurns v size) x → ∃ i < callTurns v size,
      x / 4096 = v / 4096 + i ∧ x < pageMask ∧ virtState kt x ≠ .free ∧
        frame k' x = some (p + 4096 * i) := by
    intro x hin
    obtain ⟨hlo, hhi⟩ := (inPages_callTurns hc.virtual_page hc.size_mod hlt).mp hin
    have hi : (x - v) / 4096 < callTurns v size := by
      have := hin.2
      omega
    obtain ⟨hsize, hend, -⟩ := hc.bounds (by omega)
    have hbase : (v + 4096 * ((x - v) / 4096)) / 4096 = x / 4096 := by omega
    have hfree : ∀ y, v ≤ y → y < v + size → virtState kt y ≠ .free := fun y hlo hhi =>
      hc.tagged_ne_free hk hne (by omega) hlo (by
        rw [add64_of_lt (by unfold pageMask at hend; omega)]
        exact hhi)
    have hxlt : x < v + size := by
      have := hin.2
      omega
    refine ⟨_, hi, by omega, by omega, hfree x hlo hxlt, ?_⟩
    rw [← frame_congr (word_congr k' hbase)]
    exact hc.frame_mapped hk hne hi (hfree _ (by omega) (by omega))
  -- frames that were not Free keep what they were, or become Used
  have hold : ∀ f < k.physicalMemoryState.highestAddress, physState k f ≠ .free →
      physState k' f ≠ .free ∧ (physState k f = .reserved → physState k' f = .reserved) := by
    intro f hf hstate
    have htag : tagged (physState k) p (physicalEnd p size) .used f = physState k f :=
      tagged_used_of_ne_free fun _ _ => hstate
    have heq := physState_of_called hc hk hf (by rw [hm, htag]; exact hstate)
    rw [hm, htag] at heq
    rw [heq]
    exact ⟨hstate, id⟩
  have hframe : ∀ x, own x → ¬InPages v (callTurns v size) x → frame k' x = frame k x :=
    fun x hx hout => (frame_of_called hc hk hlt (h.virt x hx).1 (h.virt x hx).2 hout).1
  -- a frame of an old page that the call takes has to be Reserved
  have hshared : ∀ x y f, own x → ¬InPages v (callTurns v size) x →
      InPages v (callTurns v size) y → frame k' x = some f → frame k' y = some f →
        physState k' f = .reserved := by
    intro x y f hx hout hin hfx hfy
    rw [hframe x hx hout] at hfx
    obtain ⟨i, hi, -, -, -, hfi⟩ := hnew y hin
    obtain rfl : f = p + 4096 * i := Option.some.inj (hfy.symm.trans hfi)
    obtain ⟨hlt', hstate⟩ := h.phys x _ hx hfx
    obtain ⟨hsize, -⟩ := hc.bounds (by omega)
    refine (hold _ hlt' hstate).2 ?_
    cases hs : physState k (p + 4096 * i) with
    | free => exact absurd hs hstate
    | used => exact absurd hs (hunused _ (by omega) (by omega))
    | reserved => rfl
  refine ⟨fun x hx => ?_, fun x f hx hfx => ?_, fun x y f hx hy hfx hfy => ?_⟩
  · by_cases hin : InPages v (callTurns v size) x
    · obtain ⟨i, -, -, hlt', hstate, -⟩ := hnew x hin
      exact ⟨hlt', by rwa [hc.mapped.env.virt_of_ne_free hlt' hstate]⟩
    · obtain ⟨hlt', hstate⟩ := h.virt x (hx.resolve_right hin)
      exact ⟨hlt', (frame_of_called hc hk hlt hlt' hstate hin).2⟩
  · rw [hc.highest_eq hk]
    by_cases hin : InPages v (callTurns v size) x
    · obtain ⟨i, hi, -, -, -, hfi⟩ := hnew x hin
      obtain rfl : f = p + 4096 * i := Option.some.inj (hfx.symm.trans hfi)
      exact phys_of_inPages hc hk hm hi
    · have hown := hx.resolve_right hin
      rw [hframe x hown hin] at hfx
      obtain ⟨hlt', hstate⟩ := h.phys x f hown hfx
      exact ⟨hlt', (hold f hlt' hstate).1⟩
  · by_cases hinx : InPages v (callTurns v size) x
    · by_cases hiny : InPages v (callTurns v size) y
      · obtain ⟨i, -, hxi, -, -, hfi⟩ := hnew x hinx
        obtain ⟨j, -, hyj, -, -, hfj⟩ := hnew y hiny
        have hij : p + 4096 * i = p + 4096 * j :=
          Option.some.inj ((hfi.symm.trans hfx).trans (hfy.symm.trans hfj))
        exact Or.inr (by omega)
      · exact Or.inl (hshared y x f (hy.resolve_right hiny) hiny hinx hfy hfx)
    · have hownx := hx.resolve_right hinx
      by_cases hiny : InPages v (callTurns v size) y
      · exact Or.inl (hshared x y f hownx hinx hiny hfx hfy)
      · have howny := hy.resolve_right hiny
        rw [hframe x hownx hinx] at hfx
        rw [hframe y howny hiny] at hfy
        obtain ⟨hlt', hstate⟩ := h.phys x f hownx hfx
        exact (h.alone x y f hownx howny hfx hfy).imp (hold f hlt' hstate).2 id

/-- A call that frees pages keeps the others when every Used frame that it frees belongs to
one of its pages. -/
theorem Keeps.free (h : Keeps k own) (hk : Ok k) (hlt : size < 2 ^ 64)
    (hc : Called True m v p size k kt k') (hown : ∀ x, InPages v (callTurns v size) x → own x)
    (hframes : ∀ f, Aligned f → p ≤ f → f < physicalEnd p size → physState k f = .used →
      ∃ y, InPages v (callTurns v size) y ∧ frame k y = some f) :
    Keeps k' fun x => own x ∧ ¬InPages v (callTurns v size) x := by
  have hframe : ∀ x, own x → ¬InPages v (callTurns v size) x → frame k' x = frame k x :=
    fun x hx hout => (frame_of_called hc hk hlt (h.virt x hx).1 (h.virt x hx).2 hout).1
  have hvmod := hc.virtual_page.mod
  -- the frames of the other pages are not among those that are freed
  have hstays : ∀ x f, own x → ¬InPages v (callTurns v size) x → frame k x = some f →
      physState k' f = physState k f := by
    intro x f hx hout hfx
    obtain ⟨hlt', hstate⟩ := h.phys x f hx hfx
    have htag : tagged (physState k) p (physicalEnd p size) m.newState f = physState k f := by
      unfold tagged
      split_ifs with hcond
      · obtain ⟨hlo, hhi, hreserved⟩ := hcond
        have hused : physState k f = .used := by
          cases hs : physState k f with
          | free => exact absurd hs hstate
          | used => rfl
          | reserved => exact absurd hs hreserved
        obtain ⟨y, hin, hfy⟩ := hframes f (frame_eq_some hfx).1 hlo hhi hused
        rcases h.alone x y f hx (hown y hin) hfx hfy with hres | hpage
        · exact absurd hres hreserved
        · exact absurd ⟨by have := hin.1; omega, by have := hin.2; omega⟩ hout
      · rfl
    rw [physState_of_called hc hk hlt' (by rw [htag]; exact hstate), htag]
  refine ⟨fun x hx => ?_, fun x f hx hfx => ?_, fun x y f hx hy hfx hfy => ?_⟩
  · obtain ⟨hlt', hstate⟩ := h.virt x hx.1
    exact ⟨hlt', (frame_of_called hc hk hlt hlt' hstate hx.2).2⟩
  · rw [hframe x hx.1 hx.2] at hfx
    rw [hc.highest_eq hk, hstays x f hx.1 hx.2 hfx]
    exact h.phys x f hx.1 hfx
  · rw [hframe x hx.1 hx.2] at hfx
    rw [hframe y hy.1 hy.2] at hfy
    rw [hstays x f hx.1 hx.2 hfx]
    exact h.alone x y f hx.1 hy.1 hfx hfy

end Steps

/-- No frame from the one that the search returns on is Used. A search that fails returns
frame 0. -/
def FramesUnused (k : KernelMemory) (size : ℕ) : Prop :=
  ∀ p, k.physicalMemoryState.findMinimumSizeFreeBlock size = .ok p →
    ∀ x, p ≤ x → x < p + size → physState k x ≠ .used

/-- The pages of the block map the frames from that of the first page on, in any order. -/
def FramesTogether (k : KernelMemory) (b : Block) : Prop :=
  (Finset.range (b.size / 4096)).image (fun i => k.getPhysicalAddress (b.address + 4096 * i) true) =
    (Finset.range (b.size / 4096)).image fun i => k.getPhysicalAddress b.address true + 4096 * i

/-- Of the frames in use, exactly those become Free that the pages of the block map, except
that Reserved ones stay Reserved. -/
def ReleasesExactly (k k' : KernelMemory) (b : Block) : Prop :=
  ∀ f < k.physicalMemoryState.highestAddress, Aligned f →
    ((physState k f ≠ .free ∧ physState k' f = .free) ↔
      physState k f ≠ .reserved ∧
        ∃ i < b.size / 4096, k.getPhysicalAddress (b.address + 4096 * i) true = f)

/-- The runs of VirtualAlloc, of sys_memory_map for given addresses and of VirtualFree of
whole blocks, with the list of the live blocks. -/
inductive UserRun (checked : Prop) (k0 : KernelMemory) : KernelMemory → List Block → Prop
  | start : UserRun checked k0 k0 []
  | alloc {k k' : KernelMemory} {live : List Block} {depth size address : ℕ}
      {privilegeLevel : PrivilegeLevel} {pageFlags : PageFlags} (h : UserRun checked k0 k live)
      (hlt : size < 2 ^ 64)
      (hrun : k.virtualAlloc depth size privilegeLevel pageFlags = .ok (address, k')) :
      UserRun checked k0 k' (if address = 0 then live else ⟨address, size⟩ :: live)
  | map {k k' : KernelMemory} {live : List Block} {depth address length prot flags offset r : ℕ}
      {volumes : Volumes} {fd : ℤ} (h : UserRun checked k0 k live) (haddress : address ≠ 0)
      (hunused : checked → FramesUnused k (alignSize length pageSize))
      (hrun : sysMemoryMap depth volumes address length prot flags fd offset k = .ok (r, k')) :
      UserRun checked k0 k' live
  | free {k k' : KernelMemory} {live : List Block} {depth : ℕ} {b : Block}
      (h : UserRun checked k0 k live) (hmem : b ∈ live)
      (htogether : checked → FramesTogether k b)
      (hrun : k.virtualFree depth b.address b.size = .ok k') :
      UserRun checked k0 k' (live.erase b)

/-- The invariant of the runs whose steps are checked. -/
structure RunInv (k : KernelMemory) (live : List Block) : Prop where
  running : Running k
  page : ∀ b ∈ live, PageAddress b.address ∧ b.size % 4096 = 0 ∧ b.address + b.size ≤ pageMask
  apart : live.Pairwise fun b c => ∀ x, ¬(b.Holds x ∧ c.Holds x)
  keeps : Keeps k (pagesOf live)

section Runs
variable {k0 k k' : KernelMemory} {live : List Block} {b : Block} {depth size address : ℕ}

theorem inPages_of_block (hpage : PageAddress b.address) (hmod : b.size % 4096 = 0)
    (hend : b.address + b.size ≤ pageMask) {x : ℕ} :
    InPages b.address (callTurns b.address b.size) x ↔ b.Holds x := by
  unfold pageMask at hend
  rw [inPages_callTurns hpage hmod (by omega), add64_of_lt (by omega)]
  rfl

/-- The pages of the list without a block. -/
theorem RunInv.pagesOf_erase (h : RunInv k live) (hmem : b ∈ live) {x : ℕ}
    (hx : pagesOf (live.erase b) x) :
    pagesOf live x ∧ ¬b.Holds x := by
  obtain ⟨c, hc, hin⟩ := hx
  have hpair : (b :: live.erase b).Pairwise fun b c => ∀ x, ¬(b.Holds x ∧ c.Holds x) :=
    (List.perm_cons_erase hmem).pairwise h.apart fun h x hx => h x hx.symm
  exact ⟨⟨c, List.mem_of_mem_erase hc, hin⟩,
    fun hb => List.rel_of_pairwise_cons hpair hc x ⟨hb, hin⟩⟩

theorem RunInv.alloc (h : RunInv k live) (hlt : size < 2 ^ 64)
    {privilegeLevel : PrivilegeLevel} {pageFlags : PageFlags}
    (hrun : k.virtualAlloc depth size privilegeLevel pageFlags = .ok (address, k')) :
    RunInv k' (if address = 0 then live else ⟨address, size⟩ :: live) := by
  have hk := h.running.ok
  obtain ⟨hk', hcase⟩ := (virtualAllocWith_meets (getPML4FreePage_spec depth) hk hlt
    privilegeLevel pageFlags).of_eq_ok hrun
  rcases hcase with ⟨-, hsame⟩ | ⟨hp, hv, kt, hc⟩
  · obtain ⟨rfl, rfl⟩ := Prod.mk.inj hsame
    exact h
  have hfree := (firstFit_spec hk.physical rfl hp).2.2.2.2
  have hkeeps := h.keeps.map hk rfl hlt hc fun x hlo hhi => by
    have hstate : physState k x = .free := hfree x hlo (Or.inl hhi)
    rw [hstate]
    decide
  have hrunning := h.running.of_called hk' hlt hc
  split_ifs with hzero
  · exact ⟨hrunning, h.page, h.apart, hkeeps.mono fun x hx => Or.inl hx⟩
  have hf : Found k address _ size := ⟨hv.symm, rfl, hzero, hp⟩
  have hend := hf.virt_le hk
  have hpage : PageAddress (Block.mk address size).address ∧
      (Block.mk address size).size % 4096 = 0 ∧
        (Block.mk address size).address + (Block.mk address size).size ≤ pageMask :=
    ⟨hc.virtual_page, hc.size_mod, hend⟩
  refine ⟨hrunning, ?_, List.pairwise_cons.mpr ⟨fun c hmem x hx => ?_, h.apart⟩,
    hkeeps.mono ?_⟩
  · rintro c (_ | ⟨_, hmem⟩)
    · exact hpage
    · exact h.page c hmem
  · exact (h.keeps.virt x ⟨c, hmem, hx.2⟩).2 (hf.virt_free hk hx.1.1 hx.1.2)
  · rintro x ⟨c, (_ | ⟨_, hmem⟩), hin⟩
    · exact Or.inr ((inPages_of_block hpage.1 hpage.2.1 hpage.2.2).mpr hin)
    · exact Or.inl ⟨c, hmem, hin⟩

theorem RunInv.map (h : RunInv k live) {length prot flags offset r : ℕ} {volumes : Volumes}
    {fd : ℤ} (haddress : address ≠ 0) (hunused : FramesUnused k (alignSize length pageSize))
    (hrun : sysMemoryMap depth volumes address length prot flags fd offset k = .ok (r, k')) :
    RunInv k' live := by
  have hk := h.running.ok
  have hlt := alignSize_lt length
  rcases sysMemoryMap_eq_ok hrun with ⟨-, -, -, rfl⟩ | ⟨-, -, -, p, hp, hmap⟩ | ⟨hzero, -⟩ |
    ⟨hzero, -⟩
  · exact h
  · obtain ⟨hk', kt, hc⟩ := mapPages_eq_ok hk hlt hmap
    have hkeeps := h.keeps.map hk rfl hlt hc (hunused p hp)
    exact ⟨h.running.of_called hk' hlt hc, h.page, h.apart, hkeeps.mono fun x hx => Or.inl hx⟩
  · exact absurd hzero haddress
  · exact absurd hzero haddress

/-- The translations of the pages of a block that maps its frames together. -/
theorem FramesTogether.exists_page (h : FramesTogether k b) {i : ℕ} (hi : i < b.size / 4096) :
    ∃ j < b.size / 4096, k.getPhysicalAddress (b.address + 4096 * j) true =
      k.getPhysicalAddress b.address true + 4096 * i := by
  have hmem := Finset.mem_image_of_mem
    (fun i => k.getPhysicalAddress b.address true + 4096 * i) (Finset.mem_range.mpr hi)
  rw [← h] at hmem
  obtain ⟨j, hj, heq⟩ := Finset.mem_image.mp hmem
  exact ⟨j, Finset.mem_range.mp hj, heq⟩

theorem FramesTogether.exists_frame (h : FramesTogether k b) {j : ℕ} (hj : j < b.size / 4096) :
    ∃ i < b.size / 4096, k.getPhysicalAddress (b.address + 4096 * j) true =
      k.getPhysicalAddress b.address true + 4096 * i := by
  have hmem := Finset.mem_image_of_mem
    (fun i => k.getPhysicalAddress (b.address + 4096 * i) true) (Finset.mem_range.mpr hj)
  rw [h] at hmem
  obtain ⟨i, hi, heq⟩ := Finset.mem_image.mp hmem
  exact ⟨i, Finset.mem_range.mp hi, heq.symm⟩

/-- A translation that is the address of a page is the frame of its page. -/
theorem frame_of_translation (hk : Running k) {x f : ℕ} (hx : Aligned x) (hf : f < 2 ^ 52)
    (h : k.getPhysicalAddress x true = f) : frame k x = some f := by
  rw [getPhysicalAddress_live hk.ok hk.cr3] at h
  exact (getPhysicalAddress_eq_iff hk.ok.tables hx hf).mp h

/-- What VirtualFree frees, from the translation of the first page on. -/
theorem physicalEnd_of_called {refill : Prop} {m : Mapping} {p : ℕ} {kt : KernelMemory}
    (hk : Ok k) (hmod : b.size % 4096 = 0) (hend : b.address + b.size ≤ pageMask)
    (hc : Called refill m b.address p b.size k kt k') : physicalEnd p b.size = p + b.size := by
  have hH := hk.physical.lt
  have hp := hc.physical_page.lt
  unfold pageMask at hend
  have hturns := callTurns_of_lt hc.virtual_page hmod (by omega)
  by_cases hpos : 0 < callTurns b.address b.size
  · obtain ⟨-, -, hle⟩ := hc.bounds hpos
    exact physicalEnd_of_lt hc.physical_page hmod (by omega)
  · exact physicalEnd_of_lt hc.physical_page hmod (by omega)

theorem RunInv.free (h : RunInv k live) (hmem : b ∈ live) (htogether : FramesTogether k b)
    (hrun : k.virtualFree depth b.address b.size = .ok k') : RunInv k' (live.erase b) := by
  have hk := h.running.ok
  obtain ⟨hpage, hmod, hend⟩ := h.page b hmem
  have hlt : b.size < 2 ^ 64 := by
    unfold pageMask at hend
    omega
  obtain ⟨hk', kt, hc⟩ := mapPages_eq_ok hk hlt hrun
  have hamod := hpage.mod
  have hpmod := hc.physical_page.mod
  have hplt := hc.physical_page.lt
  have hkeeps := h.keeps.free hk hlt hc
    (fun x hx => ⟨b, hmem, (inPages_of_block hpage hmod hend).mp hx⟩)
    fun f halign hlo hhi _ => by
      rw [physicalEnd_of_called hk hmod hend hc] at hhi
      unfold Aligned at halign
      obtain ⟨j, hj, hphys⟩ := htogether.exists_page
        (i := (f - k.getPhysicalAddress b.address true) / 4096) (by omega)
      refine ⟨b.address + 4096 * j,
        (inPages_of_block hpage hmod hend).mpr ⟨by omega, by omega⟩, ?_⟩
      unfold pageMask at hend
      exact frame_of_translation h.running (by unfold Aligned; omega) (by omega)
        (hphys.trans (by omega))
  refine ⟨h.running.of_called hk' hlt hc, fun c hc => h.page c (List.mem_of_mem_erase hc),
    h.apart.sublist List.erase_sublist, hkeeps.mono fun x hx => ?_⟩
  obtain ⟨hlive, hout⟩ := h.pagesOf_erase hmem hx
  exact ⟨hlive, fun hin => hout ((inPages_of_block hpage hmod hend).mp hin)⟩

theorem UserRun.reachable {checked : Prop} (hk0 : Reachable k0)
    (h : UserRun checked k0 k live) : Reachable k ∧ ∀ b ∈ live, b.size < 2 ^ 64 := by
  induction h with
  | start => exact ⟨hk0, fun b hb => absurd hb List.not_mem_nil⟩
  | alloc h hlt hrun ih =>
    constructor
    · rcases virtualAlloc_eq_ok hrun with rfl | ⟨p, hmap⟩
      · exact ih.1
      · exact .map ih.1 hlt hmap
    · split_ifs
      · exact ih.2
      · exact List.forall_mem_cons.mpr ⟨hlt, ih.2⟩
  | map h haddress hunused hrun ih =>
    rcases sysMemoryMap_eq_ok hrun with ⟨-, -, -, rfl⟩ | ⟨-, -, -, p, -, hmap⟩ | ⟨hzero, -⟩ |
      ⟨hzero, -⟩
    · exact ih
    · exact ⟨.map ih.1 (alignSize_lt _) hmap, ih.2⟩
    · exact absurd hzero haddress
    · exact absurd hzero haddress
  | free h hmem htogether hrun ih =>
    exact ⟨.map ih.1 (ih.2 _ hmem) hrun, fun b hb => ih.2 b (List.mem_of_mem_erase hb)⟩

theorem UserRun.inv (hk0 : Reachable k0) (h : UserRun True k0 k live) : RunInv k live := by
  induction h with
  | start =>
    have hnone : ∀ x, ¬pagesOf [] x := by
      rintro x ⟨b, hb, -⟩
      exact absurd hb List.not_mem_nil
    exact ⟨hk0.running, fun b hb => absurd hb List.not_mem_nil, List.Pairwise.nil,
      fun x hx => absurd hx (hnone x), fun x f hx => absurd hx (hnone x),
      fun x y f hx => absurd hx (hnone x)⟩
  | alloc h hlt hrun ih => exact ih.alloc hlt hrun
  | map h haddress hunused hrun ih => exact ih.map haddress (hunused trivial) hrun
  | free h hmem htogether hrun ih => exact ih.free hmem (htogether trivial) hrun

/-- A block that maps its frames together is released with them. -/
theorem RunInv.releases (h : RunInv k live) (hmem : b ∈ live) (htogether : FramesTogether k b)
    (hrun : k.virtualFree depth b.address b.size = .ok k') : ReleasesExactly k k' b := by
  have hk := h.running.ok
  have hH := hk.physical.lt
  obtain ⟨hpage, hmod, hend⟩ := h.page b hmem
  have hamod := hpage.mod
  have hlt : b.size < 2 ^ 48 := by
    unfold pageMask at hend
    omega
  obtain ⟨-, kt, hc⟩ := mapPages_eq_ok hk (by omega) hrun
  have hpmod := hc.physical_page.mod
  have hplt := hc.physical_page.lt
  have hturns := callTurns_of_lt hpage hmod (by unfold pageMask at hend; omega)
  -- the pages are mapped, so that no list is refilled
  have hframe : ∀ j < b.size / 4096, ∃ i < b.size / 4096, frame k (b.address + 4096 * j) =
      some (k.getPhysicalAddress b.address true + 4096 * i) := by
    intro j hj
    obtain ⟨i, hi, hphys⟩ := htogether.exists_frame hj
    exact ⟨i, hi, frame_of_translation h.running (by unfold Aligned; omega) (by omega) hphys⟩
  have hpresent : TablesPresent k b.address b.size := fun j hj => tableAt_of_frame (by
    obtain ⟨i, -, hf⟩ := hframe j (by omega)
    rw [hf]
    simp)
  obtain ⟨-, -, -, kt, hc⟩ :=
    (mapPages_enough_meets depth hk (by omega) hpresent.enough).of_eq_ok hrun
  intro f hf halign
  rw [hc.physState_quiet, hc.phys_tagged hk hf, physicalEnd_of_called hk hmod hend hc]
  unfold tagged
  unfold Aligned at halign
  constructor
  · rintro ⟨hne, hfree⟩
    split_ifs at hfree with hcond
    · obtain ⟨hlo, hhi, hreserved⟩ := hcond
      obtain ⟨j, hj, hphys⟩ := htogether.exists_page
        (i := (f - k.getPhysicalAddress b.address true) / 4096) (by omega)
      exact ⟨hreserved, j, hj, hphys.trans (by omega)⟩
    · exact absurd hfree hne
  · rintro ⟨hreserved, j, hj, hphys⟩
    obtain ⟨i, hi, hfi⟩ := hframe j hj
    have hfj := frame_of_translation h.running (by unfold Aligned; omega) (by omega) hphys
    obtain rfl : f = k.getPhysicalAddress b.address true + 4096 * i :=
      Option.some.inj (hfj.symm.trans hfi)
    rw [if_pos ⟨by omega, by omega, hreserved⟩]
    exact ⟨(h.keeps.phys _ _ ⟨b, hmem, by omega, by omega⟩ hfi).2, rfl⟩

end Runs

/-- A frame that a page of a live block maps is not Free. -/
def FramesKept (k : KernelMemory) (live : List Block) : Prop :=
  ∀ x, pagesOf live x → k.getPhysicalAddress x true ≠ invalidAddress →
    physState k (k.getPhysicalAddress x true) ≠ .free

theorem RunInv.framesKept {k : KernelMemory} {live : List Block} (h : RunInv k live) :
    FramesKept k live := by
  intro x hx hmapped
  have hk := h.running.ok
  rw [getPhysicalAddress_live hk h.running.cr3, getPhysicalAddress_ne_invalid hk.tables] at hmapped
  obtain ⟨f, hf⟩ := Option.ne_none_iff_exists'.mp hmapped
  have hpage := (frame_eq_some hf).1
  unfold Aligned at hpage
  rw [getPhysicalAddress_live hk h.running.cr3, getPhysicalAddress_eq_frame hk.tables, hf,
    Option.elim_some]
  have hsame : physState k (f + x % 4096) = physState k f :=
    getPageStateInternal_page hk.physical.wellFormed (by omega)
  rw [hsame]
  exact (h.keeps.phys x f hx hf).2

/-- In every run in which VirtualFree is given blocks that map their frames together and
sys_memory_map takes no frame in use, the frames of the live blocks are not Free, and
VirtualFree of such a block releases exactly its frames. -/
theorem live_frames_kept {k0 k : KernelMemory} {live : List Block} (hk0 : Reachable k0)
    (hrun : UserRun True k0 k live) :
    FramesKept k live ∧ ∀ b ∈ live, FramesTogether k b → ∀ depth k',
      k.virtualFree depth b.address b.size = .ok k' → ReleasesExactly k k' b :=
  ⟨(hrun.inv hk0).framesKept, fun _ hmem htogether _ _ hfree =>
    (hrun.inv hk0).releases hmem htogether hfree⟩

section Example

def volumes : Volumes := ⟨fun _ => false, 0⟩

/-- On the machine with 16 pages above the gap: a block of two pages is allocated, its first
page is given another frame, one more page is allocated, and the first block is freed. -/
def sharedTrees : Except Fault (ℕ × ℕ × ℕ × ℕ × ℕ) := do
  let trees ← machineTrees 16
  let (v, p, physical, virt) ← allocTrees 0x2000 trees
  let (q, physical, virt) ← fixedTrees v 0x1000 (physical, virt)
  let (w, r, physical, virt) ← allocTrees 0x1000 (physical, virt)
  let _ ← physical.tagRange q (q + 0x2000) .free
  let _ ← virt.tagRange v (v + 0x2000) .free
  return (v, p, q, w, r)

/-- The states of the trees on the way. -/
theorem sharedTrees_eq : ∃ k0 physical virt physical2 virt2 physical3 virt3 physical4 virt4,
    MachineRunning 16 (by decide) k0 ∧
    allocTrees 0x2000 (k0.physicalMemoryState, k0.virtualMemoryState) =
      .ok (0x40000000, 0x40200000, physical, virt) ∧
    fixedTrees 0x40000000 0x1000 (physical, virt) = .ok (0x40202000, physical2, virt2) ∧
    allocTrees 0x1000 (physical2, virt2) = .ok (0x40002000, 0x40203000, physical3, virt3) ∧
    physical3.tagRange 0x40202000 0x40204000 .free = .ok physical4 ∧
    virt3.tagRange 0x40000000 0x40002000 .free = .ok virt4 := by
  have htrees : sharedTrees =
      .ok (0x40000000, 0x40200000, 0x40202000, 0x40002000, 0x40203000) := by decide +kernel
  unfold sharedTrees at htrees
  obtain ⟨k0, hm, htrees⟩ := exists_machineRunning_of_bind 16 (by decide) htrees
  obtain ⟨⟨v, p, physical, virt⟩, h1, htrees⟩ := bind_eq_ok.mp htrees
  obtain ⟨⟨q, physical2, virt2⟩, h2, htrees⟩ := bind_eq_ok.mp htrees
  obtain ⟨⟨w, r, physical3, virt3⟩, h3, htrees⟩ := bind_eq_ok.mp htrees
  obtain ⟨physical4, h4, htrees⟩ := bind_eq_ok.mp htrees
  obtain ⟨virt4, h5, htrees⟩ := bind_eq_ok.mp htrees
  cases htrees
  exact ⟨k0, _, _, _, _, _, _, _, _, hm, h1, h2, h3, h4, h5⟩

/-- The block of two pages on that machine. -/
structure TwoPages (k0 k : KernelMemory) : Prop where
  start : Reachable k0
  run : ∀ checked, UserRun checked k0 k [⟨0x40000000, 0x2000⟩]
  frame : ∀ i, 4096 * i < 0x2000 →
    Paging.frame k (0x40000000 + 4096 * i) = some (0x40200000 + 4096 * i)
  not_paging : ∀ x, 0x40000000 ≤ x → x < 0x40002000 → k.isPagingPage x = false

theorem TwoPages.running {k0 k : KernelMemory} (h : TwoPages k0 k) : Running k :=
  ((h.run False).reachable h.start).1.running

theorem exists_twoPages {k0 : KernelMemory} {physical virt : MemoryState}
    (hm : MachineRunning 16 (by decide) k0)
    (htrees : allocTrees 0x2000 (k0.physicalMemoryState, k0.virtualMemoryState) =
      .ok (0x40000000, 0x40200000, physical, virt)) :
    ∃ k, TwoPages k0 k ∧ k.physicalMemoryState = physical ∧ k.virtualMemoryState = virt := by
  have hk := hm.reachable.running
  obtain ⟨k, halloc, hk', hf, -, -, hc⟩ := virtualAlloc_enough_ok 0 hk.ok (by decide) htrees
    (by decide) (by decide) (hm.missing_le (by decide)) .user pageFlagsNone
  exact ⟨k,
    { start := hm.reachable
      run := fun checked => .alloc (.start : UserRun checked k0 k0 []) (by decide) halloc
      frame := fun i hi => hc.frame_found hk.ok hf rfl hi
      not_paging := fun x hlo hhi => not_isPagingPage_found hk.ok hk.pml4Set hf hc rfl hlo hhi },
    hc.trees_quiet⟩

theorem live_frames_kept_two : ∃ k0 k, Reachable k0 ∧
    UserRun True k0 k [⟨0x40000000, 0x2000⟩] ∧
    FramesKept k [⟨0x40000000, 0x2000⟩] ∧ ∀ b ∈ [Block.mk 0x40000000 0x2000],
      FramesTogether k b → ∀ depth k',
        k.virtualFree depth b.address b.size = .ok k' → ReleasesExactly k k' b := by
  obtain ⟨k0, physical, virt, -, -, -, -, -, -, hm, h1, -⟩ := sharedTrees_eq
  obtain ⟨k, hk, -⟩ := exists_twoPages hm h1
  exact ⟨k0, k, hk.start, hk.run True, live_frames_kept hk.start (hk.run True)⟩

/-- The second block beside the first, whose first page maps the frame before. -/
structure SecondBlock (k0 k : KernelMemory) : Prop where
  start : Reachable k0
  run : UserRun False k0 k [⟨0x40002000, 0x1000⟩, ⟨0x40000000, 0x2000⟩]
  first : Paging.frame k 0x40000000 = some 0x40202000
  second : Paging.frame k 0x40001000 = some 0x40201000
  last : Paging.frame k 0x40002000 = some 0x40203000
  not_paging : ∀ x, 0x40000000 ≤ x → x < 0x40002000 → k.isPagingPage x = false
  used : 0x40203000 < k.physicalMemoryState.highestAddress ∧ physState k 0x40203000 = .used
  frees : (∃ physical, k.physicalMemoryState.tagRange 0x40202000 0x40204000 .free = .ok physical) ∧
    ∃ virt, k.virtualMemoryState.tagRange 0x40000000 0x40002000 .free = .ok virt

theorem exists_secondBlock : ∃ k0 k, SecondBlock k0 k := by
  obtain ⟨k0, physical, virt, physical2, virt2, physical3, virt3, physical4, virt4, hm, h1, h2,
    h3, h4, h5⟩ := sharedTrees_eq
  obtain ⟨k1, hk1, hp1, hv1⟩ := exists_twoPages hm h1
  have hrun1 := hk1.run False
  -- the first page of the block gets another frame
  have hsize : alignSize 0x1000 pageSize = 0x1000 := by decide
  obtain ⟨k2, hmap, hok2, hc2⟩ := sysMemoryMap_fixed_ok hk1.running 0x40000000 0x1000
    ⟨by decide, by decide⟩ (by decide) (by decide) (by decide) (fun x hlo hhi => by
      rw [hsize] at hhi
      refine ⟨?_, hk1.not_paging x hlo (by omega)⟩
      have hpage : (0x40000000 + 4096 * 0) / 4096 = x / 4096 := by omega
      rw [← frame_congr (word_congr k1 hpage), hk1.frame 0 (by decide)]
      simp) (by rw [hsize, hp1, hv1]; exact h2) ⟨by decide, by decide⟩ (by decide) 0 volumes 0 0
    (-1) 0
  rw [hsize] at hc2
  have hrun2 : UserRun False k0 k2 _ := .map hrun1 (by decide) (fun h => h.elim) hmap
  have hk2 := (hrun2.reachable hk1.start).1.running
  have hfirst2 : frame k2 0x40000000 = some 0x40202000 := by
    have hstate : virtState (withTrees k1 physical2 virt2) (0x40000000 + 4096 * 0) ≠ .free :=
      hc2.tagged_ne_free hk1.running.ok (by decide) (by decide) (by decide) (by decide)
    exact hc2.frame_mapped hk1.running.ok (by decide) (i := 0) (by decide) hstate
  have hsecond2 : frame k2 0x40001000 = some 0x40201000 :=
    (frame_congr (hc2.word_outside (by decide) (by decide) (by decide))).trans
      (hk1.frame 1 (by decide))
  -- one more page is allocated
  obtain ⟨hp2, hv2⟩ := hc2.trees_quiet
  have htree : tableAt k2 (path 0x40000000) ≠ none := tableAt_of_frame (by rw [hfirst2]; simp)
  have hpresent2 : TablesPresent k2 0x40002000 0x1000 := by
    intro i hi
    have hturns : callTurns 0x40002000 0x1000 = 1 := by decide
    obtain rfl : i = 0 := by omega
    exact htree
  obtain ⟨k3, halloc, hok3, hf, -, -, hc3⟩ := virtualAlloc_enough_ok 0 hk2.ok (by decide)
    (by rw [hp2, hv2]; exact h3) (by decide) (by decide) hpresent2.enough .user pageFlagsNone
  have hrun3 : UserRun False k0 k3 [⟨0x40002000, 0x1000⟩, ⟨0x40000000, 0x2000⟩] :=
    .alloc hrun2 (by decide) halloc
  obtain ⟨hp3, hv3⟩ := hc3.trees_quiet
  have hle : 0x40203000 < k2.physicalMemoryState.highestAddress := by
    have := hf.phys_le hk2.ok
    omega
  exact ⟨k0, k3,
    { start := hk1.start
      run := hrun3
      first :=
        (frame_congr (hc3.word_outside (by decide) (by decide) (by decide))).trans hfirst2
      second :=
        (frame_congr (hc3.word_outside (by decide) (by decide) (by decide))).trans hsecond2
      last := hc3.frame_found hk2.ok hf rfl (i := 0) (by decide)
      not_paging := fun x hlo hhi => by
        rw [hc3.paging_quiet.2, hc2.paging_quiet.2]
        exact hk1.not_paging x hlo hhi
      used := by
        rw [hc3.highest_eq hk2.ok, hc3.physState_quiet, hc3.phys_found hk2.ok hf rfl hle,
          if_pos (by decide)]
        exact ⟨hle, rfl⟩
      frees := ⟨⟨physical4, by rw [hp3]; exact h4⟩, virt4, by rw [hv3]; exact h5⟩ }⟩

/-- After the first block is freed, from the frame of its first page on, the frame of the
second block is Free. -/
theorem live_frame_freed : ∃ k0 k, Reachable k0 ∧
    UserRun False k0 k [⟨0x40002000, 0x1000⟩] ∧ ¬FramesKept k [⟨0x40002000, 0x1000⟩] := by
  obtain ⟨k0, k, h⟩ := exists_secondBlock
  have hk := (h.run.reachable h.start).1.running
  have hphys : k.getPhysicalAddress 0x40000000 true = 0x40202000 := by
    rw [getPhysicalAddress_live hk.ok hk.cr3]
    exact (getPhysicalAddress_eq_iff hk.ok.tables (by decide) (by decide)).mpr h.first
  have hturns : callTurns 0x40000000 0x2000 = 2 := by decide
  have hpresent : TablesPresent k 0x40000000 0x2000 := by
    intro i hi
    apply tableAt_of_frame
    obtain rfl | rfl : i = 0 ∨ i = 1 := by omega
    · rw [Nat.mul_zero, Nat.add_zero, h.first]
      simp
    · rw [Nat.mul_one, h.second]
      simp
  obtain ⟨⟨physical, hphysical⟩, virt, hvirt⟩ := h.frees
  have hkeeps : ∀ i < callTurns 0x40000000 0x2000,
      k.keepsPagingPage freeMapping (0x40000000 + 4096 * i) (0x40202000 + 4096 * i) := by
    intro i hi _ hpaging
    rw [h.not_paging _ (by omega) (by omega)] at hpaging
    cases hpaging
  obtain ⟨k', hunmap, -, -, -, hc⟩ := mapPages_enough_ok 0 hk.ok ⟨by decide, by decide⟩
    ⟨by decide, by decide⟩ (by decide) (by decide) hkeeps hphysical hvirt hpresent.enough
  rw [← hphys] at hunmap
  have herase : [Block.mk 0x40002000 0x1000, ⟨0x40000000, 0x2000⟩].erase ⟨0x40000000, 0x2000⟩ =
      [⟨0x40002000, 0x1000⟩] := by decide
  have hrun := UserRun.free h.run (b := ⟨0x40000000, 0x2000⟩) (by simp) (fun h => h.elim) hunmap
  rw [herase] at hrun
  have hk' := (hrun.reachable h.start).1.running
  refine ⟨k0, k', h.start, hrun, fun hkept => ?_⟩
  have hlast : frame k' 0x40002000 = some 0x40203000 :=
    (frame_congr (hc.word_outside (by decide) (by decide) (by decide))).trans h.last
  have hphys' : k'.getPhysicalAddress 0x40002000 true = 0x40203000 := by
    rw [getPhysicalAddress_live hk'.ok hk'.cr3]
    exact (getPhysicalAddress_eq_iff hk'.ok.tables (by decide) (by decide)).mpr hlast
  have hfree : physState k' 0x40203000 = .free := by
    rw [hc.physState_quiet, hc.phys_tagged hk.ok h.used.1]
    unfold tagged
    rw [if_pos ⟨by decide, by decide, by rw [h.used.2]; decide⟩]
    rfl
  refine hkept 0x40002000 ⟨_, List.mem_cons_self, by decide, by decide⟩ ?_ ?_
  · rw [hphys']
    decide
  · rw [hphys']
    exact hfree

end Example

end Enkel.LiveFrames
