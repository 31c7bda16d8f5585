import Enkel.MapPages

/-!
The allocator and the refill of the list of free pages. A refill links the
reserve block, allocates the next one through VirtualAlloc and MapPages, which
may take pages from the list themselves, and lets rpmalloc map memory for the
node pools. By induction on the depth of nested refills every page source keeps
the invariant and changes Free pages only.
-/
namespace Enkel.Paging

open Outcome MemoryState KernelMemory

section Alloc
variable {refill : Prop} {k kt k' : KernelMemory} {m : Mapping} {v p size : ℕ}

theorem Called.virt_tagged (h : Called refill m v p size k kt k') (hk : Ok k) {x : ℕ}
    (hx : x < pageMask) :
    virtState kt x = tagged (virtState k) v (add64 v size) m.newState x := by
  obtain ⟨physical, virt, rfl, -, hvirt⟩ := h.tags
  exact (tagRange_eq_ok hk.virt hvirt).2.2.2 x (by rw [hk.virt_highest]; exact hx)

theorem Called.phys_tagged (h : Called refill m v p size k kt k') (hk : Ok k) {x : ℕ}
    (hx : x < k.physicalMemoryState.highestAddress) :
    physState kt x = tagged (physState k) p (physicalEnd p size) m.newState x := by
  obtain ⟨physical, virt, rfl, hphysical, -⟩ := h.tags
  exact (tagRange_eq_ok hk.physical hphysical).2.2.2 x hx

theorem Called.highest_eq (h : Called refill m v p size k kt k') (hk : Ok k) :
    k'.physicalMemoryState.highestAddress = k.physicalMemoryState.highestAddress := by
  obtain ⟨physical, virt, rfl, hphysical, -⟩ := h.tags
  rw [h.mapped.env.highest]
  exact (tagRange_eq_ok hk.physical hphysical).2.1

/-- A page that the call was asked to map has the frame and the flags it asked for. -/
theorem Called.word_mapped (h : Called refill m v p size k kt k') (hk : Ok k)
    (hm : m.newState ≠ .free) {i : ℕ} (hi : i < callTurns v size)
    (hfree : virtState kt (v + 4096 * i) ≠ .free) :
    PageAddress (p + 4096 * i) ∧
      word k' (v + 4096 * i) = p + 4096 * i + m.flags (word k (v + 4096 * i)) := by
  obtain ⟨hsize, -, hend⟩ := h.bounds (by omega)
  have hH := hk.physical.lt
  have hmod := h.physical_page.mod
  have hp : PageAddress (p + 4096 * i) := ⟨by unfold Aligned; omega, by omega⟩
  obtain ⟨physical, virt, rfl, -⟩ := h.tags
  rcases h.mapped.written i hi with hw | ⟨-, -, hf, -⟩
  · rw [Mapping.leafEntry_mapped hm hp] at hw
    exact ⟨hp, hw⟩
  · exact absurd hf hfree

theorem Called.frame_mapped (h : Called refill m v p size k kt k') (hk : Ok k)
    (hm : m.newState ≠ .free) {i : ℕ} (hi : i < callTurns v size)
    (hfree : virtState kt (v + 4096 * i) ≠ .free) :
    frame k' (v + 4096 * i) = some (p + 4096 * i) := by
  obtain ⟨hp, hword⟩ := h.word_mapped hk hm hi hfree
  exact frame_of_word_mapped hp (m.flags_lt _) (m.flags_odd _) hword

/-- A range that first fit has found in both trees. -/
structure Found (k : KernelMemory) (v p size : ℕ) : Prop where
  virt : firstFit k.virtualMemoryState.leaves size = v
  phys : firstFit k.physicalMemoryState.leaves size = p
  virt_ne : v ≠ 0
  phys_ne : p ≠ 0

theorem Found.virt_le (h : Found k v p size) (hk : Ok k) : v + size ≤ pageMask := by
  have := (firstFit_spec hk.virt h.virt h.virt_ne).2.2.1
  rwa [hk.virt_highest] at this

theorem Found.virt_free (h : Found k v p size) (hk : Ok k) {x : ℕ} (hlo : v ≤ x)
    (hhi : x < v + size) : virtState k x = .free :=
  (firstFit_spec hk.virt h.virt h.virt_ne).2.2.2.2 x hlo (Or.inl hhi)

theorem Found.phys_le (h : Found k v p size) (hk : Ok k) :
    p + size ≤ k.physicalMemoryState.highestAddress :=
  (firstFit_spec hk.physical h.phys h.phys_ne).2.2.1

theorem Found.phys_free (h : Found k v p size) (hk : Ok k) {x : ℕ} (hlo : p ≤ x)
    (hhi : x < p + size) : physState k x = .free :=
  (firstFit_spec hk.physical h.phys h.phys_ne).2.2.2.2 x hlo (Or.inl hhi)

theorem Found.validCall (h : Found k v p size) (hk : Ok k) (hpos : 0 < size) :
    ValidCall k v p size :=
  ⟨hpos, h.phys_le hk, h.virt_le hk⟩

theorem Found.pageAddress (h : Found k v p size) (hk : Ok k) : PageAddress v ∧ PageAddress p := by
  have hvle := h.virt_le hk
  have hple := h.phys_le hk
  have hH := hk.physical.lt
  unfold pageMask at hvle
  exact ⟨⟨(firstFit_spec hk.virt h.virt h.virt_ne).1, by omega⟩,
    ⟨(firstFit_spec hk.physical h.phys h.phys_ne).1, by omega⟩⟩

/-- A found range holds no page of a paging structure. -/
theorem Found.keepsPagingPage (h : Found k v p size) (hk : Ok k) (hmod : size % 4096 = 0) {i : ℕ}
    (hi : i < callTurns v size) (m : Mapping) :
    k.keepsPagingPage m (v + 4096 * i) (p + 4096 * i) := by
  intro hset hpaging
  have hvle := h.virt_le hk
  have hin : v + 4096 * i < v + size := by
    unfold pageMask at hvle
    rcases callTurns_spec (h.pageAddress hk).1 hmod (by omega) with h0 | ⟨-, h1⟩ <;> omega
  exact absurd (h.virt_free hk (by omega) hin) (hk.live hset (v + 4096 * i) (by omega) hpaging)

/-- A found range can be mapped: MapPages stops only when a list is exhausted. -/
theorem Found.callFault (h : Found k v p size) (hk : Ok k) (hpos : 0 < size)
    (hmod : size % 4096 = 0) {E : Fault → Prop} {e : Fault}
    (he : CallFault refill E m k v p size e) :
    MapFault refill E e ∨ (TagsFail m k v p size e ∧ e.NodeListEmpty) := by
  rcases he with he | he | ⟨⟨i, hi, hnot⟩, -⟩ | ⟨hargs, -⟩ | ⟨-, hvalid, -⟩
  · exact Or.inl he
  · exact Or.inr he
  · exact absurd (h.keepsPagingPage hk hmod hi m) hnot
  · obtain ⟨hv, hp⟩ := h.pageAddress hk
    exact absurd ⟨hv, hp, hmod⟩ hargs
  · exact absurd (h.validCall hk hpos) hvalid

section Found
variable (hc : Called refill m v p size k kt k') (hk : Ok k) (hf : Found k v p size)
include hc hk hf

theorem Called.turns_found : size = 4096 * callTurns v size := by
  have hle := hf.virt_le hk
  rw [callTurns_of_lt hc.virtual_page hc.size_mod (by unfold pageMask at hle; omega)]
  have := hc.size_mod
  omega

variable (hm : m.newState = .used)
include hm

/-- After the tag the range found is Used and nothing else has changed. -/
theorem Called.virt_found {x : ℕ} (hx : x < pageMask) :
    virtState kt x = if v ≤ x ∧ x < v + size then .used else virtState k x := by
  have hle := hf.virt_le hk
  rw [hc.virt_tagged hk hx, add64_of_lt (by unfold pageMask at hle; omega), hm]
  unfold tagged
  by_cases hin : v ≤ x ∧ x < v + size
  · have hfree := hf.virt_free hk hin.1 hin.2
    rw [if_pos ⟨hin.1, hin.2, by rw [hfree]; decide⟩, if_pos hin]
  · rw [if_neg (fun h => hin ⟨h.1, h.2.1⟩), if_neg hin]

theorem Called.phys_found {x : ℕ} (hx : x < k.physicalMemoryState.highestAddress) :
    physState kt x = if p ≤ x ∧ x < p + size then .used else physState k x := by
  have hle := hf.phys_le hk
  have hH := hk.physical.lt
  rw [hc.phys_tagged hk hx, physicalEnd_of_lt hc.physical_page hc.size_mod (by omega), hm]
  unfold tagged
  by_cases hin : p ≤ x ∧ x < p + size
  · have hfree := hf.phys_free hk hin.1 hin.2
    rw [if_pos ⟨hin.1, hin.2, by rw [hfree]; decide⟩, if_pos hin]
  · rw [if_neg (fun h => hin ⟨h.1, h.2.1⟩), if_neg hin]

/-- An allocation changes Free pages only. -/
theorem Called.env_found : Env True (fun _ => False) k k' := by
  have hturns := hc.turns_found hk hf
  have hle := hf.virt_le hk
  have hvirt := fun x hx => hc.virt_found hk hf hm (x := x) hx
  have hphys := fun x hx => hc.phys_found hk hf hm (x := x) hx
  have htags := hc.tags
  have henv := hc.mapped.env.mono (fun _ => trivial) fun _ h => h
  obtain ⟨physical, virt, hkt, hptag, -⟩ := htags
  have hhigh := (tagRange_eq_ok hk.physical hptag).2.1
  have htag : Env True (InPages v (callTurns v size)) k kt :=
    { pml4 := by rw [hkt]; rfl
      initial := by rw [hkt]; rfl
      pml4Set := by rw [hkt]; rfl
      cr3 := by rw [hkt]; rfl
      highest := by rw [hkt]; exact hhigh
      phys := fun x hx => by
        rw [hphys x hx]
        split_ifs with hin
        · exact Or.inr ⟨trivial, hf.phys_free hk hin.1 hin.2, rfl⟩
        · exact Or.inl rfl
      virt := fun x hx => by
        rw [hvirt x hx]
        split_ifs with hin
        · exact Or.inr ⟨trivial, hf.virt_free hk hin.1 hin.2, rfl⟩
        · exact Or.inl rfl
      words := fun x _ => Or.inl (by rw [hkt]; rfl)
      walk := fun q t _ ht => by rw [hkt]; exact ht
      linked := fun b hb => by rw [hkt]; exact hb
      blocks := fun b hb => by rw [hkt]; exact hb
      paging_new := fun t ht => Or.inl (by rw [hkt] at ht; exact ht)
      paging_frame := fun _ t _ => by rw [hkt]; rfl
      steady := fun h => absurd trivial h }
  have hall := htag.trans_own henv
  refine { hall with words := fun x hx => ?_ }
  rcases hall.words x hx with h | hin | h
  · exact Or.inl h
  · unfold InPages at hin
    rw [← hturns] at hin
    have hxlt : x < pageMask := by omega
    have hused := hvirt x hxlt
    rw [if_pos hin] at hused
    have hne : virtState kt x ≠ .free := by
      rw [hused]
      decide
    exact Or.inr (Or.inr ⟨trivial, hxlt, hf.virt_free hk hin.1 hin.2,
      (henv.virt_of_ne_free hxlt hne).trans hused⟩)
  · exact Or.inr (Or.inr h)

theorem Called.used_found {x : ℕ} (hlo : v ≤ x) (hhi : x < v + size) :
    virtState k' x = .used := by
  have hle := hf.virt_le hk
  have hused := hc.virt_found hk hf hm (x := x) (by omega)
  rw [if_pos ⟨hlo, hhi⟩] at hused
  have hne : virtState kt x ≠ .free := by
    rw [hused]
    decide
  exact (hc.mapped.env.virt_of_ne_free (by omega) hne).trans hused

theorem Called.frame_found {i : ℕ} (hi : 4096 * i < size) :
    frame k' (v + 4096 * i) = some (p + 4096 * i) := by
  have hle := hf.virt_le hk
  have hturns := hc.turns_found hk hf
  have hused := hc.virt_found hk hf hm (x := v + 4096 * i) (by omega)
  rw [if_pos ⟨by omega, by omega⟩] at hused
  refine hc.frame_mapped hk ?_ (by omega) ?_
  · rw [hm]
    decide
  · rw [hused]
    decide

end Found

end Alloc

section VirtualAlloc
variable {refill : Prop} {E : Fault → Prop} {getPage : PageSource} {k : KernelMemory}

/-- VirtualAlloc returns null when no physical block is found; else it calls
MapPages with what the two searches have found. -/
theorem virtualAllocWith_meets (hget : PageSpec refill E getPage) (hk : Ok k) {byteSize : ℕ}
    (hlt : byteSize < 2 ^ 64) (privilegeLevel : PrivilegeLevel) (pageFlags : PageFlags) :
    Meets (fun e => firstFit k.physicalMemoryState.leaves byteSize ≠ 0 ∧
        CallFault refill E (allocMapping privilegeLevel pageFlags) k
          (firstFit k.virtualMemoryState.leaves byteSize)
          (firstFit k.physicalMemoryState.leaves byteSize) byteSize e)
      (fun r => Ok r.2 ∧
        ((firstFit k.physicalMemoryState.leaves byteSize = 0 ∧ r = (0, k)) ∨
          (firstFit k.physicalMemoryState.leaves byteSize ≠ 0 ∧
            r.1 = firstFit k.virtualMemoryState.leaves byteSize ∧
            ∃ kt, Called refill (allocMapping privilegeLevel pageFlags) r.1
              (firstFit k.physicalMemoryState.leaves byteSize) byteSize k kt r.2)))
      (virtualAllocWith getPage byteSize privilegeLevel pageFlags k) := by
  unfold virtualAllocWith
  rw [findMinimumSizeFreeBlock_eq hk.physical, ok_bind]
  by_cases hzero : firstFit k.physicalMemoryState.leaves byteSize = 0
  · rw [if_pos hzero, require_true hzero, ok_bind]
    exact meets_pure ⟨hk, Or.inl ⟨hzero, rfl⟩⟩
  · rw [if_neg hzero, findMinimumSizeFreeBlock_eq hk.virt, ok_bind]
    refine meets_bind (meets_mono (mapPagesWith_meets hget.tableSource (fun _ _ _ h => h) hk
      trivial hlt fun _ _ => ⟨trivial, trivial, trivial⟩) (fun e he => ⟨hzero, he⟩)
      fun _ h => h) fun k' hk' => ?_
    exact meets_pure ⟨hk'.1, Or.inr ⟨hzero, rfl, hk'.2.2⟩⟩

/-- An allocation that does not return null has changed Free pages only. -/
theorem virtualAllocWith_found (hget : PageSpec refill E getPage) (hk : Ok k) {byteSize : ℕ}
    (hlt : byteSize < 2 ^ 64) (privilegeLevel : PrivilegeLevel) (pageFlags : PageFlags) :
    Meets (fun _ => True)
      (fun r => Ok r.2 ∧ (r.1 ≠ 0 → ∃ p kt, Found k r.1 p byteSize ∧
        Called refill (allocMapping privilegeLevel pageFlags) r.1 p byteSize k kt r.2))
      (virtualAllocWith getPage byteSize privilegeLevel pageFlags k) := by
  refine meets_mono (virtualAllocWith_meets hget hk hlt privilegeLevel pageFlags)
    (fun _ _ => trivial) fun r hr => ⟨hr.1, fun hne => ?_⟩
  rcases hr.2 with ⟨-, rfl⟩ | ⟨hp, hv, kt, hc⟩
  · exact absurd rfl hne
  · exact ⟨_, kt, ⟨hv.symm, rfl, hne, hp⟩, hc⟩

end VirtualAlloc

/-- Run a fold of steps that keep the invariant and change Free pages only. -/
theorem foldlM_env {α : Type} {f : KernelMemory → α → Except Fault KernelMemory} (l : List α)
    (hstep : ∀ a ∈ l, ∀ k, Ok k →
      Meets (fun _ => True) (fun k' => Ok k' ∧ Env True (fun _ => False) k k') (f k a))
    {k : KernelMemory} (hk : Ok k) :
    Meets (fun _ => True) (fun k' => Ok k' ∧ Env True (fun _ => False) k k') (l.foldlM f k) := by
  refine meets_foldlM (R := fun k' (_ : Unit) => Ok k' ∧ Env True (fun _ => False) k k')
    (g := fun t _ => t) (t := ()) l (fun a ha k1 _ h1 => ?_) ⟨hk, Env.refl k⟩
  exact meets_post (hstep a ha k1 h1.1) fun k2 h2 => ⟨h2.1, h1.2.trans_own h2.2⟩

section Refill
variable {refill : Prop} {E : Fault → Prop} {getPage : PageSource} {k : KernelMemory}

theorem rpMallocMap_meets (hget : PageSpec refill E getPage) (hk : Ok k) {size : ℕ}
    (hlt : size < 2 ^ 64) :
    Meets (fun _ => True) (fun k' => Ok k' ∧ Env True (fun _ => False) k k')
      (rpMallocMap getPage k size) := by
  unfold rpMallocMap
  refine meets_bind (virtualAllocWith_found hget hk hlt _ _) fun r hr => ?_
  refine meets_require (fun _ => trivial) fun hne => ?_
  obtain ⟨p, kt, hf, hc⟩ := hr.2 hne
  exact meets_pure ⟨hr.1, hc.env_found hk hf rfl⟩

theorem initDynamic_meets (hget : PageSpec refill E getPage) (hk : Ok k) :
    Meets (fun _ => True) (fun k' => Ok k' ∧ Env True (fun _ => False) k k')
      (initDynamic getPage k) := by
  unfold initDynamic
  split
  · exact meets_ok ⟨hk, Env.refl k⟩
  case h_2 sizes rest hrequests =>
    have hlt := hk.heap_lt sizes (by simp [hrequests])
    have hsame : SameTables k { k with heapRequests := rest } := sameTables_of_eq rfl rfl
    have hok : Ok { k with heapRequests := rest } :=
      { hk with
        tables := hsame.tables hk.tables
        pool := fun f hf => ⟨hsame.spare (hk.pool f hf).1, (hk.pool f hf).2⟩
        reserve := fun f hf => ⟨hsame.spare (hk.reserve f hf).1, (hk.reserve f hf).2⟩
        heap_lt := fun l hl => hk.heap_lt l (by simp [hrequests, show l ∈ rest from hl]) }
    have henv : Env True (fun _ => False) k { k with heapRequests := rest } :=
      { (Env.refl k : Env True (fun _ => False) k k) with
        steady := fun h => absurd trivial h }
    exact meets_post (foldlM_env sizes (fun size hsize k1 hk1 =>
      rpMallocMap_meets hget hk1 (hlt size hsize)) hok) fun k' h => ⟨h.1, henv.trans_own h.2⟩

/-- The block that a refill in state `k` has obtained, as it is in `k'`. -/
structure BlockGiven (k k' : KernelMemory) (block p : ℕ) : Prop where
  found : Found k block p pagingBlockBytes
  recorded : (block, p) ∈ k'.blocks
  mapped : ∀ i < nextPagingBlockSize, frame k' (block + 4096 * i) = some (p + 4096 * i)
  used : ∀ x, block ≤ x → x < block + pagingBlockBytes → virtState k' x = .used

theorem BlockGiven.env {own : ℕ → Prop} {k1 k2 : KernelMemory} {block p : ℕ} (hk : Ok k)
    (hk1 : Ok k1) (h : BlockGiven k k1 block p) (henv : Env True own k1 k2) :
    BlockGiven k k2 block p := by
  have hset := hk1.blocks_live (List.ne_nil_of_mem h.recorded)
  refine ⟨h.found, henv.blocks _ h.recorded, fun i hi => ?_, fun x hlo hhi => ?_⟩
  · rw [henv.paging_frame hset _ (isPagingPage_iff.mpr
      (Or.inr (Or.inr ⟨_, h.recorded, inBlock_page hi⟩)))]
    exact h.mapped i hi
  · have hle := h.found.virt_le hk
    have hused := h.used x hlo hhi
    have hne : virtState k1 x ≠ .free := by
      rw [hused]
      decide
    exact (henv.virt_of_ne_free (by omega) hne).trans hused

/-- The page tables of the new block do not lie in the block. -/
theorem not_isPagingPage_found {k1 kt : KernelMemory} {m : Mapping} {block p size t : ℕ}
    (hk : Ok k) (hset : k.pml4Set = true) (hf : Found k block p size)
    (hc : Called refill m block p size k kt k1) (hm : m.newState = .used)
    (hlo : block ≤ t) (hhi : t < block + size) : k1.isPagingPage t = false := by
  have hle := hf.virt_le hk
  have hused := hc.virt_found hk hf hm (x := t) (by omega)
  rw [if_pos ⟨hlo, hhi⟩] at hused
  rw [Bool.eq_false_iff]
  intro hpaging
  rcases hc.mapped.env.paging_new t hpaging with hold | ⟨-, -, hfree⟩
  · obtain ⟨physical, virt, hkt, -⟩ := hc.tags
    rw [hkt] at hold
    exact hk.live hset t (by omega) hold (hf.virt_free hk hlo hhi)
  · rw [hused] at hfree
    cases hfree

/-- AllocateNextFreePageTableEntries once VirtualAlloc has returned: the block
becomes the reserve. -/
def setReserve (k : KernelMemory) (block : ℕ) : KernelMemory :=
  { k with
    nextFreePageTableEntriesBlock := block
    blocks := (block, k.getPhysicalAddress block false) :: k.blocks }

section SetReserve
variable {k1 kt : KernelMemory} {m : Mapping} {block p : ℕ} (hk : Ok k)
  (hf : Found k block p pagingBlockBytes) (hc : Called refill m block p pagingBlockBytes k kt k1)
  (hm : m.newState = .used) (hk1 : Ok k1)
include hk hf hc hm hk1

theorem setReserve_blocks : (setReserve k1 block).blocks = (block, p) :: k1.blocks := by
  have hframe := hc.frame_found hk hf hm (i := 0) (by decide)
  have hlt := hc.physical_page.lt
  have hphys : k1.getPhysicalAddress block false = p :=
    (getPhysicalAddress_eq_iff hk1.tables hc.virtual_page.aligned (by omega)).mpr hframe
  unfold setReserve
  rw [hphys]

theorem env_setReserve : Env True (fun _ => False) k (setReserve k1 block) := by
  have hblocks := setReserve_blocks hk hf hc hm hk1
  have henv := hc.env_found hk hf hm
  have hle := hf.virt_le hk
  exact
    { henv with
      blocks := fun b hb => List.mem_cons_of_mem _ (henv.blocks b hb)
      paging_new := fun t ht => by
        rw [isPagingPage_iff, hblocks] at ht
        rcases ht with h | h | ⟨b, hb, h⟩
        · exact henv.paging_new t (isPagingPage_iff.mpr (Or.inl h))
        · exact henv.paging_new t (isPagingPage_iff.mpr (Or.inr (Or.inl h)))
        · rcases List.mem_cons.mp hb with rfl | hb
          · rw [inBlock_iff] at h
            exact Or.inr ⟨trivial, by omega, hf.virt_free hk h.1 h.2⟩
          · exact henv.paging_new t (isPagingPage_iff.mpr (Or.inr (Or.inr ⟨b, hb, h⟩)))
      steady := fun h => absurd trivial h }

variable (hset : k.pml4Set = true)
include hset

theorem ok_setReserve : Ok (setReserve k1 block) := by
  have hblocks := setReserve_blocks hk hf hc hm hk1
  have hle := hf.virt_le hk
  have halign := hc.virtual_page.mod
  have henv := hc.env_found hk hf hm
  have hset1 : k1.pml4Set = true := henv.pml4Set.trans hset
  have hsame : SameTables k1 (setReserve k1 block) := sameTables_of_eq rfl rfl
  have hnot : ∀ t, inBlock block t = true → k1.isPagingPage t = false := fun t ht => by
    rw [inBlock_iff] at ht
    exact not_isPagingPage_found hk hset hf hc hm ht.1 ht.2
  have hpaging : ∀ t, (setReserve k1 block).isPagingPage t = true →
      k1.isPagingPage t = true ∨ inBlock block t = true := by
    intro t ht
    rw [isPagingPage_iff, hblocks] at ht
    rcases ht with h | h | ⟨b, hb, h⟩
    · exact Or.inl (isPagingPage_iff.mpr (Or.inl h))
    · exact Or.inl (isPagingPage_iff.mpr (Or.inr (Or.inl h)))
    · rcases List.mem_cons.mp hb with rfl | hb
      · exact Or.inr h
      · exact Or.inl (isPagingPage_iff.mpr (Or.inr (Or.inr ⟨b, hb, h⟩)))
  have hframe : ∀ i < nextPagingBlockSize,
      frame k1 (block + 4096 * i) = some (p + 4096 * i) := fun i hi =>
    hc.frame_found hk hf hm (by unfold nextPagingBlockSize at hi; unfold pagingBlockBytes; omega)
  have hspare : ∀ i < nextPagingBlockSize, Spare (setReserve k1 block) (block + 4096 * i) ∧
      block + 4096 * i ∉ k1.pagingFree := by
    intro i hi
    have hfree : k1.isPagingPage (block + 4096 * i) = false := hnot _ (inBlock_page hi)
    have hhome : ¬ Home k1 (block + 4096 * i) := by
      intro h
      rw [h.isPagingPage hk1] at hfree
      cases hfree
    unfold nextPagingBlockSize at hi
    unfold pagingBlockBytes pageMask at hle
    refine ⟨⟨⟨?_, by omega⟩, fun q hq ht => ?_⟩, fun hmem => hhome (hk1.pool _ hmem).2⟩
    · unfold Aligned
      omega
    · rw [hsame.tableAt hq] at ht
      exact hhome (hk1.table_home q _ hq ht)
  exact
    { hk1 with
      tables := hsame.tables hk1.tables
      pool := fun f hf => ⟨hsame.spare (hk1.pool f hf).1, (hk1.pool f hf).2⟩
      reserve := fun f hr => by
        obtain ⟨i, hi, rfl⟩ := mem_blockPages.mp hr.2.2
        exact hspare i hi
      block_aligned := fun b hb => by
        rw [hblocks] at hb
        rcases List.mem_cons.mp hb with rfl | hb
        · exact hc.virtual_page.aligned
        · exact hk1.block_aligned b hb
      paging_lt := fun t ht => by
        rcases hpaging t ht with h | h
        · exact hk1.paging_lt t h
        · rw [inBlock_iff] at h
          unfold pageMask at hle
          omega
      live := fun hs t ht hpage => by
        rcases hpaging t hpage with h | h
        · exact hk1.live hs t ht h
        · rw [inBlock_iff] at h
          have hused := hc.used_found hk hf hm h.1 h.2
          intro hfree
          change virtState k1 t = .free at hfree
          rw [hused] at hfree
          cases hfree
      blocks_live := fun _ => hset1
      linked_block := fun b hb => by
        obtain ⟨P, hP⟩ := hk1.linked_block b hb
        exact ⟨P, List.mem_cons_of_mem _ hP⟩
      reserve_block := fun _ => ⟨_, List.mem_cons_self⟩
      block_frame := fun b hb i hi => by
        rw [hblocks] at hb
        rcases List.mem_cons.mp hb with rfl | hb
        · exact Or.inr (hframe i hi)
        · exact hk1.block_frame b hb i hi
      linked_frame := fun b hb hlink i hi => by
        rw [hblocks] at hb
        rcases List.mem_cons.mp hb with rfl | hb
        · exact hframe i hi
        · exact hk1.linked_frame b hb hlink i hi }

/-- No table lies in the new block. -/
theorem newBlock_no_table : ∀ q t, q.length ≤ 3 → tableAt (setReserve k1 block) q = some t →
    inBlock block t = false := by
  have hk2 := ok_setReserve hk hf hc hm hk1 hset
  intro q t hq ht
  rw [Bool.eq_false_iff]
  intro hin
  have hpaging : k1.isPagingPage t = true := Home.isPagingPage hk1 (hk2.table_home q t hq ht)
  rw [inBlock_iff] at hin
  rw [not_isPagingPage_found hk hset hf hc hm hin.1 hin.2] at hpaging
  cases hpaging

end SetReserve

theorem allocateNextFreePageTableEntries_meets (hget : PageSpec refill E getPage) (hk : Ok k)
    (hset : k.pml4Set = true) :
    Meets (fun _ => True)
      (fun k' => Ok k' ∧ Env True (fun _ => False) k k' ∧ ∃ block p, BlockGiven k k' block p)
      (allocateNextFreePageTableEntries getPage k) := by
  unfold allocateNextFreePageTableEntries
  refine meets_bind (virtualAllocWith_found hget hk (by decide) _ _) fun r hr => ?_
  refine meets_require (fun _ => trivial) fun hne => ?_
  obtain ⟨block, k1⟩ := r
  obtain ⟨hk1, hr⟩ := hr
  obtain ⟨p, kt, hf, hc⟩ := hr hne
  have hk2 := ok_setReserve hk hf hc rfl hk1 hset
  have henv2 := env_setReserve hk hf hc rfl hk1
  have hgiven : BlockGiven k (setReserve k1 block) block p :=
    { found := hf
      recorded := by
        rw [setReserve_blocks hk hf hc rfl hk1]
        exact List.mem_cons_self
      mapped := fun i hi => hc.frame_found hk hf rfl
        (by unfold nextPagingBlockSize at hi; unfold pagingBlockBytes; omega)
      used := fun x hlo hhi => hc.used_found hk hf rfl hlo hhi }
  have hclear := newBlock_no_table hk hf hc rfl hk1 hset
  have hk3 := hk2.clearPages hclear
  have henv3 : Env True (fun _ => False) (setReserve k1 block)
      ((setReserve k1 block).clearPages (inBlock block)) := env_clearPages hclear
  refine meets_post (initDynamic_meets hget hk3) fun k' h => ?_
  exact ⟨h.1, (henv2.trans_own henv3).trans_own h.2, block, p,
    (hgiven.env hk hk2 henv3).env hk hk3 h.2⟩

/-- A refill obtains a block, and with it the page asked for. -/
theorem refill_meets (hget : PageSpec refill E getPage) (hk : Ok k) :
    Meets (fun _ => True)
      (fun k' => Ok k' ∧ Env True (fun _ => False) k k' ∧ ∃ block p, BlockGiven k k' block p)
      (linkReserve k >>= allocateNextFreePageTableEntries getPage) := by
  refine meets_bind (linkReserve_meets hk) fun k1 h1 => ?_
  obtain ⟨hk1, henv1, hphysical, hvirt, hset⟩ := h1
  refine meets_post (allocateNextFreePageTableEntries_meets hget hk1 hset) fun k' h => ?_
  obtain ⟨hk', henv, block, p, hgiven⟩ := h
  refine ⟨hk', henv1.trans_own henv, block, p, ?_⟩
  have hf := hgiven.found
  exact { hgiven with
    found := ⟨hvirt ▸ hf.virt, hphysical ▸ hf.phys, hf.virt_ne, hf.phys_ne⟩ }

theorem getPML4FreePage_succ_meets {depth : ℕ}
    (hget : PageSpec refill E (getPML4FreePage depth)) (hk : Ok k) :
    Meets (fun _ => True)
      (fun r => Ok r.2 ∧ Env True (fun _ => False) k r.2 ∧ Fresh r.2 r.1 ∧
        (k.pagingFree = [] → ∃ block p, BlockGiven k r.2 block p))
      (getPML4FreePage (depth + 1) k) := by
  unfold getPML4FreePage
  refine meets_bind (R := fun k1 => Ok k1 ∧ Env True (fun _ => False) k k1 ∧
    (k.pagingFree = [] → ∃ block p, BlockGiven k k1 block p)) ?_ fun k1 h1 => ?_
  · refine meets_ite (fun _ => ?_) fun hne => ?_
    · exact meets_post (refill_meets hget hk) fun k1 h1 => ⟨h1.1, h1.2.1, fun _ => h1.2.2⟩
    · exact meets_pure ⟨hk, Env.refl k, fun h => absurd h hne⟩
  · obtain ⟨hk1, henv1, hgiven⟩ := h1
    refine meets_mono (takePage_meets hk1 True) (fun _ _ => trivial) fun r hr => ?_
    refine ⟨hr.1, henv1.trans_own hr.2.1, hr.2.2.1, fun hempty => ?_⟩
    obtain ⟨block, p, h⟩ := hgiven hempty
    exact ⟨block, p, h.env hk hk1 hr.2.1⟩

/-- A list that is not empty is not refilled. -/
theorem getPML4FreePage_of_ne_nil (h : k.pagingFree ≠ []) (depth : ℕ) :
    getPML4FreePage depth k = getPML4FreePage 0 k := by
  cases depth with
  | zero => rfl
  | succ depth =>
    unfold getPML4FreePage
    rw [if_neg h]
    rfl

/-- Without refills the only fault is an empty list. -/
theorem getPML4FreePage_zero_spec :
    PageSpec False (fun e => e = .pagingListEmpty) (getPML4FreePage 0) := fun _ hk =>
  meets_mono (takePage_meets hk False) (fun _ he => he.1) fun _ hr => ⟨hr.1, hr.2.1, hr.2.2.1⟩

/-- Every depth of nested refills keeps the invariant. -/
theorem getPML4FreePage_spec (depth : ℕ) :
    PageSpec True (fun _ => True) (getPML4FreePage depth) := by
  induction depth with
  | zero =>
    intro k hk
    exact meets_mono (takePage_meets hk True) (fun _ _ => trivial)
      fun r hr => ⟨hr.1, hr.2.1, hr.2.2.1⟩
  | succ depth ih =>
    intro k hk
    exact meets_post (getPML4FreePage_succ_meets ih hk) fun r hr => ⟨hr.1, hr.2.1, hr.2.2.1⟩

end Refill

end Enkel.Paging
