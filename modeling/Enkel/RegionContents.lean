import Enkel.AllocationRuns
import Enkel.FileMapping

/-!
A call of sys_memory_map for a file, taken apart: memory is handed out, its start
is written, and VolumeRead delivers the bytes of the file. The region that is
handed out is shifted to its frames, so the stores overlay the frames.
-/
namespace Enkel.FileMapping

open Outcome MemoryState Paging KernelMemory TranslatedMemory

section Read
variable {fil : Fil} {offset size i : ℕ}

/-- Where FatVolume_Read starts to read. -/
def Fil.position (fil : Fil) (offset : ℕ) : ℕ :=
  if offset = currentOffset then fil.fptr else min (offset % 2 ^ 32) fil.fSize

/-- An offset that is not kept lies at the end of the file or behind it. -/
theorem Fil.fSize_le_of_position_ne (h : fil.position offset ≠ offset) : fil.fSize ≤ offset := by
  have hlt : fil.fSize < 2 ^ 32 := fil.size_lt
  unfold position currentOffset at h
  split_ifs at h <;> omega

theorem readAt_bytes : (readAt fil offset size).1 =
    (fil.contents.drop (fil.position offset)).take (size % 2 ^ 32) := by
  unfold Fil.position
  by_cases h : offset = currentOffset
  · simp [readAt, Fil.fRead, Fil.delivered, h]
  · simp [readAt, Fil.fRead, Fil.delivered, Fil.fLseek, Fil.fSize, h]

theorem length_readAt :
    (readAt fil offset size).1.length = min (size % 2 ^ 32) (fil.fSize - fil.position offset) := by
  rw [readAt_bytes, List.length_take, List.length_drop]
  rfl

theorem getD_readAt (hi : i < (readAt fil offset size).1.length) :
    (readAt fil offset size).1.getD i 0 = fil.contents.getD (fil.position offset + i) 0 := by
  rw [length_readAt] at hi
  have hlt : i < size % 2 ^ 32 := by omega
  simp only [readAt_bytes, List.getD_eq_getElem?_getD, List.getElem?_take, List.getElem?_drop,
    if_pos hlt]

theorem getD_eq_zero (h : fil.fSize ≤ i) : fil.contents.getD i 0 = 0 :=
  List.getD_eq_default _ _ h

/-- The file that a descriptor of a FAT volume stands for. The kernel mounts FAT at
the root, so its handles have one segment. -/
structure IsFile (fs : FileSystem) (fd : ℤ) (fileHandles : FileHandles) (fil : Fil) : Prop where
  implementation : fs.implementation fd = some .fat
  root : VolumeSystem.FileHandleMask.segments (FileSystem.handleOf fd) = 1
  inRange : VolumeSystem.FileHandleMask.fileHandle (FileSystem.handleOf fd) < maxFileHandles
  opened : fileHandles (VolumeSystem.FileHandleMask.fileHandle (FileSystem.handleOf fd)) = some fil

variable {fs : FileSystem} {fd : ℤ} {fileHandles : FileHandles}

theorem IsFile.isDevice (h : IsFile fs fd fileHandles fil) : fs.isDevice fd = false := by
  unfold FileSystem.isDevice
  rw [h.root]
  exact Bool.and_false _

/-- VolumeRead of a file: a negative offset is an assertion, unless it is the one that
stands for the file pointer. -/
theorem IsFile.volumeRead_iff {r : List UInt8 × FileHandles} (hfil : IsFile fs fd fileHandles fil)
    (hsize : size ≠ 0) :
    fs.volumeRead fd offset size fileHandles = .ok r ↔
      (offset ≠ currentOffset → offset < 2 ^ 63) ∧ r = ((readAt fil offset size).1,
        Function.update fileHandles (VolumeSystem.FileHandleMask.fileHandle (FileSystem.handleOf fd))
          (some (readAt fil offset size).2)) := by
  unfold FileSystem.volumeRead fatVolumeRead
  rw [hfil.implementation]
  simp only [if_neg hsize]
  rw [require_true hfil.inRange, ok_bind, hfil.opened]
  dsimp only
  constructor
  · intro h
    obtain ⟨u, hoffset, h⟩ := bind_eq_ok.mp h
    exact ⟨require_eq_ok.mp hoffset, (pure_eq_ok.mp h).symm⟩
  · rintro ⟨hoffset, rfl⟩
    rw [require_true hoffset, ok_bind]
    rfl

end Read

section Store
variable {m m' : Machine} {address p n : ℕ} {f : ℕ → UInt8}

/-- A store that succeeds has translated its whole range. -/
theorem Machine.translated_of_store (h : m.store address f n = .ok m') :
    (∀ i < n, (translate m.memory ((address + i) % 2 ^ 64)).isSome) ∧ (address ≠ 0 ∨ n = 0) := by
  unfold Machine.store at h
  split_ifs at h with hn
  · exact ⟨fun i hi => absurd hi (by omega), Or.inr hn⟩
  · obtain ⟨u, hnull, h⟩ := bind_eq_ok.mp h
    have hsome : (storeBytes (translate m.memory) address f n m.ram).isSome := by
      split at h
      · cases h
      · next heq => rw [heq, Option.isSome_some]
    exact ⟨storeBytes_isSome_iff.mp hsome, Or.inl (require_eq_ok.mp hnull)⟩

/-- A store through a shift overlays the frames, whatever they held. -/
theorem Machine.store_linear (h : Linear (translate m.memory) address p n)
    (hnull : address ≠ 0 ∨ n = 0) :
    m.store address f n = .ok { m with ram := overlay p f n m.ram } := by
  unfold Machine.store
  split_ifs with hn
  · rw [hn, overlay_zero]
  · rw [require_true (hnull.resolve_right hn), h.storeBytes f m.ram]
    rfl

end Store

section Shift
variable {k kt k' : KernelMemory} {m : Mapping} {r p size n : ℕ}

/-- Where the range can be accessed at all, it leads to the frames from `p` on. -/
def Shifts (k : KernelMemory) (r p size : ℕ) : Prop :=
  ∀ i < size, translate k (r + i) = none ∨ translate k (r + i) = some (p + i)

theorem Shifts.linear (h : Shifts k r p size) (hend : r + size ≤ pageMask) (hle : n ≤ size)
    (hsome : ∀ i < n, (translate k ((r + i) % 2 ^ 64)).isSome) : Linear (translate k) r p n := by
  unfold pageMask at hend
  intro i hi
  have hmod : (r + i) % 2 ^ 64 = r + i := Nat.mod_eq_of_lt (by omega)
  have hs := hsome i hi
  rw [hmod] at hs ⊢
  refine (h i (by omega)).resolve_left fun hnone => ?_
  rw [hnone] at hs
  cases hs

/-- A call that maps a range shifts it to the frames. -/
theorem shifts_of_called {refill : Prop} (hc : Called refill m r p size k kt k') (hk : Ok k)
    (hk' : Ok k') (hcr3 : k.cr3 = k.pml4) (hm : m.newState ≠ .free) (hend : r + size ≤ pageMask) :
    ∀ i < size, translate k' (r + i) = if Canonical (r + i) then some (p + i) else none := by
  unfold pageMask at hend
  intro i hi
  obtain ⟨-, -, hpend⟩ := hc.bounds (callTurns_pos_of_mem hc.virtual_page hc.size_mod
    (by omega) (Nat.le_add_right r i) (Nat.add_lt_add_left hi r)).pos
  have hH := hk.physical.lt
  have htrans := hc.translation_mapped hk hk' (by omega) hm (Nat.le_add_right r i)
    (Nat.add_lt_add_left hi r)
  rw [Nat.add_sub_cancel_left] at htrans
  unfold translate
  rw [getPhysicalAddress_live hk' (hc.cr3_eq hcr3), htrans]
  have hvalid : p + i ≠ invalidAddress := by
    unfold invalidAddress
    omega
  split_ifs with hboth hcanonical hcanonical
  · rfl
  · exact absurd hboth.1 hcanonical
  · exact absurd ⟨hcanonical, hvalid⟩ hboth
  · rfl

theorem Shifts.of_translate
    (h : ∀ i < size, translate k (r + i) = if Canonical (r + i) then some (p + i) else none) :
    Shifts k r p size := by
  intro i hi
  rw [h i hi]
  split_ifs
  · exact Or.inr rfl
  · exact Or.inl rfl

end Shift

section Call
variable {depth address length prot flags offset p r : ℕ} {fs : FileSystem} {fd : ℤ}
  {k k' : KernelMemory} {ram : ℕ → UInt8} {fileHandles : FileHandles} {m' : Machine}

/-- What is written to a region before the file is read: the pattern of FillUnique
when the address was given, and else the first word of VirtualAlloc. -/
def startByte (address i : ℕ) : UInt8 :=
  if address = 0 then ByteMemory.digit 0 i else fillByte i

def startLength (address alignedSize : ℕ) : ℕ :=
  if address = 0 then 8 else 8 * (alignedSize / 8)

theorem startLength_given {size : ℕ} (ha : address ≠ 0) (hmod : size % 4096 = 0) :
    startLength address size = size := by
  unfold startLength
  rw [if_neg ha]
  omega

/-- The system call hands out the frames from `p` on, at `r`. -/
structure HandsOut (depth address alignedSize : ℕ) (k : KernelMemory) (p r : ℕ)
    (k' : KernelMemory) : Prop where
  search : k.physicalMemoryState.findMinimumSizeFreeBlock alignedSize = .ok p
  call : (address ≠ 0 ∧ allMapped k address alignedSize ∧ r = address ∧
      k.mapPages depth address p alignedSize userMapping = .ok k') ∨
    (address = 0 ∧ p ≠ 0 ∧ k.virtualAlloc depth alignedSize .user pageFlagsNone = .ok (r, k'))

/-- The first half, for an address that is given. -/
theorem Machine.mapFixed_eq_some_iff {alignedSize : ℕ} (ha : address ≠ 0) {m1 : Machine} :
    (⟨k, ram, fileHandles⟩ : Machine).mapFixed depth address alignedSize = .ok (some m1) ↔
      allMapped k address alignedSize ∧ ∃ p k',
        k.physicalMemoryState.findMinimumSizeFreeBlock alignedSize = .ok p ∧
        k.mapPages depth address p alignedSize userMapping = .ok k' ∧
        (⟨k', ram, fileHandles⟩ : Machine).fillUnique address alignedSize = .ok m1 := by
  unfold Machine.mapFixed Paging.mapFixed
  rw [if_neg ha]
  split_ifs with hmapped
  · constructor
    · intro h
      obtain ⟨given, hfixed, h⟩ := bind_eq_ok.mp h
      obtain ⟨p, hp, hfixed⟩ := bind_eq_ok.mp (mapError_eq_ok.mp hfixed)
      obtain ⟨k', hmap, hfixed⟩ := bind_eq_ok.mp hfixed
      obtain rfl := pure_eq_ok.mp hfixed
      dsimp only at h
      obtain ⟨m2, hfill, h⟩ := bind_eq_ok.mp h
      obtain rfl := Option.some.inj (pure_eq_ok.mp h)
      exact ⟨hmapped, p, k', hp, hmap, hfill⟩
    · rintro ⟨-, p, k', hp, hmap, hfill⟩
      refine bind_eq_ok.mpr ⟨some k', mapError_eq_ok.mpr ?_, ?_⟩
      · exact bind_eq_ok.mpr ⟨p, hp, bind_eq_ok.mpr ⟨k', hmap, rfl⟩⟩
      · exact bind_eq_ok.mpr ⟨m1, hfill, rfl⟩
  · constructor
    · intro h
      obtain ⟨given, hfixed, h⟩ := bind_eq_ok.mp h
      obtain rfl := Except.ok.inj (mapError_eq_ok.mp hfixed)
      cases pure_eq_ok.mp h
    · exact fun h => absurd h.1 hmapped

/-- After a failed search VirtualAlloc returns the null pointer. -/
theorem Machine.virtualAlloc_failed {byteSize : ℕ}
    (hp : k.physicalMemoryState.findMinimumSizeFreeBlock byteSize = .ok 0) :
    (⟨k, ram, fileHandles⟩ : Machine).virtualAlloc depth byteSize =
      .ok (0, ⟨k, ram, fileHandles⟩) := by
  have halloc : k.virtualAlloc depth byteSize .user pageFlagsNone = .ok (0, k) := by
    unfold KernelMemory.virtualAlloc virtualAllocWith
    rw [hp, ok_bind, if_pos rfl, require_true rfl]
    rfl
  exact bind_eq_ok.mpr ⟨0, mapError_eq_ok.mpr hp, bind_eq_ok.mpr ⟨(0, k),
    mapError_eq_ok.mpr halloc, rfl⟩⟩

/-- After a search that succeeds the first word of the block is written. -/
theorem Machine.virtualAlloc_found_iff {byteSize : ℕ} {m1 : Machine}
    (hp : k.physicalMemoryState.findMinimumSizeFreeBlock byteSize = .ok p) (hzero : p ≠ 0) :
    (⟨k, ram, fileHandles⟩ : Machine).virtualAlloc depth byteSize = .ok (r, m1) ↔
      ∃ k', k.virtualAlloc depth byteSize .user pageFlagsNone = .ok (r, k') ∧
        (⟨k', ram, fileHandles⟩ : Machine).store r (ByteMemory.digit 0) 8 = .ok m1 := by
  unfold Machine.virtualAlloc
  rw [hp]
  constructor
  · intro h
    obtain ⟨q, hq, h⟩ := bind_eq_ok.mp h
    obtain rfl := Except.ok.inj (mapError_eq_ok.mp hq)
    obtain ⟨⟨v, k'⟩, halloc, h⟩ := bind_eq_ok.mp h
    dsimp only at h
    rw [if_neg hzero] at h
    obtain ⟨m2, hstore, h⟩ := bind_eq_ok.mp h
    obtain ⟨rfl, rfl⟩ := Prod.mk.inj (pure_eq_ok.mp h)
    exact ⟨k', mapError_eq_ok.mp halloc, hstore⟩
  · rintro ⟨k', halloc, hstore⟩
    refine bind_eq_ok.mpr ⟨p, mapError_eq_ok.mpr rfl, ?_⟩
    refine bind_eq_ok.mpr ⟨(r, k'), mapError_eq_ok.mpr halloc, ?_⟩
    dsimp only
    rw [if_neg hzero]
    exact bind_eq_ok.mpr ⟨m1, hstore, rfl⟩

/-- VirtualAlloc returns an address when the search has succeeded and the first
word was written. -/
theorem Machine.virtualAlloc_eq_ok_iff {byteSize : ℕ} (hk : Ok k) (hr : r ≠ 0) {m1 : Machine} :
    (⟨k, ram, fileHandles⟩ : Machine).virtualAlloc depth byteSize = .ok (r, m1) ↔
      ∃ p k', k.physicalMemoryState.findMinimumSizeFreeBlock byteSize = .ok p ∧ p ≠ 0 ∧
        k.virtualAlloc depth byteSize .user pageFlagsNone = .ok (r, k') ∧
        (⟨k', ram, fileHandles⟩ : Machine).store r (ByteMemory.digit 0) 8 = .ok m1 := by
  obtain ⟨p, hp⟩ : ∃ p, k.physicalMemoryState.findMinimumSizeFreeBlock byteSize = .ok p :=
    ⟨_, findMinimumSizeFreeBlock_eq hk.physical byteSize⟩
  constructor
  · intro h
    by_cases hzero : p = 0
    · rw [hzero] at hp
      rw [virtualAlloc_failed hp] at h
      exact absurd (Prod.mk.inj (Except.ok.inj h)).1.symm hr
    · obtain ⟨k', halloc, hstore⟩ := (virtualAlloc_found_iff hp hzero).mp h
      exact ⟨p, k', hp, hzero, halloc, hstore⟩
  · rintro ⟨p, k', hp, hzero, halloc, hstore⟩
    exact (virtualAlloc_found_iff hp hzero).mpr ⟨k', halloc, hstore⟩

/-- A call for a file that returns a region: memory is handed out, its start is
written, and the file is read into it. -/
theorem Machine.sysMemoryMap_file_iff (hk : Ok k) (hdevice : fs.isDevice fd = false) (hfd : 0 < fd)
    (hr : r ≠ 0) (herror : r ≠ noMemory) :
    (⟨k, ram, fileHandles⟩ : Machine).sysMemoryMap depth fs address length prot flags fd offset =
        .ok (r, m') ↔
      ∃ p k' m1, HandsOut depth address (alignSize length pageSize) k p r k' ∧
        (⟨k', ram, fileHandles⟩ : Machine).store r (startByte address)
          (startLength address (alignSize length pageSize)) = .ok m1 ∧
        m1.volumeRead fs fd offset r length = .ok m' := by
  have hreturn : ∀ m1 : Machine, m1.returnMemory depth fs address length fd offset =
      m1.givenMemory depth address (alignSize length pageSize) >>= fun r =>
        r.2.volumeRead fs fd offset r.1 length >>= fun m => pure (r.1, m) := by
    intro m1
    unfold Machine.returnMemory
    rw [hdevice, if_neg Bool.false_ne_true, if_neg (by omega), if_pos hfd]
  by_cases ha : address = 0
  · have hfixed : (⟨k, ram, fileHandles⟩ : Machine).mapFixed depth address
        (alignSize length pageSize) = .ok (some ⟨k, ram, fileHandles⟩) := by
      unfold Machine.mapFixed Paging.mapFixed
      rw [if_pos ha]
      exact bind_eq_ok.mpr ⟨some k, rfl, by dsimp only; rw [if_pos ha]; rfl⟩
    have hstart : startByte address = ByteMemory.digit 0 := by
      funext i
      exact if_pos ha
    have hlength : startLength address (alignSize length pageSize) = 8 := if_pos ha
    unfold Machine.sysMemoryMap
    rw [hfixed, ok_bind, hstart, hlength]
    dsimp only
    rw [hreturn]
    unfold Machine.givenMemory
    rw [if_neg (not_not.mpr ha)]
    constructor
    · intro h
      obtain ⟨⟨v, m1⟩, halloc, h⟩ := bind_eq_ok.mp h
      obtain ⟨m2, hread, h⟩ := bind_eq_ok.mp h
      obtain ⟨rfl, rfl⟩ := Prod.mk.inj (pure_eq_ok.mp h)
      obtain ⟨p, k', hp, hzero, halloc, hstore⟩ := (virtualAlloc_eq_ok_iff hk hr).mp halloc
      exact ⟨p, k', m1, ⟨hp, Or.inr ⟨ha, hzero, halloc⟩⟩, hstore, hread⟩
    · rintro ⟨p, k', m1, ⟨hp, hcall⟩, hstore, hread⟩
      rcases hcall with ⟨hne, -⟩ | ⟨-, hzero, halloc⟩
      · exact absurd ha hne
      · refine bind_eq_ok.mpr ⟨(r, m1), ?_, bind_eq_ok.mpr ⟨m', hread, rfl⟩⟩
        exact (virtualAlloc_eq_ok_iff hk hr).mpr ⟨p, k', hp, hzero, halloc, hstore⟩
  · have hstart : startByte address = fillByte := by
      funext i
      exact if_neg ha
    have hlength : startLength address (alignSize length pageSize) =
        8 * (alignSize length pageSize / 8) := if_neg ha
    rw [hstart, hlength]
    unfold Machine.sysMemoryMap
    constructor
    · intro h
      obtain ⟨given, hfixed, h⟩ := bind_eq_ok.mp h
      cases given with
      | none =>
        obtain ⟨rfl, -⟩ := Prod.mk.inj (pure_eq_ok.mp h)
        exact absurd rfl herror
      | some m1 =>
        obtain ⟨hmapped, p, k', hp, hmap, hfill⟩ := (mapFixed_eq_some_iff ha).mp hfixed
        dsimp only at h
        rw [hreturn] at h
        unfold Machine.givenMemory at h
        rw [if_pos ha, ok_bind] at h
        obtain ⟨m2, hread, h⟩ := bind_eq_ok.mp h
        obtain ⟨rfl, rfl⟩ := Prod.mk.inj (pure_eq_ok.mp h)
        exact ⟨p, k', m1, ⟨hp, Or.inl ⟨ha, hmapped, rfl, hmap⟩⟩, hfill, hread⟩
    · rintro ⟨p, k', m1, ⟨hp, hcall⟩, hstore, hread⟩
      rcases hcall with ⟨-, hmapped, rfl, hmap⟩ | ⟨hzero, -⟩
      · refine bind_eq_ok.mpr ⟨some m1, ?_, ?_⟩
        · exact (mapFixed_eq_some_iff ha).mpr ⟨hmapped, p, k', hp, hmap, hstore⟩
        · dsimp only
          rw [hreturn]
          unfold Machine.givenMemory
          rw [if_pos ha, ok_bind]
          exact bind_eq_ok.mpr ⟨m', hread, rfl⟩
      · exact absurd hzero ha

/-- The region that is handed out is shifted to its frames. -/
theorem HandsOut.region {size : ℕ} (h : HandsOut depth address size k p r k') (hk : Running k)
    (hlt : size < 2 ^ 64) (hmod : size % 4096 = 0) (hpos : 0 < size) (hr : r ≠ 0) {m1 : Machine}
    (hstore : (⟨k', ram, fileHandles⟩ : Machine).store r (startByte address)
      (startLength address size) = .ok m1) :
    r + size ≤ pageMask ∧ Shifts k' r p size := by
  have hp := h.search
  rw [findMinimumSizeFreeBlock_eq hk.ok.physical] at hp
  have hp := Except.ok.inj hp
  rcases h.call with ⟨ha, -, rfl, hmap⟩ | ⟨-, hzero, halloc⟩
  · obtain ⟨hk', kt, hc⟩ := mapPages_eq_ok hk.ok hlt hmap
    have hend : r + size ≤ pageMask := by
      rcases callTurns_spec hc.virtual_page hc.size_mod hlt with hturns | ⟨-, hsize⟩
      · -- a range that wraps around holds addresses that are not canonical
        have hv := hc.virtual_page.lt
        have hwrap : 2 ^ 64 ≤ r + size := by
          unfold callTurns loopTurns add64 pageSize at hturns
          omega
        have hlength : startLength r size = 8 * (size / 8) := if_neg ha
        have hsome := (Machine.translated_of_store hstore).1 (2 ^ 48 - r) (by omega)
        have hat : (r + (2 ^ 48 - r)) % 2 ^ 64 = 2 ^ 48 := by omega
        rw [hat] at hsome
        have hcanonical : ¬ Canonical (2 ^ 48) := by decide
        unfold translate at hsome
        rw [if_neg fun h => hcanonical h.1] at hsome
        cases hsome
      · exact (hc.bounds (by omega)).2.1
    exact ⟨hend, Shifts.of_translate (shifts_of_called hc hk.ok hk' hk.cr3 (by decide) hend)⟩
  · obtain ⟨hk', hcase⟩ := (virtualAllocWith_meets (getPML4FreePage_spec depth) hk.ok hlt .user
      pageFlagsNone).of_eq_ok halloc
    rcases hcase with ⟨hfail, -⟩ | ⟨-, hv, kt, hc⟩
    · exact absurd (hp.symm.trans hfail) hzero
    · dsimp only at hv hc
      have hf : Found k r p size := ⟨hv.symm, hp, hr, hzero⟩
      rw [hp] at hc
      have hend := hf.virt_le hk.ok
      exact ⟨hend, Shifts.of_translate (shifts_of_called hc hk.ok hk' hk.cr3 (by decide) hend)⟩

end Call

end Enkel.FileMapping
