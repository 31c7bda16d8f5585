import Enkel.RegionContents
import Enkel.ThreadLocal

/-!
What a process reads in a region that sys_memory_map has returned for a file of
FAT. The bytes that f_read delivers come first. Behind them is the pattern of
FillUnique when the address was given, and what the pages held before, after
one zero word, when it was not.
-/
namespace Enkel.FileMapping

open Outcome MemoryState Paging KernelMemory TranslatedMemory

section Runs
variable (depth : ℕ) (fs : FileSystem) (address length prot flags : ℕ) (fd : ℤ) (offset : ℕ)
  (k : KernelMemory) (fileHandles : FileHandles) (fil : Fil)

/-- The byte that the region should hold: of the file, and zero behind it. -/
def expectedByte (length offset i : ℕ) : UInt8 :=
  if i < length then fil.contents.getD (offset + i) 0 else 0

/-- The byte that the region holds, by its offset, over what the pages held. -/
def regionByte (address length offset : ℕ) (pages : ℕ → UInt8) (i : ℕ) : UInt8 :=
  if i < (readAt fil offset length).1.length then
    fil.contents.getD (fil.position offset + i) 0
  else if i < startLength address (alignSize length pageSize) then
    startByte address i
  else
    pages i

/-- The frames that the search of the call finds. -/
def HandedFrame (k : KernelMemory) (size x : ℕ) : Prop :=
  ∃ p, k.physicalMemoryState.findMinimumSizeFreeBlock size = .ok p ∧ p ≤ x ∧ x < p + size

/-- Two runs of the call from states that differ in the frames handed out only read
the same in the whole region: the bytes of the file, and zeros behind them. -/
def RegionReads : Prop :=
  ∀ ram1 ram2 : ℕ → UInt8,
    (∀ x, ¬ HandedFrame k (alignSize length pageSize) x → ram1 x = ram2 x) →
    ∀ r1 m1 r2 m2,
      (⟨k, ram1, fileHandles⟩ : Machine).sysMemoryMap depth fs address length prot flags fd offset =
        .ok (r1, m1) →
      (⟨k, ram2, fileHandles⟩ : Machine).sysMemoryMap depth fs address length prot flags fd offset =
        .ok (r2, m2) →
      ∀ i < alignSize length pageSize, m1.load (r1 + i) = m2.load (r2 + i) ∧
        m1.load (r1 + i) = some (expectedByte fil length offset i)

end Runs

section Runs
variable {depth address length prot flags offset p r : ℕ} {fs : FileSystem} {fd : ℤ}
  {k k' : KernelMemory} {ram : ℕ → UInt8} {fileHandles : FileHandles} {fil : Fil} {m' : Machine}

theorem length_le_alignSize (hpos : 0 < alignSize length pageSize) (hlt : length < 2 ^ 64) :
    length ≤ alignSize length pageSize := by
  have heq := ThreadLocal.alignSize_page hlt
  split_ifs at heq
  · rw [heq]
    exact Rounding.le_roundUp (by decide)
  · rw [heq] at hpos
    cases hpos

/-- What is read in the region after a run of the call over any contents of memory. -/
theorem region_of_call (hk : Running k) (hfil : IsFile fs fd fileHandles fil) (hfd : 0 < fd)
    (hlt : length < 2 ^ 64)
    (hpos : 0 < alignSize length pageSize) (hr : r ≠ 0) (herror : r ≠ noMemory)
    (h : (⟨k, ram, fileHandles⟩ : Machine).sysMemoryMap depth fs address length prot flags fd offset =
      .ok (r, m')) :
    r + alignSize length pageSize ≤ pageMask ∧ ∃ p, ∀ ram', ∃ m1,
      (⟨k, ram', fileHandles⟩ : Machine).sysMemoryMap depth fs address length prot flags fd offset =
        .ok (r, m1) ∧
      ∀ i < alignSize length pageSize,
        (m1.load (r + i) = none ∧ (readAt fil offset length).1.length ≤ i ∧
          startLength address (alignSize length pageSize) ≤ i) ∨
        m1.load (r + i) =
          some (regionByte fil address length offset (fun i => ram' (p + i)) i) := by
  have hsize := alignSize_lt length
  have hmod := alignSize_mod length
  have hle := length_le_alignSize hpos hlt
  have hlength : length ≠ 0 := by
    rintro rfl
    exact absurd hpos (by decide)
  obtain ⟨p, k', m1, hhands, hstore, hread⟩ :=
    (Machine.sysMemoryMap_file_iff hk.ok hfil.isDevice hfd hr herror).mp h
  obtain ⟨⟨bytes, files'⟩, hbytes, hread⟩ := bind_eq_ok.mp hread
  obtain ⟨hend, hshift⟩ := hhands.region hk hsize hmod hpos hr hstore
  have hstart : startLength address (alignSize length pageSize) ≤ alignSize length pageSize := by
    unfold startLength
    generalize alignSize length pageSize = size at *
    split_ifs <;> omega
  obtain ⟨ram1, rfl⟩ := Machine.store_eq_ok hstore
  have hbytes := mapError_eq_ok.mp hbytes
  obtain ⟨-, hdelivered⟩ := (hfil.volumeRead_iff hlength).mp hbytes
  obtain ⟨rfl, rfl⟩ := Prod.mk.inj hdelivered
  have hcount : (readAt fil offset length).1.length =
      min (length % 2 ^ 32) (fil.fSize - fil.position offset) := length_readAt
  dsimp only at hread
  have hlin1 := hshift.linear hend hstart (Machine.translated_of_store hstore).1
  have hlin2 := hshift.linear (n := (readAt fil offset length).1.length) hend (by
    have := Nat.mod_le length (2 ^ 32)
    omega) (Machine.translated_of_store hread).1
  refine ⟨hend, p, fun ram' => ?_⟩
  have hstore' := Machine.store_linear (m := ⟨k', ram', fileHandles⟩) (f := startByte address) hlin1
    (Or.inl hr)
  refine ⟨_, (Machine.sysMemoryMap_file_iff hk.ok hfil.isDevice hfd hr herror).mpr
    ⟨p, k', _, hhands, hstore', bind_eq_ok.mpr ⟨_, mapError_eq_ok.mpr hbytes,
      Machine.store_linear hlin2 (Or.inl hr)⟩⟩, fun i hi => ?_⟩
  have hload : ∀ b : ℕ → UInt8,
      (Machine.mk k' b (Function.update fileHandles
        (VolumeSystem.FileHandleMask.fileHandle (FileSystem.handleOf fd))
        (some (readAt fil offset length).2))).load (r + i) =
      (translate k' (r + i)).map b := fun b => rfl
  rw [hload]
  have hmod' : (r + i) % 2 ^ 64 = r + i := Nat.mod_eq_of_lt (by unfold pageMask at hend; omega)
  have hvalue : overlay p (fun i => (readAt fil offset length).1.getD i 0)
      (readAt fil offset length).1.length (overlay p (startByte address)
        (startLength address (alignSize length pageSize)) ram') (p + i) =
      regionByte fil address length offset (fun i => ram' (p + i)) i := by
    unfold regionByte
    rw [overlay_add, overlay_add]
    split_ifs with hlow hstarted
    · exact getD_readAt hlow
    · rfl
    · rfl
  rcases hshift i hi with hnone | hsome
  · refine Or.inl ⟨by rw [hnone]; rfl, ?_, ?_⟩
    · by_contra hlow
      have := hlin2 i (by omega)
      rw [hmod', hnone] at this
      cases this
    · by_contra hlow
      have := hlin1 i (by omega)
      rw [hmod', hnone] at this
      cases this
  · refine Or.inr ?_
    rw [hsome, Option.map_some, hvalue]

theorem uint8_add_one_ne (b : UInt8) : b + 1 ≠ b := by
  intro h
  have hval := congrArg UInt8.toNat h
  have hlt := b.toNat_lt
  rw [UInt8.toNat_add, show (1 : UInt8).toNat = 1 from rfl] at hval
  omega

/-- The runs read the region right exactly when its bytes are right over any pages. -/
theorem regionReads_iff_bytes (hk : Running k) (hfil : IsFile fs fd fileHandles fil) (hfd : 0 < fd)
    (hlt : length < 2 ^ 64)
    (hpos : 0 < alignSize length pageSize) (hr : r ≠ 0) (herror : r ≠ noMemory)
    (h : (⟨k, ram, fileHandles⟩ : Machine).sysMemoryMap depth fs address length prot flags fd offset =
      .ok (r, m')) :
    RegionReads depth fs address length prot flags fd offset k fileHandles fil ↔
      ∀ pages, ∀ i < alignSize length pageSize,
        regionByte fil address length offset pages i = expectedByte fil length offset i := by
  obtain ⟨-, p, hruns⟩ := region_of_call hk hfil hfd hlt hpos hr herror h
  constructor
  · intro hreads pages i hi
    obtain ⟨m1, hm1, hload⟩ := hruns (overlay p pages (alignSize length pageSize) ram)
    have hexpected := (hreads _ _ (fun _ _ => rfl) r m1 r m1 hm1 hm1 i hi).2
    rcases hload i hi with ⟨hnone, -⟩ | hsome
    · rw [hnone] at hexpected
      cases hexpected
    · rw [hsome] at hexpected
      rw [← Option.some.inj hexpected]
      unfold regionByte
      dsimp only
      rw [overlay_add, if_pos hi]
  · intro hbytes ram1 ram2 _ r1 m1 r2 m2 h1 h2 i hi
    have hread : ∀ ram' r' m'', (⟨k, ram', fileHandles⟩ : Machine).sysMemoryMap depth fs address
        length prot flags fd offset = .ok (r', m'') →
        m''.load (r' + i) = some (expectedByte fil length offset i) := by
      intro ram' r' m'' hrun
      obtain ⟨m1', hm1', hload⟩ := hruns ram'
      obtain ⟨rfl, rfl⟩ := Prod.mk.inj (Except.ok.inj (hrun.symm.trans hm1'))
      rcases hload i hi with ⟨-, hlow, hstarted⟩ | hsome
      · -- a byte that was never written is what the page held
        have hpages := hbytes (fun _ => expectedByte fil length offset i + 1) i hi
        unfold regionByte at hpages
        rw [if_neg (by omega), if_neg (by omega)] at hpages
        exact absurd hpages (uint8_add_one_ne _)
      · rw [hsome, hbytes _ i hi]
    exact ⟨(hread _ _ _ h1).trans (hread _ _ _ h2).symm, hread _ _ _ h1⟩

end Runs

section Bytes
variable {fil : Fil} {address length offset i size : ℕ}

/-- Six bytes of each word of the pattern, and the last two zero. -/
theorem fillByte_low (h : i % 8 = 5) (hi : i < 2 ^ 48) : fillByte i ≠ 0 := by
  unfold fillByte ByteMemory.digit fillBase
  rw [h]
  intro hzero
  have hval := congrArg UInt8.toNat hzero
  rw [UInt8.toNat_ofNat'] at hval
  simp only [UInt8.toNat_zero] at hval
  omega

theorem fillByte_high (h : 6 ≤ i % 8) (hi : i < 2 ^ 48) : fillByte i = 0 := by
  have hdigit : (fillBase + i / 8) / 256 ^ (i % 8) = 0 := by
    have hlt := Nat.mod_lt i (show 0 < 8 by decide)
    refine Nat.div_eq_of_lt ?_
    calc fillBase + i / 8 < 256 ^ 6 := by
          unfold fillBase
          omega
      _ ≤ 256 ^ (i % 8) := Nat.pow_le_pow_right (by decide) h
  unfold fillByte ByteMemory.digit
  rw [hdigit]
  rfl

/-- The bytes at the end of the pages that are zero before the file is read. -/
def zeroTail (address : ℕ) : ℕ := if address = 0 then 0 else 2

/-- The file fills the pages, and it is read where the offset says, unless all that is
read is zero. -/
structure FillsPages (fil : Fil) (address length offset : ℕ) : Prop where
  length_lt : length < 2 ^ 32
  size_le : alignSize length pageSize ≤ length + zeroTail address
  file_le : fil.position offset + alignSize length pageSize ≤ fil.fSize + zeroTail address
  placed : fil.position offset = offset ∨
    ∀ i < length, fil.contents.getD (fil.position offset + i) 0 = 0

/-- Of 4 GiB nothing is read; the file is the pattern itself. -/
structure IsPattern (fil : Fil) (address length offset : ℕ) : Prop where
  given : address ≠ 0
  length_eq : length = 2 ^ 32
  file_le : offset + length ≤ fil.fSize + 2
  pattern : ∀ i < fil.fSize - offset, fil.contents.getD (offset + i) 0 = fillByte i

theorem startByte_given (ha : address ≠ 0) : startByte address i = fillByte i := if_neg ha

theorem expectedByte_eq_zero (h : fil.fSize ≤ offset + i) : expectedByte fil length offset i = 0 := by
  unfold expectedByte
  rw [getD_eq_zero h, ite_self]

/-- The bytes read are right where the offset was kept, or where all is zero. -/
theorem placed_of_bytes {n : ℕ} (hn : n = min length (fil.fSize - fil.position offset))
    (h : ∀ i < n, fil.contents.getD (fil.position offset + i) 0 = expectedByte fil length offset i) :
    fil.position offset = offset ∨
      ∀ i < length, fil.contents.getD (fil.position offset + i) 0 = 0 := by
  by_cases hpos : fil.position offset = offset
  · exact Or.inl hpos
  · refine Or.inr fun i hi => ?_
    have hsize := Fil.fSize_le_of_position_ne hpos
    by_cases hlow : i < n
    · rw [h i hlow, expectedByte_eq_zero (by omega)]
    · exact getD_eq_zero (by omega)

theorem FillsPages.read (h : FillsPages fil address length offset)
    (hi : i < min length (fil.fSize - fil.position offset)) :
    fil.contents.getD (fil.position offset + i) 0 = expectedByte fil length offset i := by
  rcases eq_or_ne (fil.position offset) offset with hpos | hpos
  · unfold expectedByte
    rw [if_pos (by omega), hpos]
  · rw [expectedByte_eq_zero ((Fil.fSize_le_of_position_ne hpos).trans (Nat.le_add_right _ _))]
    exact (h.placed.resolve_left hpos) i (by omega)

/-- Behind what is read, zero is expected. -/
theorem expectedByte_behind (hi : min length (fil.fSize - fil.position offset) ≤ i) :
    expectedByte fil length offset i = 0 := by
  by_cases hlow : i < length
  · rcases eq_or_ne (fil.position offset) offset with hpos | hpos
    · exact expectedByte_eq_zero (by omega)
    · have := Fil.fSize_le_of_position_ne hpos
      exact expectedByte_eq_zero (by omega)
  · exact if_neg hlow

/-- At an address of the kernel's choice: the read has to fill the pages. -/
theorem bytes_chosen_iff (ha : address = 0) (hlt : length < 2 ^ 64)
    (hpos : 0 < alignSize length pageSize) :
    (∀ pages, ∀ i < alignSize length pageSize,
      regionByte fil address length offset pages i = expectedByte fil length offset i) ↔
      FillsPages fil address length offset := by
  have hcount : (readAt fil offset length).1.length =
      min (length % 2 ^ 32) (fil.fSize - fil.position offset) := length_readAt
  have hle := length_le_alignSize hpos hlt
  have hmod := alignSize_mod length
  have htail : zeroTail address = 0 := if_pos ha
  have hstart : startLength address (alignSize length pageSize) = 8 := if_pos ha
  have hmodlt := Nat.mod_le length (2 ^ 32)
  constructor
  · intro h
    have hall : alignSize length pageSize ≤ (readAt fil offset length).1.length := by
      by_contra hshort
      have hlast := h (fun _ => expectedByte fil length offset (alignSize length pageSize - 1) + 1)
        (alignSize length pageSize - 1) (by omega)
      unfold regionByte at hlast
      rw [if_neg (by omega), hstart, if_neg (by omega)] at hlast
      exact uint8_add_one_ne _ hlast
    refine ⟨by omega, by omega, by omega, placed_of_bytes rfl fun i hi => ?_⟩
    have hi' := h (fun _ => 0) i (by omega)
    unfold regionByte at hi'
    rwa [if_pos (by omega)] at hi'
  · intro h pages i hi
    have hsmall := h.length_lt
    have hsize := h.size_le
    have hfile := h.file_le
    unfold regionByte
    rw [if_pos (by omega)]
    exact h.read (by omega)

/-- At an address that was given: the pattern stays behind what is read. -/
theorem bytes_given_iff (ha : address ≠ 0) (hlt : length < 2 ^ 64)
    (hpos : 0 < alignSize length pageSize) (hend : alignSize length pageSize ≤ 2 ^ 48) :
    (∀ pages, ∀ i < alignSize length pageSize,
      regionByte fil address length offset pages i = expectedByte fil length offset i) ↔
      FillsPages fil address length offset ∨ IsPattern fil address length offset := by
  have hcount : (readAt fil offset length).1.length =
      min (length % 2 ^ 32) (fil.fSize - fil.position offset) := length_readAt
  have hle := length_le_alignSize hpos hlt
  have hmod := alignSize_mod length
  have htail : zeroTail address = 2 := if_neg ha
  have hstart := startLength_given ha hmod
  have hmodlt := Nat.mod_le length (2 ^ 32)
  have hmodlt' := Nat.mod_lt length (show 0 < 2 ^ 32 by decide)
  have hfsize : fil.fSize < 2 ^ 32 := fil.size_lt
  -- what the pages held is nowhere to be read
  have hbyte : ∀ pages, ∀ i < alignSize length pageSize,
      regionByte fil address length offset pages i =
        if i < (readAt fil offset length).1.length then
          fil.contents.getD (fil.position offset + i) 0
        else fillByte i := by
    intro pages i hi
    unfold regionByte
    rw [hstart, if_pos hi, startByte_given ha]
  constructor
  · intro h
    have hread : ∀ i < alignSize length pageSize, i < (readAt fil offset length).1.length →
        fil.contents.getD (fil.position offset + i) 0 = expectedByte fil length offset i := by
      intro i hi hlow
      have := h (fun _ => 0) i hi
      rwa [hbyte _ i hi, if_pos hlow] at this
    have hfill : ∀ i < alignSize length pageSize, (readAt fil offset length).1.length ≤ i →
        fillByte i = expectedByte fil length offset i := by
      intro i hi hhigh
      have := h (fun _ => 0) i hi
      rwa [hbyte _ i hi, if_neg (by omega)] at this
    by_cases hshort : (readAt fil offset length).1.length + 2 < alignSize length pageSize
    · -- byte 5 of the last word of the pattern is not zero, so the file goes on there
      have hlast := hfill (alignSize length pageSize - 3) (by omega) (by omega)
      have hne := fillByte_low (i := alignSize length pageSize - 3) (by omega) (by omega)
      rw [hlast] at hne
      have hin : alignSize length pageSize - 3 < length := by
        by_contra hout
        exact hne (if_neg hout)
      have hfile : offset + (alignSize length pageSize - 3) < fil.fSize := by
        by_contra hout
        exact hne (expectedByte_eq_zero (by omega))
      have hplace : fil.position offset = offset := by
        by_contra hmoved
        have := Fil.fSize_le_of_position_ne hmoved
        omega
      have hlarge : 2 ^ 32 ≤ length := by
        by_contra hsmall
        rw [Nat.mod_eq_of_lt (by omega)] at hcount
        omega
      have hsize : alignSize length pageSize = 2 ^ 32 := by omega
      have hlength : length = 2 ^ 32 := by omega
      refine Or.inr ⟨ha, hlength, by omega, fun i hi => ?_⟩
      have hi' := hfill i (by omega) (by omega)
      rw [hi']
      exact (if_pos (by omega)).symm
    · have hsmall : length < 2 ^ 32 := by omega
      rw [Nat.mod_eq_of_lt hsmall] at hcount
      exact Or.inl ⟨hsmall, by omega, by omega, placed_of_bytes rfl fun i hi =>
        hread i (by omega) (by omega)⟩
  · rintro (h | h) pages i hi
    · have hsmall := h.length_lt
      have hsize := h.size_le
      have hfile := h.file_le
      rw [Nat.mod_eq_of_lt hsmall] at hcount
      rw [hbyte pages i hi]
      split_ifs with hlow
      · exact h.read (by omega)
      · rw [fillByte_high (by omega) (by omega), expectedByte_behind (by omega)]
    · have hlength := h.length_eq
      have hfile := h.file_le
      have hnone : (readAt fil offset length).1.length = 0 := by
        rw [hcount, hlength]
        simp
      have hsize : alignSize length pageSize = 2 ^ 32 := by
        rw [hlength]
        decide
      rw [hbyte pages i hi, hnone, if_neg (Nat.not_lt_zero i)]
      by_cases hin : i < fil.fSize - offset
      · rw [← h.pattern i hin]
        exact (if_pos (by omega)).symm
      · rw [expectedByte_eq_zero (by omega), fillByte_high (by omega) (by omega)]

/-- The condition under which the region reads as it should. -/
theorem regionReads_iff_fills {depth prot flags r : ℕ} {fs : FileSystem} {fd : ℤ}
    {k : KernelMemory} {ram : ℕ → UInt8} {fileHandles : FileHandles} {m' : Machine}
    (hk : Running k) (hfil : IsFile fs fd fileHandles fil) (hfd : 0 < fd) (hlt : length < 2 ^ 64)
    (hr : r ≠ 0) (herror : r ≠ noMemory)
    (h : (⟨k, ram, fileHandles⟩ : Machine).sysMemoryMap depth fs address length prot flags fd offset =
      .ok (r, m')) :
    RegionReads depth fs address length prot flags fd offset k fileHandles fil ↔
      alignSize length pageSize = 0 ∨ FillsPages fil address length offset ∨
        IsPattern fil address length offset := by
  rcases Nat.eq_zero_or_pos (alignSize length pageSize) with hzero | hpos
  · refine iff_of_true ?_ (Or.inl hzero)
    intro _ _ _ _ _ _ _ _ _ i hi
    rw [hzero] at hi
    exact absurd hi (Nat.not_lt_zero i)
  · rw [regionReads_iff_bytes hk hfil hfd hlt hpos hr herror h, or_iff_right hpos.ne']
    by_cases ha : address = 0
    · rw [bytes_chosen_iff ha hlt hpos, or_iff_left fun hpattern => hpattern.given ha]
    · have hend := (region_of_call hk hfil hfd hlt hpos hr herror h).1
      exact bytes_given_iff ha hlt hpos (by unfold pageMask at hend; omega)

end Bytes

section Example
variable {k : KernelMemory} {ram : ℕ → UInt8}

/-- A file of three bytes. -/
def threeBytes : Fil :=
  { contents := [1, 2, 3]
    fptr := 0
    size_lt := by decide
    fptr_le := by decide }

/-- FAT in every slot. -/
def fatOnly : FileSystem :=
  { volumeIndices := fun _ _ => ⟨0, some .fat, 0⟩
    framebufferBase := 0 }

/-- A descriptor of file 1 at the root. -/
def exampleFd : ℤ := 0x10000002

theorem isFile_threeBytes : IsFile fatOnly exampleFd (fun _ => some threeBytes) threeBytes :=
  ⟨rfl, by decide, by decide, rfl⟩

/-- What a mapping of three bytes does to the trees of the example machine. -/
def mapTrees : Except Fault (ℕ × ℕ) := do
  let trees ← machineTrees 16
  let (v, p, _, _) ← allocTrees 0x1000 trees
  return (v, p)

/-- On the example machine three bytes of a file are mapped at 1 GiB. -/
theorem exists_mapped_file :
    ∃ k, Reachable k ∧ ∀ ram, ∃ m', (⟨k, ram, fun _ => some threeBytes⟩ : Machine).sysMemoryMap 0
      fatOnly 0 3 0 0 exampleFd 0 = .ok (0x40000000, m') := by
  have htrees : mapTrees = .ok (0x40000000, 0x40200000) := by decide +kernel
  unfold mapTrees at htrees
  obtain ⟨k, hm, htrees⟩ := exists_machineRunning_of_bind 16 (by decide) htrees
  obtain ⟨⟨v, p, physical, virt⟩, h1, htrees⟩ := bind_eq_ok.mp htrees
  cases htrees
  have hk := hm.reachable.running
  obtain ⟨k', halloc, hk', hf, -, -, hc⟩ := virtualAlloc_enough_ok 0 hk.ok (by decide) h1
    (by decide) (by decide) (hm.missing_le (by decide)) .user pageFlagsNone
  have hhands : HandsOut 0 0 0x1000 k 0x40200000 0x40000000 k' :=
    ⟨(findMinimumSizeFreeBlock_eq hk.ok.physical _).trans (congrArg _ hf.phys),
      Or.inr ⟨rfl, by decide, halloc⟩⟩
  have hlin : Linear (translate k') 0x40000000 0x40200000 0x1000 := by
    intro i hi
    have hat := shifts_of_called hc hk.ok hk' hk.cr3 (by decide) (by decide) i hi
    have hcanonical : Canonical (0x40000000 + i) := Or.inl (by omega)
    rw [if_pos hcanonical] at hat
    rwa [Nat.mod_eq_of_lt (by omega)]
  have hread : fatOnly.volumeRead exampleFd 0 3 (fun _ => some threeBytes) = .ok _ :=
    (isFile_threeBytes.volumeRead_iff (by decide)).mpr ⟨fun _ => by decide, rfl⟩
  refine ⟨k, hm.reachable, fun ram => ⟨_, (Machine.sysMemoryMap_file_iff hk.ok
    isFile_threeBytes.isDevice
    (by decide) (by decide) (by decide)).mpr ⟨0x40200000, k', _, hhands,
      Machine.store_linear (hlin.mono (by decide)) (Or.inl (by decide)),
      bind_eq_ok.mpr ⟨_, mapError_eq_ok.mpr hread,
        Machine.store_linear (hlin.mono (by decide)) (Or.inl (by decide))⟩⟩⟩⟩

theorem not_fillsPages_threeBytes : ¬ FillsPages threeBytes 0 3 0 := fun h => by
  have hsize := h.size_le
  revert hsize
  decide

end Example

/-- Two runs of sys_memory_map on a file read the same, the file and zeros behind it,
exactly when nothing is mapped, when the file fills the pages, or when it is the
pattern itself. -/
theorem region_reads_iff (k : KernelMemory) (hk : Reachable k) (depth : ℕ) (fs : FileSystem)
    (address length prot flags : ℕ) (fd : ℤ) (offset : ℕ) (fileHandles : FileHandles) (fil : Fil)
    (hfil : IsFile fs fd fileHandles fil) (hfd : 0 < fd) (hlt : length < 2 ^ 64) (ram : ℕ → UInt8)
    (r : ℕ) (m' : Machine) (hr : r ≠ 0) (herror : r ≠ noMemory)
    (h : (⟨k, ram, fileHandles⟩ : Machine).sysMemoryMap depth fs address length prot flags fd offset =
      .ok (r, m')) :
    RegionReads depth fs address length prot flags fd offset k fileHandles fil ↔
      alignSize length pageSize = 0 ∨ FillsPages fil address length offset ∨
        IsPattern fil address length offset :=
  regionReads_iff_fills hk.running hfil hfd hlt hr herror h

theorem region_reads_iff_threeBytes :
    ∃ k, Reachable k ∧
      (RegionReads 0 fatOnly 0 3 0 0 exampleFd 0 k (fun _ => some threeBytes) threeBytes ↔
        alignSize 3 pageSize = 0 ∨ FillsPages threeBytes 0 3 0 ∨ IsPattern threeBytes 0 3 0) := by
  obtain ⟨k, hk, hrun⟩ := exists_mapped_file
  obtain ⟨m', h⟩ := hrun fun _ => 0
  exact ⟨k, hk, region_reads_iff k hk 0 fatOnly 0 3 0 0 exampleFd 0 (fun _ => some threeBytes)
    threeBytes isFile_threeBytes (by decide) (by decide) (fun _ => 0) 0x40000000 m' (by decide)
    (by decide) h⟩

/-- Behind the three bytes of the file the process reads what the page held before. -/
theorem file_region_keeps_contents :
    ∃ k, Reachable k ∧ IsFile fatOnly exampleFd (fun _ => some threeBytes) threeBytes ∧
      (∀ ram, ∃ m', (⟨k, ram, fun _ => some threeBytes⟩ : Machine).sysMemoryMap 0 fatOnly 0 3 0 0
        exampleFd 0 = .ok (0x40000000, m')) ∧
      ¬ RegionReads 0 fatOnly 0 3 0 0 exampleFd 0 k (fun _ => some threeBytes) threeBytes := by
  obtain ⟨k, hk, hrun⟩ := exists_mapped_file
  refine ⟨k, hk, isFile_threeBytes, hrun, fun hreads => ?_⟩
  obtain ⟨m', h⟩ := hrun fun _ => 0
  rcases (regionReads_iff_fills hk.running isFile_threeBytes (by decide) (by decide) (by decide)
    (by decide) h).mp hreads with hzero | hfills | hpattern
  · exact absurd hzero (by decide)
  · exact not_fillsPages_threeBytes hfills
  · exact hpattern.given rfl

end Enkel.FileMapping
