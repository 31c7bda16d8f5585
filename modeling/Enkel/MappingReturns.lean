import Enkel.RegionReads
import Enkel.ServedRefills

/-!
When sys_memory_map returns. Its loop asks whether the pages are mapped, and
nothing else: the alignment of the address, an empty range, a failed search and
a file that cannot be read are left to MapPages, TagRange and the stores, which
assert or run into the null page.
-/
namespace Enkel.FileMapping

open Outcome MemoryState Paging KernelMemory TranslatedMemory

section Condition
variable (depth : ℕ) (fs : FileSystem) (k : KernelMemory) (fileHandles : FileHandles)
  (address length : ℕ) (fd : ℤ) (offset size : ℕ)

/-- An address that is given can be mapped: it is the address of a page, the range
ends in the lower half, and the frames that the search finds, or those from 0 on,
exist. An empty range is tagged too, and must not be found Free. -/
structure GivenFits : Prop where
  page : PageAddress address
  frames : ∃ p, k.physicalMemoryState.findMinimumSizeFreeBlock size = .ok p ∧
    p + size ≤ k.physicalMemoryState.highestAddress ∧
    (size = 0 → k.physicalMemoryState.getPageState p ≠ .free)
  below : size = 0 ∨ address + size ≤ 2 ^ 47
  occupied : size = 0 → k.virtualMemoryState.getPageState address ≠ .free

/-- The file can be read to an address that is given. When no page was mapped there,
what is read needs pages of its own. -/
def GivenReads : Prop :=
  0 < fd → ∃ bytes files, fs.volumeRead fd offset length fileHandles = .ok (bytes, files) ∧
    (size = 0 → ∀ i < bytes.length, (translate k ((address + i) % 2 ^ 64)).isSome)

/-- After a failed search nothing is written through the null pointer. -/
def NullFits : Prop :=
  (fd = -1 → size = 0) ∧
    (0 < fd → ∃ files, fs.volumeRead fd offset length fileHandles = .ok ([], files))

/-- There is room for a new block: the search for addresses succeeds below the upper
half, the refills on the way return, and the file can be read. -/
structure ChosenFits (p : ℕ) : Prop where
  pos : 0 < size
  room : ∃ v, k.virtualMemoryState.findMinimumSizeFreeBlock size = .ok v ∧ v ≠ 0 ∧ v < 2 ^ 47 ∧
    CallRefills (Served (getPML4FreePage depth)) depth v p size (allocMapping .user pageFlagsNone) k ∧
    (fd = -1 → v + size ≤ 2 ^ 47) ∧
    (0 < fd → ∃ bytes files, fs.volumeRead fd offset length fileHandles = .ok (bytes, files) ∧
      v + bytes.length ≤ 2 ^ 47)

/-- The condition under which the system call returns. -/
def Returns : Prop :=
  if address ≠ 0 then
    allMapped k address (alignSize length pageSize) →
      GivenFits k address (alignSize length pageSize) ∧
      (fs.isDevice fd = false →
        GivenReads fs k fileHandles address length fd offset (alignSize length pageSize))
  else
    takesMemory fs.volumes fd →
      ∃ p, k.physicalMemoryState.findMinimumSizeFreeBlock (alignSize length pageSize) = .ok p ∧
        if p = 0 then NullFits fs fileHandles length fd offset (alignSize length pageSize)
        else ChosenFits depth fs k fileHandles length fd offset (alignSize length pageSize) p

end Condition

section Address
variable {k kt k' : KernelMemory} {m : Mapping} {r p size n : ℕ}

theorem canonical_iff {x : ℕ} (hx : x < 2 ^ 48) : Canonical x ↔ x < 2 ^ 47 := by
  unfold Canonical
  omega

theorem canonical_of_translate {x : ℕ} (h : (translate k x).isSome) : Canonical x := by
  unfold translate at h
  split_ifs at h with hboth
  · exact hboth.1
  · cases h

/-- A range below the upper half that was mapped is shifted to its frames. -/
theorem linear_of_called {refill : Prop} (hc : Called refill m r p size k kt k') (hk : Ok k)
    (hk' : Ok k') (hcr3 : k.cr3 = k.pml4) (hm : m.newState ≠ .free) (hend : r + size ≤ pageMask)
    (hle : n ≤ size) (hlow : r + n ≤ 2 ^ 47) : Linear (translate k') r p n := by
  intro i hi
  have hat := shifts_of_called hc hk hk' hcr3 hm hend i (by omega)
  rw [if_pos ((canonical_iff (by omega)).mpr (by omega))] at hat
  rwa [Nat.mod_eq_of_lt (by omega)]

/-- A range whose bytes are all translated ends in the lower half. -/
theorem end_le_of_translated (hend : r + n ≤ 2 ^ 48) (hpos : 0 < n)
    (h : ∀ i < n, (translate k ((r + i) % 2 ^ 64)).isSome) : r + n ≤ 2 ^ 47 := by
  have hlast := canonical_of_translate (h (n - 1) (by omega))
  rw [Nat.mod_eq_of_lt (by omega), canonical_iff (by omega)] at hlast
  omega

end Address

section Given
variable {depth address size p : ℕ} {k k' : KernelMemory}

theorem tablesPresent_of_allMapped (hk : Running k) (h : allMapped k address size) :
    TablesPresent k address size := by
  intro i hi
  have hmapped := h i hi
  rw [getPhysicalAddress_live hk.ok hk.cr3] at hmapped
  exact tableAt_of_frame ((getPhysicalAddress_ne_invalid hk.ok.tables _).mp hmapped)

/-- A call that returns on an empty range has found neither page Free, and changes the
trees only. -/
theorem mapPages_empty_eq_ok (hk : Running k) {m : Mapping} (hm : m.newState = .used)
    (h : k.mapPages depth address p 0 m = .ok k') :
    k.physicalMemoryState.getPageState p ≠ .free ∧
      k.virtualMemoryState.getPageState address ≠ .free ∧
      ∃ physical virt, k' = withTrees k physical virt := by
  obtain ⟨hk', kt, hc⟩ := mapPages_eq_ok hk.ok (by decide) h
  obtain ⟨physical, virt, hphysical, hvirt, hloop⟩ := mapPages_loop h
  have hp := hc.physical_page
  have hv := hc.virtual_page
  have hpend : physicalEnd p 0 = p := by
    have := hp.lt
    rw [physicalEnd_of_lt hp (by decide) (by omega), Nat.add_zero]
  have hvend : add64 address 0 = address := by
    have := hv.lt
    rw [add64_of_lt (by omega), Nat.add_zero]
  have hturns : callTurns address 0 = 0 := by
    rw [callTurns_of_lt hv (by decide) (by have := hv.lt; omega)]
  rw [hpend, hm] at hphysical
  rw [hvend, hm] at hvirt
  rw [hturns] at hloop
  refine ⟨?_, ?_, physical, virt, (Except.ok.inj hloop).symm⟩
  · have hle := (tagRange_eq_ok hk.ok.physical hphysical).2.2.1
    exact (tagRange_empty_meets hk.ok.physical hle).of_eq_ok hphysical
  · have hle := (tagRange_eq_ok hk.ok.virt hvirt).2.2.1
    exact (tagRange_empty_meets hk.ok.virt hle).of_eq_ok hvirt

/-- Tags of an empty range fail an assertion where the page is Free, and nowhere else. -/
theorem tagsFail_empty (hk : Running k) (hv : PageAddress address) (hp : PageAddress p)
    (hple : p ≤ k.physicalMemoryState.highestAddress)
    (hphys : k.physicalMemoryState.getPageState p ≠ .free)
    (hvirt : k.virtualMemoryState.getPageState address ≠ .free) {e : Fault}
    (he : TagsFail userMapping k address p 0 e) : e.NodeListEmpty := by
  have hvlt := hv.lt
  have hplt := hp.lt
  have hvle : address ≤ k.virtualMemoryState.highestAddress := by
    have := hv.mod
    rw [hk.ok.virt_highest]
    unfold pageMask
    omega
  have hpend : physicalEnd p 0 = p := by
    rw [physicalEnd_of_lt hp (by decide) (by omega), Nat.add_zero]
  have hvend : add64 address 0 = address := by
    rw [add64_of_lt (by omega), Nat.add_zero]
  unfold TagsFail at he
  rw [hpend, hvend] at he
  have herror : ∀ {m : MemoryState} {low : ℕ}, m.Valid → low ≤ m.highestAddress →
      m.getPageState low ≠ .free → m.tagRange low low .used = .error e → e.NodeListEmpty := by
    intro m low hm hle hstate hfail
    rcases (tagRange_empty_meets hm hle).ok_or_error with ⟨m', hok, -⟩ | ⟨e', he', hcase⟩
    · rw [hfail] at hok
      cases hok
    · obtain rfl := Except.error.inj (hfail.symm.trans he')
      exact hcase.resolve_left hstate
  rcases he with he | he
  · exact herror hk.ok.physical hple hphys he
  · exact herror hk.ok.virt hvle hvirt he

/-- What the system call does at an address that fits: it maps the range, unless the
run reaches a limit. -/
theorem GivenFits.mapPages (h : GivenFits k address size) (hk : Running k)
    (hlt : size < 2 ^ 64) (hmod : size % 4096 = 0) (hmapped : allMapped k address size) (depth : ℕ) :
    ∃ p, k.physicalMemoryState.findMinimumSizeFreeBlock size = .ok p ∧
      Meets Fault.Limit (fun k' => (0 < size → Linear (translate k') address p size) ∧
        (size = 0 → translate k' = translate k))
        (k.mapPages depth address p size userMapping) := by
  obtain ⟨p, hp, hple, hpstate⟩ := h.frames
  have hfit := hp
  rw [findMinimumSizeFreeBlock_eq hk.ok.physical] at hfit
  have hfit := Except.ok.inj hfit
  have hpage : PageAddress p := by
    have hH := hk.ok.physical.lt
    by_cases hzero : p = 0
    · rw [hzero]
      exact ⟨by decide, by decide⟩
    · exact ⟨(firstFit_spec hk.ok.physical hfit hzero).1, by omega⟩
  have htables := (tablesPresent_of_allMapped hk hmapped).enough
  refine ⟨p, hp, meets_mono (meets_and (mapPages_enough_meets depth hk.ok hlt htables)
    (meets_self (k.mapPages depth address p size userMapping))) (fun e he => ?_) fun k' hr => ?_⟩
  · rcases he.1 with (hfalse | ⟨hfalse, -⟩) | ⟨-, he⟩ | ⟨-, he⟩ | ⟨hargs, -⟩ | ⟨hfail, hvalid, -⟩
    · exact hfalse.elim
    · exact hfalse.elim
    · exact Or.inl he
    · exact Or.inr (Or.inr (Or.inr he))
    · exact absurd ⟨h.page, hpage, hmod⟩ hargs
    · rcases Nat.eq_zero_or_pos size with rfl | hpos
      · exact Or.inl (tagsFail_empty hk h.page hpage (by omega) (hpstate rfl) (h.occupied rfl) hfail)
      · have hbelow := h.below.resolve_left hpos.ne'
        exact absurd ⟨hpos, hple, by unfold pageMask; omega⟩ hvalid
  · obtain ⟨⟨hk', -, -, kt, hc⟩, hok⟩ := hr
    refine ⟨fun hpos => ?_, fun hzero => ?_⟩
    · have hbelow := h.below.resolve_left hpos.ne'
      exact linear_of_called hc hk.ok hk' hk.cr3 (by decide) (by unfold pageMask; omega) le_rfl hbelow
    · subst hzero
      obtain ⟨-, -, physical, virt, rfl⟩ := mapPages_empty_eq_ok hk rfl hok
      rfl

/-- An address at which the call has mapped and filled its range fits. -/
theorem givenFits_of_ok (hk : Running k) (hlt : size < 2 ^ 64) (hmod : size % 4096 = 0)
    (ha : address ≠ 0) {ram : ℕ → UInt8} {fileHandles : FileHandles} {m1 : Machine}
    (hmapped : allMapped k address size)
    (hp : k.physicalMemoryState.findMinimumSizeFreeBlock size = .ok p)
    (hmap : k.mapPages depth address p size userMapping = .ok k')
    (hfill : (⟨k', ram, fileHandles⟩ : Machine).fillUnique address size = .ok m1) :
    GivenFits k address size := by
  obtain ⟨hk', kt, hc⟩ := mapPages_eq_ok hk.ok hlt hmap
  rcases Nat.eq_zero_or_pos size with rfl | hpos
  · obtain ⟨hphys, hvirt, -⟩ := mapPages_empty_eq_ok hk rfl hmap
    obtain ⟨physical, virt, hphysical, -⟩ := mapPages_loop hmap
    have hple := (tagRange_eq_ok hk.ok.physical hphysical).2.2.1
    have hpend : physicalEnd p 0 = p := by
      have := hc.physical_page.lt
      rw [physicalEnd_of_lt hc.physical_page (by decide) (by omega), Nat.add_zero]
    exact ⟨hc.virtual_page, ⟨p, hp, by omega, fun _ => hphys⟩, Or.inl rfl, fun _ => hvirt⟩
  · have hhands : HandsOut depth address size k p address k' :=
      ⟨hp, Or.inl ⟨ha, hmapped, rfl, hmap⟩⟩
    have hlength := startLength_given ha hmod
    have hstore : (⟨k', ram, fileHandles⟩ : Machine).store address (startByte address)
        (startLength address size) = .ok m1 := by
      have hstart : startByte address = fillByte := by
        funext i
        exact if_neg ha
      rw [hstart]
      unfold startLength
      rw [if_neg ha]
      exact hfill
    obtain ⟨hend, -⟩ := hhands.region hk hlt hmod hpos ha hstore
    have hsome := (Machine.translated_of_store hstore).1
    rw [hlength] at hsome
    have hbelow := end_le_of_translated (by unfold pageMask at hend; omega) hpos hsome
    have hturns : 0 < callTurns address size := by
      rw [callTurns_of_lt hc.virtual_page hmod (by omega)]
      omega
    exact ⟨hc.virtual_page, ⟨p, hp, (hc.bounds hturns).2.2, fun h => absurd h hpos.ne'⟩,
      Or.inr hbelow, fun h => absurd h hpos.ne'⟩

end Given

section Second
variable {depth address length offset n : ℕ} {fs : FileSystem} {fd : ℤ} {m : Machine}
  {f : ℕ → UInt8}

/-- A store of `n` bytes succeeds: none is needed, or the buffer is not null and every
byte has its place. -/
def Machine.Writable (m : Machine) (address n : ℕ) : Prop :=
  (n = 0 ∨ address ≠ 0) ∧ ∀ i < n, (translate m.memory ((address + i) % 2 ^ 64)).isSome

theorem Machine.exists_store_iff : (∃ m', m.store address f n = .ok m') ↔ m.Writable address n := by
  constructor
  · rintro ⟨m', h⟩
    obtain ⟨hsome, hnull⟩ := translated_of_store h
    exact ⟨hnull.symm, hsome⟩
  · rintro ⟨hnull, hsome⟩
    obtain ⟨ram, hram⟩ := Option.isSome_iff_exists.mp
      ((storeBytes_isSome_iff (f := f)).mpr hsome : (storeBytes _ _ f n m.ram).isSome)
    unfold store
    split_ifs with hn
    · exact ⟨m, rfl⟩
    · rw [require_true (hnull.resolve_left hn), ok_bind, hram]
      exact ⟨_, rfl⟩

theorem Machine.exists_volumeRead_iff {buffer : ℕ} :
    (∃ m', m.volumeRead fs fd offset buffer length = .ok m') ↔
      ∃ bytes files, fs.volumeRead fd offset length m.fileHandles = .ok (bytes, files) ∧
        m.Writable buffer bytes.length := by
  constructor
  · rintro ⟨m', h⟩
    obtain ⟨⟨bytes, files⟩, hread, h⟩ := bind_eq_ok.mp h
    exact ⟨bytes, files, mapError_eq_ok.mp hread,
      (exists_store_iff (m := { m with fileHandles := files })).mp ⟨m', h⟩⟩
  · rintro ⟨bytes, files, hread, hwritable⟩
    obtain ⟨m', hstore⟩ := (exists_store_iff (m := { m with fileHandles := files })
      (f := fun i => bytes.getD i 0)).mpr hwritable
    exact ⟨m', bind_eq_ok.mpr ⟨(bytes, files), mapError_eq_ok.mpr hread, hstore⟩⟩

/-- The memory that is handed out takes what is written to it. -/
structure Takes (fs : FileSystem) (length : ℕ) (fd : ℤ) (offset memory : ℕ) (m : Machine) : Prop where
  anonymous : fd = -1 → m.Writable memory (alignSize length pageSize)
  file : 0 < fd → ∃ bytes files, fs.volumeRead fd offset length m.fileHandles = .ok (bytes, files) ∧
    m.Writable memory bytes.length

/-- The second half returns when no memory is asked for, or when it is there. -/
theorem Machine.exists_returnMemory_iff :
    (∃ r m', m.returnMemory depth fs address length fd offset = .ok (r, m')) ↔
      (takesMemory fs.volumes fd → ∃ memory m1,
        m.givenMemory depth address (alignSize length pageSize) = .ok (memory, m1) ∧
        Takes fs length fd offset memory m1) := by
  have hvolumes : fs.volumes.isDevice fd = fs.isDevice fd := rfl
  unfold takesMemory returnMemory
  rw [hvolumes]
  by_cases hdevice : fs.isDevice fd = true
  · rw [if_pos hdevice, hdevice]
    exact iff_of_true ⟨_, _, rfl⟩ fun h => absurd h.1 (by decide)
  rw [if_neg hdevice]
  rw [Bool.not_eq_true] at hdevice
  by_cases hanonymous : fd = -1
  · rw [if_pos hanonymous]
    constructor
    · rintro ⟨r, m', h⟩ -
      obtain ⟨⟨memory, m1⟩, hgiven, h⟩ := bind_eq_ok.mp h
      obtain ⟨m2, hset, h⟩ := bind_eq_ok.mp h
      exact ⟨memory, m1, hgiven, fun _ => exists_store_iff.mp ⟨m2, hset⟩, fun hfd => by omega⟩
    · intro h
      obtain ⟨memory, m1, hgiven, htakes⟩ := h ⟨hdevice, Or.inl hanonymous⟩
      obtain ⟨m2, hset⟩ := exists_store_iff.mpr (htakes.anonymous hanonymous)
      exact ⟨memory, m2, bind_eq_ok.mpr ⟨_, hgiven, bind_eq_ok.mpr ⟨m2, hset, rfl⟩⟩⟩
  rw [if_neg hanonymous]
  by_cases hfd : 0 < fd
  · rw [if_pos hfd]
    constructor
    · rintro ⟨r, m', h⟩ -
      obtain ⟨⟨memory, m1⟩, hgiven, h⟩ := bind_eq_ok.mp h
      obtain ⟨m2, hread, h⟩ := bind_eq_ok.mp h
      exact ⟨memory, m1, hgiven, fun h => absurd h hanonymous,
        fun _ => exists_volumeRead_iff.mp ⟨m2, hread⟩⟩
    · intro h
      obtain ⟨memory, m1, hgiven, htakes⟩ := h ⟨hdevice, Or.inr hfd⟩
      obtain ⟨m2, hread⟩ := exists_volumeRead_iff.mpr (htakes.file hfd)
      exact ⟨memory, m2, bind_eq_ok.mpr ⟨_, hgiven, bind_eq_ok.mpr ⟨m2, hread, rfl⟩⟩⟩
  · rw [if_neg hfd]
    exact iff_of_true ⟨_, _, rfl⟩ fun h => absurd h.2 (by tauto)

end Second

section Halves
variable {depth address length prot flags offset size p : ℕ} {fs : FileSystem} {fd : ℤ}
  {k : KernelMemory} {ram : ℕ → UInt8} {fileHandles : FileHandles}

theorem writable_of_linear {m : Machine} {v n : ℕ} (h : Linear (translate m.memory) v p n)
    (hv : v ≠ 0) : m.Writable v n :=
  ⟨Or.inr hv, fun i hi => by rw [h i hi, Option.isSome_some]⟩

theorem mapFixed_eq_none (ha : address ≠ 0) (hmapped : ¬ allMapped k address size) :
    (⟨k, ram, fileHandles⟩ : Machine).mapFixed depth address size = .ok none := by
  unfold Machine.mapFixed Paging.mapFixed
  rw [if_neg ha, if_neg hmapped]
  rfl

/-- At an address that was given, the run returns when the range fits and the file
can be read, or when a page is not mapped. -/
theorem returns_given_iff (hk : Running k) (ha : address ≠ 0) (hlt : length < 2 ^ 64)
    (hlimit : ∀ e, (⟨k, ram, fileHandles⟩ : Machine).sysMemoryMap depth fs address length prot flags
      fd offset = .error (.memory e) → ¬ e.Limit) :
    (∃ r m', (⟨k, ram, fileHandles⟩ : Machine).sysMemoryMap depth fs address length prot flags fd
        offset = .ok (r, m')) ↔
      (allMapped k address (alignSize length pageSize) →
        GivenFits k address (alignSize length pageSize) ∧ (fs.isDevice fd = false →
          GivenReads fs k fileHandles address length fd offset (alignSize length pageSize))) := by
  have hsize := alignSize_lt length
  have hmod := alignSize_mod length
  have hgivenMemory : ∀ m : Machine, m.givenMemory depth address (alignSize length pageSize) =
      .ok (address, m) := fun m => by
    unfold Machine.givenMemory
    rw [if_pos ha]
  unfold Machine.sysMemoryMap at hlimit ⊢
  constructor
  · rintro ⟨r, m', h⟩ hmapped
    obtain ⟨given, hfixed, h⟩ := bind_eq_ok.mp h
    cases given with
    | none =>
      have hnone := Machine.memory_of_mapFixed hfixed
      unfold Paging.mapFixed at hnone
      rw [if_neg ha, if_pos hmapped] at hnone
      obtain ⟨p, -, hnone⟩ := bind_eq_ok.mp hnone
      obtain ⟨k', -, hnone⟩ := bind_eq_ok.mp hnone
      cases pure_eq_ok.mp hnone
    | some m1 =>
      obtain ⟨-, p, k', hp, hmap, hfill⟩ := (Machine.mapFixed_eq_some_iff ha).mp hfixed
      have hfits := givenFits_of_ok hk hsize hmod ha hmapped hp hmap hfill
      refine ⟨hfits, fun hdevice hfd => ?_⟩
      obtain ⟨memory, m2, hgiven, htakes⟩ := Machine.exists_returnMemory_iff.mp ⟨r, m', h⟩
        ⟨hdevice, Or.inr hfd⟩
      rw [hgivenMemory] at hgiven
      obtain ⟨rfl, rfl⟩ := Prod.mk.inj (Except.ok.inj hgiven)
      obtain ⟨bytes, files, hread, -, hsome⟩ := htakes.file hfd
      obtain ⟨ram1, rfl⟩ := Machine.store_eq_ok hfill
      refine ⟨bytes, files, hread, fun hzero => ?_⟩
      obtain ⟨p', hp', hmeets⟩ := hfits.mapPages hk hsize hmod hmapped depth
      obtain rfl := Except.ok.inj (hp.symm.trans hp')
      have hsame := (hmeets.of_eq_ok hmap).2 hzero
      dsimp only at hsome
      rwa [hsame] at hsome
  · intro h
    by_cases hmapped : allMapped k address (alignSize length pageSize)
    · obtain ⟨hfits, hreads⟩ := h hmapped
      obtain ⟨p, hp, hmeets⟩ := hfits.mapPages hk hsize hmod hmapped depth
      rcases hmeets.ok_or_error with ⟨k', hmap, hlinear, hsame⟩ | ⟨e, hmap, he⟩
      · have hfill : (⟨k', ram, fileHandles⟩ : Machine).Writable address
            (8 * (alignSize length pageSize / 8)) := by
          rcases Nat.eq_zero_or_pos (alignSize length pageSize) with hzero | hpos
          · rw [hzero]
            exact ⟨Or.inl rfl, fun i hi => absurd hi (Nat.not_lt_zero i)⟩
          · exact writable_of_linear ((hlinear hpos).mono (Nat.mul_div_le _ _)) ha
        obtain ⟨m1, hm1⟩ := (Machine.exists_store_iff (f := fillByte)).mpr hfill
        have hfixed : (⟨k, ram, fileHandles⟩ : Machine).mapFixed depth address
            (alignSize length pageSize) = .ok (some m1) :=
          (Machine.mapFixed_eq_some_iff ha).mpr ⟨hmapped, p, k', hp, hmap, hm1⟩
        obtain ⟨ram1, rfl⟩ := Machine.store_eq_ok hm1
        rw [hfixed, ok_bind]
        refine Machine.exists_returnMemory_iff.mpr fun htake => ⟨address, _, hgivenMemory _, ?_⟩
        have hdevice : fs.isDevice fd = false := htake.1
        refine ⟨fun hanonymous => ?_, fun hfd => ?_⟩
        · rcases Nat.eq_zero_or_pos (alignSize length pageSize) with hzero | hpos
          · rw [hzero]
            exact ⟨Or.inl rfl, fun i hi => absurd hi (Nat.not_lt_zero i)⟩
          · exact writable_of_linear (hlinear hpos) ha
        · obtain ⟨bytes, files, hread, hplaces⟩ := hreads hdevice hfd
          refine ⟨bytes, files, hread, ?_⟩
          rcases Nat.eq_zero_or_pos (alignSize length pageSize) with hzero | hpos
          · refine ⟨Or.inr ha, ?_⟩
            dsimp only
            rw [hsame hzero]
            exact hplaces hzero
          · have hle : bytes.length ≤ length := FileSystem.length_volumeRead_le hread
            have hle' := length_le_alignSize hpos hlt
            exact writable_of_linear ((hlinear hpos).mono (hle.trans hle')) ha
      · refine absurd he (hlimit e ?_)
        unfold Machine.mapFixed Paging.mapFixed
        rw [if_neg ha, if_pos hmapped, hp, ok_bind, hmap]
        rfl
    · rw [mapFixed_eq_none ha hmapped]
      exact ⟨_, _, rfl⟩

/-- VirtualAlloc after both searches: MapPages, and the address. -/
theorem virtualAlloc_eq {v : ℕ} (hp : k.physicalMemoryState.findMinimumSizeFreeBlock size = .ok p)
    (hzero : p ≠ 0) (hv : k.virtualMemoryState.findMinimumSizeFreeBlock size = .ok v) :
    k.virtualAlloc depth size .user pageFlagsNone = (do
      let k' ← k.mapPages depth v p size (allocMapping .user pageFlagsNone)
      return (v, k')) := by
  unfold KernelMemory.virtualAlloc virtualAllocWith KernelMemory.mapPages
  rw [hp, ok_bind, if_neg hzero, hv, ok_bind]

/-- After a failed search the null pointer takes nothing. -/
theorem takes_null_iff {m : Machine} (hm : m.fileHandles = fileHandles) :
    Takes fs length fd offset 0 m ↔
      NullFits fs fileHandles length fd offset (alignSize length pageSize) := by
  have hnull : ∀ n, m.Writable 0 n ↔ n = 0 := fun n => by
    refine ⟨fun h => h.1.resolve_right (not_not.mpr rfl), ?_⟩
    rintro rfl
    exact ⟨Or.inl rfl, fun i hi => absurd hi (Nat.not_lt_zero i)⟩
  constructor
  · intro h
    refine ⟨fun hanonymous => (hnull _).mp (h.anonymous hanonymous), fun hfd => ?_⟩
    obtain ⟨bytes, files, hread, hwritable⟩ := h.file hfd
    rw [hm] at hread
    obtain rfl := List.length_eq_zero_iff.mp ((hnull _).mp hwritable)
    exact ⟨files, hread⟩
  · rintro ⟨hanonymous, hfile⟩
    refine ⟨fun h => (hnull _).mpr (hanonymous h), fun hfd => ?_⟩
    obtain ⟨files, hread⟩ := hfile hfd
    exact ⟨[], files, by rw [hm, hread], (hnull _).mpr rfl⟩

/-- A new block that takes what is written to it was found below the upper half. -/
theorem chosenFits_of_takes (hk : Running k) (hlt : length < 2 ^ 64)
    (hp : k.physicalMemoryState.findMinimumSizeFreeBlock (alignSize length pageSize) = .ok p)
    (hzero : p ≠ 0) {r : ℕ} {m1 : Machine}
    (halloc : (⟨k, ram, fileHandles⟩ : Machine).virtualAlloc depth (alignSize length pageSize) =
      .ok (r, m1)) (htakes : Takes fs length fd offset r m1) :
    ChosenFits depth fs k fileHandles length fd offset (alignSize length pageSize) p := by
  have hsize := alignSize_lt length
  have hmod := alignSize_mod length
  obtain ⟨k', hcall, hstore⟩ := (Machine.virtualAlloc_found_iff hp hzero).mp halloc
  obtain ⟨hfirst, hnull⟩ := Machine.translated_of_store hstore
  have hr : r ≠ 0 := hnull.resolve_right (by decide)
  obtain ⟨ram1, rfl⟩ := Machine.store_eq_ok hstore
  have hv := findMinimumSizeFreeBlock_eq hk.ok.virt (alignSize length pageSize)
  rw [virtualAlloc_eq hp hzero hv] at hcall
  obtain ⟨k1, hmap, hcall⟩ := bind_eq_ok.mp hcall
  obtain ⟨hrv, rfl⟩ := Prod.mk.inj (pure_eq_ok.mp hcall)
  rw [hrv] at hv hmap
  have hfit := hp
  rw [findMinimumSizeFreeBlock_eq hk.ok.physical] at hfit
  have hfit := Except.ok.inj hfit
  have hf : Found k r p (alignSize length pageSize) := ⟨hrv, hfit, hr, hzero⟩
  have hend := hf.virt_le hk.ok
  unfold pageMask at hend
  have hpos : 0 < alignSize length pageSize := by
    refine Nat.pos_of_ne_zero fun hempty => ?_
    rw [hempty] at hmap hfit
    exact (mapPages_empty_eq_ok hk rfl hmap).1
      ((firstFit_spec hk.ok.physical hfit hzero).2.2.2.2 p le_rfl (Or.inr rfl))
  have hlow : r < 2 ^ 47 := by
    have hcanonical := canonical_of_translate (hfirst 0 (by decide))
    rw [Nat.add_zero, Nat.mod_eq_of_lt (by omega), canonical_iff (by omega)] at hcanonical
    exact hcanonical
  refine ⟨hpos, r, hv, hr, hlow, served_of_mapPages (by decide) hmap, fun hanonymous => ?_,
    fun hfd => ?_⟩
  · exact end_le_of_translated (by omega) hpos (htakes.anonymous hanonymous).2
  · obtain ⟨bytes, files, hread, -, hsome⟩ := htakes.file hfd
    refine ⟨bytes, files, hread, ?_⟩
    have hle : bytes.length ≤ length := FileSystem.length_volumeRead_le hread
    have hle' := length_le_alignSize hpos hlt
    rcases Nat.eq_zero_or_pos bytes.length with hnone | hsomeBytes
    · omega
    · exact end_le_of_translated (by omega) hsomeBytes hsome

/-- With room for a new block VirtualAlloc returns one that takes what is written to
it, unless the run reaches a limit. -/
theorem ChosenFits.takes (hk : Running k) (hlt : length < 2 ^ 64)
    (hp : k.physicalMemoryState.findMinimumSizeFreeBlock (alignSize length pageSize) = .ok p)
    (hzero : p ≠ 0)
    (h : ChosenFits depth fs k fileHandles length fd offset (alignSize length pageSize) p)
    (ram : ℕ → UInt8) :
    (∃ r m1, (⟨k, ram, fileHandles⟩ : Machine).virtualAlloc depth (alignSize length pageSize) =
      .ok (r, m1) ∧ Takes fs length fd offset r m1) ∨
    ∃ e, (⟨k, ram, fileHandles⟩ : Machine).virtualAlloc depth (alignSize length pageSize) =
      .error (.memory e) ∧ e.Limit := by
  have hsize := alignSize_lt length
  have hmod := alignSize_mod length
  obtain ⟨v, hv, hv0, hlow, hserved, hanonymous, hfile⟩ := h.room
  have hfit := hp
  rw [findMinimumSizeFreeBlock_eq hk.ok.physical] at hfit
  have hvfit := hv
  rw [findMinimumSizeFreeBlock_eq hk.ok.virt] at hvfit
  have hf : Found k v p (alignSize length pageSize) :=
    ⟨Except.ok.inj hvfit, Except.ok.inj hfit, hv0, hzero⟩
  have hend := hf.virt_le hk.ok
  have hpage := (hf.pageAddress hk.ok).1.mod
  rcases (mapPages_served_meets hk.ok hsize (by decide) hserved).ok_or_error with
    ⟨k', hmap, hk', kt, hc⟩ | ⟨e, hmap, he⟩
  · refine Or.inl ⟨v, ?_⟩
    have hlinear : ∀ n, n ≤ alignSize length pageSize → v + n ≤ 2 ^ 47 →
        Linear (translate k') v p n := fun n hn hnlow =>
      linear_of_called hc hk.ok hk' hk.cr3 (by decide) hend hn hnlow
    have hpos := h.pos
    have hword : (⟨k', ram, fileHandles⟩ : Machine).Writable v 8 :=
      writable_of_linear (hlinear 8 (by omega) (by omega)) hv0
    obtain ⟨m1, hm1⟩ := (Machine.exists_store_iff (f := ByteMemory.digit 0)).mpr hword
    refine ⟨m1, (Machine.virtualAlloc_found_iff hp hzero).mpr ⟨k', ?_, hm1⟩, ?_⟩
    · rw [virtualAlloc_eq hp hzero hv, hmap]
      rfl
    · obtain ⟨ram1, rfl⟩ := Machine.store_eq_ok hm1
      refine ⟨fun h => writable_of_linear (hlinear _ le_rfl (hanonymous h)) hv0, fun hfd => ?_⟩
      obtain ⟨bytes, files, hread, hbytes⟩ := hfile hfd
      have hle : bytes.length ≤ length := FileSystem.length_volumeRead_le hread
      have hle' := length_le_alignSize hpos hlt
      exact ⟨bytes, files, hread, writable_of_linear (hlinear _ (hle.trans hle') hbytes) hv0⟩
  · refine Or.inr ⟨e, ?_, ?_⟩
    · unfold Machine.virtualAlloc
      rw [hp, virtualAlloc_eq hp hzero hv, hmap]
      rfl
    · rcases hf.callFault hk.ok h.pos hmod he with (he | ⟨-, he⟩) | ⟨-, he⟩
      · exact Or.inr (Or.inl he)
      · exact Or.inr (Or.inr (Or.inr he))
      · exact Or.inl he

/-- At an address of the kernel's choice, the run returns when no memory is asked for,
or when there is room for it. -/
theorem returns_chosen_iff (hk : Running k) (hlt : length < 2 ^ 64)
    (hlimit : ∀ e, (⟨k, ram, fileHandles⟩ : Machine).sysMemoryMap depth fs 0 length prot flags
      fd offset = .error (.memory e) → ¬ e.Limit) :
    (∃ r m', (⟨k, ram, fileHandles⟩ : Machine).sysMemoryMap depth fs 0 length prot flags fd
        offset = .ok (r, m')) ↔
      (takesMemory fs.volumes fd → ∃ p,
        k.physicalMemoryState.findMinimumSizeFreeBlock (alignSize length pageSize) = .ok p ∧
        if p = 0 then NullFits fs fileHandles length fd offset (alignSize length pageSize)
        else ChosenFits depth fs k fileHandles length fd offset (alignSize length pageSize) p) := by
  have hcall : (⟨k, ram, fileHandles⟩ : Machine).sysMemoryMap depth fs 0 length prot flags fd offset =
      (⟨k, ram, fileHandles⟩ : Machine).returnMemory depth fs 0 length fd offset := rfl
  have hgiven : (⟨k, ram, fileHandles⟩ : Machine).givenMemory depth 0 (alignSize length pageSize) =
      (⟨k, ram, fileHandles⟩ : Machine).virtualAlloc depth (alignSize length pageSize) := rfl
  rw [hcall] at hlimit ⊢
  rw [Machine.exists_returnMemory_iff, hgiven]
  refine forall_congr' fun htake => ?_
  obtain ⟨p, hp⟩ : ∃ p, k.physicalMemoryState.findMinimumSizeFreeBlock (alignSize length pageSize) =
      .ok p := ⟨_, findMinimumSizeFreeBlock_eq hk.ok.physical _⟩
  by_cases hzero : p = 0
  · subst hzero
    rw [Machine.virtualAlloc_failed hp]
    constructor
    · rintro ⟨r, m1, halloc, htakes⟩
      obtain ⟨rfl, rfl⟩ := Prod.mk.inj (Except.ok.inj halloc)
      exact ⟨0, hp, by rw [if_pos rfl]; exact (takes_null_iff rfl).mp htakes⟩
    · rintro ⟨q, hq, hfits⟩
      obtain rfl := Except.ok.inj (hp.symm.trans hq)
      rw [if_pos rfl] at hfits
      exact ⟨0, _, rfl, (takes_null_iff rfl).mpr hfits⟩
  · constructor
    · rintro ⟨r, m1, halloc, htakes⟩
      exact ⟨p, hp, by rw [if_neg hzero]; exact chosenFits_of_takes hk hlt hp hzero halloc htakes⟩
    · rintro ⟨q, hq, hfits⟩
      obtain rfl := Except.ok.inj (hp.symm.trans hq)
      rw [if_neg hzero] at hfits
      refine (hfits.takes hk hlt hp hzero ram).resolve_right ?_
      rintro ⟨e, halloc, he⟩
      refine hlimit e ?_ he
      have hdevice : fs.isDevice fd = false := htake.1
      unfold Machine.returnMemory
      rw [hdevice, if_neg Bool.false_ne_true, hgiven, halloc]
      rcases htake.2 with hanonymous | hfd
      · rw [if_pos hanonymous]
        rfl
      · rw [if_neg (by omega), if_pos hfd]
        rfl

/-- The condition is exact, in every state of the running kernel. -/
theorem returns_iff (hk : Running k) (hlt : length < 2 ^ 64)
    (hlimit : ∀ e, (⟨k, ram, fileHandles⟩ : Machine).sysMemoryMap depth fs address length prot flags
      fd offset = .error (.memory e) → ¬ e.Limit) :
    (∃ r m', (⟨k, ram, fileHandles⟩ : Machine).sysMemoryMap depth fs address length prot flags fd
        offset = .ok (r, m')) ↔ Returns depth fs k fileHandles address length fd offset := by
  unfold Returns
  by_cases ha : address = 0
  · subst ha
    rw [if_neg (not_not.mpr rfl)]
    exact returns_chosen_iff hk hlt hlimit
  · rw [if_pos ha]
    exact returns_given_iff hk ha hlt hlimit

end Halves

/-- What the searches of the two calls find on the example machine. -/
def failedSearches : Except Fault (ℕ × ℕ) := do
  let trees ← machineTrees 16
  let p ← trees.1.findMinimumSizeFreeBlock 0x1000
  let q ← trees.1.findMinimumSizeFreeBlock 0x100000
  return (p, q)

end Enkel.FileMapping
