import Enkel.VolumeCalls
import Enkel.RegionContents

/-!
Positioned reads beside reads and seeks of one open file. FatVolume_Read moves the
file pointer and puts it back; the offset of 32 bits that f_lseek takes loses the upper
half, and one offset stands for the file pointer itself.
-/
namespace Enkel.VolumeCalls

open Outcome Paging VolumeSystem FileHandleMask BitFields
open FileMapping (Fil FileHandles currentOffset maxFileHandles readAt)

/-- The calls on an open file. An offset of sys_pread64 is a word of 64 bits. -/
inductive FileCall
  | read (dataSize : ℕ)
  | lseek (offset : ℤ) (origin : ℕ)
  | pread64 (dataSize offset : ℕ)
deriving DecidableEq, Repr

def FileCall.isPread : FileCall → Bool
  | read _ | lseek _ _ => false
  | pread64 _ _ => true

section Run
variable (devices : Devices) (fd : ℕ)

def FileCall.run (s : System) : FileCall → Except Fault (Answer × System)
  | read dataSize => sysRead devices fd dataSize s
  | lseek offset origin => sysLseek fd offset origin s
  | pread64 dataSize offset => sysPread64 devices fd dataSize (offset % 2 ^ 64) s

/-- The calls of a run with what they return. After a fault there are no more calls. -/
def outcomes : List FileCall → System → List (FileCall × Except Fault Answer)
  | [], _ => []
  | c :: calls, s =>
    match c.run devices fd s with
    | .error e => [(c, .error e)]
    | .ok (answer, s) => (c, .ok answer) :: outcomes calls s

end Run

/-- A descriptor of an open file of a FAT volume. -/
structure IsOpen (s : System) (fd : ℕ) (fil : Fil) : Prop where
  volume : (getVolumeIndex s.volumeIndices fd).volumeImplementation = some .fat
  inRange : fileHandle fd < maxFileHandles
  opened : s.fileHandles (fileHandle fd) = some fil

/-- What sys_pread64 is to do: deliver the bytes from the offset on, or fail for a
negative one. -/
def Positioned (contents : List UInt8) : FileCall × Except Fault Answer → Prop
  | (.pread64 dataSize offset, outcome) =>
    let bytes := (contents.drop (offset % 2 ^ 64)).take dataSize
    if 0 ≤ signed64 offset then outcome = .ok ⟨bytes.length, bytes, []⟩
    else ∃ r : ℕ, outcome = .ok ⟨r, [], []⟩ ∧ signed64 r < 0
  | _ => True

/-- The offset is not negative; unless the end of the file comes first, offset and size
have 32 bits, or nothing is read. -/
def PreadFits (fSize : ℕ) : FileCall → Prop
  | .pread64 dataSize offset =>
    let o := offset % 2 ^ 64
    o < 2 ^ 63 ∧
      if o < 2 ^ 32 then dataSize < 2 ^ 32 ∨ fSize ≤ o + dataSize % 2 ^ 32
      else dataSize % 2 ^ 32 = 0 ∨ fSize ≤ o % 2 ^ 32
  | _ => True

instance (fSize : ℕ) (c : FileCall) : Decidable (PreadFits fSize c) := by
  cases c <;> unfold PreadFits <;> infer_instance

section Handle
variable (n fd : ℕ)

theorem segments_mod (h : 31 ≤ n) : segments (fd % 2 ^ n) = segments fd := field_mod _ h

theorem volumeIndex_mod (h : 28 ≤ n) : volumeIndex (fd % 2 ^ n) = volumeIndex fd := field_mod _ h

theorem fileHandle_mod (h : 22 ≤ n) : fileHandle (fd % 2 ^ n) = fileHandle fd := field_mod _ h

theorem segments_lt : segments fd < maxSegments := Nat.mod_lt _ (by decide)

theorem volumeIndex_lt : volumeIndex fd < volumesPerPage :=
  (Nat.mod_lt (fd / 2 ^ 25) (by decide : 0 < 2 ^ 3)).trans (by decide)

end Handle

section Open
variable {s : System} {fd n dataSize offset : ℕ} {fil fil' : Fil} {devices : Devices}

/-- The bit fields of a handle never leave the table of volumes. -/
theorem System.volumeOf_eq (s : System) (fd : ℕ) : s.volumeOf fd =
    .ok ((getVolumeIndex s.volumeIndices fd).volumeImplementation.map fun volume =>
      (volume, (getVolumeIndex s.volumeIndices fd).context)) := by
  unfold System.volumeOf
  rw [require_true (segments_lt fd), ok_bind, require_true (volumeIndex_lt fd), ok_bind]
  rfl

theorem getVolumeIndex_mod (h : 31 ≤ n) :
    getVolumeIndex s.volumeIndices (fd % 2 ^ n) = getVolumeIndex s.volumeIndices fd := by
  unfold getVolumeIndex
  rw [segments_mod n fd h, volumeIndex_mod n fd (by omega)]

/-- The bits of a descriptor above the fields do not matter. -/
theorem IsOpen.mod (h : IsOpen s fd fil) (hn : 31 ≤ n) : IsOpen s (fd % 2 ^ n) fil :=
  { volume := by
      rw [getVolumeIndex_mod hn]
      exact h.volume
    inRange := by
      rw [fileHandle_mod n fd (by omega)]
      exact h.inRange
    opened := by
      rw [fileHandle_mod n fd (by omega)]
      exact h.opened }

/-- The file of a descriptor is replaced. -/
def System.setFile (s : System) (fd : ℕ) (fil : Fil) : System :=
  { s with fileHandles := Function.update s.fileHandles (fileHandle fd) (some fil) }

theorem IsOpen.setFile (h : IsOpen s fd fil) (fil' : Fil) : IsOpen (s.setFile fd fil') fd fil' :=
  { volume := h.volume
    inRange := h.inRange
    opened := Function.update_self _ _ _ }

theorem IsOpen.setFile_self (h : IsOpen s fd fil) : s.setFile fd fil = s := by
  unfold System.setFile
  rw [← h.opened, Function.update_eq_self]

theorem setFile_mod (hn : 31 ≤ n) : s.setFile (fd % 2 ^ n) fil = s.setFile fd fil := by
  unfold System.setFile
  rw [fileHandle_mod n fd (by omega)]

theorem IsOpen.fatFile (h : IsOpen s fd fil) : fatFile fd s.fileHandles = .ok fil := by
  unfold VolumeCalls.fatFile
  rw [require_true h.inRange, ok_bind, h.opened]
  rfl

/-- After a read somewhere else the file is as it was. -/
theorem readAt_restores (h : offset ≠ currentOffset) : (readAt fil offset dataSize).2 = fil := by
  obtain ⟨contents, fptr, hlt, hle⟩ := fil
  have hmin : min (fptr % 2 ^ 32) contents.length = fptr := by
    rw [Nat.mod_eq_of_lt (by omega), Nat.min_eq_left hle]
  simp only [readAt, if_pos h, Fil.fLseek, Fil.fTell, Fil.fRead, hmin]

theorem contents_readAt : (readAt fil offset dataSize).2.contents = fil.contents := by
  unfold readAt
  split_ifs <;> rfl

theorem readAt_zero : readAt fil offset 0 = ([], fil) := by
  by_cases h : offset = currentOffset
  · subst h
    simp [readAt, Fil.fRead, Fil.delivered]
  · exact Prod.ext (by simp [readAt, Fil.fRead, Fil.delivered]) (readAt_restores h)

/-- A read of an open file, unless the offset is negative. -/
theorem IsOpen.volumeRead (h : IsOpen s fd fil)
    (hoffset : dataSize = 0 ∨ (offset ≠ currentOffset → offset < 2 ^ 63)) :
    s.volumeRead devices fd offset dataSize =
      .ok ((readAt fil offset dataSize).1.length, (readAt fil offset dataSize).1,
        s.setFile fd (readAt fil offset dataSize).2) := by
  have hread : FileMapping.fatVolumeRead fd offset dataSize s.fileHandles =
      .ok ((readAt fil offset dataSize).1,
        (s.setFile fd (readAt fil offset dataSize).2).fileHandles) := by
    unfold FileMapping.fatVolumeRead
    by_cases hzero : dataSize = 0
    · subst hzero
      rw [if_pos rfl, readAt_zero, h.setFile_self]
    · simp only [if_neg hzero, require_true h.inRange, ok_bind, h.opened,
        require_true (hoffset.resolve_left hzero)]
      rfl
  unfold System.volumeRead
  rw [s.volumeOf_eq, ok_bind, h.volume]
  simp only [Option.map_some, Volume.read, hread, mapError_ok, ok_bind]
  rfl

theorem IsOpen.sysRead (h : IsOpen s fd fil) : sysRead devices fd dataSize s =
    .ok (⟨signed32 (readAt fil currentOffset dataSize).1.length,
      (readAt fil currentOffset dataSize).1, []⟩,
      s.setFile fd (readAt fil currentOffset dataSize).2) := by
  unfold VolumeCalls.sysRead
  rw [(h.mod (by decide)).volumeRead (Or.inr fun hne => absurd rfl hne), ok_bind,
    setFile_mod (by decide)]
  rfl

/-- A positioned read leaves the system as it is. -/
theorem IsOpen.sysPread64 (h : IsOpen s fd fil) (hoffset : offset < 2 ^ 63) :
    sysPread64 devices fd dataSize offset s =
      .ok (⟨(readAt fil offset dataSize).1.length, (readAt fil offset dataSize).1, []⟩, s) := by
  have hne : offset ≠ currentOffset := by
    unfold currentOffset
    omega
  unfold VolumeCalls.sysPread64
  rw [(h.mod (by decide)).volumeRead (Or.inr fun _ => hoffset), ok_bind, setFile_mod (by decide),
    readAt_restores hne, h.setFile_self]
  rfl

/-- A seek returns, and at most moves the file pointer. -/
theorem IsOpen.sysLseek (h : IsOpen s fd fil) (offset : ℤ) (origin : ℕ) :
    ∃ answer fil', sysLseek fd offset origin s = .ok (answer, s.setFile fd fil') ∧
      fil'.contents = fil.contents := by
  unfold VolumeCalls.sysLseek
  cases seekMode origin with
  | none => exact ⟨_, fil, by rw [h.setFile_self], rfl⟩
  | some mode =>
    have hmod := h.mod (show 31 ≤ 32 by decide)
    dsimp only
    unfold System.volumeSeek
    rw [s.volumeOf_eq, ok_bind, hmod.volume]
    simp only [Option.map_some]
    split_ifs
    · simp only [Volume.seek, fatVolumeSeek, hmod.fatFile, ok_bind]
      refine ⟨⟨signed32 (seekFile fil offset mode).1, [], []⟩, (seekFile fil offset mode).2, ?_, ?_⟩
      · rw [← setFile_mod (show 31 ≤ 32 by decide)]
        rfl
      · cases mode <;> rfl
    · refine ⟨⟨signed32 einval, [], []⟩, fil, ?_, rfl⟩
      rw [h.setFile_self]
      rfl

/-- When a read at an offset delivers the bytes from there on. -/
theorem readAt_positioned_iff (hoffset : offset < 2 ^ 63) :
    (readAt fil offset dataSize).1 = (fil.contents.drop offset).take dataSize ↔
      if offset < 2 ^ 32 then dataSize < 2 ^ 32 ∨ fil.fSize ≤ offset + dataSize % 2 ^ 32
      else dataSize % 2 ^ 32 = 0 ∨ fil.fSize ≤ offset % 2 ^ 32 := by
  have hlt : fil.fSize < 2 ^ 32 := fil.size_lt
  have hlength : fil.contents.length = fil.fSize := rfl
  have hposition : fil.position offset = min (offset % 2 ^ 32) fil.fSize := by
    unfold FileMapping.Fil.position
    apply if_neg
    unfold currentOffset
    omega
  rw [FileMapping.readAt_bytes, hposition]
  split_ifs with hsmall
  · have hdrop : fil.contents.drop (min (offset % 2 ^ 32) fil.fSize) = fil.contents.drop offset := by
      rw [Nat.mod_eq_of_lt hsmall]
      exact (List.drop_eq_drop_min).symm
    rw [hdrop, List.take_eq_take_iff, List.length_drop, hlength]
    omega
  · have hnil : fil.contents.drop offset = [] := List.drop_eq_nil_of_le (by omega)
    rw [hnil, List.take_nil, List.take_eq_nil_iff, List.drop_eq_nil_iff, hlength]
    omega

variable {c : FileCall} {calls : List FileCall}

/-- Reads and seeks return, and keep the contents of the file. -/
theorem IsOpen.run_other (devices : Devices) (h : IsOpen s fd fil) (hc : c.isPread = false) :
    ∃ answer fil', c.run devices fd s = .ok (answer, s.setFile fd fil') ∧
      fil'.contents = fil.contents := by
  cases c with
  | read dataSize => exact ⟨_, _, h.sysRead, contents_readAt⟩
  | lseek offset origin => exact h.sysLseek offset origin
  | pread64 dataSize offset => cases hc

/-- What sys_pread64 returns for a file is the number of bytes delivered. -/
theorem IsOpen.returned_eq (h : IsOpen s fd fil) {answer : Answer} {s' : System}
    (hrun : VolumeCalls.sysPread64 devices fd dataSize offset s = .ok (answer, s')) :
    answer.returned = answer.data.length := by
  obtain ⟨⟨returned, data, s1⟩, hread, hanswer⟩ := bind_eq_ok.mp hrun
  cases hanswer
  unfold System.volumeRead at hread
  rw [s.volumeOf_eq, ok_bind, (h.mod (show 31 ≤ 64 by decide)).volume] at hread
  obtain ⟨⟨bytes, files⟩, -, hread⟩ := bind_eq_ok.mp hread
  cases hread
  rfl

theorem signed64_nonneg_iff : 0 ≤ signed64 offset ↔ offset % 2 ^ 64 < 2 ^ 63 := by
  unfold signed64
  split_ifs with h <;> omega

theorem positioned_iff {contents : List UInt8} {outcome : Except Fault Answer} :
    Positioned contents (.pread64 dataSize offset, outcome) ↔
      if offset % 2 ^ 64 < 2 ^ 63 then
        outcome = .ok ⟨((contents.drop (offset % 2 ^ 64)).take dataSize).length,
          (contents.drop (offset % 2 ^ 64)).take dataSize, []⟩
      else ∃ r : ℕ, outcome = .ok ⟨r, [], []⟩ ∧ signed64 r < 0 := by
  simp only [Positioned, signed64_nonneg_iff]

/-- A positioned read that fits delivers the bytes from its offset on, and changes
nothing. -/
theorem IsOpen.run_pread (devices : Devices) (h : IsOpen s fd fil)
    (hfits : PreadFits fil.fSize (.pread64 dataSize offset)) :
    ∃ answer, FileCall.run devices fd s (.pread64 dataSize offset) = .ok (answer, s) ∧
      Positioned fil.contents (.pread64 dataSize offset, .ok answer) := by
  obtain ⟨hoffset, hsizes⟩ := hfits
  refine ⟨_, h.sysPread64 hoffset, ?_⟩
  rw [positioned_iff, if_pos hoffset, (readAt_positioned_iff hoffset).mpr hsizes]

/-- Only such a read does what it is to do. -/
theorem IsOpen.fits_of_positioned (h : IsOpen s fd fil) {outcome : Except Fault Answer}
    (hrun : (FileCall.run devices fd s (.pread64 dataSize offset)).map Prod.fst = outcome)
    (hpositioned : Positioned fil.contents (.pread64 dataSize offset, outcome)) :
    PreadFits fil.fSize (.pread64 dataSize offset) := by
  rw [positioned_iff] at hpositioned
  by_cases hoffset : offset % 2 ^ 64 < 2 ^ 63
  · rw [if_pos hoffset, ← hrun] at hpositioned
    have hpread : FileCall.run devices fd s (.pread64 dataSize offset) = _ := h.sysPread64 hoffset
    rw [hpread] at hpositioned
    have hdata := congrArg Answer.data (Except.ok.inj hpositioned)
    exact ⟨hoffset, (readAt_positioned_iff hoffset).mp hdata⟩
  · rw [if_neg hoffset] at hpositioned
    obtain ⟨r, rfl, hr⟩ := hpositioned
    cases hresult : FileCall.run devices fd s (.pread64 dataSize offset) with
    | error e =>
      rw [hresult] at hrun
      cases hrun
    | ok result =>
      obtain ⟨answer, s'⟩ := result
      rw [hresult] at hrun
      cases hrun
      have hzero : r = 0 := by simpa using h.returned_eq hresult
      subst hzero
      exact absurd hr (by decide)

end Open

section Runs
variable {s : System} {fd : ℕ} {fil : Fil} {devices : Devices}

/-- Without the positioned reads the other calls return and deliver the same, and each
positioned read does what it is to do. -/
def Transparent (devices : Devices) (fd : ℕ) (contents : List UInt8) (calls : List FileCall)
    (s : System) : Prop :=
  ((outcomes devices fd calls s).filter fun x => !x.1.isPread) =
      outcomes devices fd (calls.filter fun c => !c.isPread) s ∧
    ∀ x ∈ outcomes devices fd calls s, Positioned contents x

theorem outcomes_ok {c : FileCall} {calls : List FileCall} {answer : Answer} {s' : System}
    (h : c.run devices fd s = .ok (answer, s')) : outcomes devices fd (c :: calls) s =
      (c, .ok answer) :: outcomes devices fd calls s' := by
  rw [outcomes, h]

theorem exists_mem_outcomes (c : FileCall) (calls : List FileCall) :
    (c, (c.run devices fd s).map Prod.fst) ∈ outcomes devices fd (c :: calls) s := by
  unfold outcomes
  cases c.run devices fd s with
  | error e => exact List.mem_singleton.mpr rfl
  | ok result => exact List.mem_cons_self

theorem IsOpen.transparent_iff (h : IsOpen s fd fil) (calls : List FileCall) :
    Transparent devices fd fil.contents calls s ↔ ∀ c ∈ calls, PreadFits fil.fSize c := by
  induction calls generalizing s fil with
  | nil => exact iff_of_true ⟨rfl, fun x hx => nomatch hx⟩ fun c hc => nomatch hc
  | cons c calls ih =>
    rw [List.forall_mem_cons]
    cases hc : c.isPread with
    | false =>
      obtain ⟨answer, fil', hrun, hcontents⟩ := h.run_other devices hc
      have hfits : PreadFits fil.fSize c := by
        cases c with
        | pread64 dataSize offset => cases hc
        | _ => trivial
      have hpositioned : Positioned fil.contents (c, .ok answer) := by
        cases c with
        | pread64 dataSize offset => cases hc
        | _ => trivial
      have hsize : fil'.fSize = fil.fSize := congrArg List.length hcontents
      have hih := ih (h.setFile fil')
      rw [hcontents, hsize] at hih
      rw [← hih]
      unfold Transparent
      rw [List.filter_cons_of_pos (by simp [hc]), outcomes_ok hrun, outcomes_ok hrun,
        List.filter_cons_of_pos (by simp [hc]), List.forall_mem_cons, List.cons.injEq]
      simp only [true_and, hfits, hpositioned]
    | true =>
      cases c with
      | pread64 dataSize offset =>
        constructor
        · intro ht
          have hfits := h.fits_of_positioned rfl (ht.2 _ (exists_mem_outcomes _ calls))
          refine ⟨hfits, (ih h).mp ?_⟩
          obtain ⟨answer, hrun, -⟩ := h.run_pread devices hfits
          unfold Transparent at ht
          rw [outcomes_ok hrun, List.filter_cons_of_neg (by simp [FileCall.isPread]),
            List.filter_cons_of_neg (by simp [FileCall.isPread]), List.forall_mem_cons] at ht
          exact ⟨ht.1, ht.2.2⟩
        · rintro ⟨hfits, hcalls⟩
          obtain ⟨answer, hrun, hpositioned⟩ := h.run_pread devices hfits
          have ht := (ih h).mpr hcalls
          unfold Transparent
          rw [outcomes_ok hrun, List.filter_cons_of_neg (by simp [FileCall.isPread]),
            List.filter_cons_of_neg (by simp [FileCall.isPread]), List.forall_mem_cons]
          exact ⟨ht.1, hpositioned, ht.2⟩
      | _ => cases hc

end Runs

/-- The positioned reads of a run of calls on an open file are transparent exactly when
the offsets and sizes of all of them fit. -/
theorem preads_transparent_iff (devices : Devices) (s : System) (fd : ℕ) (fil : Fil)
    (h : IsOpen s fd fil) (calls : List FileCall) :
    Transparent devices fd fil.contents calls s ↔ ∀ c ∈ calls, PreadFits fil.fSize c :=
  h.transparent_iff calls

/-- Hardware that delivers nothing. -/
def noDevices : Devices :=
  { fOpen := fun _ => none
    readInput := fun _ _ => ⟨[], Nat.zero_le _⟩
    specialProcData := fun _ => []
    cdromRead := fun _ _ _ => ⟨[], Nat.zero_le _⟩
    framebufferBase := 0
    framebufferByteSize := 0 }

/-- A file of three bytes, open in the first slot of FileHandles. -/
def letters : Fil := ⟨[97, 98, 99], 0, by decide, by decide⟩

def lettersOpen : System :=
  { volumeIndices := fun page index => if page = 1 ∧ index = 0 then ⟨1, some .fat, 0⟩ else ⟨0, none, 0⟩
    fileHandles := fun i => if i = 0 then some letters else none
    memory := machineLoaded
    frameBufferMemory := 0
    frameBufferByteSize := 0 }

/-- The handle of that file: one segment, and 0 in the other fields. -/
def lettersHandle : ℕ := 0x10000000

theorem isOpen_letters : IsOpen lettersOpen lettersHandle letters :=
  { volume := by decide
    inRange := by decide
    opened := rfl }

theorem preads_transparent_iff_letters :
    Transparent noDevices lettersHandle letters.contents [.pread64 1 2, .read 3] lettersOpen ↔
      ∀ c ∈ [FileCall.pread64 1 2, .read 3], PreadFits letters.fSize c :=
  preads_transparent_iff noDevices lettersOpen lettersHandle letters isOpen_letters _

/-- The offset -1 reads where the file pointer is, and moves it. -/
theorem pread_moves_position : ¬ Transparent noDevices lettersHandle letters.contents
    [.pread64 1 (2 ^ 64 - 1), .read 3] lettersOpen := by
  intro h
  have hfits := (isOpen_letters.transparent_iff _).mp h _ List.mem_cons_self
  exact absurd hfits (by decide)

end Enkel.VolumeCalls
