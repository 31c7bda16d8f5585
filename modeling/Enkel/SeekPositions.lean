import Enkel.PositionedReads

/-!
The positions that sys_lseek leaves and returns. The library clips a position to the size of
the file and takes 32 bits of it; only SEEK_SET reads it back, and SEEK_END subtracts.
-/
namespace Enkel.VolumeCalls

open Outcome
open FileMapping (Fil)

section Positions
variable (fil : Fil) (offset : ℤ)

/-- The position that an offset counts from. -/
def SeekMode.base : SeekMode → ℤ
  | .set => 0
  | .current => fil.fTell
  | .end => fil.fSize

/-- The position that is asked for. -/
def SeekMode.target (mode : SeekMode) : ℤ := mode.base fil + offset

/-- It is one of the file; the end is one. -/
def SeekMode.InFile (mode : SeekMode) : Prop :=
  0 ≤ mode.target fil offset ∧ mode.target fil offset ≤ fil.fSize

instance (mode : SeekMode) : Decidable (mode.InFile fil offset) :=
  inferInstanceAs (Decidable (_ ∧ _))

/-- The position that FatVolume_Seek passes to the library. -/
def SeekMode.sought : SeekMode → ℤ
  | .set => offset
  | .current => fil.fTell + offset
  | .end => fil.fSize - offset

/-- Where the library goes. -/
def SeekMode.landed (mode : SeekMode) : ℤ := min (mode.sought fil offset % 2 ^ 32) fil.fSize

/-- What FatVolume_Seek returns, up to 32 bits. -/
def SeekMode.reported (mode : SeekMode) : ℤ :=
  match mode with
  | .set => SeekMode.landed fil offset .set
  | .current => SeekMode.sought fil offset .current % 2 ^ 32
  | .end => SeekMode.sought fil offset .end % 2 ^ 32

/-- The file is where it is to be, and the caller knows; or an error is returned and the
file is where it was. -/
def SeekMode.Sought (mode : SeekMode) (returned : ℤ) (fil' : Fil) : Prop :=
  if mode.InFile fil offset then
    (fil'.fTell : ℤ) = mode.target fil offset ∧ returned = mode.target fil offset
  else
    returned < 0 ∧ fil'.fTell = fil.fTell

/-- For a position of the file, the one passed on is the same, and fits an int. Else what
is returned happens to be negative, and the library to stay. -/
def SeekMode.Right (mode : SeekMode) : Prop :=
  if mode.InFile fil offset then
    mode.sought fil offset % 2 ^ 32 = mode.target fil offset ∧ mode.target fil offset < 2 ^ 31
  else
    2 ^ 31 ≤ mode.reported fil offset ∧ mode.landed fil offset = fil.fTell

instance (mode : SeekMode) : Decidable (mode.Right fil offset) := by
  unfold SeekMode.Right
  infer_instance

end Positions

/-- The seek does what it is to do, and the next read starts where the file is. -/
def Seeks (devices : Devices) (s : System) (fd : ℕ) (fil : Fil) (offset : ℤ) (origin : ℕ)
    (mode : SeekMode) : Prop :=
  ∃ answer s' fil', sysLseek fd offset origin s = .ok (answer, s') ∧ IsOpen s' fd fil' ∧
    fil'.contents = fil.contents ∧ mode.Sought fil offset answer.returned fil' ∧
    ∀ dataSize < 2 ^ 32, ∃ read s'', sysRead devices fd dataSize s' = .ok (read, s'') ∧
      read.data = (fil.contents.drop fil'.fTell).take dataSize

section Seek
variable {s : System} {devices : Devices} {fd origin : ℕ} {fil : Fil} {offset x : ℤ}
  {mode : SeekMode}

theorem unsigned64_mod : ((unsigned64 x : ℤ) % 2 ^ 32) = x % 2 ^ 32 := by
  unfold unsigned64
  omega

theorem fTell_fLseek :
    ((fil.fLseek (unsigned64 x)).fTell : ℤ) = min (x % 2 ^ 32) (fil.fSize : ℤ) := by
  have hmod := unsigned64_mod (x := x)
  change ((min (unsigned64 x % 2 ^ 32) fil.fSize : ℕ) : ℤ) = _
  omega

/-- Where the file is after FatVolume_Seek. -/
theorem fTell_seekFile : ((seekFile fil offset mode).2.fTell : ℤ) = mode.landed fil offset := by
  cases mode with
  | set => exact fTell_fLseek
  | current =>
    refine fTell_fLseek.trans ?_
    rw [SeekMode.landed, SeekMode.sought, add_comm]
  | «end» => exact fTell_fLseek

theorem reported_lt : 0 ≤ mode.reported fil offset ∧ mode.reported fil offset < 2 ^ 32 := by
  cases mode <;> simp only [SeekMode.reported, SeekMode.landed] <;> omega

/-- What is returned, as an int. -/
theorem returned_seekFile : signed32 (seekFile fil offset mode).1 =
    if mode.reported fil offset < 2 ^ 31 then mode.reported fil offset
    else mode.reported fil offset - 2 ^ 32 := by
  have hreported : ((seekFile fil offset mode).1 : ℤ) % 2 ^ 32 = mode.reported fil offset := by
    cases mode with
    | set =>
      have hlanded : ((seekFile fil offset .set).1 : ℤ) = SeekMode.landed fil offset .set :=
        fTell_fLseek
      have hle : 0 ≤ SeekMode.reported fil offset .set ∧
          SeekMode.reported fil offset .set < 2 ^ 32 := reported_lt
      rw [hlanded]
      exact Int.emod_eq_of_lt hle.1 hle.2
    | current => exact unsigned64_mod
    | «end» => exact unsigned64_mod
  unfold signed32
  rw [← hreported]
  split_ifs <;> omega

/-- The position of a file is one of its bytes, or the end. -/
theorem sought_seekFile_iff :
    mode.Sought fil offset (signed32 (seekFile fil offset mode).1) (seekFile fil offset mode).2 ↔
      mode.Right fil offset := by
  have hlanded : ((seekFile fil offset mode).2.fTell : ℤ) = mode.landed fil offset :=
    fTell_seekFile
  have hlt : 0 ≤ mode.reported fil offset ∧ mode.reported fil offset < 2 ^ 32 := reported_lt
  have hsize : fil.fSize < 2 ^ 32 := fil.size_lt
  unfold SeekMode.Sought SeekMode.Right
  rw [returned_seekFile, hlanded]
  by_cases hin : mode.InFile fil offset
  · rw [if_pos hin, if_pos hin]
    unfold SeekMode.InFile at hin
    cases mode <;>
      simp only [SeekMode.target, SeekMode.base, SeekMode.reported, SeekMode.landed,
        SeekMode.sought] at * <;>
      split_ifs <;> omega
  · rw [if_neg hin, if_neg hin]
    have hsame : (seekFile fil offset mode).2.fTell = fil.fTell ↔
        mode.landed fil offset = fil.fTell := by omega
    rw [hsame]
    refine and_congr_left fun _ => ?_
    split_ifs <;> omega

theorem contents_seekFile : (seekFile fil offset mode).2.contents = fil.contents := by
  cases mode <;> rfl

/-- sys_lseek on the handle of an open file; VolumeSeek refuses the handle 0. -/
theorem IsOpen.sysLseek_eq (h : IsOpen s fd fil) (horigin : seekMode origin = some mode) :
    VolumeCalls.sysLseek fd offset origin s =
      if fd % 2 ^ 32 = 0 then .ok (⟨-22, [], []⟩, s)
      else .ok (⟨signed32 (seekFile fil offset mode).1, [], []⟩,
        s.setFile fd (seekFile fil offset mode).2) := by
  have hmod := h.mod (show 31 ≤ 32 by decide)
  unfold VolumeCalls.sysLseek System.volumeSeek
  rw [horigin]
  dsimp only
  rw [s.volumeOf_eq, ok_bind, hmod.volume]
  simp only [Option.map_some]
  by_cases hzero : fd % 2 ^ 32 = 0
  · have hcode : signed32 einval = -22 := by decide
    rw [if_pos hzero, if_neg (by simpa using hzero), ← hcode]
    rfl
  · rw [if_neg hzero, if_pos hzero]
    simp only [Volume.seek, fatVolumeSeek, hmod.fatFile, ok_bind]
    rw [← setFile_mod (show 31 ≤ 32 by decide)]
    rfl

/-- The next read starts at the position of the file. -/
theorem IsOpen.sysRead_position (h : IsOpen s fd fil) {dataSize : ℕ} (hlt : dataSize < 2 ^ 32) :
    ∃ read s', VolumeCalls.sysRead devices fd dataSize s = .ok (read, s') ∧
      read.data = (fil.contents.drop fil.fTell).take dataSize := by
  refine ⟨_, _, h.sysRead, ?_⟩
  change (FileMapping.readAt fil FileMapping.currentOffset dataSize).1 = _
  rw [FileMapping.readAt_bytes, Nat.mod_eq_of_lt hlt]
  rfl

/-- Where a seek goes right. -/
def SeeksRight (fd : ℕ) (fil : Fil) (offset : ℤ) (mode : SeekMode) : Prop :=
  if fd % 2 ^ 32 = 0 then ¬ mode.InFile fil offset else mode.Right fil offset

end Seek

/-- sys_lseek sets and returns the position, or fails and leaves it, exactly for the
offsets that `SeeksRight` describes. -/
theorem lseek_positions_iff (devices : Devices) (s : System) (fd : ℕ) (fil : Fil)
    (hopen : IsOpen s fd fil) (offset : ℤ) (origin : ℕ) (mode : SeekMode)
    (horigin : seekMode origin = some mode) :
    Seeks devices s fd fil offset origin mode ↔ SeeksRight fd fil offset mode := by
  unfold Seeks SeeksRight
  rw [hopen.sysLseek_eq horigin]
  by_cases hzero : fd % 2 ^ 32 = 0
  · rw [if_pos hzero, if_pos hzero]
    constructor
    · rintro ⟨answer, s', fil', heq, -, -, hsought, -⟩ hin
      cases heq
      rw [SeekMode.Sought, if_pos hin] at hsought
      have hnonneg := hin.1
      have hreturned := hsought.2
      dsimp only at hreturned
      omega
    · intro hin
      refine ⟨_, _, fil, rfl, hopen, rfl, ?_, fun dataSize hlt => hopen.sysRead_position hlt⟩
      rw [SeekMode.Sought, if_neg hin]
      exact ⟨by decide, rfl⟩
  · rw [if_neg hzero, if_neg hzero, ← sought_seekFile_iff]
    constructor
    · rintro ⟨answer, s', fil', heq, hopen', -, hsought, -⟩
      cases heq
      have hfil : fil' = (seekFile fil offset mode).2 :=
        Option.some.inj (hopen'.opened.symm.trans (hopen.setFile _).opened)
      rwa [hfil] at hsought
    · intro hsought
      have hopen' := hopen.setFile (seekFile fil offset mode).2
      refine ⟨_, _, _, rfl, hopen', contents_seekFile, hsought, fun dataSize hlt => ?_⟩
      have hcontents : (seekFile fil offset mode).2.contents = fil.contents := contents_seekFile
      rw [← hcontents]
      exact hopen'.sysRead_position hlt

theorem lseek_positions_iff_letters :
    Seeks noDevices lettersOpen lettersHandle letters (-1) 2 .end ↔
      SeeksRight lettersHandle letters (-1) .end :=
  lseek_positions_iff _ _ _ _ isOpen_letters _ _ _ rfl

/-- SEEK_END with the offset -1 asks for the last of three bytes, and goes to the end. -/
theorem seek_end_passes_end :
    ¬ Seeks noDevices lettersOpen lettersHandle letters (-1) 2 .end := by
  rintro ⟨answer, s', fil', heq, hopen, -, hsought, -⟩
  rw [isOpen_letters.sysLseek_eq rfl, if_neg (by decide)] at heq
  cases heq
  have hin : SeekMode.InFile letters (-1) .end := by decide
  rw [SeekMode.Sought, if_pos hin] at hsought
  exact absurd hsought.2 (by decide)

end Enkel.VolumeCalls
