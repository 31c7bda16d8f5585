import Enkel.FatRuns

/-!
Mounting a volume, in ff.c: the search for a boot sector, alone or in one of four partitions,
and what is read out of its parameter block. disk_status and disk_initialize always answer that
the drive is there.
-/
namespace Enkel.FatFs

open Outcome ByteMemory FATFS

/-- Whether the parameters are those of a volume without a signature. -/
def presumedVbr (win : ℕ → UInt8) : Prop :=
  let w := readWord win 11 2
  let b := (win 13).toNat
  w &&& (w - 1) = 0 ∧ 512 ≤ w ∧ w ≤ 512 ∧ b ≠ 0 ∧ b &&& (b - 1) = 0 ∧ readWord win 14 2 ≠ 0 ∧
    sub32 (win 16).toNat 1 ≤ 1 ∧ readWord win 17 2 ≠ 0 ∧
    (128 ≤ readWord win 19 2 ∨ 0x10000 ≤ readWord win 32 4) ∧ readWord win 22 2 ≠ 0

instance (win : ℕ → UInt8) : Decidable (presumedVbr win) := by
  unfold presumedVbr
  infer_instance

/-- BS_FilSysType32 of a FAT32 volume. -/
def fat32Name : List UInt8 := [0x46, 0x41, 0x54, 0x33, 0x32, 0x20, 0x20, 0x20]

/-- What a sector is: 0 for the boot sector of a volume, 2 and 3 for another one with and
without a signature. -/
def vbrStatus (win : ℕ → UInt8) : ℕ :=
  let sign := readWord win 510 2
  if (win 0 = 0xEB ∨ win 0 = 0xE9 ∨ win 0 = 0xE8) ∧
      ((sign = 0xAA55 ∧ (List.range 8).map (fun i => win (82 + i)) = fat32Name) ∨
        presumedVbr win) then 0
  else if sign = 0xAA55 then 2 else 3

/-- The kind of table for a number of clusters. -/
def fatType (nclst : ℕ) : FsType :=
  if nclst ≤ 0xFF5 then .fat12
  else if nclst ≤ 0xFFF5 then .fat16
  else if nclst ≤ 0x0FFFFFF5 then .fat32
  else .none

namespace FATFS

section Mount
variable {σ : Type} (disk : DiskRead σ)

/-- Load a sector and see what it is; 4 for an error of the medium. -/
def checkFs (fs : FATFS) (sect : ℕ) (s : σ) : Except Stop (ℕ × FATFS × σ) := do
  let (result, fs, s) ←
    ({ fs with wflag := false, winsect := 2 ^ 32 - 1 } : FATFS).moveWindow disk sect s
  return (if result = .ok then vbrStatus fs.win else 4, fs, s)

/-- The first partition that is a volume; `fmt` is what the one before it is. -/
def findPartition : List ℕ → ℕ → FATFS → σ → Except Stop (ℕ × FATFS × σ)
  | [], fmt, fs, s => .ok (fmt, fs, s)
  | pt :: rest, _, fs, s => do
    let (fmt, fs, s) ← if pt ≠ 0 then fs.checkFs disk pt s else .ok (3, fs, s)
    if 2 ≤ fmt then findPartition rest fmt fs s else return (fmt, fs, s)

def findVolume (fs : FATFS) (s : σ) : Except Stop (ℕ × FATFS × σ) := do
  let (fmt, fs, s) ← fs.checkFs disk 0 s
  if fmt ≠ 2 then
    return (fmt, fs, s)
  else
    let mbrPt := (List.range 4).map fun i => readWord fs.win (446 + i * 16 + 8) 4
    findPartition disk mbrPt fmt fs s

/-- The root directory, and how many bytes the table needs. -/
def rootAndTable (fs : FATFS) (win : ℕ → UInt8) (fmt : FsType) (fasize : ℕ) :
    Except FATFS (ℕ × FATFS) :=
  if fmt = .fat32 then do
    require (readWord win 42 2 = 0) fs
    require (fs.nRootdir = 0) fs
    return (fs.nFatent * 4 % 2 ^ 32, { fs with dirbase := readWord win 44 4 })
  else do
    require (fs.nRootdir ≠ 0) fs
    return (if fmt = .fat16 then fs.nFatent * 2 else fs.nFatent * 3 / 2 + (fs.nFatent &&& 1),
      { fs with dirbase := add32 fs.fatbase fasize })

/-- What the parameter block in the window says, with the filesystem object as far as it is
filled where a check fails. -/
def analyzeBpb (fs : FATFS) : Except FATFS (FsType × FATFS) := do
  let bsect := fs.winsect
  let win := fs.win
  require (readWord win 11 2 = 512) fs
  let fasize := if readWord win 22 2 = 0 then readWord win 36 4 else readWord win 22 2
  let fs := { fs with fsize := fasize, nFats := (win 16).toNat }
  require (fs.nFats = 1 ∨ fs.nFats = 2) fs
  let fasize := fasize * fs.nFats % 2 ^ 32
  let fs := { fs with csize := (win 13).toNat }
  require (fs.csize ≠ 0 ∧ fs.csize &&& (fs.csize - 1) = 0) fs
  let fs := { fs with nRootdir := readWord win 17 2 }
  require (fs.nRootdir % 16 = 0) fs
  let tsect := if readWord win 19 2 = 0 then readWord win 32 4 else readWord win 19 2
  let nrsv := readWord win 14 2
  require (nrsv ≠ 0) fs
  let sysect := add32 (add32 nrsv fasize) (fs.nRootdir / 16)
  require (sysect ≤ tsect) fs
  let nclst := (tsect - sysect) / fs.csize
  require (nclst ≠ 0) fs
  let fmt := fatType nclst
  require (fmt ≠ .none) fs
  let fs := { fs with
    nFatent := nclst + 2
    volbase := bsect
    fatbase := add32 bsect nrsv
    database := add32 bsect sysect }
  let (szbfat, fs) ← fs.rootAndTable win fmt fasize
  require (add32 szbfat 511 / 512 ≤ fs.fsize) fs
  return (fmt, fs)

/-- The sector with the number of free clusters comes into the window. -/
def readFsInfo (fs : FATFS) (fmt : FsType) (s : σ) : Except Stop (FATFS × σ) :=
  if fmt = .fat32 ∧ readWord fs.win 48 2 = 1 then do
    let (_, fs, s) ← fs.moveWindow disk (add32 fs.volbase 1) s
    return (fs, s)
  else
    .ok (fs, s)

/-- mount_volume, with `fsid` for the number of mounts before. -/
def mountVolume (fs : FATFS) (fsid : ℕ) (s : σ) : Except Stop (FResult × FATFS × σ) :=
  if fs.fsType ≠ .none then
    .ok (.ok, fs, s)
  else do
    let (fmt, fs, s) ← findVolume disk fs s
    if fmt = 4 then
      return (.diskErr, fs, s)
    else if 2 ≤ fmt then
      return (.noFilesystem, fs, s)
    else
      match analyzeBpb fs with
      | .error fs => return (.noFilesystem, fs, s)
      | .ok (fmt, fs) => do
        let (fs, s) ← fs.readFsInfo disk fmt s
        return (.ok, { fs with fsType := fmt, id := (fsid + 1) % 2 ^ 16 }, s)

end Mount

end FATFS

/-- What is known of a volume once its parameter block has been accepted. -/
structure Accepted (fmt : FsType) (fs : FATFS) : Prop where
  mounted : fmt ≠ .none
  csize_pow : ∃ k ≤ 7, fs.csize = 2 ^ k
  entries_ge : 2 ≤ fs.nFatent
  entries_le : fs.nFatent ≤ 0x0FFFFFF7
  table_le : ({ fs with fsType := fmt } : FATFS).tableBytes ≤ fs.fsize * 512

section Bpb
variable {fs : FATFS} {nclst c : ℕ}

theorem exists_pow_of_and_pred (hlt : c < 256) (hc : c ≠ 0 ∧ c &&& (c - 1) = 0) :
    ∃ k ≤ 7, c = 2 ^ k := by
  obtain ⟨k, rfl⟩ := Nat.ne_zero_and_sub_one_eq_zero_iff_isPowerOfTwo.mp hc
  refine ⟨k, ?_, rfl⟩
  have hk : 2 ^ k < 2 ^ 8 := hlt
  have := (Nat.pow_lt_pow_iff_right (by decide)).mp hk
  omega

theorem fatType_le (h : fatType nclst ≠ .none) : nclst ≤ 0x0FFFFFF5 := by
  unfold fatType at h
  split_ifs at h
  · omega
  · omega
  · assumption
  · exact absurd rfl h

theorem tableBytes_le (hle : fs.nFatent ≤ 0x0FFFFFF7)
    (h : add32 fs.tableBytes 511 / 512 ≤ fs.fsize) : fs.tableBytes ≤ fs.fsize * 512 := by
  have hlt : fs.tableBytes + 511 < 2 ^ 32 := by
    unfold tableBytes
    split <;> omega
  rw [add32_of_lt hlt] at h
  omega

/-- The table that is asked for has an entry for each cluster. -/
theorem rootAndTable_meets (win : ℕ → UInt8) (fmt : FsType) (fasize : ℕ) (hfmt : fmt ≠ .none)
    (hle : fs.nFatent ≤ 0x0FFFFFF7) :
    Meets (fun _ => True) (fun r => (∃ dirbase, r.2 = { fs with dirbase := dirbase }) ∧
      r.1 = ({ fs with fsType := fmt } : FATFS).tableBytes) (fs.rootAndTable win fmt fasize) := by
  unfold rootAndTable
  apply meets_ite
  · rintro rfl
    refine meets_require (fun _ => trivial) fun _ => meets_require (fun _ => trivial) fun _ => ?_
    exact meets_pure ⟨⟨_, rfl⟩, Nat.mod_eq_of_lt (by omega)⟩
  · intro hne
    refine meets_require (fun _ => trivial) fun _ => meets_pure ⟨⟨_, rfl⟩, ?_⟩
    cases fmt with
    | none => exact absurd rfl hfmt
    | fat12 =>
      change fs.nFatent * 3 / 2 + (fs.nFatent &&& 1) = fs.nFatent * 3 / 2 + fs.nFatent % 2
      rw [Nat.and_one_is_mod]
    | fat16 => rfl
    | fat32 => exact absurd rfl hne

/-- Whatever the boot sector says: it is refused, or its table has an entry for each cluster. -/
theorem analyzeBpb_meets (fs : FATFS) :
    Meets (fun _ => True) (fun r => Accepted r.1 r.2 ∧ r.2.win = fs.win ∧
      r.2.winsect = fs.winsect ∧ r.2.wflag = fs.wflag) fs.analyzeBpb := by
  unfold analyzeBpb
  refine meets_require (fun _ => trivial) fun _ => ?_
  refine meets_require (fun _ => trivial) fun _ => ?_
  refine meets_require (fun _ => trivial) fun hcsize => ?_
  refine meets_require (fun _ => trivial) fun _ => ?_
  refine meets_require (fun _ => trivial) fun _ => ?_
  refine meets_require (fun _ => trivial) fun _ => ?_
  refine meets_require (fun _ => trivial) fun _ => ?_
  refine meets_require (fun _ => trivial) fun hfmt => ?_
  have hclusters := Nat.add_le_add_right (fatType_le hfmt) 2
  refine meets_bind (rootAndTable_meets _ _ _ hfmt hclusters) ?_
  rintro ⟨szbfat, fs'⟩ ⟨⟨dirbase, rfl⟩, rfl⟩
  refine meets_require (fun _ => trivial) fun hneeded => meets_pure ?_
  refine ⟨⟨hfmt, exists_pow_of_and_pred (fs.win 13).toNat_lt hcsize, Nat.le_add_left _ _,
    hclusters, ?_⟩, rfl, rfl, rfl⟩
  exact tableBytes_le hclusters hneeded

/-- An accepted volume is sound where its sectors have numbers of 32 bits. -/
theorem Accepted.sound_iff {fmt : FsType} {fs' : FATFS} (h : Accepted fmt fs)
    (hsame : fs.SameVolume fs') (id : ℕ) :
    ({ fs' with fsType := fmt, id := id } : FATFS).Sound ↔ fs'.fatbase + fs'.fsize < 2 ^ 32 ∧
      0 < fs'.database ∧ fs'.database + fs'.csize * (fs'.nFatent - 2) < 2 ^ 32 := by
  obtain ⟨win, winsect, rfl⟩ := hsame
  constructor
  · intro hsound
    exact ⟨hsound.table_lt, hsound.data_pos, hsound.data_lt⟩
  · rintro ⟨htable, hpos, hdata⟩
    exact ⟨h.mounted, h.csize_pow, h.entries_ge, h.entries_le, h.table_le, htable, hpos, hdata⟩

end Bpb

/-- Where a read of one sector succeeds, the buffer holds what the medium holds. -/
def Delivers {σ : Type} (disk : DiskRead σ) (image : ℕ → UInt8) : Prop :=
  ∀ sector buffer s win s', disk sector 1 buffer s = .ok (.ok, win, s') →
    ∀ i < 512, win i = image (sector * 512 + i)

section Mount
variable {σ : Type} {disk : DiskRead σ} {image : ℕ → UInt8} {fs fs' : FATFS} {fsid : ℕ}
  {s s' : σ}

theorem moveWindow_meets (hdisk : Delivers disk image) (h : fs.WindowOk image) (sect : ℕ)
    (s : σ) : Meets (fun _ => True) (fun r => fs.SameVolume r.2.1 ∧ r.2.1.WindowOk image)
      (fs.moveWindow disk sect s) := by
  have hsync : fs.syncWindow = (.ok, fs) := by
    unfold FATFS.syncWindow
    rw [h.1]
    rfl
  unfold FATFS.moveWindow
  rw [hsync]
  apply meets_ite
  · intro _
    exact meets_ok ⟨SameVolume.refl _, h⟩
  · intro _
    dsimp only
    rw [if_pos rfl]
    refine meets_bind (meets_self _) ?_
    rintro ⟨answer, win, s'⟩ hread
    apply meets_ite
    · intro (hok : answer = .ok)
      rw [hok] at hread
      exact meets_pure ⟨⟨win, sect, rfl⟩, h.1, fun _ => hdisk _ _ _ _ _ hread⟩
    · intro _
      exact meets_pure ⟨⟨win, 2 ^ 32 - 1, rfl⟩, h.1, fun hne => absurd rfl hne⟩

theorem checkFs_meets (hdisk : Delivers disk image) (fs : FATFS) (sect : ℕ) (s : σ) :
    Meets (fun _ => True) (fun r => r.2.1.WindowOk image) (fs.checkFs disk sect s) := by
  have hempty : ({ fs with wflag := false, winsect := 2 ^ 32 - 1 } : FATFS).WindowOk image :=
    ⟨rfl, fun hne => absurd rfl hne⟩
  refine meets_bind (moveWindow_meets hdisk hempty sect s) ?_
  rintro ⟨result, fs', s'⟩ ⟨-, hwindow⟩
  exact meets_pure hwindow

theorem findPartition_meets (hdisk : Delivers disk image) (pts : List ℕ) (fmt : ℕ)
    (h : fs.WindowOk image) (s : σ) :
    Meets (fun _ => True) (fun r => r.2.1.WindowOk image) (findPartition disk pts fmt fs s) := by
  induction pts generalizing fmt fs s with
  | nil => exact meets_ok h
  | cons pt rest ih =>
    have hnext : ∀ r : ℕ × FATFS × σ, r.2.1.WindowOk image →
        Meets (fun _ => True) (fun r => r.2.1.WindowOk image)
          (if 2 ≤ r.1 then findPartition disk rest r.1 r.2.1 r.2.2 else pure r) := by
      intro r hr
      apply meets_ite
      · intro _
        exact ih r.1 hr r.2.2
      · intro _
        exact meets_pure hr
    unfold findPartition
    apply meets_ite
    · intro _
      exact meets_bind (checkFs_meets hdisk fs pt s) hnext
    · intro _
      exact hnext (3, fs, s) h

theorem findVolume_meets (hdisk : Delivers disk image) (fs : FATFS) (s : σ) :
    Meets (fun _ => True) (fun r => r.2.1.WindowOk image) (fs.findVolume disk s) := by
  refine meets_bind (checkFs_meets hdisk fs 0 s) ?_
  rintro ⟨fmt, fs', s'⟩ hwindow
  apply meets_ite
  · intro _
    exact meets_pure hwindow
  · intro _
    exact findPartition_meets hdisk _ _ hwindow _

theorem readFsInfo_meets (hdisk : Delivers disk image) (h : fs.WindowOk image) (fmt : FsType)
    (s : σ) : Meets (fun _ => True) (fun r => fs.SameVolume r.1 ∧ r.1.WindowOk image)
      (fs.readFsInfo disk fmt s) := by
  unfold readFsInfo
  apply meets_ite
  · intro _
    refine meets_bind (moveWindow_meets hdisk h _ s) ?_
    rintro ⟨result, fs', s'⟩ hmoved
    exact meets_pure hmoved
  · intro _
    exact meets_ok ⟨SameVolume.refl _, h⟩

/-- Whatever the medium holds: a volume that is mounted from it has a table with an entry for
each of its clusters and the other properties that the calls rely on, except that its areas
need numbers of 32 bits; and its window holds what the medium holds. -/
theorem mountVolume_sound_iff (hdisk : Delivers disk image) (hnew : fs.fsType = .none)
    (h : fs.mountVolume disk fsid s = .ok (.ok, fs', s')) :
    (fs'.Sound ↔ fs'.fatbase + fs'.fsize < 2 ^ 32 ∧ 0 < fs'.database ∧
      fs'.database + fs'.csize * (fs'.nFatent - 2) < 2 ^ 32) ∧ fs'.WindowOk image := by
  have hmount : Meets (fun _ => True) (fun r : FResult × FATFS × σ => r.1 = .ok →
      (r.2.1.Sound ↔ r.2.1.fatbase + r.2.1.fsize < 2 ^ 32 ∧ 0 < r.2.1.database ∧
        r.2.1.database + r.2.1.csize * (r.2.1.nFatent - 2) < 2 ^ 32) ∧ r.2.1.WindowOk image)
      (fs.mountVolume disk fsid s) := by
    unfold mountVolume
    rw [if_neg (not_not.mpr hnew)]
    refine meets_bind (findVolume_meets hdisk fs s) ?_
    rintro ⟨fmt, fs1, s1⟩ hwindow
    apply meets_ite
    · intro _
      exact meets_pure fun hok => by cases hok
    · intro _
      apply meets_ite
      · intro _
        exact meets_pure fun hok => by cases hok
      · intro _
        have hbpb := analyzeBpb_meets fs1
        dsimp only
        cases hresult : fs1.analyzeBpb with
        | error fs2 => exact meets_pure fun hok => by cases hok
        | ok r =>
          obtain ⟨kind, fs2⟩ := r
          obtain ⟨haccepted, hwin, hsect, hflag⟩ := hbpb.of_eq_ok hresult
          have hwindow2 : fs2.WindowOk image := by
            unfold WindowOk
            dsimp only at hwin hsect hflag
            rw [hwin, hsect, hflag]
            exact hwindow
          refine meets_bind (readFsInfo_meets hdisk hwindow2 kind s1) ?_
          rintro ⟨fs3, s3⟩ ⟨hsame, hwindow3⟩
          exact meets_pure fun _ => ⟨haccepted.sound_iff hsame _, hwindow3⟩
  exact hmount.of_eq_ok h rfl

end Mount

section Example

/-- A boot sector for FAT12: 130 sectors, with one each for itself, the table and the root. -/
def smallBoot (a : ℕ) : UInt8 :=
  match a with
  | 0 => 0xEB
  | 12 => 2
  | 13 => 1
  | 14 => 1
  | 16 => 1
  | 17 => 16
  | 19 => 130
  | 22 => 1
  | _ => 0

/-- The filesystem object before the first mount. -/
def noVolume : FATFS :=
  { fsType := .none
    nFats := 0
    wflag := false
    id := 0
    nRootdir := 0
    csize := 0
    nFatent := 0
    fsize := 0
    volbase := 0
    fatbase := 0
    dirbase := 0
    database := 0
    winsect := 0
    win := fun _ => 0 }

theorem mountVolume_sound_iff_small : ∃ fs' s', noVolume.mountVolume
    (fun sector _ _ s => .ok (.ok, fun i => smallBoot (sector * 512 + i), s)) 0 () =
      .ok (.ok, fs', s') ∧ fs'.Sound := by
  have hdisk : Delivers (σ := Unit)
      (fun sector _ _ s => .ok (.ok, fun i => smallBoot (sector * 512 + i), s)) smallBoot := by
    intro sector buffer s win s' hread i _
    cases hread
    rfl
  have hmount : noVolume.mountVolume
      (fun sector _ _ s => .ok (.ok, fun i => smallBoot (sector * 512 + i), s)) 0 () =
        .ok (.ok, _, _) := rfl
  refine ⟨_, _, hmount, ?_⟩
  exact (mountVolume_sound_iff hdisk rfl hmount).1.mpr ⟨by decide, by decide, by decide⟩

end Example

end Enkel.FatFs
