import Enkel.DiskReads
import Enkel.ByteMemory
import Mathlib.Algebra.Order.Group.Nat

/-!
The file allocation table of FatFs, in ff.c. A volume keeps one sector of the medium in its
window, and everything that it reads of the table goes through the window. An entry of FAT12
has twelve bits, so it may lie on two sectors. Sector and cluster numbers have 32 bits, and a
sector has 512 bytes. Nothing is written: disk_write refuses every write.
-/
namespace Enkel.FatFs

open Outcome Cdrom ByteMemory

/-- How a function of FatFs does not return: the medium stops, or a loop has no end. A cluster
that would have to be allocated is left out. -/
inductive Stop
  | medium (fault : Cdrom.Fault)
  | endless
  | createsChain
deriving DecidableEq, Repr

/-- disk_read of a medium with states `σ`: its answer, and the buffer after it. -/
abbrev DiskRead (σ : Type) :=
  (sector count : ℕ) → (buffer : ℕ → UInt8) → σ → Except Stop (DResult × (ℕ → UInt8) × σ)

def diskWrite : DResult := .writeProtected

inductive FResult
  | ok
  | diskErr
  | intErr
  | invalidObject
  | noFilesystem
deriving DecidableEq, Repr

inductive FsType
  | none
  | fat12
  | fat16
  | fat32
deriving DecidableEq, Repr

/-- The filesystem object of a volume. -/
structure FATFS where
  fsType : FsType
  nFats : ℕ
  wflag : Bool
  id : ℕ
  nRootdir : ℕ
  csize : ℕ
  nFatent : ℕ
  fsize : ℕ
  volbase : ℕ
  fatbase : ℕ
  dirbase : ℕ
  database : ℕ
  winsect : ℕ
  win : ℕ → UInt8

def add32 (a b : ℕ) : ℕ := (a + b) % 2 ^ 32

def sub32 (a b : ℕ) : ℕ := (a + (2 ^ 32 - b % 2 ^ 32)) % 2 ^ 32

theorem add32_of_lt {a b : ℕ} (h : a + b < 2 ^ 32) : add32 a b = a + b := Nat.mod_eq_of_lt h

theorem sub32_of_le {a b : ℕ} (h : b ≤ a) (ha : a < 2 ^ 32) : sub32 a b = a - b := by
  unfold sub32
  omega

namespace FATFS

/-- Write the window back where it is dirty. -/
def syncWindow (fs : FATFS) : FResult × FATFS :=
  if fs.wflag then
    if diskWrite = .ok then (.ok, { fs with wflag := false }) else (.diskErr, fs)
  else
    (.ok, fs)

section Window
variable {σ : Type} (disk : DiskRead σ)

def moveWindow (fs : FATFS) (sect : ℕ) (s : σ) : Except Stop (FResult × FATFS × σ) :=
  if sect = fs.winsect then
    .ok (.ok, fs, s)
  else
    let (result, fs) := fs.syncWindow
    if result = .ok then do
      let (answer, win, s) ← disk sect 1 fs.win s
      if answer = .ok then
        return (.ok, { fs with win := win, winsect := sect }, s)
      else
        return (.diskErr, { fs with win := win, winsect := 2 ^ 32 - 1 }, s)
    else
      .ok (result, fs, s)

/-- The first sector of a cluster; zero for a number that is none. -/
def clst2sect (fs : FATFS) (clst : ℕ) : ℕ :=
  let clst := sub32 clst 2
  if sub32 fs.nFatent 2 ≤ clst then 0 else add32 fs.database (fs.csize * clst)

/-- The entry of a cluster in the table: 1 for an internal error, all ones for an error of
the medium. -/
def getFat (fs : FATFS) (clst : ℕ) (s : σ) : Except Stop (ℕ × FATFS × σ) :=
  if clst < 2 ∨ fs.nFatent ≤ clst then
    .ok (1, fs, s)
  else
    match fs.fsType with
    | .none => .ok (1, fs, s)
    | .fat12 => do
      let bc := add32 clst (clst / 2)
      let (result, fs, s) ← fs.moveWindow disk (add32 fs.fatbase (bc / 512)) s
      if result = .ok then
        let wc := (fs.win (bc % 512)).toNat
        let bc := add32 bc 1
        let (result, fs, s) ← fs.moveWindow disk (add32 fs.fatbase (bc / 512)) s
        if result = .ok then
          let wc := wc ||| (fs.win (bc % 512)).toNat <<< 8
          return (if clst % 2 = 1 then wc >>> 4 else wc &&& 0xFFF, fs, s)
        else
          return (0xFFFFFFFF, fs, s)
      else
        return (0xFFFFFFFF, fs, s)
    | .fat16 => do
      let (result, fs, s) ← fs.moveWindow disk (add32 fs.fatbase (clst / 256)) s
      if result = .ok then
        return (readWord fs.win (clst * 2 % 512) 2, fs, s)
      else
        return (0xFFFFFFFF, fs, s)
    | .fat32 => do
      let (result, fs, s) ← fs.moveWindow disk (add32 fs.fatbase (clst / 128)) s
      if result = .ok then
        return (readWord fs.win (clst * 4 % 512) 4 &&& 0x0FFFFFFF, fs, s)
      else
        return (0xFFFFFFFF, fs, s)

end Window

/-- How many bytes the entries of the table take. -/
def tableBytes (fs : FATFS) : ℕ :=
  match fs.fsType with
  | .none => 0
  | .fat12 => fs.nFatent * 3 / 2 + fs.nFatent % 2
  | .fat16 => fs.nFatent * 2
  | .fat32 => fs.nFatent * 4

/-- The first sector of a cluster of the data area. -/
def clusterStart (fs : FATFS) (clst : ℕ) : ℕ := fs.database + fs.csize * (clst - 2)

/-- A sector of the table, or sectors of one cluster. -/
def InArea (fs : FATFS) (sector count : ℕ) : Prop :=
  (count = 1 ∧ fs.fatbase ≤ sector ∧ sector < fs.fatbase + fs.fsize) ∨
  (1 ≤ count ∧ ∃ clst, 2 ≤ clst ∧ clst < fs.nFatent ∧ fs.clusterStart clst ≤ sector ∧
    sector + count ≤ fs.clusterStart clst + fs.csize)

/-- A volume with a table that has an entry for each of its clusters, in the range of the
sector numbers. -/
structure Sound (fs : FATFS) : Prop where
  mounted : fs.fsType ≠ .none
  csize_pow : ∃ k ≤ 7, fs.csize = 2 ^ k
  entries_ge : 2 ≤ fs.nFatent
  entries_le : fs.nFatent ≤ 0x0FFFFFF7
  table_le : fs.tableBytes ≤ fs.fsize * 512
  table_lt : fs.fatbase + fs.fsize < 2 ^ 32
  data_pos : 0 < fs.database
  data_lt : fs.database + fs.csize * (fs.nFatent - 2) < 2 ^ 32

/-- The same volume, with anything in its window. -/
def SameVolume (fs fs' : FATFS) : Prop :=
  ∃ win winsect, fs' = { fs with win := win, winsect := winsect }

theorem SameVolume.refl (fs : FATFS) : SameVolume fs fs := ⟨fs.win, fs.winsect, rfl⟩

theorem SameVolume.trans {fs fs' fs'' : FATFS} (h : SameVolume fs fs')
    (h' : SameVolume fs' fs'') : SameVolume fs fs'' := by
  obtain ⟨win, winsect, rfl⟩ := h
  obtain ⟨win', winsect', rfl⟩ := h'
  exact ⟨win', winsect', rfl⟩

/-- The window holds what the medium holds there, and need not be written back. -/
def WindowOk (image : ℕ → UInt8) (fs : FATFS) : Prop :=
  fs.wflag = false ∧
    (fs.winsect ≠ 2 ^ 32 - 1 → ∀ i < 512, fs.win i = image (fs.winsect * 512 + i))

/-- The entry of a cluster, in the table as the medium holds it. -/
def tableEntry (image : ℕ → UInt8) (fs : FATFS) (clst : ℕ) : ℕ :=
  match fs.fsType with
  | .none => 1
  | .fat12 =>
    let pair := readWord image (fs.fatbase * 512 + (clst + clst / 2)) 2
    if clst % 2 = 1 then pair / 16 else pair % 4096
  | .fat16 => readWord image (fs.fatbase * 512 + clst * 2) 2
  | .fat32 => readWord image (fs.fatbase * 512 + clst * 4) 4 % 2 ^ 28

end FATFS

open FATFS

/-- Reads of the volume succeed, and deliver what the medium holds. -/
def Serves {σ : Type} (disk : DiskRead σ) (image : ℕ → UInt8) (fs : FATFS) : Prop :=
  ∀ sector count buffer s, fs.InArea sector count →
    ∃ buffer' s', disk sector count buffer s = .ok (.ok, buffer', s') ∧
      ∀ i, buffer' i = if i < count * 512 then image (sector * 512 + i) else buffer i

section Clusters
variable {fs : FATFS} {clst : ℕ}

theorem FATFS.Sound.csize_pos (h : fs.Sound) : 0 < fs.csize := by
  obtain ⟨k, -, hk⟩ := h.csize_pow
  rw [hk]
  exact Nat.two_pow_pos k

theorem FATFS.Sound.csize_le (h : fs.Sound) : fs.csize ≤ 128 := by
  obtain ⟨k, hle, hk⟩ := h.csize_pow
  rw [hk]
  exact Nat.pow_le_pow_right (by decide) hle

/-- A cluster ends inside the data area. -/
theorem FATFS.Sound.cluster_le (h : fs.Sound) (hge : 2 ≤ clst) (hlt : clst < fs.nFatent) :
    fs.clusterStart clst + fs.csize < 2 ^ 32 := by
  have hmul : fs.csize * (clst - 2 + 1) ≤ fs.csize * (fs.nFatent - 2) :=
    Nat.mul_le_mul_left _ (by omega)
  have hdata := h.data_lt
  rw [Nat.mul_add, Nat.mul_one] at hmul
  unfold clusterStart
  omega

theorem FATFS.Sound.clst2sect_eq (h : fs.Sound) (hclst : clst < 2 ^ 32) :
    fs.clst2sect clst =
      if 2 ≤ clst ∧ clst < fs.nFatent then fs.clusterStart clst else 0 := by
  have hge := h.entries_ge
  have hle := h.entries_le
  have hnumber : sub32 fs.nFatent 2 = fs.nFatent - 2 := sub32_of_le hge (by omega)
  unfold FATFS.clst2sect
  dsimp only
  rw [hnumber]
  by_cases hin : 2 ≤ clst ∧ clst < fs.nFatent
  · have hend := h.cluster_le hin.1 hin.2
    unfold clusterStart at hend ⊢
    rw [sub32_of_le hin.1 hclst, if_neg (by omega), if_pos hin, add32_of_lt (by omega)]
  · have hout : fs.nFatent - 2 ≤ sub32 clst 2 := by
      unfold sub32
      omega
    rw [if_pos hout, if_neg hin]

theorem FATFS.Sound.clst2sect_of_lt (h : fs.Sound) (hge : 2 ≤ clst) (hlt : clst < fs.nFatent) :
    fs.clst2sect clst = fs.clusterStart clst := by
  have hle := h.entries_le
  rw [h.clst2sect_eq (by omega), if_pos ⟨hge, hlt⟩]

theorem FATFS.Sound.clusterStart_pos (h : fs.Sound) : 0 < fs.clusterStart clst :=
  Nat.add_pos_left h.data_pos _

end Clusters

section Table
variable {σ : Type} {disk : DiskRead σ} {image : ℕ → UInt8} {fs fs' : FATFS} {sect clst : ℕ}
  {s : σ}

theorem FATFS.SameVolume.inArea (h : fs.SameVolume fs') {sector count : ℕ} :
    fs'.InArea sector count ↔ fs.InArea sector count := by
  obtain ⟨win, winsect, rfl⟩ := h
  exact Iff.rfl

theorem FATFS.SameVolume.sound (h : fs.SameVolume fs') (hsound : fs.Sound) : fs'.Sound := by
  obtain ⟨win, winsect, rfl⟩ := h
  exact ⟨hsound.mounted, hsound.csize_pow, hsound.entries_ge, hsound.entries_le, hsound.table_le,
    hsound.table_lt, hsound.data_pos, hsound.data_lt⟩

/-- A sector of the volume comes into the window. -/
theorem moveWindow_served (hserves : Serves disk image fs) (hin : fs.InArea sect 1)
    (hwindow : fs.WindowOk image) :
    ∃ fs' s', fs.moveWindow disk sect s = .ok (.ok, fs', s') ∧ fs.SameVolume fs' ∧
      fs'.WindowOk image ∧ fs'.winsect = sect := by
  unfold FATFS.moveWindow
  by_cases hsame : sect = fs.winsect
  · rw [if_pos hsame]
    exact ⟨fs, s, rfl, SameVolume.refl fs, hwindow, hsame.symm⟩
  · obtain ⟨win, s', hread, hbytes⟩ := hserves sect 1 fs.win s hin
    have hsync : fs.syncWindow = (.ok, fs) := by
      unfold FATFS.syncWindow
      rw [hwindow.1]
      rfl
    rw [if_neg hsame, hsync]
    dsimp only
    rw [if_pos rfl, hread]
    refine ⟨{ fs with win := win, winsect := sect }, s', rfl, ⟨win, sect, rfl⟩, ⟨hwindow.1, ?_⟩,
      rfl⟩
    intro _ i hi
    exact (hbytes i).trans (if_pos (by omega))

/-- The sector of a byte of the table. -/
theorem FATFS.Sound.table_sector (h : fs.Sound) {x : ℕ} (hx : x < fs.fsize * 512) :
    add32 fs.fatbase (x / 512) = fs.fatbase + x / 512 ∧ fs.InArea (fs.fatbase + x / 512) 1 ∧
      fs.fatbase + x / 512 < 2 ^ 32 - 1 := by
  have htable := h.table_lt
  refine ⟨add32_of_lt (by omega), Or.inl ⟨rfl, by omega, by omega⟩, by omega⟩

/-- A byte of the table comes into the window with those of its sector. -/
theorem moveWindow_table (hsound : fs.Sound) (hserves : Serves disk image fs)
    (hwindow : fs.WindowOk image) {x : ℕ} (hx : x < fs.fsize * 512) :
    ∃ fs' s', fs.moveWindow disk (add32 fs.fatbase (x / 512)) s = .ok (.ok, fs', s') ∧
      fs.SameVolume fs' ∧ fs'.WindowOk image ∧
      ∀ i < 512, fs'.win i = image ((fs.fatbase + x / 512) * 512 + i) := by
  obtain ⟨heq, hin, hlt⟩ := hsound.table_sector hx
  obtain ⟨fs', s', hmove, hsame, hwindow', hsect⟩ := moveWindow_served (s := s) hserves hin hwindow
  refine ⟨fs', s', heq ▸ hmove, hsame, hwindow', fun i hi => ?_⟩
  rw [hwindow'.2 (by omega) i hi, hsect]

theorem serves_of_same (h : fs.SameVolume fs') (hserves : Serves disk image fs) :
    Serves disk image fs' :=
  fun sector count buffer s hin => hserves sector count buffer s (h.inArea.mp hin)

/-- An entry of whole bytes is read out of the window as it stands in the table. -/
theorem readWord_window {win : ℕ → UInt8} {base x n : ℕ} (hx : x % 512 + n ≤ 512)
    (hlt : base + x / 512 < 2 ^ 32)
    (hwin : ∀ i < 512, win i = image ((base + x / 512) * 512 + i)) :
    readWord win (x % 512) n = readWord image (base * 512 + x) n := by
  apply readWord_congr
  intro i hi
  have hleft : (x % 512 + i) % 2 ^ 64 = x % 512 + i := Nat.mod_eq_of_lt (by omega)
  have hright : (base * 512 + x + i) % 2 ^ 64 = (base + x / 512) * 512 + (x % 512 + i) := by
    rw [Nat.mod_eq_of_lt (by omega)]
    omega
  rw [hleft, hright]
  exact hwin _ (by omega)

/-- Two bytes that are joined are the word of both. -/
theorem or_shiftLeft_eq {x : ℕ} (hx : x + 1 < 2 ^ 64) :
    (image x).toNat ||| (image (x + 1)).toNat <<< 8 = readWord image x 2 := by
  have hadd := Nat.shiftLeft_add_eq_or_of_lt (image x).toNat_lt (image (x + 1)).toNat
  have hword : readWord image x 2 = (image x).toNat + 256 * (image (x + 1)).toNat := by
    unfold readWord readWord readWord
    rw [Nat.add_zero, Nat.mod_eq_of_lt (show x < 2 ^ 64 by omega), Nat.mod_eq_of_lt hx]
    omega
  rw [Nat.lor_comm, ← hadd, hword, Nat.shiftLeft_eq]
  omega

/-- For every kind of table: what get_fat returns is the entry in the table. -/
theorem getFat_served (hsound : fs.Sound) (hserves : Serves disk image fs)
    (hwindow : fs.WindowOk image) (hge : 2 ≤ clst) (hlt : clst < fs.nFatent) :
    ∃ fs' s', fs.getFat disk clst s = .ok (fs.tableEntry image clst, fs', s') ∧
      fs.SameVolume fs' ∧ fs'.WindowOk image := by
  have htable := hsound.table_le
  have hend := hsound.table_lt
  have hentries := hsound.entries_le
  unfold FATFS.getFat
  rw [if_neg (by omega)]
  unfold tableBytes at htable
  unfold tableEntry
  cases htype : fs.fsType with
  | none => exact absurd htype hsound.mounted
  | fat12 =>
    rw [htype] at htable
    dsimp only at htable ⊢
    have hbc : add32 clst (clst / 2) = clst + clst / 2 := add32_of_lt (by omega)
    have hnext : add32 (clst + clst / 2) 1 = clst + clst / 2 + 1 := add32_of_lt (by omega)
    have hin : clst + clst / 2 + 1 < fs.fsize * 512 := by omega
    rw [hbc, hnext]
    obtain ⟨fs1, s1, hmove1, hsame1, hwindow1, hwin1⟩ := moveWindow_table (s := s) hsound hserves
      hwindow (x := clst + clst / 2) (by omega)
    obtain ⟨fs2, s2, hmove2, hsame2, hwindow2, hwin2⟩ := moveWindow_table (s := s1)
      (hsame1.sound hsound) (serves_of_same hsame1 hserves) hwindow1 (x := clst + clst / 2 + 1)
      (by obtain ⟨win, winsect, rfl⟩ := hsame1; exact hin)
    have hbase : fs1.fatbase = fs.fatbase := by
      obtain ⟨win, winsect, rfl⟩ := hsame1
      rfl
    have hlow : fs1.win ((clst + clst / 2) % 512) =
        image (fs.fatbase * 512 + (clst + clst / 2)) := by
      rw [hwin1 _ (Nat.mod_lt _ (by decide))]
      exact congrArg image (by omega)
    have hhigh : fs2.win ((clst + clst / 2 + 1) % 512) =
        image (fs.fatbase * 512 + (clst + clst / 2) + 1) := by
      rw [hwin2 _ (Nat.mod_lt _ (by decide)), hbase]
      exact congrArg image (by omega)
    refine ⟨fs2, s2, ?_, hsame1.trans hsame2, hwindow2⟩
    rw [hmove1, ok_bind]
    dsimp only
    rw [if_pos rfl, hmove2, ok_bind]
    dsimp only
    rw [if_pos rfl, hlow, hhigh, or_shiftLeft_eq (by omega)]
    congr 2
    refine ite_congr rfl (fun _ => ?_) fun _ => ?_
    · exact Nat.shiftRight_eq_div_pow _ 4
    · exact Nat.and_two_pow_sub_one_eq_mod _ 12
  | fat16 =>
    rw [htype] at htable
    dsimp only at htable ⊢
    have hsector : clst / 256 = clst * 2 / 512 := by omega
    obtain ⟨fs1, s1, hmove, hsame, hwindow1, hwin⟩ := moveWindow_table (s := s) hsound hserves
      hwindow (x := clst * 2) (by omega)
    refine ⟨fs1, s1, ?_, hsame, hwindow1⟩
    rw [hsector, hmove, ok_bind]
    dsimp only
    rw [if_pos rfl, readWord_window (by omega) (by omega) hwin]
    rfl
  | fat32 =>
    rw [htype] at htable
    dsimp only at htable ⊢
    have hsector : clst / 128 = clst * 4 / 512 := by omega
    obtain ⟨fs1, s1, hmove, hsame, hwindow1, hwin⟩ := moveWindow_table (s := s) hsound hserves
      hwindow (x := clst * 4) (by omega)
    refine ⟨fs1, s1, ?_, hsame, hwindow1⟩
    rw [hsector, hmove, ok_bind]
    dsimp only
    rw [if_pos rfl, readWord_window (by omega) (by omega) hwin,
      show 0x0FFFFFFF = 2 ^ 28 - 1 from rfl, Nat.and_two_pow_sub_one_eq_mod]
    rfl

end Table

end Enkel.FatFs
