import Enkel.FatRuns
import Enkel.AlikeRuns

/-!
Where FatFs reads. Whatever the table and the file objects hold, every sector that is asked of
the medium lies in the table or in a cluster of the volume: two media that answer alike there
cannot be told apart by any run of reads and seeks.
-/
namespace Enkel.FatFs

open Outcome AlikeRuns ByteMemory FATFS FileMapping VolumeCalls VolumeSystem.FileHandleMask

/-- Two media that answer alike on the volume. -/
def SameArea {σ : Type} (volume : FATFS) (disk disk' : DiskRead σ) : Prop :=
  ∀ sector count, volume.InArea sector count → disk sector count = disk' sector count

/-- What every function keeps: the volume, and cluster numbers of 32 bits. -/
structure OnVolume {σ : Type} (volume : FATFS) (a : Access σ) : Prop where
  same : volume.SameVolume a.fs
  sclust_lt : a.fp.sclust < 2 ^ 32
  clust_lt : a.fp.clust < 2 ^ 32

theorem syncWindow_eq (fs : FATFS) : ∃ result, fs.syncWindow = (result, fs) := by
  unfold FATFS.syncWindow
  by_cases hflag : fs.wflag = true
  · rw [if_pos hflag, if_neg (by decide)]
    exact ⟨_, rfl⟩
  · rw [if_neg hflag]
    exact ⟨_, rfl⟩

section Places
variable {volume fs : FATFS} {clst csect count x : ℕ}

/-- A cluster that has a sector is one of the volume. -/
theorem FATFS.Sound.area_of_clst2sect (h : fs.Sound) (hclst : clst < 2 ^ 32)
    (hne : fs.clst2sect clst ≠ 0) (hcount : 0 < count) (hend : csect + count ≤ fs.csize) :
    fs.InArea (add32 (fs.clst2sect clst) csect) count := by
  rw [h.clst2sect_eq hclst] at hne ⊢
  by_cases hin : 2 ≤ clst ∧ clst < fs.nFatent
  · have hlt := h.cluster_le hin.1 hin.2
    rw [if_pos hin, add32_of_lt (by omega)]
    exact Or.inr ⟨hcount, clst, hin.1, hin.2, Nat.le_add_right _ _, by omega⟩
  · rw [if_neg hin] at hne
    exact absurd rfl hne

/-- The sector of a position counts up to the sectors of a cluster. -/
theorem FATFS.Sound.csect_lt (h : fs.Sound) (x : ℕ) : x &&& sub32 fs.csize 1 < fs.csize := by
  have hle := h.csize_le
  obtain ⟨k, -, hk⟩ := h.csize_pow
  rw [sub32_of_le h.csize_pos (by omega), hk, Nat.and_two_pow_sub_one_eq_mod]
  exact Nat.mod_lt x (Nat.two_pow_pos k)

/-- The position that a seek goes on from is the start of a sector. -/
theorem and_mask_mod {bcs : ℕ} (hpos : 0 < bcs) (hle : bcs ≤ 65536) (hbcs : bcs % 512 = 0) :
    (x &&& (2 ^ 32 - 1 - sub32 bcs 1)) % 512 = 0 := by
  have hmask : (2 ^ 32 - 1 - sub32 bcs 1) % 2 ^ 9 = 0 := by
    rw [sub32_of_le hpos (by omega)]
    omega
  change (x &&& (2 ^ 32 - 1 - sub32 bcs 1)) % 2 ^ 9 = 0
  rw [Nat.and_mod_two_pow, hmask, Nat.and_zero]

end Places

section Area
variable {σ : Type} {disk disk' : DiskRead σ} {volume fs : FATFS} {a : Access σ} {t : Transfer σ}
  {sect clst ofs cc csect : ℕ}

theorem moveWindow_alike (hagree : SameArea volume disk disk') (h : volume.SameVolume fs)
    (hin : volume.InArea sect 1) (s : σ) :
    Alike (fun r => volume.SameVolume r.2.1) (fs.moveWindow disk sect s)
      (fs.moveWindow disk' sect s) := by
  obtain ⟨result, hsync⟩ := syncWindow_eq fs
  unfold FATFS.moveWindow
  rw [hsync, hagree sect 1 hin]
  apply Alike.ite
  · intro _
    exact Alike.ok h
  · intro _
    apply Alike.ite
    · intro _
      refine (Alike.of_eq fun _ _ => trivial).bind ?_
      rintro ⟨answer, win, s⟩ -
      apply Alike.ite
      · intro _
        exact Alike.pure (h.trans ⟨win, sect, rfl⟩)
      · intro _
        exact Alike.pure (h.trans ⟨win, 2 ^ 32 - 1, rfl⟩)
    · intro _
      exact Alike.ok h

/-- The sector of a byte of the table. -/
theorem moveWindow_table_alike (hsound : volume.Sound) (hagree : SameArea volume disk disk')
    (h : volume.SameVolume fs) {x : ℕ} (hx : x < volume.fsize * 512) (s : σ) :
    Alike (fun r => volume.SameVolume r.2.1) (fs.moveWindow disk (add32 fs.fatbase (x / 512)) s)
      (fs.moveWindow disk' (add32 fs.fatbase (x / 512)) s) := by
  obtain ⟨heq, hin, -⟩ := hsound.table_sector hx
  have hbase : fs.fatbase = volume.fatbase := by
    obtain ⟨win, winsect, rfl⟩ := h
    rfl
  rw [hbase, heq]
  exact moveWindow_alike hagree h hin s

theorem getFat_alike (hsound : volume.Sound) (hagree : SameArea volume disk disk')
    (h : volume.SameVolume fs) (clst : ℕ) (s : σ) :
    Alike (fun r => r.1 < 2 ^ 32 ∧ volume.SameVolume r.2.1) (fs.getFat disk clst s)
      (fs.getFat disk' clst s) := by
  have htable := hsound.table_le
  have hend := hsound.table_lt
  have hentries := hsound.entries_le
  have hone : 1 < 2 ^ 32 := by decide
  have herror : 0xFFFFFFFF < 2 ^ 32 := by decide
  have htype : fs.fsType = volume.fsType := by
    obtain ⟨win, winsect, rfl⟩ := h
    rfl
  unfold FATFS.getFat
  rw [htype, h.nFatent_eq]
  unfold tableBytes at htable
  apply Alike.ite
  · intro _
    exact Alike.ok ⟨hone, h⟩
  · intro hclst
    cases hkind : volume.fsType with
    | none => exact Alike.ok ⟨hone, h⟩
    | fat12 =>
      rw [hkind] at htable
      dsimp only at htable ⊢
      have hbc : add32 clst (clst / 2) = clst + clst / 2 := add32_of_lt (by omega)
      have hnext : add32 (clst + clst / 2) 1 = clst + clst / 2 + 1 := add32_of_lt (by omega)
      rw [hbc, hnext]
      refine (moveWindow_table_alike hsound hagree h (by omega) s).bind ?_
      rintro ⟨result, fs1, s1⟩ h1
      apply Alike.ite
      · intro _
        refine (moveWindow_table_alike hsound hagree h1 (by omega) s1).bind ?_
        rintro ⟨result, fs2, s2⟩ h2
        apply Alike.ite
        · intro _
          refine Alike.pure ⟨?_, h2⟩
          have hlow := (fs1.win ((clst + clst / 2) % 512)).toNat_lt
          have hhigh := (fs2.win ((clst + clst / 2 + 1) % 512)).toNat_lt
          have hword : (fs1.win ((clst + clst / 2) % 512)).toNat |||
              (fs2.win ((clst + clst / 2 + 1) % 512)).toNat <<< 8 < 2 ^ 32 := by
            apply Nat.or_lt_two_pow (by omega)
            rw [Nat.shiftLeft_eq]
            omega
          split_ifs
          · exact (Nat.shiftRight_le _ _).trans_lt hword
          · exact Nat.and_le_right.trans_lt (by decide)
        · intro _
          exact Alike.pure ⟨herror, h2⟩
      · intro _
        exact Alike.pure ⟨herror, h1⟩
    | fat16 =>
      rw [hkind] at htable
      dsimp only at htable ⊢
      have hsector : clst / 256 = clst * 2 / 512 := by omega
      rw [hsector]
      refine (moveWindow_table_alike hsound hagree h (by omega) s).bind ?_
      rintro ⟨result, fs1, s1⟩ h1
      apply Alike.ite
      · intro _
        exact Alike.pure ⟨readWord_lt.trans (by decide), h1⟩
      · intro _
        exact Alike.pure ⟨herror, h1⟩
    | fat32 =>
      rw [hkind] at htable
      dsimp only at htable ⊢
      have hsector : clst / 128 = clst * 4 / 512 := by omega
      rw [hsector]
      refine (moveWindow_table_alike hsound hagree h (by omega) s).bind ?_
      rintro ⟨result, fs1, s1⟩ h1
      apply Alike.ite
      · intro _
        exact Alike.pure ⟨Nat.and_le_right.trans_lt (by decide), h1⟩
      · intro _
        exact Alike.pure ⟨herror, h1⟩

theorem loadSector_alike (hagree : SameArea volume disk disk') (h : OnVolume volume a)
    (hin : volume.InArea sect 1) :
    Alike (fun r => OnVolume volume r.2) (a.loadSector disk sect) (a.loadSector disk' sect) := by
  unfold Access.loadSector
  rw [hagree sect 1 hin]
  apply Alike.ite
  · intro _
    exact Alike.ok h
  · intro _
    refine (Alike.of_eq fun _ _ => trivial).bind ?_
    rintro ⟨answer, buf, medium⟩ -
    apply Alike.ite
    · intro _
      exact Alike.pure ⟨h.same, h.sclust_lt, h.clust_lt⟩
    · intro _
      exact Alike.pure ⟨h.same, h.sclust_lt, h.clust_lt⟩

theorem followCluster_alike (hsound : volume.Sound) (hagree : SameArea volume disk disk')
    (h : OnVolume volume a) :
    Alike (fun r => OnVolume volume r.2) (a.followCluster disk) (a.followCluster disk') := by
  unfold Access.followCluster
  refine Alike.branch (Q := fun r => r.1 < 2 ^ 32 ∧ volume.SameVolume r.2.1) ?_ ?_ ?_
  · intro _
    exact Alike.ok ⟨h.sclust_lt, h.same⟩
  · intro _
    exact getFat_alike hsound hagree h.same _ _
  rintro ⟨clst, fs, medium⟩ ⟨hlt, hsame⟩
  apply Alike.ite
  · intro _
    exact Alike.pure ⟨hsame, h.sclust_lt, h.clust_lt⟩
  · intro _
    apply Alike.ite
    · intro _
      exact Alike.pure ⟨hsame, h.sclust_lt, h.clust_lt⟩
    · intro _
      exact Alike.pure ⟨hsame, h.sclust_lt, hlt⟩

theorem readSectors_alike (hagree : SameArea volume disk disk')
    (h : OnVolume volume t.toAccess) (hin : volume.InArea sect cc) :
    Alike (fun r => OnVolume volume r.2.toAccess) (t.readSectors disk sect cc)
      (t.readSectors disk' sect cc) := by
  unfold Transfer.readSectors
  rw [hagree sect cc hin]
  refine (Alike.of_eq fun _ _ => trivial).bind ?_
  rintro ⟨answer, bytes, medium⟩ -
  apply Alike.ite
  · intro _
    exact Alike.pure ⟨h.same, h.sclust_lt, h.clust_lt⟩
  · intro _
    exact Alike.pure ⟨h.same, h.sclust_lt, h.clust_lt⟩

theorem readBoundary_alike (hsound : volume.Sound) (hagree : SameArea volume disk disk')
    (h : OnVolume volume t.toAccess) (hcsect : csect < volume.csize) :
    Alike (fun r => OnVolume volume r.2.toAccess) (t.readBoundary disk csect)
      (t.readBoundary disk' csect) := by
  have hle := hsound.csize_le
  unfold Transfer.readBoundary
  dsimp only
  rw [h.same.clst2sect_eq, h.same.csize_eq]
  apply Alike.ite
  · intro _
    exact Alike.ok h
  · intro hne
    apply Alike.ite
    · intro hcc
      have hclip : sub32 volume.csize csect = volume.csize - csect :=
        sub32_of_le hcsect.le (by omega)
      rw [hclip]
      apply readSectors_alike hagree h
      apply hsound.area_of_clst2sect h.clust_lt hne
      · split_ifs <;> omega
      · split_ifs <;> omega
    · intro _
      have hin := hsound.area_of_clst2sect h.clust_lt hne Nat.one_pos hcsect
      refine (loadSector_alike hagree h hin).bind ?_
      rintro ⟨result, a⟩ ha
      refine Alike.pure ?_
      dsimp only
      split_ifs
      · exact ⟨ha.same, ha.sclust_lt, ha.clust_lt⟩
      · exact ha

theorem readTurn_alike (hsound : volume.Sound) (hagree : SameArea volume disk disk')
    (h : OnVolume volume t.toAccess) :
    Alike (fun r => OnVolume volume r.2.toAccess) (t.readTurn disk) (t.readTurn disk') := by
  have hcsect := hsound.csect_lt (t.fp.fptr / 512)
  unfold Transfer.readTurn
  rw [h.same.csize_eq]
  apply Alike.ite
  · intro _
    refine Alike.branch (Q := fun r : FResult × Access σ => OnVolume volume r.2) ?_ ?_ ?_
    · intro _
      exact followCluster_alike hsound hagree h
    · intro _
      exact Alike.ok h
    rintro ⟨result, a⟩ ha
    apply Alike.ite
    · intro _
      exact readBoundary_alike (t := { t with toAccess := a }) hsound hagree ha hcsect
    · intro _
      exact Alike.pure ha
  · intro _
    exact Alike.ok ⟨h.same, h.sclust_lt, h.clust_lt⟩

theorem readLoop_alike (hsound : volume.Sound) (hagree : SameArea volume disk disk') (fuel : ℕ)
    (h : OnVolume volume t.toAccess) :
    Alike (fun r => OnVolume volume r.2.toAccess) (t.readLoop disk fuel)
      (t.readLoop disk' fuel) := by
  induction fuel generalizing t with
  | zero =>
    unfold Transfer.readLoop
    apply Alike.ite
    · intro _
      exact Alike.ok h
    · intro _
      exact Alike.error _
  | succ fuel ih =>
    unfold Transfer.readLoop
    apply Alike.ite
    · intro _
      exact Alike.ok h
    · intro _
      refine (readTurn_alike hsound hagree h).bind ?_
      rintro ⟨result, t'⟩ ht'
      apply Alike.ite
      · intro _
        exact ih ht'
      · intro _
        exact Alike.pure ht'

theorem abort_fields (fp : FIL) (result : FResult) :
    (fp.abort result).sclust = fp.sclust ∧ (fp.abort result).clust = fp.clust := by
  unfold FIL.abort
  split_ifs
  · exact ⟨rfl, rfl⟩
  · exact ⟨rfl, rfl⟩

theorem fRead_alike (hsound : volume.Sound) (hagree : SameArea volume disk disk')
    (h : OnVolume volume a) (rbuff : ℕ → UInt8) (btr : ℕ) :
    Alike (fun r => OnVolume volume r.2.toAccess) (fRead disk a rbuff btr)
      (fRead disk' a rbuff btr) := by
  unfold fRead
  apply Alike.ite
  · intro _
    refine (readLoop_alike hsound hagree _ h).bind ?_
    rintro ⟨result, t⟩ ht
    obtain ⟨hsclust, hclust⟩ := abort_fields t.fp result
    exact Alike.pure ⟨ht.same, hsclust ▸ ht.sclust_lt, hclust ▸ ht.clust_lt⟩
  · intro _
    exact Alike.ok h

/-- Where the loop of f_lseek ends: at the start of a sector, with the position in the cluster
that it has reached. -/
structure SeekEnd (volume : FATFS) (result : FResult) (clst ofs : ℕ) (a : Access σ) : Prop where
  on : OnVolume volume a
  start : a.fp.fptr % 512 = 0
  clst_lt : clst < 2 ^ 32
  ofs_le : result = .ok → ofs ≤ volume.clusterBytes

theorem seekLoop_alike (hsound : volume.Sound) (hagree : SameArea volume disk disk') (fuel : ℕ)
    (h : OnVolume volume a) (hstart : a.fp.fptr % 512 = 0) (hclst : clst < 2 ^ 32) :
    Alike (fun r => SeekEnd volume r.1 r.2.1 r.2.2.1 r.2.2.2)
      (Access.seekLoop disk volume.clusterBytes fuel clst ofs a)
      (Access.seekLoop disk' volume.clusterBytes fuel clst ofs a) := by
  have hdvd : volume.clusterBytes % 512 = 0 := Nat.mul_mod_left volume.csize 512
  induction fuel generalizing clst ofs a with
  | zero =>
    unfold Access.seekLoop
    apply Alike.ite
    · intro hle
      exact Alike.ok ⟨h, hstart, hclst, fun _ => hle⟩
    · intro _
      exact Alike.error _
  | succ fuel ih =>
    unfold Access.seekLoop
    apply Alike.ite
    · intro hle
      exact Alike.ok ⟨h, hstart, hclst, fun _ => hle⟩
    · intro _
      have hnext : add32 a.fp.fptr volume.clusterBytes % 512 = 0 := by
        unfold add32
        omega
      refine (getFat_alike hsound hagree h.same clst a.medium).bind ?_
      rintro ⟨clst', fs', medium⟩ ⟨hlt, hsame⟩
      have hon : OnVolume volume (⟨fs', { a.fp with
          fptr := add32 a.fp.fptr volume.clusterBytes }, medium⟩ : Access σ) :=
        ⟨hsame, h.sclust_lt, h.clust_lt⟩
      apply Alike.ite
      · intro _
        exact Alike.pure ⟨hon, hnext, hlt, fun hok => by cases hok⟩
      · intro _
        apply Alike.ite
        · intro _
          exact Alike.pure ⟨hon, hnext, hlt, fun hok => by cases hok⟩
        · intro _
          exact ih ⟨hsame, h.sclust_lt, hlt⟩ hnext hlt

/-- A seek that has succeeded needs a sector only inside the volume. -/
def SectorFound (volume : FATFS) (result : FResult) (nsect : ℕ) (a : Access σ) : Prop :=
  OnVolume volume a ∧ (result = .ok → a.fp.fptr % 512 ≠ 0 → volume.InArea nsect 1)

theorem seekFrom_alike (hsound : volume.Sound) (hagree : SameArea volume disk disk')
    (h : OnVolume volume a) (hstart : a.fp.fptr % 512 = 0) (hclst : clst < 2 ^ 32) :
    Alike (fun r => SectorFound volume r.1 r.2.1 r.2.2) (a.seekFrom disk clst ofs)
      (a.seekFrom disk' clst ofs) := by
  unfold Access.seekFrom
  dsimp only
  rw [hsound.bcs_eq h.same]
  apply Alike.ite
  · intro _
    exact Alike.ok ⟨h, fun _ hne => absurd hstart hne⟩
  · intro _
    refine (seekLoop_alike hsound hagree ofs h hstart hclst).bind ?_
    rintro ⟨result, clst', ofs', a'⟩ (hseek : SeekEnd volume result clst' ofs' a')
    have hkept : OnVolume volume { a' with fp := { a'.fp with
        fptr := add32 a'.fp.fptr ofs' } } :=
      ⟨hseek.on.same, hseek.on.sclust_lt, hseek.on.clust_lt⟩
    apply Alike.ite
    · intro hok
      apply Alike.ite
      · intro (haligned : ofs' % 512 = 0)
        refine Alike.pure ⟨hkept, fun _ hne => absurd ?_ hne⟩
        have hbefore := hseek.start
        change add32 a'.fp.fptr ofs' % 512 = 0
        unfold add32
        omega
      · intro (haligned : ¬ ofs' % 512 = 0)
        apply Alike.ite
        · intro _
          exact Alike.pure ⟨hkept, fun herr => by cases herr⟩
        · intro hne
          refine Alike.pure ⟨hkept, fun _ _ => ?_⟩
          have hle := hseek.ofs_le hok
          have hbytes : volume.clusterBytes = volume.csize * 512 := rfl
          dsimp only at hne ⊢
          rw [hseek.on.same.clst2sect_eq] at hne ⊢
          exact hsound.area_of_clst2sect hseek.clst_lt hne Nat.one_pos (by omega)
    · intro hfailed
      exact Alike.pure ⟨hseek.on, fun hok => absurd hok hfailed⟩

theorem seekChain_alike (hsound : volume.Sound) (hagree : SameArea volume disk disk')
    (h : OnVolume volume a) (ofs : ℕ) :
    Alike (fun r => SectorFound volume r.1 r.2.1 r.2.2) (a.seekChain disk ofs)
      (a.seekChain disk' ofs) := by
  unfold Access.seekChain
  dsimp only
  rw [hsound.bcs_eq h.same]
  apply Alike.ite
  · intro _
    exact Alike.ok ⟨⟨h.same, h.sclust_lt, h.clust_lt⟩, fun _ hne => absurd rfl hne⟩
  · intro _
    apply Alike.ite
    · intro _
      refine seekFrom_alike hsound hagree ⟨h.same, h.sclust_lt, h.clust_lt⟩ ?_ h.clust_lt
      exact and_mask_mod hsound.clusterBytes_pos hsound.clusterBytes_le
        (Nat.mul_mod_left volume.csize 512)
    · intro _
      apply Alike.ite
      · intro _
        exact Alike.error _
      · intro _
        exact seekFrom_alike hsound hagree ⟨h.same, h.sclust_lt, h.sclust_lt⟩ rfl h.sclust_lt

theorem fLseek_alike (hsound : volume.Sound) (hagree : SameArea volume disk disk')
    (h : OnVolume volume a) (ofs : ℕ) :
    Alike (fun r => OnVolume volume r.2) (fLseek disk a ofs) (fLseek disk' a ofs) := by
  unfold fLseek
  apply Alike.ite
  · intro _
    refine (seekChain_alike hsound hagree h _).bind ?_
    rintro ⟨result, nsect, a'⟩ ⟨hon, hfound⟩
    dsimp only at hon hfound ⊢
    have hlast : ∀ r : FResult × Access σ, OnVolume volume r.2 →
        OnVolume volume { r.2 with fp := r.2.fp.abort r.1 } := by
      intro r hr
      obtain ⟨hsclust, hclust⟩ := abort_fields r.2.fp r.1
      exact ⟨hr.same, hsclust ▸ hr.sclust_lt, hclust ▸ hr.clust_lt⟩
    apply Alike.ite
    · intro hok
      refine Alike.branch (Q := fun r => OnVolume volume r.2) ?_ ?_ ?_
      · intro _
        exact Alike.ok ⟨hon.same, hon.sclust_lt, hon.clust_lt⟩
      · intro hne
        exact loadSector_alike hagree ⟨hon.same, hon.sclust_lt, hon.clust_lt⟩ (hfound hok hne)
      · intro r hr
        exact Alike.pure (hlast r hr)
    · intro _
      exact Alike.pure (hlast (result, a') hon)
  · intro _
    exact Alike.ok h

theorem readFile_alike (hsound : volume.Sound) (hagree : SameArea volume disk disk')
    (h : OnVolume volume a) (offset size : ℕ) (buffer : ℕ → UInt8) :
    Alike (fun r => OnVolume volume r.2.2) (readFile disk a offset size buffer)
      (readFile disk' a offset size buffer) := by
  unfold readFile
  have hread : ∀ b : Access σ, OnVolume volume b →
      Alike (fun r => OnVolume volume r.2.toAccess) (fRead disk b buffer (size % 2 ^ 32))
        (fRead disk' b buffer (size % 2 ^ 32)) :=
    fun b hb => fRead_alike hsound hagree hb buffer _
  refine Alike.branch (Q := fun r : FResult × Access σ => OnVolume volume r.2) ?_ ?_ ?_
  · intro _
    exact fLseek_alike hsound hagree h _
  · intro _
    exact Alike.ok h
  · rintro ⟨_, b⟩ hb
    refine (hread b hb).bind ?_
    rintro ⟨result, t⟩ ht
    refine Alike.branch (Q := fun r : FResult × Access σ => OnVolume volume r.2) ?_ ?_ ?_
    · intro _
      exact fLseek_alike hsound hagree ht _
    · intro _
      exact Alike.ok ht
    · intro r hr
      exact Alike.pure hr

theorem soughtFile_alike (hsound : volume.Sound) (hagree : SameArea volume disk disk')
    (h : OnVolume volume a) (offset : ℤ) (origin : SeekMode) :
    Alike (fun r => OnVolume volume r.2) (soughtFile disk a offset origin)
      (soughtFile disk' a offset origin) := by
  cases origin with
  | set => exact (fLseek_alike hsound hagree h _).bind fun r hr => Alike.pure hr
  | current => exact (fLseek_alike hsound hagree h _).bind fun r hr => Alike.pure hr
  | «end» => exact (fLseek_alike hsound hagree h _).bind fun r hr => Alike.pure hr

end Area

section Calls
variable {σ : Type} {disk disk' : DiskRead σ} {volume : FATFS} {s : FatState σ} {a : Access σ}
  {handle : ℕ} {answer : Answer}

/-- The volume, and files whose clusters are numbers of 32 bits. -/
structure FilesOn (volume : FATFS) (s : FatState σ) : Prop where
  same : volume.SameVolume s.fs
  sclust_lt : ∀ i fp, s.files i = some fp → fp.sclust < 2 ^ 32
  clust_lt : ∀ i fp, s.files i = some fp → fp.clust < 2 ^ 32

theorem FilesOn.store (h : FilesOn volume s) (ha : OnVolume volume a) :
    FilesOn volume (s.store handle a answer) := by
  have hfile : ∀ i fp, (s.store handle a answer).files i = some fp →
      fp = a.fp ∨ s.files i = some fp := by
    intro i fp hfp
    change Function.update s.files (fileHandle handle) (some a.fp) i = some fp at hfp
    by_cases hi : i = fileHandle handle
    · rw [hi, Function.update_self] at hfp
      exact Or.inl (Option.some.inj hfp).symm
    · rw [Function.update_of_ne hi] at hfp
      exact Or.inr hfp
  refine ⟨ha.same, fun i fp hfp => ?_, fun i fp hfp => ?_⟩
  · rcases hfile i fp hfp with rfl | hother
    · exact ha.sclust_lt
    · exact h.sclust_lt i fp hother
  · rcases hfile i fp hfp with rfl | hother
    · exact ha.clust_lt
    · exact h.clust_lt i fp hother

theorem FilesOn.file (h : FilesOn volume s) :
    Alike (fun fp => OnVolume volume (⟨s.fs, fp, s.medium⟩ : Access σ)) (s.file handle)
      (s.file handle) := by
  refine Alike.of_eq fun fp hfp => ?_
  obtain ⟨_, -, hfp⟩ := bind_eq_ok.mp hfp
  cases hs : s.files (fileHandle handle) with
  | none =>
    rw [hs] at hfp
    cases hfp
  | some fp' =>
    rw [hs] at hfp
    cases hfp
    exact ⟨h.same, h.sclust_lt _ _ hs, h.clust_lt _ _ hs⟩

theorem fatStep_alike (hsound : volume.Sound) (hagree : SameArea volume disk disk')
    (r : Request) (s : FatState σ) (h : FilesOn volume s) :
    Alike (FilesOn volume) (fatStep disk r s) (fatStep disk' r s) := by
  cases r with
  | read handle offset size buffer =>
    unfold fatStep
    apply Alike.ite
    · intro _
      exact Alike.ok ⟨h.same, h.sclust_lt, h.clust_lt⟩
    · intro _
      refine h.file.bind fun fp hfp => ?_
      refine (Alike.of_eq fun _ _ => trivial).bind fun _ _ => ?_
      refine ((readFile_alike hsound hagree hfp offset size buffer).mapError _).bind ?_
      intro answer hanswer
      exact Alike.pure (h.store hanswer)
  | seek handle offset origin =>
    unfold fatStep
    refine h.file.bind fun fp hfp => ?_
    refine ((soughtFile_alike hsound hagree hfp offset origin).mapError _).bind ?_
    intro answer hanswer
    exact Alike.pure (h.store hanswer)

/-- No run of reads and seeks asks the medium for anything outside the table and the clusters
of the volume, however the chains and the file objects look: media that answer alike there
give the same run. -/
theorem requests_stay_on_volume (requests : List Request) (hsound : s.fs.Sound)
    (hagree : SameArea s.fs disk disk')
    (hsclust : ∀ i fp, s.files i = some fp → fp.sclust < 2 ^ 32)
    (hclust : ∀ i fp, s.files i = some fp → fp.clust < 2 ^ 32) :
    RequestRuns.run (fatStep disk) requests s = RequestRuns.run (fatStep disk') requests s :=
  (Alike.run (fatStep_alike hsound hagree) requests ⟨SameVolume.refl _, hsclust, hclust⟩).1

end Calls

section Example

/-- A file whose chain leaves the volume. -/
def strayFile : FIL := { smallFile with sclust := 0xFFFF0000 }

def strayState : FatState Cdrom.TempBuffer :=
  { smallState with files := fun i => if i = 0 then some strayFile else none }

/-- The sectors behind the volume are not needed. -/
theorem requests_stay_on_volume_stray :
    RequestRuns.run (fatStep (cdromDisk smallDisc
        (Cdrom.oneDrive fun _ => .transferred 4096) (fun _ => 0) 0))
      [.read 0 currentOffset 600 fun _ => 0, .seek 0 550 .set] strayState =
    RequestRuns.run (fatStep fun sector count buffer s =>
        if sector < 5 then cdromDisk smallDisc
          (Cdrom.oneDrive fun _ => .transferred 4096) (fun _ => 0) 0 sector count buffer s
        else .error .endless)
      [.read 0 currentOffset 600 fun _ => 0, .seek 0 550 .set] strayState := by
  have hfile : ∀ i fp, strayState.files i = some fp → fp = strayFile := by
    intro i fp hfp
    unfold strayState at hfp
    dsimp only at hfp
    by_cases hi : i = 0
    · rw [if_pos hi] at hfp
      exact (Option.some.inj hfp).symm
    · rw [if_neg hi] at hfp
      cases hfp
  refine requests_stay_on_volume _ smallVolume_sound ?_ (fun i fp hfp => ?_) fun i fp hfp => ?_
  · intro sector count hin
    funext buffer s
    exact (if_pos (smallVolume_inArea hin).1).symm
  · rw [hfile i fp hfp]
    decide
  · rw [hfile i fp hfp]
    decide

end Example

end Enkel.FatFs
