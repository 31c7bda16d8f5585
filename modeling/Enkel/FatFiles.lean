import Enkel.FatReads
import Mathlib.Logic.Function.Iterate

/-!
Files of FatFs as rows of bytes. The clusters of a file are chained in the table, and its byte
at a position lies in the cluster that is reached after as many steps as whole clusters lie
before it. A file object keeps the cluster of the byte before its file pointer; with it f_read
and f_lseek find the byte at the pointer.
-/
namespace Enkel.FatFs

open Outcome Cdrom FATFS

section Positions
variable {b x j : ℕ}

/-- A position that lies in the same block of `b` bytes. -/
theorem div_add_of_lt (hb : x % b + j < b) : (x + j) / b = x / b ∧ (x + j) % b = x % b + j := by
  have hsum : x + j = b * (x / b) + (x % b + j) := by
    have := Nat.div_add_mod x b
    omega
  constructor
  · rw [hsum, Nat.mul_add_div (by omega), Nat.div_eq_of_lt hb, Nat.add_zero]
  · rw [hsum, Nat.mul_add_mod, Nat.mod_eq_of_lt hb]

/-- The byte before a position inside a block. -/
theorem pred_div_of_mod_ne (hb : 0 < b) (h : x % b ≠ 0) : (x - 1) / b = x / b := by
  have hle := Nat.mod_le x b
  have hlt := Nat.mod_lt x hb
  have hpred : (x - 1) % b + 1 < b ∨ (x - 1) % b + 1 = b := by
    have := Nat.mod_lt (x - 1) hb
    omega
  rcases hpred with hpred | hpred
  · have hsame := (div_add_of_lt hpred).1
    rw [Nat.sub_add_cancel (by omega)] at hsame
    exact hsame.symm
  · have hdvd : b ∣ x := by
      have hsum := Nat.div_add_mod (x - 1) b
      refine ⟨(x - 1) / b + 1, ?_⟩
      rw [Nat.mul_add, Nat.mul_one]
      omega
    exact absurd (Nat.mod_eq_zero_of_dvd hdvd) h

/-- The byte before the start of a block lies in the block before it. -/
theorem pred_div_of_mod_eq (hpos : 0 < x) (h : x % b = 0) : (x - 1) / b + 1 = x / b := by
  obtain ⟨q, rfl⟩ := Nat.dvd_of_mod_eq_zero h
  have hb : 0 < b := Nat.pos_of_mul_pos_right hpos
  have hq : 0 < q := Nat.pos_of_mul_pos_left hpos
  have hsplit : b * q - 1 = b * (q - 1) + (b - 1) := by
    obtain ⟨p, rfl⟩ := Nat.exists_eq_add_of_lt hq
    rw [Nat.zero_add, Nat.add_sub_cancel, Nat.mul_add, Nat.mul_one]
    omega
  rw [hsplit, Nat.mul_add_div hb, Nat.div_eq_of_lt (by omega), Nat.mul_div_cancel_left _ hb]
  omega

/-- The last byte of a piece that lies in one block. -/
theorem pred_add_div (hj : 0 < j) (hb : x % b + j ≤ b) : (x + j - 1) / b = x / b := by
  rw [Nat.add_sub_assoc hj]
  exact (div_add_of_lt (by omega)).1

end Positions

section Contents
variable (image : ℕ → UInt8) (fs : FATFS) (sclust : ℕ)

def FATFS.clusterBytes (fs : FATFS) : ℕ := fs.csize * 512

/-- The cluster that is reached after `k` steps along the chain. -/
def clusterAt (k : ℕ) : ℕ := (fs.tableEntry image)^[k] sclust

/-- The sector of a position of the file. -/
def sectorAt (x : ℕ) : ℕ :=
  fs.clusterStart (clusterAt image fs sclust (x / fs.clusterBytes)) + x % fs.clusterBytes / 512

/-- The byte at a position of the file. -/
def byteAt (x : ℕ) : UInt8 :=
  image (fs.clusterStart (clusterAt image fs sclust (x / fs.clusterBytes)) * 512 +
    x % fs.clusterBytes)

/-- The chain has a cluster for every byte of the file. -/
def ChainOk (objsize : ℕ) : Prop :=
  ∀ k, k * fs.clusterBytes < objsize →
    2 ≤ clusterAt image fs sclust k ∧ clusterAt image fs sclust k < fs.nFatent

end Contents

/-- A file object that is open, with a chain for all of its bytes and a buffer that holds what
the medium holds. -/
structure FileHeld (image : ℕ → UInt8) (fs : FATFS) (fp : FIL) : Prop where
  checks : checkFile fs fp = .ok
  size_lt : fp.objsize < 2 ^ 32
  chain : ChainOk image fs fp.sclust fp.objsize
  fptr_le : fp.fptr ≤ fp.objsize
  cached : fp.sect ≠ 0 → ∀ i < 512, fp.buf i = image (fp.sect * 512 + i)

/-- Between two calls its cluster is that of the byte before the file pointer, and its buffer
holds the sector at the pointer wherever this is not the start of a sector. -/
structure FileOk (image : ℕ → UInt8) (fs : FATFS) (fp : FIL) : Prop
    extends FileHeld image fs fp where
  cluster : 0 < fp.fptr →
    fp.clust = clusterAt image fs fp.sclust ((fp.fptr - 1) / fs.clusterBytes)
  sector : fp.fptr % 512 ≠ 0 → fp.sect = sectorAt image fs fp.sclust fp.fptr

section Geometry
variable {image : ℕ → UInt8} {fs fs' : FATFS} {fp : FIL} {sclust objsize x j : ℕ}

theorem FATFS.Sound.clusterBytes_pos (h : fs.Sound) : 0 < fs.clusterBytes :=
  Nat.mul_pos h.csize_pos (by decide)

theorem FATFS.Sound.clusterBytes_le (h : fs.Sound) : fs.clusterBytes ≤ 65536 :=
  Nat.mul_le_mul_right 512 h.csize_le

theorem mod_clusterBytes (fs : FATFS) (x : ℕ) : x % fs.clusterBytes % 512 = x % 512 :=
  Nat.mod_mod_of_dvd x (Nat.dvd_mul_left 512 fs.csize)

theorem mod_clusterBytes_div (fs : FATFS) (x : ℕ) :
    x % fs.clusterBytes / 512 = x / 512 % fs.csize :=
  Nat.mod_mul_left_div_self x 512 fs.csize

/-- Bytes of one cluster follow each other on the medium. -/
theorem byteAt_add (h : x % fs.clusterBytes + j < fs.clusterBytes) :
    byteAt image fs sclust (x + j) =
      image (sectorAt image fs sclust x * 512 + x % 512 + j) := by
  obtain ⟨hdiv, hmod⟩ := div_add_of_lt h
  have hsector := mod_clusterBytes fs x
  unfold byteAt sectorAt
  rw [hdiv, hmod]
  refine congrArg image ?_
  omega

/-- Positions in one sector. -/
theorem sectorAt_add (hsound : fs.Sound) (h : x % 512 + j < 512) :
    (x + j) / fs.clusterBytes = x / fs.clusterBytes ∧
      sectorAt image fs sclust (x + j) = sectorAt image fs sclust x := by
  have hsector := mod_clusterBytes fs x
  have hlt := Nat.mod_lt x hsound.clusterBytes_pos
  have hdvd : fs.clusterBytes % 512 = 0 := Nat.mul_mod_left fs.csize 512
  obtain ⟨hdiv, hmod⟩ := div_add_of_lt (x := x) (j := j) (b := fs.clusterBytes) (by omega)
  refine ⟨hdiv, ?_⟩
  unfold sectorAt
  rw [hdiv, hmod]
  omega

theorem sectorAt_ne_zero (hsound : fs.Sound) : sectorAt image fs sclust x ≠ 0 :=
  (Nat.add_pos_left hsound.clusterStart_pos _).ne'

/-- Sectors from that of a position on, up to the end of a cluster of the volume. -/
theorem sectorAt_inArea {cc : ℕ} (hge : 2 ≤ clusterAt image fs sclust (x / fs.clusterBytes))
    (hlt : clusterAt image fs sclust (x / fs.clusterBytes) < fs.nFatent) (hcc : 0 < cc)
    (hend : x % fs.clusterBytes / 512 + cc ≤ fs.csize) :
    fs.InArea (sectorAt image fs sclust x) cc := by
  refine Or.inr ⟨hcc, _, hge, hlt, Nat.le_add_right _ _, ?_⟩
  unfold sectorAt
  omega

theorem clusterAt_succ (k : ℕ) :
    clusterAt image fs sclust (k + 1) = fs.tableEntry image (clusterAt image fs sclust k) :=
  Function.iterate_succ_apply' _ _ _

/-- The cluster of a byte of the file. -/
theorem ChainOk.at (h : ChainOk image fs sclust objsize) (hx : x < objsize) :
    2 ≤ clusterAt image fs sclust (x / fs.clusterBytes) ∧
      clusterAt image fs sclust (x / fs.clusterBytes) < fs.nFatent :=
  h _ ((Nat.div_mul_le_self x _).trans_lt hx)

theorem FATFS.SameVolume.tableEntry_eq (h : fs.SameVolume fs') :
    fs'.tableEntry image = fs.tableEntry image := by
  obtain ⟨win, winsect, rfl⟩ := h
  rfl

theorem FATFS.SameVolume.clst2sect_eq (h : fs.SameVolume fs') (clst : ℕ) :
    fs'.clst2sect clst = fs.clst2sect clst := by
  obtain ⟨win, winsect, rfl⟩ := h
  rfl

theorem FATFS.SameVolume.csize_eq (h : fs.SameVolume fs') : fs'.csize = fs.csize := by
  obtain ⟨win, winsect, rfl⟩ := h
  rfl

theorem FATFS.SameVolume.nFatent_eq (h : fs.SameVolume fs') : fs'.nFatent = fs.nFatent := by
  obtain ⟨win, winsect, rfl⟩ := h
  rfl

/-- The cluster of the byte at the file pointer, where this is inside a cluster. -/
theorem FileOk.cluster_inside (h : FileOk image fs fp) (hsound : fs.Sound)
    (hin : fp.fptr % fs.clusterBytes ≠ 0) :
    fp.clust = clusterAt image fs fp.sclust (fp.fptr / fs.clusterBytes) := by
  have hpos : 0 < fp.fptr := Nat.pos_of_ne_zero fun hzero => hin (by rw [hzero, Nat.zero_mod])
  rw [h.cluster hpos, pred_div_of_mod_ne hsound.clusterBytes_pos hin]

end Geometry

/-- What the loop of f_read keeps: `br` bytes of the file are in the buffer, and the file
pointer is as many bytes further on. -/
structure Reading {σ : Type} (image : ℕ → UInt8) (a : Access σ) (n : ℕ) (rbuff : ℕ → UInt8)
    (t : Transfer σ) : Prop where
  same : a.fs.SameVolume t.fs
  window : t.fs.WindowOk image
  file : FileHeld image a.fs t.fp
  sclust_eq : t.fp.sclust = a.fp.sclust
  objsize_eq : t.fp.objsize = a.fp.objsize
  total : t.br + t.btr = n
  position : t.fp.fptr = a.fp.fptr + t.br
  fits : a.fp.fptr + n ≤ a.fp.objsize
  bytes : ∀ i, t.rbuff i =
    if i < t.br then byteAt image a.fs a.fp.sclust (a.fp.fptr + i) else rbuff i

section Reading
variable {σ : Type} {disk : DiskRead σ} {image : ℕ → UInt8} {a : Access σ} {n rcnt cc sect : ℕ}
  {rbuff : ℕ → UInt8} {t : Transfer σ}

theorem Reading.fptr_lt (h : Reading image a n rbuff t) (hpos : 0 < t.btr) :
    t.fp.fptr < t.fp.objsize := by
  have htotal := h.total
  have hposition := h.position
  have hfits := h.fits
  have hsize := h.objsize_eq
  omega

/-- A turn has put the next bytes of one cluster behind those that were there. -/
theorem Reading.advance (h : Reading image a n rbuff t) (hpos : 0 < rcnt) (hle : rcnt ≤ t.btr)
    (hclust : t.fp.clust = clusterAt image a.fs t.fp.sclust (t.fp.fptr / a.fs.clusterBytes))
    (hin : t.fp.fptr % a.fs.clusterBytes + rcnt ≤ a.fs.clusterBytes)
    (hsect : (t.fp.fptr + rcnt) % 512 ≠ 0 →
      t.fp.sect = sectorAt image a.fs t.fp.sclust (t.fp.fptr + rcnt))
    {buffer : ℕ → UInt8} (hkept : ∀ i, ¬ (t.br ≤ i ∧ i < t.br + rcnt) → buffer i = t.rbuff i)
    (hbytes : ∀ j < rcnt, buffer (t.br + j) =
      image (sectorAt image a.fs t.fp.sclust t.fp.fptr * 512 + t.fp.fptr % 512 + j))
    (medium : σ) :
    Reading image a n rbuff ({ t with medium := medium, rbuff := buffer }.advance rcnt) ∧
      FileOk image a.fs ({ t with medium := medium, rbuff := buffer }.advance rcnt).fp := by
  have hlt := h.file.size_lt
  have htotal := h.total
  have hposition := h.position
  have hfits := h.fits
  have hsize := h.objsize_eq
  have hnext : add32 t.fp.fptr rcnt = t.fp.fptr + rcnt := add32_of_lt (by omega)
  have hheld : FileHeld image a.fs
      ({ t with medium := medium, rbuff := buffer }.advance rcnt).fp := by
    refine ⟨h.file.checks, hlt, h.file.chain, ?_, h.file.cached⟩
    change add32 t.fp.fptr rcnt ≤ t.fp.objsize
    omega
  refine ⟨⟨h.same, h.window, hheld, h.sclust_eq, hsize, ?_, ?_, hfits, ?_⟩, hheld, ?_, ?_⟩
  · change t.br + rcnt + (t.btr - rcnt) = n
    omega
  · change add32 t.fp.fptr rcnt = a.fp.fptr + (t.br + rcnt)
    omega
  · intro i
    change buffer i = if i < t.br + rcnt then _ else _
    by_cases hnew : t.br ≤ i ∧ i < t.br + rcnt
    · have hi : i = t.br + (i - t.br) := by omega
      have hbyte : byteAt image a.fs a.fp.sclust (t.fp.fptr + (i - t.br)) = _ :=
        byteAt_add (by omega)
      rw [if_pos hnew.2, hi, hbytes _ (by omega), ← hi, h.sclust_eq, ← hbyte]
      congr 1
      omega
    · rw [hkept i hnew, h.bytes i]
      by_cases hold : i < t.br
      · rw [if_pos hold, if_pos (by omega)]
      · rw [if_neg hold, if_neg (by omega)]
  · intro _
    change t.fp.clust = clusterAt image a.fs t.fp.sclust
      ((add32 t.fp.fptr rcnt - 1) / a.fs.clusterBytes)
    rw [hnext, pred_add_div hpos hin, hclust]
  · change add32 t.fp.fptr rcnt % 512 ≠ 0 →
      t.fp.sect = sectorAt image a.fs t.fp.sclust (add32 t.fp.fptr rcnt)
    rw [hnext]
    exact hsect

/-- A part of a sector comes out of the buffer of the file. -/
theorem Reading.copyPart (h : Reading image a n rbuff t) (hsound : a.fs.Sound) (hpos : 0 < t.btr)
    (hclust : t.fp.clust = clusterAt image a.fs t.fp.sclust (t.fp.fptr / a.fs.clusterBytes))
    (hsect : t.fp.sect = sectorAt image a.fs t.fp.sclust t.fp.fptr) :
    (Reading image a n rbuff t.copyPart ∧ FileOk image a.fs t.copyPart.fp) ∧
      t.copyPart.btr < t.btr := by
  obtain ⟨rcnt, hrcnt⟩ : ∃ rcnt, rcnt = min (512 - t.fp.fptr % 512) t.btr := ⟨_, rfl⟩
  have hsector := mod_clusterBytes a.fs t.fp.fptr
  have hmod := Nat.mod_lt t.fp.fptr hsound.clusterBytes_pos
  have hdvd : a.fs.clusterBytes % 512 = 0 := Nat.mul_mod_left a.fs.csize 512
  have hne : t.fp.sect ≠ 0 := by
    rw [hsect]
    exact sectorAt_ne_zero hsound
  have hcopied : t.copyPart = { t with
      medium := t.medium
      rbuff := fun i =>
        if t.br ≤ i ∧ i < t.br + rcnt then t.fp.buf (t.fp.fptr % 512 + (i - t.br))
        else t.rbuff i }.advance rcnt := by
    rw [hrcnt]
    rfl
  rw [hcopied]
  constructor
  · apply h.advance (by omega) (by omega) hclust (by omega)
    · intro hend
      rw [hsect, (sectorAt_add hsound (by omega)).2]
    · intro i hout
      exact if_neg hout
    · intro j hj
      rw [if_pos (by omega), h.file.cached hne _ (by omega), hsect]
      exact congrArg image (by omega)
  · change t.btr - rcnt < t.btr
    omega

/-- Whole sectors of a cluster come from the medium. -/
theorem Reading.readSectors (h : Reading image a n rbuff t) (hserves : Serves disk image a.fs)
    (hstart : t.fp.fptr % 512 = 0) (hpos : 0 < t.btr)
    (hclust : t.fp.clust = clusterAt image a.fs t.fp.sclust (t.fp.fptr / a.fs.clusterBytes))
    (hcc : 0 < cc) (hle : 512 * cc ≤ t.btr)
    (hin : t.fp.fptr % a.fs.clusterBytes + 512 * cc ≤ a.fs.clusterBytes) :
    ∃ t', t.readSectors disk (sectorAt image a.fs t.fp.sclust t.fp.fptr) cc = .ok (.ok, t') ∧
      (Reading image a n rbuff t' ∧ FileOk image a.fs t'.fp) ∧ t'.btr < t.btr := by
  obtain ⟨hge, hlt⟩ := h.file.chain.at (h.fptr_lt hpos)
  have hsector := mod_clusterBytes a.fs t.fp.fptr
  have hbytes : a.fs.clusterBytes = a.fs.csize * 512 := rfl
  have harea : a.fs.InArea (sectorAt image a.fs t.fp.sclust t.fp.fptr) cc :=
    sectorAt_inArea hge hlt hcc (by omega)
  obtain ⟨bytes, medium, hread, hdata⟩ :=
    hserves _ _ (fun i => t.rbuff (t.br + i)) t.medium harea
  obtain ⟨t', ht'⟩ : ∃ t', t' = { t with
      medium := medium
      rbuff := fun i => if i < t.br then t.rbuff i else bytes (i - t.br) }.advance (512 * cc) :=
    ⟨_, rfl⟩
  have hnext : Reading image a n rbuff t' ∧ FileOk image a.fs t'.fp := by
    rw [ht']
    apply h.advance (by omega) hle hclust hin
    · intro hend
      exact absurd (show (t.fp.fptr + 512 * cc) % 512 = 0 by omega) hend
    · intro i hout
      by_cases hi : i < t.br
      · exact if_pos hi
      · have hi' : t.br + (i - t.br) = i := by omega
        rw [if_neg hi, hdata, if_neg (by omega), hi']
    · intro j hj
      rw [if_neg (by omega), Nat.add_sub_cancel_left, hdata, if_pos (by omega), hstart,
        Nat.add_zero]
  refine ⟨t', ?_, hnext, ?_⟩
  · unfold Transfer.readSectors
    rw [hread, ok_bind, ht']
    rfl
  · rw [ht']
    change t.btr - 512 * cc < t.btr
    omega

/-- The buffer of a file gets a sector. -/
theorem loadSector_served (hserves : Serves disk image a.fs) (hin : a.fs.InArea sect 1)
    (hne : sect ≠ 0)
    (hcached : a.fp.sect ≠ 0 → ∀ i < 512, a.fp.buf i = image (a.fp.sect * 512 + i)) :
    ∃ buf medium, a.loadSector disk sect =
        .ok (.ok, ⟨a.fs, { a.fp with buf := buf, sect := sect }, medium⟩) ∧
      ∀ i < 512, buf i = image (sect * 512 + i) := by
  unfold Access.loadSector
  by_cases hsame : a.fp.sect = sect
  · rw [if_pos hsame]
    subst hsame
    exact ⟨a.fp.buf, a.medium, rfl, hcached hne⟩
  · obtain ⟨buf, medium, hread, hbytes⟩ := hserves sect 1 a.fp.buf a.medium hin
    rw [if_neg hsame, hread, ok_bind]
    refine ⟨buf, medium, rfl, fun i hi => ?_⟩
    rw [hbytes, if_pos (by omega)]

/-- At the start of a cluster the chain leads to the cluster of the next byte. -/
theorem Reading.followCluster (h : Reading image a n rbuff t) (hsound : a.fs.Sound)
    (hfile : FileOk image a.fs t.fp)
    (hserves : Serves disk image a.fs) (hpos : 0 < t.btr)
    (hstart : t.fp.fptr % a.fs.clusterBytes = 0) :
    ∃ fs medium, t.followCluster disk = .ok (.ok, ⟨fs, { t.fp with
        clust := clusterAt image a.fs t.fp.sclust (t.fp.fptr / a.fs.clusterBytes) }, medium⟩) ∧
      a.fs.SameVolume fs ∧ fs.WindowOk image := by
  obtain ⟨hge, hlt⟩ := h.file.chain.at (h.fptr_lt hpos)
  have hentries := hsound.entries_le
  unfold Access.followCluster
  by_cases hzero : t.fp.fptr = 0
  · rw [if_pos hzero, ok_bind]
    rw [hzero, Nat.zero_div] at hge hlt ⊢
    change 2 ≤ t.fp.sclust at hge
    change t.fp.sclust < a.fs.nFatent at hlt
    refine ⟨t.fs, t.medium, ?_, h.same, h.window⟩
    dsimp only
    rw [if_neg (by omega), if_neg (by omega)]
    rfl
  · have hbefore := pred_div_of_mod_eq (Nat.pos_of_ne_zero hzero) hstart
    have hclust := hfile.cluster (Nat.pos_of_ne_zero hzero)
    obtain ⟨hge', hlt'⟩ := h.file.chain.at (x := t.fp.fptr - 1) (by
      have := h.file.fptr_le
      omega)
    obtain ⟨fs, medium, hget, hsame, hwindow⟩ := getFat_served (s := t.medium)
      (h.same.sound hsound) (serves_of_same h.same hserves) h.window hge'
      (h.same.nFatent_eq ▸ hlt')
    rw [h.same.tableEntry_eq, ← clusterAt_succ, hbefore] at hget
    rw [if_neg hzero, hclust, hget, ok_bind]
    refine ⟨fs, medium, ?_, h.same.trans hsame, hwindow⟩
    dsimp only
    rw [if_neg (by omega), if_neg (by omega)]
    rfl

/-- A turn on the boundary of a sector. -/
theorem Reading.readBoundary (h : Reading image a n rbuff t) (hsound : a.fs.Sound)
    (hserves : Serves disk image a.fs) (hpos : 0 < t.btr) (hstart : t.fp.fptr % 512 = 0)
    (hclust : t.fp.clust = clusterAt image a.fs t.fp.sclust (t.fp.fptr / a.fs.clusterBytes)) :
    ∃ t', t.readBoundary disk (t.fp.fptr % a.fs.clusterBytes / 512) = .ok (.ok, t') ∧
      (Reading image a n rbuff t' ∧ FileOk image a.fs t'.fp) ∧ t'.btr < t.btr := by
  obtain ⟨hge, hlt⟩ := h.file.chain.at (h.fptr_lt hpos)
  have hentries := hsound.entries_le
  have hend := hsound.cluster_le hge hlt
  have hsector := mod_clusterBytes a.fs t.fp.fptr
  have hmod := Nat.mod_lt t.fp.fptr hsound.clusterBytes_pos
  have hbytes : a.fs.clusterBytes = a.fs.csize * 512 := rfl
  have hfirst : t.fs.clst2sect t.fp.clust =
      a.fs.clusterStart (clusterAt image a.fs t.fp.sclust (t.fp.fptr / a.fs.clusterBytes)) := by
    rw [h.same.clst2sect_eq, hclust, hsound.clst2sect_of_lt hge hlt]
  have hne : t.fs.clst2sect t.fp.clust ≠ 0 := by
    rw [hfirst]
    exact hsound.clusterStart_pos.ne'
  have hsect : add32 (t.fs.clst2sect t.fp.clust) (t.fp.fptr % a.fs.clusterBytes / 512) =
      sectorAt image a.fs t.fp.sclust t.fp.fptr := by
    rw [hfirst, add32_of_lt (by omega)]
    rfl
  unfold Transfer.readBoundary
  dsimp only
  rw [if_neg hne, hsect, h.same.csize_eq]
  by_cases hcc : 0 < t.btr / 512
  · rw [if_pos hcc]
    have hsub : sub32 a.fs.csize (t.fp.fptr % a.fs.clusterBytes / 512) =
        a.fs.csize - t.fp.fptr % a.fs.clusterBytes / 512 := by
      have := hsound.csize_le
      exact sub32_of_le (by omega) (by omega)
    rw [hsub]
    apply h.readSectors hserves hstart hpos hclust
    · split_ifs <;> omega
    · split_ifs <;> omega
    · split_ifs <;> omega
  · rw [if_neg hcc]
    have hin : a.fs.InArea (sectorAt image a.fs t.fp.sclust t.fp.fptr) 1 :=
      sectorAt_inArea hge hlt (by decide) (by omega)
    obtain ⟨buf, medium, hload, hbuf⟩ := loadSector_served (a := t.toAccess)
      (serves_of_same h.same hserves) (h.same.inArea.mpr hin) (sectorAt_ne_zero hsound)
      h.file.cached
    rw [hload, ok_bind]
    obtain ⟨t', ht'⟩ : ∃ t' : Transfer σ, t' = { t with toAccess := ⟨t.fs, { t.fp with
      buf := buf
      sect := sectorAt image a.fs t.fp.sclust t.fp.fptr }, medium⟩ } := ⟨_, rfl⟩
    have hnext : Reading image a n rbuff t' := by
      rw [ht']
      exact ⟨h.same, h.window, ⟨h.file.checks, h.file.size_lt, h.file.chain, h.file.fptr_le,
        fun _ => hbuf⟩, h.sclust_eq, h.objsize_eq, h.total, h.position, h.fits, h.bytes⟩
    have hcopied := hnext.copyPart hsound (by rw [ht']; exact hpos) (by rw [ht']; exact hclust)
      (by rw [ht'])
    rw [ht'] at hcopied
    exact ⟨_, rfl, hcopied⟩

/-- A turn of the loop of f_read reads on. -/
theorem Reading.readTurn (h : Reading image a n rbuff t) (hfile : FileOk image a.fs t.fp)
    (hsound : a.fs.Sound) (hserves : Serves disk image a.fs) (hpos : 0 < t.btr) :
    ∃ t', t.readTurn disk = .ok (.ok, t') ∧
      (Reading image a n rbuff t' ∧ FileOk image a.fs t'.fp) ∧ t'.btr < t.btr := by
  have hsector := mod_clusterBytes a.fs t.fp.fptr
  unfold Transfer.readTurn
  by_cases hstart : t.fp.fptr % 512 = 0
  · have hcsect : t.fp.fptr / 512 &&& sub32 t.fs.csize 1 =
        t.fp.fptr % a.fs.clusterBytes / 512 := by
      have hle := hsound.csize_le
      obtain ⟨k, -, hk⟩ := hsound.csize_pow
      rw [h.same.csize_eq, sub32_of_le hsound.csize_pos (by omega), mod_clusterBytes_div, hk,
        Nat.and_two_pow_sub_one_eq_mod]
    rw [if_pos hstart, hcsect]
    by_cases hfirst : t.fp.fptr % a.fs.clusterBytes / 512 = 0
    · obtain ⟨fs, medium, hfollow, hsame, hwindow⟩ :=
        h.followCluster hsound hfile hserves hpos (by omega)
      dsimp only
      rw [if_pos hfirst, hfollow, ok_bind]
      dsimp only
      rw [if_pos rfl]
      obtain ⟨t', ht'⟩ : ∃ t' : Transfer σ, t' = { t with toAccess := ⟨fs, { t.fp with
        clust := clusterAt image a.fs t.fp.sclust (t.fp.fptr / a.fs.clusterBytes) }, medium⟩ } :=
        ⟨_, rfl⟩
      have hnext : Reading image a n rbuff t' := by
        rw [ht']
        exact ⟨hsame, hwindow, ⟨h.file.checks, h.file.size_lt, h.file.chain, h.file.fptr_le,
          h.file.cached⟩, h.sclust_eq, h.objsize_eq, h.total, h.position, h.fits, h.bytes⟩
      have hread := hnext.readBoundary hsound hserves (by rw [ht']; exact hpos)
        (by rw [ht']; exact hstart) (by rw [ht'])
      rw [ht'] at hread
      exact hread
    · have hclust := hfile.cluster_inside hsound fun hzero => hfirst (by rw [hzero])
      dsimp only
      rw [if_neg hfirst, ok_bind]
      dsimp only
      rw [if_pos rfl]
      exact h.readBoundary hsound hserves hpos hstart hclust
  · have hclust := hfile.cluster_inside hsound fun hzero => hstart (by omega)
    rw [if_neg hstart]
    exact ⟨_, rfl, h.copyPart hsound hpos hclust (hfile.sector hstart)⟩

/-- The loop of f_read reads everything that it has been asked for. -/
theorem Reading.readLoop (hsound : a.fs.Sound) (hserves : Serves disk image a.fs) {fuel : ℕ}
    (h : Reading image a n rbuff t) (hfile : FileOk image a.fs t.fp) (hfuel : t.btr ≤ fuel) :
    ∃ t', t.readLoop disk fuel = .ok (.ok, t') ∧
      (Reading image a n rbuff t' ∧ FileOk image a.fs t'.fp) ∧ t'.btr = 0 := by
  induction fuel generalizing t with
  | zero =>
    unfold Transfer.readLoop
    rw [if_pos (by omega)]
    exact ⟨t, rfl, ⟨h, hfile⟩, by omega⟩
  | succ fuel ih =>
    unfold Transfer.readLoop
    by_cases hzero : t.btr = 0
    · rw [if_pos hzero]
      exact ⟨t, rfl, ⟨h, hfile⟩, hzero⟩
    · obtain ⟨t1, hturn, ⟨h1, hfile1⟩, hlt⟩ :=
        h.readTurn hfile hsound hserves (Nat.pos_of_ne_zero hzero)
      rw [if_neg hzero, hturn, ok_bind]
      dsimp only
      rw [if_pos rfl]
      exact ih h1 hfile1 (by omega)

end Reading

end Enkel.FatFs
