import Enkel.FatFiles
import Enkel.Words

/-!
What f_read and f_lseek make of an open file. A read delivers the bytes at the file pointer, as
many as the file has, and moves the pointer behind them. A seek moves the pointer, but not behind
the end of the file. Both leave the file object as the next call needs it.
-/
namespace Enkel.FatFs

open Outcome Cdrom FATFS

section Reads
variable {σ : Type} {disk : DiskRead σ} {image : ℕ → UInt8} {a : Access σ}

/-- f_read on an open file. -/
theorem fRead_served (rbuff : ℕ → UInt8) (btr : ℕ) (hsound : a.fs.Sound)
    (hserves : Serves disk image a.fs) (hwindow : a.fs.WindowOk image)
    (hfile : FileOk image a.fs a.fp) :
    ∃ t, fRead disk a rbuff btr = .ok (.ok, t) ∧
      (Reading image a (min btr (a.fp.objsize - a.fp.fptr)) rbuff t ∧ FileOk image a.fs t.fp) ∧
      t.br = min btr (a.fp.objsize - a.fp.fptr) := by
  have hle := hfile.fptr_le
  have hlt := hfile.size_lt
  have hremain : (if sub32 a.fp.objsize a.fp.fptr < btr then sub32 a.fp.objsize a.fp.fptr
      else btr) = min btr (a.fp.objsize - a.fp.fptr) := by
    rw [sub32_of_le hle hlt]
    split_ifs <;> omega
  have hstart : Reading image a (min btr (a.fp.objsize - a.fp.fptr)) rbuff
      (⟨a, rbuff, 0, min btr (a.fp.objsize - a.fp.fptr)⟩ : Transfer σ) := by
    refine ⟨SameVolume.refl _, hwindow, hfile.toFileHeld, rfl, rfl, Nat.zero_add _, rfl, by omega,
      fun i => ?_⟩
    exact (if_neg (Nat.not_lt_zero i)).symm
  obtain ⟨t, hloop, hread, hzero⟩ := hstart.readLoop hsound hserves hfile (Nat.le_refl _)
  refine ⟨t, ?_, hread, ?_⟩
  · unfold fRead
    dsimp only
    rw [if_pos hfile.checks, hremain, hloop, ok_bind]
    rfl
  · have htotal := hread.1.total
    omega

end Reads

section Seeks
variable {σ : Type} {disk : DiskRead σ} {image : ℕ → UInt8} {a b : Access σ}
  {clst ofs target bcs : ℕ}

/-- What the loop of f_lseek keeps: it has reached the start of a cluster, and the position lies
`ofs` bytes behind it. -/
structure Seeking (image : ℕ → UInt8) (a : Access σ) (target clst ofs : ℕ) (b : Access σ) :
    Prop where
  same : a.fs.SameVolume b.fs
  window : b.fs.WindowOk image
  held : FileHeld image a.fs b.fp
  sclust_eq : b.fp.sclust = a.fp.sclust
  objsize_eq : b.fp.objsize = a.fp.objsize
  ofs_pos : 0 < ofs
  target_le : target ≤ b.fp.objsize
  clust_eq : b.fp.clust = clst
  reached : clst = clusterAt image a.fs b.fp.sclust (b.fp.fptr / a.fs.clusterBytes)
  start : b.fp.fptr % a.fs.clusterBytes = 0
  position : b.fp.fptr + ofs = target

theorem FATFS.Sound.bcs_eq {fs fs' : FATFS} (h : fs.Sound) (hsame : fs.SameVolume fs') :
    fs'.csize * 512 % 2 ^ 32 = fs.clusterBytes := by
  have hle := h.clusterBytes_le
  rw [hsame.csize_eq]
  exact Nat.mod_eq_of_lt (show fs.clusterBytes < 2 ^ 32 by omega)

/-- The loop follows the chain to the cluster of the byte before the position. -/
theorem Seeking.seekLoop (hsound : a.fs.Sound) (hserves : Serves disk image a.fs) {fuel : ℕ}
    (h : Seeking image a target clst ofs b) (hfuel : ofs ≤ fuel) :
    ∃ clst' ofs' b', Access.seekLoop disk a.fs.clusterBytes fuel clst ofs b =
        .ok (.ok, clst', ofs', b') ∧
      Seeking image a target clst' ofs' b' ∧ ofs' ≤ a.fs.clusterBytes := by
  have hpos := hsound.clusterBytes_pos
  have hentries := hsound.entries_le
  induction fuel generalizing clst ofs b with
  | zero =>
    have := h.ofs_pos
    omega
  | succ fuel ih =>
    unfold Access.seekLoop
    by_cases hle : ofs ≤ a.fs.clusterBytes
    · rw [if_pos hle]
      exact ⟨clst, ofs, b, rfl, h, hle⟩
    · have hposition := h.position
      have htarget := h.target_le
      have hsize := h.held.size_lt
      obtain ⟨hge, hlt⟩ := h.held.chain.at (x := b.fp.fptr) (by omega)
      obtain ⟨hge', hlt'⟩ := h.held.chain.at (x := b.fp.fptr + a.fs.clusterBytes) (by omega)
      have hnext : add32 b.fp.fptr a.fs.clusterBytes = b.fp.fptr + a.fs.clusterBytes :=
        add32_of_lt (by omega)
      have hdiv : (b.fp.fptr + a.fs.clusterBytes) / a.fs.clusterBytes =
          b.fp.fptr / a.fs.clusterBytes + 1 := Nat.add_div_right _ hpos
      rw [hdiv, clusterAt_succ, ← h.reached] at hge' hlt'
      rw [← h.reached] at hge hlt
      obtain ⟨fs, medium, hget, hsame, hwindow⟩ := getFat_served (s := b.medium)
        (h.same.sound hsound) (serves_of_same h.same hserves) h.window hge
        (h.same.nFatent_eq ▸ hlt)
      rw [h.same.tableEntry_eq] at hget
      have hentry : a.fs.tableEntry image clst = clusterAt image a.fs b.fp.sclust
          ((b.fp.fptr + a.fs.clusterBytes) / a.fs.clusterBytes) := by
        rw [hdiv, clusterAt_succ, ← h.reached]
      have hfs := hsame.nFatent_eq.trans h.same.nFatent_eq
      rw [if_neg hle, hnext]
      dsimp only
      rw [hget, ok_bind]
      dsimp only
      rw [if_neg (by omega), if_neg (by omega)]
      refine ih ⟨h.same.trans hsame, hwindow, ⟨h.held.checks, hsize, h.held.chain, ?_,
        h.held.cached⟩, h.sclust_eq, h.objsize_eq, by omega, htarget, rfl, hentry, ?_, ?_⟩
        (by omega)
      · change b.fp.fptr + a.fs.clusterBytes ≤ b.fp.objsize
        omega
      · change (b.fp.fptr + a.fs.clusterBytes) % a.fs.clusterBytes = 0
        rw [Nat.add_mod_right, h.start]
      · change b.fp.fptr + a.fs.clusterBytes + (ofs - a.fs.clusterBytes) = target
        omega

/-- A file whose pointer has been moved, with the sector of the byte there. -/
structure Sought (image : ℕ → UInt8) (a : Access σ) (target nsect : ℕ) (b : Access σ) : Prop where
  same : a.fs.SameVolume b.fs
  window : b.fs.WindowOk image
  held : FileHeld image a.fs b.fp
  sclust_eq : b.fp.sclust = a.fp.sclust
  objsize_eq : b.fp.objsize = a.fp.objsize
  fptr_eq : b.fp.fptr = target
  cluster : 0 < target → b.fp.clust = clusterAt image a.fs b.fp.sclust
    ((target - 1) / a.fs.clusterBytes)
  sector : target % 512 ≠ 0 → nsect = sectorAt image a.fs b.fp.sclust target

theorem Seeking.seekFrom (hsound : a.fs.Sound) (hserves : Serves disk image a.fs)
    (h : Seeking image a target clst ofs b) :
    ∃ nsect b', b.seekFrom disk clst ofs = .ok (.ok, nsect, b') ∧
      Sought image a target nsect b' := by
  have hdvd : a.fs.clusterBytes % 512 = 0 := Nat.mul_mod_left a.fs.csize 512
  have hentries := hsound.entries_le
  have hfirst : clst ≠ 0 := by
    obtain ⟨hge, -⟩ := h.held.chain.at (x := b.fp.fptr) (by
      have := h.position
      have := h.target_le
      have := h.ofs_pos
      omega)
    rw [← h.reached] at hge
    omega
  obtain ⟨clst', ofs', b', hloop, h', hle⟩ := h.seekLoop hsound hserves (Nat.le_refl _)
  have hposition := h'.position
  have htarget := h'.target_le
  have hpos := h'.ofs_pos
  have hsize := h'.held.size_lt
  have hstart := h'.start
  have hsector := mod_clusterBytes a.fs b'.fp.fptr
  have hadd : add32 b'.fp.fptr ofs' = target := by
    rw [add32_of_lt (by omega)]
    exact hposition
  have hcluster : clst' = clusterAt image a.fs b'.fp.sclust ((target - 1) / a.fs.clusterBytes) := by
    rw [← hposition, pred_add_div hpos (by omega)]
    exact h'.reached
  have hheld : FileHeld image a.fs { b'.fp with fptr := target } :=
    ⟨h'.held.checks, hsize, h'.held.chain, htarget, h'.held.cached⟩
  unfold Access.seekFrom
  dsimp only
  rw [if_neg hfirst, hsound.bcs_eq h.same, hloop, ok_bind]
  dsimp only
  rw [if_pos rfl, hadd]
  by_cases haligned : ofs' % 512 = 0
  · rw [if_pos haligned]
    refine ⟨0, _, rfl, h'.same, h'.window, hheld, h'.sclust_eq, h'.objsize_eq, rfl,
      fun _ => h'.clust_eq.trans hcluster, fun hne => absurd ?_ hne⟩
    omega
  · obtain ⟨hge, hlt⟩ := h'.held.chain.at (x := b'.fp.fptr) (by omega)
    have hend := hsound.cluster_le hge hlt
    obtain ⟨hdiv, hmod⟩ := div_add_of_lt (x := b'.fp.fptr) (j := ofs') (b := a.fs.clusterBytes)
      (by omega)
    have hbytes : a.fs.clusterBytes = a.fs.csize * 512 := rfl
    have hsect : b'.fs.clst2sect clst' = a.fs.clusterStart (clusterAt image a.fs b'.fp.sclust
        (b'.fp.fptr / a.fs.clusterBytes)) := by
      rw [h'.same.clst2sect_eq, h'.reached, hsound.clst2sect_of_lt hge hlt]
    have hne : b'.fs.clst2sect clst' ≠ 0 := by
      rw [hsect]
      exact hsound.clusterStart_pos.ne'
    rw [if_neg haligned, if_neg hne]
    refine ⟨_, _, rfl, h'.same, h'.window, hheld, h'.sclust_eq, h'.objsize_eq, rfl,
      fun _ => h'.clust_eq.trans hcluster, fun _ => ?_⟩
    unfold sectorAt
    rw [← hposition, hdiv, hmod, hstart, Nat.zero_add, ← hsect, add32_of_lt (by omega)]

/-- The mask of a cluster keeps the start of the cluster. -/
theorem and_clusterMask {fs : FATFS} (hsound : fs.Sound) {x : ℕ} (hx : x < 2 ^ 32) :
    x &&& (2 ^ 32 - 1 - sub32 fs.clusterBytes 1) = x / fs.clusterBytes * fs.clusterBytes := by
  obtain ⟨k, hk, hcsize⟩ := hsound.csize_pow
  have hbytes : fs.clusterBytes = 2 ^ (k + 9) := by
    unfold clusterBytes
    rw [hcsize, pow_add]
    rfl
  have hle := hsound.clusterBytes_le
  have hpos := hsound.clusterBytes_pos
  have hmask : 2 ^ 32 - 1 - sub32 fs.clusterBytes 1 = Words.span 32 (k + 9) := by
    rw [sub32_of_le hpos (by omega), hbytes]
    unfold Words.span
    rw [hbytes] at hpos
    omega
  have hquotient : x / 2 ^ (k + 9) < 2 ^ (32 - (k + 9)) := by
    rw [Nat.div_lt_iff_lt_mul (Nat.two_pow_pos _), ← pow_add, Nat.sub_add_cancel (by omega)]
    exact hx
  rw [hmask, Words.and_span x (by omega), hbytes, Nat.mod_eq_of_lt hquotient]

theorem seekChain_served (ofs : ℕ) (hsound : a.fs.Sound) (hserves : Serves disk image a.fs)
    (hwindow : a.fs.WindowOk image) (hfile : FileOk image a.fs a.fp) (hofs : ofs ≤ a.fp.objsize) :
    ∃ nsect b, a.seekChain disk ofs = .ok (.ok, nsect, b) ∧ Sought image a ofs nsect b := by
  have hsize := hfile.size_lt
  have hptr := hfile.fptr_le
  have hpos := hsound.clusterBytes_pos
  unfold Access.seekChain
  dsimp only
  rw [hsound.bcs_eq (SameVolume.refl _)]
  by_cases hzero : ofs = 0
  · rw [if_pos hzero]
    subst hzero
    exact ⟨0, _, rfl, SameVolume.refl _, hwindow, ⟨hfile.checks, hsize, hfile.chain, Nat.zero_le _,
      hfile.cached⟩, rfl, rfl, rfl, fun h => absurd h (Nat.lt_irrefl 0), fun h => absurd rfl h⟩
  · rw [if_neg hzero]
    by_cases hforward : 0 < a.fp.fptr ∧
        (a.fp.fptr - 1) / a.fs.clusterBytes ≤ (ofs - 1) / a.fs.clusterBytes
    · have hstart : (a.fp.fptr - 1) / a.fs.clusterBytes * a.fs.clusterBytes ≤ ofs - 1 :=
        (Nat.mul_le_mul_right _ hforward.2).trans (Nat.div_mul_le_self _ _)
      rw [if_pos hforward, and_clusterMask hsound (by omega), sub32_of_le (by omega) (by omega)]
      apply Seeking.seekFrom hsound hserves
      refine ⟨SameVolume.refl _, hwindow, ⟨hfile.checks, hsize, hfile.chain, ?_, hfile.cached⟩,
        rfl, rfl, by omega, hofs, rfl, ?_, Nat.mul_mod_left _ _, ?_⟩
      · change (a.fp.fptr - 1) / a.fs.clusterBytes * a.fs.clusterBytes ≤ a.fp.objsize
        omega
      · change a.fp.clust = clusterAt image a.fs a.fp.sclust
          ((a.fp.fptr - 1) / a.fs.clusterBytes * a.fs.clusterBytes / a.fs.clusterBytes)
        rw [Nat.mul_div_cancel _ hpos]
        exact hfile.cluster hforward.1
      · change (a.fp.fptr - 1) / a.fs.clusterBytes * a.fs.clusterBytes +
          (ofs - (a.fp.fptr - 1) / a.fs.clusterBytes * a.fs.clusterBytes) = ofs
        omega
    · have hne : a.fp.sclust ≠ 0 := by
        obtain ⟨hge, -⟩ := hfile.chain 0 (by omega)
        change 2 ≤ a.fp.sclust at hge
        omega
      rw [if_neg hforward, if_neg hne]
      apply Seeking.seekFrom hsound hserves
      refine ⟨SameVolume.refl _, hwindow, ⟨hfile.checks, hsize, hfile.chain, Nat.zero_le _,
        hfile.cached⟩, rfl, rfl, by omega, hofs, rfl, ?_, Nat.zero_mod _, Nat.zero_add _⟩
      change a.fp.sclust = clusterAt image a.fs a.fp.sclust (0 / a.fs.clusterBytes)
      rw [Nat.zero_div]
      rfl

/-- f_lseek on an open file. -/
theorem fLseek_served (ofs : ℕ) (hsound : a.fs.Sound) (hserves : Serves disk image a.fs)
    (hwindow : a.fs.WindowOk image) (hfile : FileOk image a.fs a.fp) :
    ∃ b, fLseek disk a ofs = .ok (.ok, b) ∧ a.fs.SameVolume b.fs ∧ b.fs.WindowOk image ∧
      FileOk image a.fs b.fp ∧ b.fp.sclust = a.fp.sclust ∧ b.fp.objsize = a.fp.objsize ∧
      b.fp.fptr = min ofs a.fp.objsize := by
  have hclip : (if a.fp.objsize < ofs then a.fp.objsize else ofs) = min ofs a.fp.objsize := by
    split_ifs <;> omega
  obtain ⟨nsect, b, hseek, h⟩ := seekChain_served (min ofs a.fp.objsize) hsound hserves
    hwindow hfile (Nat.min_le_right _ _)
  have hfptr := h.fptr_eq
  have hle := h.held.fptr_le
  have hsize : (if b.fp.objsize < b.fp.fptr then b.fp.fptr else b.fp.objsize) = b.fp.objsize :=
    if_neg (by omega)
  unfold fLseek
  dsimp only
  rw [if_pos hfile.checks, hclip, hseek, ok_bind]
  dsimp only
  rw [if_pos rfl, hsize]
  by_cases haligned : b.fp.fptr % 512 = 0
  · rw [if_pos haligned]
    refine ⟨b, rfl, h.same, h.window, ⟨h.held, ?_, fun hne => absurd haligned hne⟩, h.sclust_eq,
      h.objsize_eq, hfptr⟩
    rw [hfptr]
    exact h.cluster
  · rw [if_neg haligned]
    have hnsect := h.sector (hfptr ▸ haligned)
    have hinside : min ofs a.fp.objsize / a.fs.clusterBytes * a.fs.clusterBytes < b.fp.objsize := by
      have hsector := mod_clusterBytes a.fs b.fp.fptr
      have hsplit := Nat.div_add_mod' b.fp.fptr a.fs.clusterBytes
      rw [← hfptr]
      omega
    obtain ⟨hge, hlt⟩ := h.held.chain _ hinside
    have hin : a.fs.InArea nsect 1 := by
      have hmod := Nat.mod_lt (min ofs a.fp.objsize) hsound.clusterBytes_pos
      have hbytes : a.fs.clusterBytes = a.fs.csize * 512 := rfl
      rw [hnsect]
      exact sectorAt_inArea hge hlt (by decide) (by omega)
    obtain ⟨buf, medium, hload, hbuf⟩ := loadSector_served (a := b)
      (serves_of_same h.same hserves) (h.same.inArea.mpr hin)
      (hnsect ▸ sectorAt_ne_zero hsound) h.held.cached
    have hnext : FileOk image a.fs { b.fp with buf := buf, sect := nsect } := by
      refine ⟨⟨h.held.checks, h.held.size_lt, h.held.chain, hle, fun _ => hbuf⟩, ?_, fun _ => ?_⟩
      · change 0 < b.fp.fptr → b.fp.clust = clusterAt image a.fs b.fp.sclust
          ((b.fp.fptr - 1) / a.fs.clusterBytes)
        rw [hfptr]
        exact h.cluster
      · change nsect = sectorAt image a.fs b.fp.sclust b.fp.fptr
        rw [hfptr]
        exact hnsect
    rw [hload, ok_bind]
    exact ⟨_, rfl, h.same, h.window, hnext, h.sclust_eq, h.objsize_eq, hfptr⟩

end Seeks

end Enkel.FatFs
