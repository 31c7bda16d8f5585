import Enkel.SegmentBounds

/-!
What the loader leaves in the memory. Every header is loaded, not only those of
type PT_LOAD, so the byte at an address comes from the last turn of the loop that
writes there. As long as the copy of the headers stays as it was made, the turns
find the headers of the file, and the last header that covers a byte decides.
-/
namespace Enkel.Elf

open Outcome ByteMemory

section LastTurn
variable (elfStart programStart programHeaders : ℕ)

/-- Loading the segment writes the byte at an address. -/
def Phdr.Writes (h : Phdr) (a : ℕ) : Prop :=
  offset (add64 h.pVaddr programStart) a < h.pFilesz ∨
    offset (add64 (add64 h.pVaddr programStart) h.pFilesz) a < sub64 h.pMemsz h.pFilesz

/-- Turn `j`, taken in the state `t`, is the last one that writes at the address. -/
structure LastTurn (i : ℕ) (s : LoadState) (a j : ℕ) (t : LoadState) : Prop where
  takes : Takes elfStart programStart programHeaders i s j t
  writes : (t.header programHeaders j).Writes programStart a
  last : ∀ j' t', Takes elfStart programStart programHeaders i s j' t' → j < j' →
    ¬ (t'.header programHeaders j').Writes programStart a

end LastTurn

section LastTurn
variable {elfStart programStart programHeaders i j fuel a : ℕ} {s t : LoadState}

theorem header_words : (s.header programHeaders i).Words := readPhdr_words _ _

theorem loadSegment_unwritten {h : Phdr} {m : Memory} (hw : h.Words) (ha : a < 2 ^ 64)
    (hout : ¬ h.Writes programStart a) :
    (loadSegment elfStart programStart h m).bytes a = m.bytes a := by
  obtain ⟨hcopy, hset⟩ := not_or.mp hout
  have hlen : sub64 h.pMemsz h.pFilesz ≤ 2 ^ 64 := (Nat.mod_lt _ (Nat.two_pow_pos 64)).le
  show setBytes _ 0 _ (copyBytes _ _ _ m.bytes) a = _
  rw [setBytes_eq hlen ha, if_neg hset, copyBytes_of_le hw.filesz.le ha (Nat.le_of_not_lt hcopy)]

/-- A part of the state that only some of the turns change is what the last of them
leaves, or what it was before the loop. -/
theorem loadLoop_last_iff {α : Type} {f : LoadState → α} {W : ℕ → LoadState → Prop}
    {Q : α → Prop}
    (hkeep : ∀ j t, ¬ W j t → f (loadTurn elfStart programStart programHeaders j t) = f t)
    (hfuel : loopBound ≤ i + fuel) :
    Q (f (loadLoop elfStart programStart programHeaders fuel i s)) ↔
    (∀ j t, Takes elfStart programStart programHeaders i s j t → W j t →
      (∀ j' t', Takes elfStart programStart programHeaders i s j' t' → j < j' → ¬ W j' t') →
      Q (f (loadTurn elfStart programStart programHeaders j t))) ∧
    ((∀ j t, Takes elfStart programStart programHeaders i s j t → ¬ W j t) → Q (f s)) := by
  have hnone : ∀ i s, ¬ i < ePhnum s.memory.bytes elfStart →
      (Q (f s) ↔
      (∀ j t, Takes elfStart programStart programHeaders i s j t → W j t →
        (∀ j' t', Takes elfStart programStart programHeaders i s j' t' → j < j' → ¬ W j' t') →
        Q (f (loadTurn elfStart programStart programHeaders j t))) ∧
      ((∀ j t, Takes elfStart programStart programHeaders i s j t → ¬ W j t) → Q (f s))) :=
    fun i s hi => by
      have hno : ∀ j t, ¬ Takes elfStart programStart programHeaders i s j t :=
        fun j t htakes => hi (takes_iff.mp htakes).1
      constructor
      · intro hq
        exact ⟨fun j t htakes => absurd htakes (hno j t), fun _ => hq⟩
      · intro h
        exact h.2 fun j t htakes => absurd htakes (hno j t)
  induction fuel generalizing i s with
  | zero =>
    have hnum : ePhnum s.memory.bytes elfStart < 2 ^ 16 := ePhnum_lt _
    refine hnone i s ?_
    unfold loopBound at hfuel
    omega
  | succ fuel ih =>
    unfold loadLoop
    split_ifs with hi
    · have hhere : Takes elfStart programStart programHeaders i s i s :=
        takes_iff.mpr ⟨hi, Or.inl ⟨rfl, rfl⟩⟩
      -- a turn after this one is a turn of the rest of the loop
      have hrest : ∀ j t, i < j → Takes elfStart programStart programHeaders i s j t →
          Takes elfStart programStart programHeaders (i + 1)
            (loadTurn elfStart programStart programHeaders i s) j t := fun j t hij htakes => by
        rcases (takes_iff.mp htakes).2 with ⟨rfl, -⟩ | hlater
        · exact absurd hij (lt_irrefl i)
        · exact hlater
      have hmore : ∀ j t, Takes elfStart programStart programHeaders (i + 1)
            (loadTurn elfStart programStart programHeaders i s) j t →
          i < j ∧ Takes elfStart programStart programHeaders i s j t := fun j t hlater =>
        ⟨takes_ge hlater, takes_iff.mpr ⟨hi, Or.inr hlater⟩⟩
      have hnext := ih (i := i + 1)
        (s := loadTurn elfStart programStart programHeaders i s) (by omega)
      refine hnext.trans ?_
      constructor
      · rintro ⟨hlast, hbefore⟩
        refine ⟨fun j t htakes hw hafter => ?_, fun hno => ?_⟩
        · rcases (takes_iff.mp htakes).2 with ⟨rfl, rfl⟩ | hlater
          · exact hbefore fun j' t' htakes' =>
              hafter j' t' (hmore j' t' htakes').2 (hmore j' t' htakes').1
          · exact hlast j t hlater hw fun j' t' htakes' =>
              hafter j' t' (hmore j' t' htakes').2
        · rw [← hkeep i s (hno i s hhere)]
          exact hbefore fun j' t' htakes => hno j' t' (hmore j' t' htakes).2
      · rintro ⟨hlast, hbefore⟩
        refine ⟨fun j t hlater hw hafter => ?_, fun hno => ?_⟩
        · have hij := (hmore j t hlater).1
          exact hlast j t (hmore j t hlater).2 hw fun j' t' htakes hlt =>
            hafter j' t' (hrest j' t' (by omega) htakes) hlt
        · by_cases hw : W i s
          · exact hlast i s hhere hw fun j' t' htakes hlt => hno j' t' (hrest j' t' hlt htakes)
          · rw [hkeep i s hw]
            refine hbefore fun j' t' htakes => ?_
            rcases (takes_iff.mp htakes).2 with ⟨rfl, rfl⟩ | hlater
            · exact hw
            · exact hno j' t' hlater
    · exact hnone i s hi

/-- The byte at an address is the one that the last turn that writes there leaves,
or the one that was there before the loop. -/
theorem loadLoop_byte_iff {Q : UInt8 → Prop} (ha : a < 2 ^ 64) (hfuel : loopBound ≤ i + fuel) :
    Q ((loadLoop elfStart programStart programHeaders fuel i s).memory.bytes a) ↔
    (∀ j t, LastTurn elfStart programStart programHeaders i s a j t →
      Q ((loadTurn elfStart programStart programHeaders j t).memory.bytes a)) ∧
    ((∀ j t, Takes elfStart programStart programHeaders i s j t →
      ¬ (t.header programHeaders j).Writes programStart a) → Q (s.memory.bytes a)) := by
  have hkeep : ∀ j t, ¬ (t.header programHeaders j).Writes programStart a →
      (loadTurn elfStart programStart programHeaders j t).memory.bytes a = t.memory.bytes a :=
    fun j t hout => by
      rw [loadTurn_memory]
      exact loadSegment_unwritten header_words ha hout
  refine (loadLoop_last_iff (f := fun s => s.memory.bytes a) (Q := Q) hkeep hfuel).trans ?_
  refine and_congr_left fun _ => ⟨fun h j t hturn => ?_, fun h j t htakes hw hlast => ?_⟩
  · exact h j t hturn.takes hturn.writes hturn.last
  · exact h j t ⟨htakes, hw, hlast⟩

end LastTurn

/-- The byte of the block, by its offset, lies in the segment. -/
def Phdr.Covers (h : Phdr) (o : ℕ) : Prop := h.pVaddr ≤ o ∧ o < h.pVaddr + h.pMemsz

instance (h : Phdr) (o : ℕ) : Decidable (h.Covers o) := inferInstanceAs (Decidable (_ ∧ _))

/-- Byte `k` of the segment in memory: the byte of the file, or zero. -/
def Phdr.contents (b : ℕ → UInt8) (elfStart : ℕ) (h : Phdr) (k : ℕ) : UInt8 :=
  if k < h.pFilesz then b (add64 elfStart (h.pOffset + k)) else 0

section Fitting
variable {elfStart programStart size fileSize o a : ℕ} {h : Phdr} {m : Memory}

/-- The file and the block that is made for it do not meet. -/
def Apart (elfStart fileSize programStart size : ℕ) : Prop :=
  elfStart + fileSize ≤ 2 ^ 64 ∧ programStart + size ≤ 2 ^ 64 ∧
    (elfStart + fileSize ≤ programStart ∨ programStart + size ≤ elfStart)

/-- What the segment has in the file lies in the file. -/
def Phdr.InFile (fileSize : ℕ) (h : Phdr) : Prop :=
  h.pFilesz = 0 ∨ h.pOffset + h.pFilesz ≤ fileSize

/-- A segment that fits fills the bytes that it covers. -/
theorem loadSegment_bytes (hw : h.Words) (hfits : h.Fits size) (hfile : h.InFile fileSize)
    (hapart : Apart elfStart fileSize programStart size) (ha : a < 2 ^ 64) :
    (loadSegment elfStart programStart h m).bytes a =
      if programStart ≤ a ∧ h.Covers (a - programStart) then
        h.contents m.bytes elfStart (a - programStart - h.pVaddr)
      else m.bytes a := by
  obtain ⟨hv, hf, hm⟩ := hw
  obtain ⟨hle, hfit⟩ := hfits
  obtain ⟨hend, hblock, hsep⟩ := hapart
  have hlen : sub64 h.pMemsz h.pFilesz = h.pMemsz - h.pFilesz := sub64_of_le hle hm
  have hset : offset (add64 (add64 h.pVaddr programStart) h.pFilesz) a < h.pMemsz - h.pFilesz ↔
      programStart + h.pVaddr + h.pFilesz ≤ a ∧ a < programStart + h.pVaddr + h.pMemsz := by
    unfold offset add64
    omega
  have hcopy : offset (add64 h.pVaddr programStart) a < h.pFilesz ↔
      programStart + h.pVaddr ≤ a ∧ a < programStart + h.pVaddr + h.pFilesz := by
    unfold offset add64
    omega
  show setBytes _ 0 _ (copyBytes _ _ _ m.bytes) a = _
  rw [hlen, setBytes_eq (by omega) ha]
  by_cases hzero : offset (add64 (add64 h.pVaddr programStart) h.pFilesz) a < h.pMemsz - h.pFilesz
  · have hin := hset.mp hzero
    rw [if_pos hzero, if_pos ⟨by omega, by unfold Phdr.Covers; omega⟩, Phdr.contents,
      if_neg (by omega)]
  · rw [if_neg hzero]
    rw [hset] at hzero
    by_cases hdata : offset (add64 h.pVaddr programStart) a < h.pFilesz
    · have hin := hcopy.mp hdata
      have hoff : offset (add64 h.pVaddr programStart) a = a - programStart - h.pVaddr := by
        unfold offset add64
        omega
      have hsrc : h.pOffset + h.pFilesz ≤ fileSize := hfile.resolve_left (by omega)
      -- the bytes come from the file, which is not in the block
      have hmeet : ∀ i < h.pFilesz, ∀ j < h.pFilesz,
          (add64 h.pVaddr programStart + i) % 2 ^ 64 ≠
            (add64 elfStart h.pOffset + j) % 2 ^ 64 := fun i hi j hj => by
        unfold add64
        omega
      rw [copyBytes_eq hf.le ha hmeet, if_pos hdata, if_pos ⟨by omega, by unfold Phdr.Covers; omega⟩,
        Phdr.contents, hoff, if_pos (by omega)]
      congr 1
      unfold add64
      omega
    · rw [copyBytes_of_le hf.le ha (Nat.le_of_not_lt hdata), if_neg]
      rw [hcopy] at hdata
      unfold Phdr.Covers
      omega

/-- A segment that fits leaves everything outside the block. -/
theorem loadSegment_outside (hw : h.Words) (hfits : h.Fits size) (hfile : h.InFile fileSize)
    (hapart : Apart elfStart fileSize programStart size) (ha : a < 2 ^ 64)
    (hout : a < programStart ∨ programStart + size ≤ a) :
    (loadSegment elfStart programStart h m).bytes a = m.bytes a := by
  rw [loadSegment_bytes hw hfits hfile hapart ha, if_neg]
  obtain ⟨-, hfit⟩ := hfits
  unfold Phdr.Covers
  omega

theorem writes_iff (hw : h.Words) (hfits : h.Fits size) (hblock : programStart + size ≤ 2 ^ 64)
    (ha : a < 2 ^ 64) :
    h.Writes programStart a ↔ programStart ≤ a ∧ h.Covers (a - programStart) := by
  obtain ⟨hv, hf, hm⟩ := hw
  obtain ⟨hle, hfit⟩ := hfits
  unfold Phdr.Writes Phdr.Covers offset add64 sub64
  omega

end Fitting

section Undisturbed
variable (b : ℕ → UInt8) (elfStart fileSize programStart size : ℕ)

/-- Header `i` of the file. -/
def fileHeader (i : ℕ) : Phdr :=
  readPhdr b (add64 (add64 elfStart (ePhoff b elfStart)) (sizeofPhdr * i))

/-- Every segment fits in the block, and none puts another byte into the copy of a
later header. -/
structure Undisturbed : Prop where
  table : TableFits b elfStart size
  fits : ∀ i < ePhnum b elfStart, (fileHeader b elfStart i).Fits size
  inFile : ∀ i < ePhnum b elfStart, (fileHeader b elfStart i).InFile fileSize
  same : ∀ i j, i < j → j < ePhnum b elfStart → ∀ o, ePhoff b elfStart + sizeofPhdr * j ≤ o →
    o < ePhoff b elfStart + sizeofPhdr * (j + 1) → (fileHeader b elfStart i).Covers o →
    (fileHeader b elfStart i).contents b elfStart (o - (fileHeader b elfStart i).pVaddr) =
      b (elfStart + o)

/-- The headers lie in the file. -/
def TableInFile : Prop :=
  64 ≤ fileSize ∧ ePhoff b elfStart + sizeofPhdr * ePhnum b elfStart ≤ fileSize

/-- Before turn `i`, the file is as it was, and so are the headers from `i` on. -/
structure AsInFile (i : ℕ) (s : LoadState) : Prop where
  file : ∀ x < fileSize, s.memory.bytes (elfStart + x) = b (elfStart + x)
  table : ∀ x, ePhoff b elfStart + sizeofPhdr * i ≤ x →
    x < ePhoff b elfStart + sizeofPhdr * ePhnum b elfStart →
    s.memory.bytes (programStart + x) = b (elfStart + x)

end Undisturbed

section Undisturbed
variable {b : ℕ → UInt8} {elfStart fileSize programStart size i j a o : ℕ} {s t : LoadState}

theorem mem_segments_iff {h : Phdr} :
    h ∈ segments b elfStart ↔ ∃ i < ePhnum b elfStart, fileHeader b elfStart i = h := by
  simp only [segments, fileHeader, List.mem_map, List.mem_range]

theorem segments_eq (b : ℕ → UInt8) (elfStart : ℕ) :
    segments b elfStart = (List.range (ePhnum b elfStart)).map (fileHeader b elfStart) := rfl

theorem fileHeader_words : (fileHeader b elfStart i).Words := readPhdr_words _ _

/-- The number of headers is read from the file, which stays as it is. -/
theorem AsInFile.ePhnum_eq (h : AsInFile b elfStart fileSize programStart i s)
    (hfile : 64 ≤ fileSize) (hend : elfStart + fileSize ≤ 2 ^ 64) :
    ePhnum s.memory.bytes elfStart = ePhnum b elfStart := by
  apply readWord_congr
  intro k hk
  have haddr : (add64 elfStart 56 + k) % 2 ^ 64 = elfStart + (56 + k) := by
    unfold add64
    omega
  rw [haddr, h.file _ (by omega)]

/-- The turn finds the header of the file. -/
theorem AsInFile.header_eq (h : AsInFile b elfStart fileSize programStart i s)
    (hapart : Apart elfStart fileSize programStart size) (htable : TableFits b elfStart size)
    (hfile : TableInFile b elfStart fileSize) (hi : i < ePhnum b elfStart) :
    s.header (add64 programStart (ePhoff b elfStart)) i = fileHeader b elfStart i := by
  obtain ⟨hend, hblock, -⟩ := hapart
  have hsize := htable.resolve_left (by omega)
  have hin := hfile.2
  unfold sizeofPhdr at hsize hin
  have hword : ∀ field n, field + n ≤ 56 →
      readWord s.memory.bytes
        (add64 (add64 (add64 programStart (ePhoff b elfStart)) (sizeofPhdr * i)) field) n =
      readWord b (add64 (add64 (add64 elfStart (ePhoff b elfStart)) (sizeofPhdr * i)) field) n := by
    intro field n hfield
    apply readWord_congr
    intro k hk
    have hleft : (add64 (add64 (add64 programStart (ePhoff b elfStart)) (sizeofPhdr * i)) field
        + k) % 2 ^ 64 = programStart + (ePhoff b elfStart + sizeofPhdr * i + field + k) := by
      unfold add64 sizeofPhdr
      omega
    have hright : (add64 (add64 (add64 elfStart (ePhoff b elfStart)) (sizeofPhdr * i)) field
        + k) % 2 ^ 64 = elfStart + (ePhoff b elfStart + sizeofPhdr * i + field + k) := by
      unfold add64 sizeofPhdr
      omega
    rw [hleft, hright]
    exact h.table _ (by omega) (by unfold sizeofPhdr; omega)
  have htype := hword 0 4 (by omega)
  have hzero : ∀ x y, add64 (add64 x y) 0 = add64 x y := fun x y => Nat.mod_mod _ _
  rw [hzero, hzero] at htype
  unfold LoadState.header fileHeader readPhdr
  rw [htype, hword 8 8 (by omega), hword 16 8 (by omega), hword 32 8 (by omega),
    hword 40 8 (by omega), hword 48 8 (by omega)]

/-- The bytes that a header takes from the file are those of the file. -/
theorem AsInFile.contents_eq {h : Phdr} {k : ℕ}
    (hs : AsInFile b elfStart fileSize programStart i s) (hin : h.InFile fileSize)
    (hend : elfStart + fileSize ≤ 2 ^ 64) :
    h.contents s.memory.bytes elfStart k = h.contents b elfStart k := by
  unfold Phdr.contents
  split_ifs with hk
  · have hsrc : h.pOffset + h.pFilesz ≤ fileSize := hin.resolve_left (by omega)
    have haddr : add64 elfStart (h.pOffset + k) = elfStart + (h.pOffset + k) :=
      add64_of_lt (by omega)
    rw [haddr, hs.file _ (by omega)]
  · rfl

/-- The turn loads the segment of the file. -/
theorem AsInFile.turn_bytes (h : AsInFile b elfStart fileSize programStart i s)
    (hapart : Apart elfStart fileSize programStart size)
    (hund : Undisturbed b elfStart fileSize size) (hfile : TableInFile b elfStart fileSize)
    (hi : i < ePhnum b elfStart) (ha : a < 2 ^ 64) :
    (loadTurn elfStart programStart (add64 programStart (ePhoff b elfStart)) i s).memory.bytes a =
      if programStart ≤ a ∧ (fileHeader b elfStart i).Covers (a - programStart) then
        (fileHeader b elfStart i).contents b elfStart
          (a - programStart - (fileHeader b elfStart i).pVaddr)
      else s.memory.bytes a := by
  rw [loadTurn_memory, h.header_eq hapart hund.table hfile hi,
    loadSegment_bytes fileHeader_words (hund.fits i hi) (hund.inFile i hi) hapart ha,
    h.contents_eq (hund.inFile i hi) hapart.1]

/-- A turn keeps the file, and the headers after its own. -/
theorem AsInFile.turn (h : AsInFile b elfStart fileSize programStart i s)
    (hapart : Apart elfStart fileSize programStart size)
    (hund : Undisturbed b elfStart fileSize size) (hfile : TableInFile b elfStart fileSize)
    (hi : i < ePhnum b elfStart) :
    AsInFile b elfStart fileSize programStart (i + 1)
      (loadTurn elfStart programStart (add64 programStart (ePhoff b elfStart)) i s) := by
  have hbytes := fun {a : ℕ} (ha : a < 2 ^ 64) => h.turn_bytes hapart hund hfile hi ha
  obtain ⟨hend, hblock, hsep⟩ := hapart
  have hsize := hund.table.resolve_left (by omega)
  have hfit := (hund.fits i hi).2
  constructor
  · intro x hx
    rw [hbytes (by omega), if_neg, h.file x hx]
    unfold Phdr.Covers
    omega
  · intro x hlow hhigh
    have haddr : programStart + x - programStart = x := Nat.add_sub_cancel_left _ _
    rw [hbytes (by omega), haddr]
    split_ifs with hcovers
    · -- the byte belongs to a later header
      obtain ⟨j, hj, hjlow, hjhigh⟩ : ∃ j, i < j ∧ ePhoff b elfStart + sizeofPhdr * j ≤ x ∧
          x < ePhoff b elfStart + sizeofPhdr * (j + 1) := by
        unfold sizeofPhdr at hlow ⊢
        exact ⟨(x - ePhoff b elfStart) / 56, by omega, by omega, by omega⟩
      have hjnum : j < ePhnum b elfStart := by
        unfold sizeofPhdr at hjlow hhigh
        omega
      exact hund.same i j hj hjnum x hjlow hjhigh hcovers.2
    · refine h.table x ?_ hhigh
      unfold sizeofPhdr at hlow ⊢
      omega

/-- The copy of the headers, and nothing else, is written before the loop. -/
theorem copyHeaders_bytes (hapart : Apart elfStart fileSize programStart size)
    (htable : TableFits b elfStart size) (hfile : TableInFile b elfStart fileSize)
    (ha : a < 2 ^ 64) :
    (copyHeaders elfStart programStart ⟨b, []⟩).memory.bytes a =
      if offset (add64 programStart (ePhoff b elfStart)) a < ePhnum b elfStart * sizeofPhdr then
        b ((add64 elfStart (ePhoff b elfStart) +
          offset (add64 programStart (ePhoff b elfStart)) a) % 2 ^ 64)
      else b a := by
  obtain ⟨hend, hblock, hsep⟩ := hapart
  obtain ⟨-, hin⟩ := hfile
  have hnum : ePhnum b elfStart < 2 ^ 16 := ePhnum_lt b
  unfold TableFits at htable
  unfold sizeofPhdr at htable hin
  have hmeet : ∀ i < ePhnum b elfStart * sizeofPhdr, ∀ j < ePhnum b elfStart * sizeofPhdr,
      (add64 programStart (ePhoff b elfStart) + i) % 2 ^ 64 ≠
        (add64 elfStart (ePhoff b elfStart) + j) % 2 ^ 64 := fun i hi j hj => by
    unfold sizeofPhdr at hi hj
    unfold add64
    omega
  have hlen : ePhnum b elfStart * sizeofPhdr ≤ 2 ^ 64 := by
    unfold sizeofPhdr
    omega
  exact copyBytes_eq hlen ha hmeet

/-- The copy of the headers is as in the file. -/
theorem asInFile_copyHeaders (hapart : Apart elfStart fileSize programStart size)
    (htable : TableFits b elfStart size) (hfile : TableInFile b elfStart fileSize) :
    AsInFile b elfStart fileSize programStart 0
      (copyHeaders elfStart programStart ⟨b, []⟩) := by
  have hbytes := fun {a : ℕ} (ha : a < 2 ^ 64) => copyHeaders_bytes hapart htable hfile ha
  obtain ⟨hend, hblock, hsep⟩ := hapart
  obtain ⟨-, hin⟩ := hfile
  have hoff : ePhoff b elfStart < 2 ^ 64 := readWord_lt.trans_eq (by norm_num)
  unfold TableFits at htable
  unfold sizeofPhdr at htable hin
  constructor
  · intro x hx
    rw [hbytes (by omega), if_neg]
    unfold offset add64 sizeofPhdr
    omega
  · intro x hlow hhigh
    unfold sizeofPhdr at hlow hhigh
    have hoffset : offset (add64 programStart (ePhoff b elfStart)) (programStart + x) =
        x - ePhoff b elfStart := by
      unfold offset add64
      omega
    rw [hbytes (by omega), hoffset, if_pos (by unfold sizeofPhdr; omega)]
    congr 1
    unfold add64
    omega

/-- All the states before a turn are as in the file. -/
theorem asInFile_of_turns (hapart : Apart elfStart fileSize programStart size)
    (hund : Undisturbed b elfStart fileSize size) (hfile : TableInFile b elfStart fileSize)
    {x : ℕ × LoadState}
    (hturns : Relation.ReflTransGen
      (Turn elfStart programStart (add64 programStart (ePhoff b elfStart)))
      (0, copyHeaders elfStart programStart ⟨b, []⟩) x) :
    AsInFile b elfStart fileSize programStart x.1 x.2 := by
  induction hturns with
  | refl => exact asInFile_copyHeaders hapart hund.table hfile
  | tail _ hturn ih =>
    obtain ⟨hi⟩ := hturn
    rw [ih.ePhnum_eq hfile.1 hapart.1] at hi
    exact ih.turn hapart hund hfile hi

/-- The loop takes a turn for each header of the file. -/
theorem takes_of_lt (hapart : Apart elfStart fileSize programStart size)
    (hund : Undisturbed b elfStart fileSize size) (hfile : TableInFile b elfStart fileSize)
    (hi : i < ePhnum b elfStart) :
    ∃ s, Takes elfStart programStart (add64 programStart (ePhoff b elfStart)) 0
      (copyHeaders elfStart programStart ⟨b, []⟩) i s := by
  have hnum : ∀ x : ℕ × LoadState, Relation.ReflTransGen
      (Turn elfStart programStart (add64 programStart (ePhoff b elfStart)))
      (0, copyHeaders elfStart programStart ⟨b, []⟩) x →
      ePhnum x.2.memory.bytes elfStart = ePhnum b elfStart := fun x hturns =>
    (asInFile_of_turns hapart hund hfile hturns).ePhnum_eq hfile.1 hapart.1
  induction i with
  | zero => exact ⟨_, Relation.ReflTransGen.refl, (hnum _ Relation.ReflTransGen.refl).symm ▸ hi⟩
  | succ i ih =>
    obtain ⟨s, hturns, hlt⟩ := ih (by omega)
    have hnext := hturns.tail (Turn.next hlt)
    exact ⟨_, hnext, (hnum _ hnext).symm ▸ hi⟩

/-- A turn finds everything as in the file. -/
theorem asInFile_of_takes (hapart : Apart elfStart fileSize programStart size)
    (hund : Undisturbed b elfStart fileSize size) (hfile : TableInFile b elfStart fileSize)
    (htakes : Takes elfStart programStart (add64 programStart (ePhoff b elfStart)) 0
      (copyHeaders elfStart programStart ⟨b, []⟩) j t) :
    AsInFile b elfStart fileSize programStart j t ∧ j < ePhnum b elfStart := by
  obtain ⟨hturns, hj⟩ := htakes
  have has := asInFile_of_turns hapart hund hfile hturns
  rw [has.ePhnum_eq hfile.1 hapart.1] at hj
  exact ⟨has, hj⟩

/-- A turn writes the bytes that its header in the file covers. -/
theorem turn_writes_iff (hapart : Apart elfStart fileSize programStart size)
    (hund : Undisturbed b elfStart fileSize size) (hfile : TableInFile b elfStart fileSize)
    (ha : programStart + o < 2 ^ 64)
    (htakes : Takes elfStart programStart (add64 programStart (ePhoff b elfStart)) 0
      (copyHeaders elfStart programStart ⟨b, []⟩) j t) :
    (t.header (add64 programStart (ePhoff b elfStart)) j).Writes programStart (programStart + o) ↔
      (fileHeader b elfStart j).Covers o := by
  obtain ⟨has, hj⟩ := asInFile_of_takes hapart hund hfile htakes
  rw [has.header_eq hapart hund.table hfile hj,
    writes_iff fileHeader_words (hund.fits j hj) hapart.2.1 ha, Nat.add_sub_cancel_left]
  exact and_iff_right (Nat.le_add_right _ _)

/-- A byte that a header of the file covers comes from the last header that covers
it. -/
theorem load_byte_iff {v : UInt8} (hapart : Apart elfStart fileSize programStart size)
    (hund : Undisturbed b elfStart fileSize size) (hfile : TableInFile b elfStart fileSize)
    (hi : i < ePhnum b elfStart) (hcovers : (fileHeader b elfStart i).Covers o) :
    (loadLoop elfStart programStart (add64 programStart (ePhoff b elfStart)) loopBound 0
      (copyHeaders elfStart programStart ⟨b, []⟩)).memory.bytes (add64 programStart o) = v ↔
    ∀ j < ePhnum b elfStart, (fileHeader b elfStart j).Covers o →
      (∀ j' < ePhnum b elfStart, j < j' → ¬ (fileHeader b elfStart j').Covers o) →
      (fileHeader b elfStart j).contents b elfStart (o - (fileHeader b elfStart j).pVaddr) = v := by
  have hfit := (hund.fits i hi).2
  have haddr : add64 programStart o = programStart + o := by
    obtain ⟨-, hblock, -⟩ := hapart
    apply add64_of_lt
    unfold Phdr.Covers at hcovers
    omega
  have ha : programStart + o < 2 ^ 64 := haddr ▸ Nat.mod_lt _ (Nat.two_pow_pos 64)
  have hsub : programStart + o - programStart = o := Nat.add_sub_cancel_left _ _
  have hstate := fun (j : ℕ) (t : LoadState) => asInFile_of_takes (j := j) (t := t) hapart hund hfile
  have hwrites := fun (j : ℕ) (t : LoadState) =>
    turn_writes_iff (j := j) (t := t) hapart hund hfile ha
  have hleaves : ∀ j t, Takes elfStart programStart (add64 programStart (ePhoff b elfStart)) 0
      (copyHeaders elfStart programStart ⟨b, []⟩) j t → (fileHeader b elfStart j).Covers o →
      (loadTurn elfStart programStart (add64 programStart (ePhoff b elfStart)) j t).memory.bytes
        (programStart + o) = (fileHeader b elfStart j).contents b elfStart
          (o - (fileHeader b elfStart j).pVaddr) := by
    intro j t htakes hj
    obtain ⟨has, hlt⟩ := hstate j t htakes
    rw [has.turn_bytes hapart hund hfile hlt ha, hsub, if_pos ⟨Nat.le_add_right _ _, hj⟩]
  rw [haddr, loadLoop_byte_iff (Q := fun x => x = v) ha (Nat.le_add_left _ _)]
  constructor
  · rintro ⟨hlast, -⟩ j hj hcov hlater
    obtain ⟨t, htakes⟩ := takes_of_lt hapart hund hfile hj
    rw [← hleaves j t htakes hcov]
    exact hlast j t ⟨htakes, (hwrites j t htakes).mpr hcov, fun j' t' htakes' hlt hw =>
      hlater j' (hstate j' t' htakes').2 hlt ((hwrites j' t' htakes').mp hw)⟩
  · intro h
    refine ⟨fun j t hturn => ?_, fun hnone => ?_⟩
    · have hcov := (hwrites j t hturn.takes).mp hturn.writes
      rw [hleaves j t hturn.takes hcov]
      refine h j (hstate j t hturn.takes).2 hcov fun j' hj' hlt hcov' => ?_
      obtain ⟨t', htakes'⟩ := takes_of_lt hapart hund hfile hj'
      exact hturn.last j' t' htakes' hlt ((hwrites j' t' htakes').mpr hcov')
    · obtain ⟨t, htakes⟩ := takes_of_lt hapart hund hfile hi
      exact absurd ((hwrites i t htakes).mpr hcovers) (hnone i t htakes)

/-- As long as the copy of the headers is not disturbed, the loader stays in the
block. -/
theorem undisturbed_inside (hapart : Apart elfStart fileSize programStart size)
    (hund : Undisturbed b elfStart fileSize size) (hfile : TableInFile b elfStart fileSize)
    (hsize : size < 2 ^ 64) :
    ∀ w ∈ (loadLoop elfStart programStart (add64 programStart (ePhoff b elfStart)) loopBound 0
      (copyHeaders elfStart programStart ⟨b, []⟩)).memory.log, Inside programStart size w := by
  refine (loadLoop_inside_iff hsize hapart.2.1 (Nat.le_add_left _ _)).mpr ⟨?_, ?_⟩
  · exact (copyHeaders_inside_iff hsize hapart.2.1).mpr hund.table
  · rintro i s ⟨hturns, hi⟩
    have has := asInFile_of_turns hapart hund hfile hturns
    rw [has.ePhnum_eq hfile.1 hapart.1] at hi
    rw [has.header_eq hapart hund.table hfile hi]
    exact hund.fits i hi

end Undisturbed

section Claim
variable (b : ℕ → UInt8) (elfStart fileSize programStart : ℕ)

/-- The headers lie in the file, and the segments of type PT_LOAD are as the format
asks. The other headers are arbitrary. -/
structure WellFormed : Prop where
  table : TableInFile b elfStart fileSize
  filesz_le : ∀ i < ePhnum b elfStart, (fileHeader b elfStart i).pType = ptLoad →
    (fileHeader b elfStart i).pFilesz ≤ (fileHeader b elfStart i).pMemsz
  inFile : ∀ i < ePhnum b elfStart, (fileHeader b elfStart i).pType = ptLoad →
    (fileHeader b elfStart i).pOffset + (fileHeader b elfStart i).pFilesz ≤ fileSize
  noWrap : ∀ i < ePhnum b elfStart, (fileHeader b elfStart i).pType = ptLoad →
    (fileHeader b elfStart i).pVaddr + (fileHeader b elfStart i).pMemsz < 2 ^ 64
  disjoint : ∀ i < ePhnum b elfStart, ∀ j < ePhnum b elfStart, i ≠ j →
    (fileHeader b elfStart i).pType = ptLoad → (fileHeader b elfStart j).pType = ptLoad →
    ∀ o, (fileHeader b elfStart i).Covers o → ¬ (fileHeader b elfStart j).Covers o

/-- The bytes of every PT_LOAD segment are in place. -/
def Loaded (m : Memory) : Prop :=
  ∀ i < ePhnum b elfStart, (fileHeader b elfStart i).pType = ptLoad →
    ∀ k < (fileHeader b elfStart i).pMemsz,
      m.bytes (add64 programStart ((fileHeader b elfStart i).pVaddr + k)) =
        (fileHeader b elfStart i).contents b elfStart k

/-- The last header that covers a byte of a PT_LOAD segment has the same byte
there. -/
def LastHeadersAgree : Prop :=
  ∀ i < ePhnum b elfStart, (fileHeader b elfStart i).pType = ptLoad →
    ∀ k < (fileHeader b elfStart i).pMemsz, ∀ j < ePhnum b elfStart,
      (fileHeader b elfStart j).Covers ((fileHeader b elfStart i).pVaddr + k) →
      (∀ j' < ePhnum b elfStart, j < j' →
        ¬ (fileHeader b elfStart j').Covers ((fileHeader b elfStart i).pVaddr + k)) →
      (fileHeader b elfStart j).contents b elfStart
          ((fileHeader b elfStart i).pVaddr + k - (fileHeader b elfStart j).pVaddr) =
        (fileHeader b elfStart i).contents b elfStart k

/-- The last turn that writes a byte of a PT_LOAD segment, by the header that it
finds, leaves the byte of the segment; if no turn writes it, it was there. -/
def LastTurnsAgree : Prop :=
  ∀ i < ePhnum b elfStart, (fileHeader b elfStart i).pType = ptLoad →
    ∀ k < (fileHeader b elfStart i).pMemsz,
      (∀ j t, LastTurn elfStart programStart (add64 programStart (ePhoff b elfStart)) 0
          (copyHeaders elfStart programStart ⟨b, []⟩)
          (add64 programStart ((fileHeader b elfStart i).pVaddr + k)) j t →
        (loadTurn elfStart programStart (add64 programStart (ePhoff b elfStart)) j t).memory.bytes
            (add64 programStart ((fileHeader b elfStart i).pVaddr + k)) =
          (fileHeader b elfStart i).contents b elfStart k) ∧
      ((∀ j t, Takes elfStart programStart (add64 programStart (ePhoff b elfStart)) 0
          (copyHeaders elfStart programStart ⟨b, []⟩) j t →
        ¬ (t.header (add64 programStart (ePhoff b elfStart)) j).Writes programStart
          (add64 programStart ((fileHeader b elfStart i).pVaddr + k))) →
        (copyHeaders elfStart programStart ⟨b, []⟩).memory.bytes
            (add64 programStart ((fileHeader b elfStart i).pVaddr + k)) =
          (fileHeader b elfStart i).contents b elfStart k)

end Claim

section Claim
variable {b : ℕ → UInt8} {elfStart fileSize : ℕ} {virtualAlloc : ℕ → ℕ} {programName : List ℕ}
  {binaries binaries' : List ElfBinary} {m' : Memory} {binary : ElfBinary}

end Claim

theorem smallFile_header {i : ℕ} (hi : i < ePhnum smallFile 0x10000) :
    i = 0 ∧ fileHeader smallFile 0x10000 i = ⟨ptLoad, 120, 0x200, 2, 8, 4096⟩ := by
  obtain ⟨-, -, hnum, hsegments⟩ := smallFile_read
  rw [segments_eq, hnum] at hsegments
  rw [hnum] at hi
  obtain rfl : i = 0 := by omega
  exact ⟨rfl, (List.cons.inj hsegments).1⟩

theorem smallFile_table : TableInFile smallFile 0x10000 122 := by
  unfold TableInFile
  rw [smallFile_read.2.1, smallFile_read.2.2.1]
  decide

theorem smallFile_undisturbed : Undisturbed smallFile 0x10000 122 0x4001000 := by
  refine ⟨?_, fun i hi => ?_, fun i hi => ?_, fun i j hij hj => ?_⟩
  · unfold TableFits
    rw [smallFile_read.2.1, smallFile_read.2.2.1]
    decide
  · rw [(smallFile_header hi).2]
    decide
  · rw [(smallFile_header hi).2]
    exact Or.inr le_rfl
  · have hj0 := (smallFile_header hj).1
    omega

theorem smallFile_apart : Apart 0x10000 122 0x40000000 0x4001000 :=
  ⟨by decide, by decide, by decide⟩

theorem smallFile_wellFormed : WellFormed smallFile 0x10000 122 := by
  refine ⟨smallFile_table, fun i hi _ => ?_, fun i hi _ => ?_, fun i hi _ => ?_,
    fun i hi j hj hne => ?_⟩
  · rw [(smallFile_header hi).2]
    decide
  · rw [(smallFile_header hi).2]
    decide
  · rw [(smallFile_header hi).2]
    decide
  · exact absurd ((smallFile_header hi).1.trans (smallFile_header hj).1.symm) hne

/-- Eight bytes at 0x200; the first two are the data of the thread-local storage,
which goes on with four zeros of its own. -/
def tlsFile : ℕ → UInt8 :=
  fileAt 0x10000 (fileImage [⟨ptLoad, 176, 0x200, 8, 8, 4096⟩, ⟨ptTls, 176, 0x200, 2, 6, 8⟩]
    [1, 2, 3, 4, 5, 6, 7, 8])

/-- What the loader reads of the file. -/
theorem tlsFile_read : checkHeader tlsFile 0x10000 = .ok () ∧
    ePhoff tlsFile 0x10000 = 64 ∧ ePhnum tlsFile 0x10000 = 2 ∧
    segments tlsFile 0x10000 =
      [⟨ptLoad, 176, 0x200, 8, 8, 4096⟩, ⟨ptTls, 176, 0x200, 2, 6, 8⟩] := by
  decide +kernel

theorem tlsFile_blockSize : blockSize tlsFile 0x10000 = 0x4001000 := by
  unfold blockSize
  rw [tlsFile_read.2.2.2]
  decide

theorem tlsFile_ePhnum : ePhnum tlsFile 0x10000 = 2 := tlsFile_read.2.2.1

theorem tlsFile_headers : fileHeader tlsFile 0x10000 0 = ⟨ptLoad, 176, 0x200, 8, 8, 4096⟩ ∧
    fileHeader tlsFile 0x10000 1 = ⟨ptTls, 176, 0x200, 2, 6, 8⟩ := by
  obtain ⟨-, -, hnum, hsegments⟩ := tlsFile_read
  rw [segments_eq, hnum] at hsegments
  obtain ⟨hload, hrest⟩ := List.cons.inj hsegments
  exact ⟨hload, (List.cons.inj hrest).1⟩

theorem tlsFile_load : fileHeader tlsFile 0x10000 0 = ⟨ptLoad, 176, 0x200, 8, 8, 4096⟩ :=
  tlsFile_headers.1

theorem tlsFile_tls : fileHeader tlsFile 0x10000 1 = ⟨ptTls, 176, 0x200, 2, 6, 8⟩ :=
  tlsFile_headers.2

theorem tlsFile_header {i : ℕ} (hi : i < ePhnum tlsFile 0x10000) :
    i = 0 ∧ fileHeader tlsFile 0x10000 i = ⟨ptLoad, 176, 0x200, 8, 8, 4096⟩ ∨
      i = 1 ∧ fileHeader tlsFile 0x10000 i = ⟨ptTls, 176, 0x200, 2, 6, 8⟩ := by
  rw [tlsFile_ePhnum] at hi
  rcases (show i = 0 ∨ i = 1 by omega) with rfl | rfl
  · exact Or.inl ⟨rfl, tlsFile_load⟩
  · exact Or.inr ⟨rfl, tlsFile_tls⟩

theorem tlsFile_wellFormed : WellFormed tlsFile 0x10000 184 := by
  have hfirst : ∀ {i}, i < ePhnum tlsFile 0x10000 →
      (fileHeader tlsFile 0x10000 i).pType = ptLoad → i = 0 := fun {i} hi htype => by
    rcases tlsFile_header hi with ⟨rfl, -⟩ | ⟨-, htls⟩
    · rfl
    · rw [htls] at htype
      exact absurd htype (by decide)
  refine ⟨⟨by decide, by rw [tlsFile_read.2.1, tlsFile_ePhnum]; decide⟩, ?_, ?_, ?_, ?_⟩
  · intro i hi htype
    rw [hfirst hi htype, tlsFile_load]
  · intro i hi htype
    rw [hfirst hi htype, tlsFile_load]
    decide
  · intro i hi htype
    rw [hfirst hi htype, tlsFile_load]
    decide
  · intro i hi j hj hne hitype hjtype
    exact absurd ((hfirst hi hitype).trans (hfirst hj hjtype).symm) hne

theorem tlsFile_apart : Apart 0x10000 184 0x40000000 (blockSize tlsFile 0x10000) := by
  rw [tlsFile_blockSize]
  exact ⟨by decide, by decide, by decide⟩

end Enkel.Elf
