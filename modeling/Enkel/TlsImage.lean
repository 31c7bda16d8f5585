import Enkel.SegmentContents

/-!
The pointer to the initial thread-local data. The loader stores the address of the
last PT_TLS header that it finds as it stands in the file, without the start of the
program, so the pointer designates the loaded segment only if the block starts at
address zero.
-/
namespace Enkel.Elf

open Outcome ByteMemory

/-- The pointer designates the image of the segment, and the bytes that are read
there are those of the segment in the file. -/
structure TlsImage (b : ℕ → UInt8) (elfStart : ℕ) (h : Phdr) (programStart tlsData : ℕ)
    (m : Memory) : Prop where
  pointer : tlsData = add64 programStart h.pVaddr
  data : ∀ k < h.pFilesz, m.bytes (add64 tlsData k) = h.contents b elfStart k

section LastTls
variable (elfStart programStart programHeaders : ℕ)

/-- Turn `j`, taken in the state `t`, is the last one that finds a header of type
PT_TLS. -/
structure LastTls (i : ℕ) (s : LoadState) (j : ℕ) (t : LoadState) : Prop where
  takes : Takes elfStart programStart programHeaders i s j t
  isTls : (t.header programHeaders j).pType = ptTls
  last : ∀ j' t', Takes elfStart programStart programHeaders i s j' t' → j < j' →
    (t'.header programHeaders j').pType ≠ ptTls

end LastTls

section Loop
variable {elfStart programStart programHeaders i j fuel : ℕ} {s t : LoadState}

theorem loadTurn_tdataStart : (loadTurn elfStart programStart programHeaders j t).tdataStart =
    if (t.header programHeaders j).pType = ptTls then (t.header programHeaders j).pVaddr
    else t.tdataStart := by
  unfold loadTurn
  by_cases htls : (t.header programHeaders j).pType = ptTls
  · have hload : ¬ (t.header programHeaders j).pType = ptLoad := by
      rw [htls]
      decide
    simp only [if_pos htls, if_neg hload]
  · by_cases hload : (t.header programHeaders j).pType = ptLoad
    · simp only [if_neg htls, if_pos hload]
    · simp only [if_neg htls, if_neg hload]

/-- The address comes from the last header of type PT_TLS that a turn finds. -/
theorem loadLoop_tdataStart_iff {Q : ℕ → Prop} (hfuel : loopBound ≤ i + fuel) :
    Q (loadLoop elfStart programStart programHeaders fuel i s).tdataStart ↔
    (∀ j t, LastTls elfStart programStart programHeaders i s j t →
      Q (t.header programHeaders j).pVaddr) ∧
    ((∀ j t, Takes elfStart programStart programHeaders i s j t →
      (t.header programHeaders j).pType ≠ ptTls) → Q s.tdataStart) := by
  have hkeep : ∀ j t, ¬ (t.header programHeaders j).pType = ptTls →
      (loadTurn elfStart programStart programHeaders j t).tdataStart = t.tdataStart :=
    fun j t hno => by rw [loadTurn_tdataStart, if_neg hno]
  have hset : ∀ j t, (t.header programHeaders j).pType = ptTls →
      (loadTurn elfStart programStart programHeaders j t).tdataStart =
        (t.header programHeaders j).pVaddr :=
    fun j t htls => by rw [loadTurn_tdataStart, if_pos htls]
  refine (loadLoop_last_iff (f := LoadState.tdataStart) (Q := Q) hkeep hfuel).trans ?_
  refine and_congr_left fun _ => ⟨fun h j t hturn => ?_, fun h j t htakes htls hlast => ?_⟩
  · rw [← hset j t hturn.isTls]
    exact h j t hturn.takes hturn.isTls hturn.last
  · rw [hset j t htls]
    exact h j t ⟨htakes, htls, hlast⟩

end Loop

section Claim
variable {b : ℕ → UInt8} {elfStart fileSize i : ℕ} {virtualAlloc : ℕ → ℕ}
  {programName : List ℕ} {binaries binaries' : List ElfBinary} {m' : Memory} {binary : ElfBinary}

/-- As long as the copy of the headers is not disturbed, the pointer is the address
that the file gives. -/
theorem tdataStart_eq {programStart size : ℕ} (hapart : Apart elfStart fileSize programStart size)
    (hund : Undisturbed b elfStart fileSize size) (hfile : TableInFile b elfStart fileSize)
    (hi : i < ePhnum b elfStart) (htls : (fileHeader b elfStart i).pType = ptTls)
    (hone : ∀ j < ePhnum b elfStart, (fileHeader b elfStart j).pType = ptTls → j = i) :
    (loadLoop elfStart programStart (add64 programStart (ePhoff b elfStart)) loopBound 0
      (copyHeaders elfStart programStart ⟨b, []⟩)).tdataStart = (fileHeader b elfStart i).pVaddr := by
  have hheader : ∀ j t, Takes elfStart programStart (add64 programStart (ePhoff b elfStart)) 0
      (copyHeaders elfStart programStart ⟨b, []⟩) j t → j < ePhnum b elfStart ∧
        t.header (add64 programStart (ePhoff b elfStart)) j = fileHeader b elfStart j := by
    rintro j t ⟨hturns, hj⟩
    have has := asInFile_of_turns hapart hund hfile hturns
    rw [has.ePhnum_eq hfile.1 hapart.1] at hj
    exact ⟨hj, has.header_eq hapart hund.table hfile hj⟩
  refine (loadLoop_tdataStart_iff (Q := fun x => x = (fileHeader b elfStart i).pVaddr)
    (Nat.le_add_left _ _)).mpr ⟨fun j t hturn => ?_, fun hnone => ?_⟩
  · obtain ⟨hj, heq⟩ := hheader j t hturn.takes
    have hisTls := hturn.isTls
    rw [heq] at hisTls ⊢
    rw [hone j hj hisTls]
  · obtain ⟨t, htakes⟩ := takes_of_lt hapart hund hfile hi
    have hno := hnone i t htakes
    rw [(hheader i t htakes).2] at hno
    exact absurd htls hno

end Claim

end Enkel.Elf
