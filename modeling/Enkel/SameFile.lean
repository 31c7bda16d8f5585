import Enkel.SegmentContents

/-!
Two memories with the same file. What the loader reads of the file, its header, the
program headers and the contents of the segments, is the same in both.
-/
namespace Enkel.Elf

open ByteMemory

variable {b b' : ℕ → UInt8} {elfStart fileSize size i : ℕ}

/-- A word of the file, in a memory that has the same file. -/
theorem readWord_file (hagree : ∀ x < fileSize, b' (elfStart + x) = b (elfStart + x))
    (hend : elfStart + fileSize ≤ 2 ^ 64) {x n : ℕ} (hx : x + n ≤ fileSize) :
    readWord b' (elfStart + x) n = readWord b (elfStart + x) n := by
  apply readWord_congr
  intro k hk
  rw [Nat.mod_eq_of_lt (by omega), Nat.add_assoc]
  exact hagree _ (by omega)

section SameFile
variable (hagree : ∀ x < fileSize, b' (elfStart + x) = b (elfStart + x))
  (hend : elfStart + fileSize ≤ 2 ^ 64)
include hagree hend

theorem readWord_header (hfile : 64 ≤ fileSize) {x n : ℕ} (hx : x + n ≤ 64) :
    readWord b' (add64 elfStart x) n = readWord b (add64 elfStart x) n := by
  by_cases hn : n = 0
  · subst hn
    rfl
  · rw [add64_of_lt (by omega)]
    exact readWord_file hagree hend (by omega)

theorem ePhoff_congr (hfile : 64 ≤ fileSize) : ePhoff b' elfStart = ePhoff b elfStart :=
  readWord_header hagree hend hfile (by omega)

theorem ePhnum_congr (hfile : 64 ≤ fileSize) : ePhnum b' elfStart = ePhnum b elfStart :=
  readWord_header hagree hend hfile (by omega)

theorem checkHeader_congr (hfile : 64 ≤ fileSize) :
    checkHeader b' elfStart = checkHeader b elfStart := by
  have hbyte : ∀ x < 64, b' (add64 elfStart x) = b (add64 elfStart x) := fun x hx => by
    rw [add64_of_lt (by omega)]
    exact hagree x (by omega)
  have hfirst : b' elfStart = b elfStart := hagree 0 (by omega)
  have hmachine : eMachine b' elfStart = eMachine b elfStart :=
    readWord_header hagree hend hfile (by omega)
  unfold checkHeader
  rw [hfirst, hmachine, hbyte 1 (by omega), hbyte 2 (by omega), hbyte 3 (by omega),
    hbyte 4 (by omega)]

theorem fileHeader_congr (hfile : TableInFile b elfStart fileSize) (hi : i < ePhnum b elfStart) :
    fileHeader b' elfStart i = fileHeader b elfStart i := by
  obtain ⟨hhead, hin⟩ := hfile
  unfold sizeofPhdr at hin
  have hoff := ePhoff_congr hagree hend hhead
  have haddr : ∀ x, x < 56 → add64 (add64 (add64 elfStart (ePhoff b elfStart)) (sizeofPhdr * i)) x =
      elfStart + (ePhoff b elfStart + 56 * i + x) := fun x hx => by
    unfold add64 sizeofPhdr
    omega
  have hword : ∀ x n, x + n ≤ 56 → 0 < n →
      readWord b' (add64 (add64 (add64 elfStart (ePhoff b elfStart)) (sizeofPhdr * i)) x) n =
      readWord b (add64 (add64 (add64 elfStart (ePhoff b elfStart)) (sizeofPhdr * i)) x) n :=
    fun x n hx hn => by
      rw [haddr x (by omega)]
      exact readWord_file hagree hend (by omega)
  have htype := hword 0 4 (by omega) (by omega)
  have hzero : ∀ x y, add64 (add64 x y) 0 = add64 x y := fun x y => Nat.mod_mod _ _
  rw [hzero] at htype
  unfold fileHeader readPhdr
  rw [hoff, htype, hword 8 8 (by omega) (by omega), hword 16 8 (by omega) (by omega),
    hword 32 8 (by omega) (by omega), hword 40 8 (by omega) (by omega),
    hword 48 8 (by omega) (by omega)]

theorem segments_congr (hfile : TableInFile b elfStart fileSize) :
    segments b' elfStart = segments b elfStart := by
  have hnum := ePhnum_congr hagree hend hfile.1
  rw [segments_eq, segments_eq, hnum]
  apply List.map_congr_left
  intro i hi
  exact fileHeader_congr hagree hend hfile (List.mem_range.mp hi)

theorem contents_congr {h : Phdr} {k : ℕ} (hin : h.InFile fileSize) :
    h.contents b' elfStart k = h.contents b elfStart k := by
  unfold Phdr.contents
  split_ifs with hk
  · have hsrc : h.pOffset + h.pFilesz ≤ fileSize := hin.resolve_left (by omega)
    rw [add64_of_lt (by omega)]
    exact hagree _ (by omega)
  · rfl

theorem undisturbed_congr (hfile : TableInFile b elfStart fileSize)
    (hund : Undisturbed b elfStart fileSize size) : Undisturbed b' elfStart fileSize size := by
  have hoff := ePhoff_congr hagree hend hfile.1
  have hnum := ePhnum_congr hagree hend hfile.1
  have hheader := fun {i : ℕ} (hi : i < ePhnum b elfStart) =>
    fileHeader_congr hagree hend hfile hi
  obtain ⟨htable, hfits, hin, hsame⟩ := hund
  refine ⟨?_, fun i hi => ?_, fun i hi => ?_, fun i j hij hj o hlow hhigh => ?_⟩
  · unfold TableFits
    rw [hoff, hnum]
    exact htable
  · rw [hnum] at hi
    rw [hheader hi]
    exact hfits i hi
  · rw [hnum] at hi
    rw [hheader hi]
    exact hin i hi
  · rw [hnum] at hj
    rw [hoff] at hlow hhigh
    rw [hheader (hij.trans hj), contents_congr hagree hend (hin i (hij.trans hj)), hagree o]
    · exact hsame i j hij hj o hlow hhigh
    · have := hfile.2
      unfold sizeofPhdr at this hhigh
      omega

end SameFile

end Enkel.Elf
