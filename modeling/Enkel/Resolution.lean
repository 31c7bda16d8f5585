import Mathlib.Data.List.Enum
import Enkel.Types

/-!
The choice of a graphics mode in entry.cpp. The loop keeps the last mode of the wanted width
whose height is not below what it remembers, and remembers the width of that mode. Behind the
loop the record at the counter of the loop is read, one behind the last mode.
-/
namespace Enkel.Resolution

/-- EFI_GRAPHICS_OUTPUT_MODE_INFORMATION -/
structure ModeInformation where
  horizontalResolution : ℕ
  verticalResolution : ℕ
deriving DecidableEq, Repr

/-- The resolutions of a mode are unsigned, and so are the ints that they are compared with. -/
def ModeInformation.Matches (desiredX desiredY : ℤ) (info : ModeInformation) : Prop :=
  info.horizontalResolution = desiredX % 2 ^ 32 ∧
    (info.verticalResolution = desiredY % 2 ^ 32 ∨ desiredY = -1)

instance (x y : ℤ) (info : ModeInformation) : Decidable (info.Matches x y) :=
  inferInstanceAs (Decidable (_ ∧ _))

/-- The variables of the loop; no selected mode is -1. -/
structure Scan where
  selectedMode : Option ℕ
  currentResolutionY : ℕ
deriving DecidableEq, Repr

def Scan.turn (desiredX desiredY : ℤ) (s : Scan) (mode : ModeInformation × ℕ) : Scan :=
  if mode.1.Matches desiredX desiredY ∧ mode.1.verticalResolution ≥ s.currentResolutionY then
    ⟨some mode.2, mode.1.horizontalResolution⟩
  else s

def scan (modes : List ModeInformation) (desiredX desiredY : ℤ) : Scan :=
  modes.zipIdx.foldl (Scan.turn desiredX desiredY) ⟨none, 0⟩

/-- What SetResolution makes of the modes: the mode that it sets, unless it returns false, and
the indices of the records that it reads. -/
structure Selection where
  selectedMode : Option ℕ
  records : List ℕ
deriving DecidableEq, Repr

/-- SetResolution. Once a mode is selected, the record at the counter is read, and the first one
for the framebuffer. -/
def setResolution (modes : List ModeInformation) (desiredX desiredY : ℤ) : Selection :=
  match (scan modes desiredX desiredY).selectedMode with
  | none => ⟨none, List.range modes.length⟩
  | some mode => ⟨some mode, List.range modes.length ++ [modes.length, 0]⟩

def resolutions : List (ℤ × ℤ) :=
  [(1920, 1200), (1920, 1080), (1920, -1), (1280, 800), (1280, 720), (1280, -1), (800, 600),
    (640, 480)]

/-- The loop over the resolutions; it halts when none of them is there. -/
def setAnyResolution (modes : List ModeInformation) : Option ℕ :=
  resolutions.findSome? fun (x, y) => (setResolution modes x y).selectedMode

section Specification
variable (modes : List ModeInformation) (desiredX desiredY : ℤ)

/-- The mode is one of the width with the greatest height, and there is none if no mode has the
width. -/
def SelectsGreatest (selected : Option ℕ) : Prop :=
  (∀ mode, selected = some mode → ∃ info, modes[mode]? = some info ∧
      (info.horizontalResolution : ℤ) = desiredX ∧
      ∀ other ∈ modes, (other.horizontalResolution : ℤ) = desiredX →
        other.verticalResolution ≤ info.verticalResolution) ∧
    (selected = none ↔ ∀ info ∈ modes, (info.horizontalResolution : ℤ) ≠ desiredX)

/-- The mode has the width and the height if there is one that has. -/
def SelectsExact (selected : Option ℕ) : Prop :=
  (∃ info ∈ modes, (info.horizontalResolution : ℤ) = desiredX ∧
      (info.verticalResolution : ℤ) = desiredY) →
    ∃ mode info, selected = some mode ∧ modes[mode]? = some info ∧
      (info.horizontalResolution : ℤ) = desiredX ∧ (info.verticalResolution : ℤ) = desiredY

def Correct (s : Selection) : Prop :=
  (if desiredY = -1 then SelectsGreatest modes desiredX s.selectedMode
    else SelectsExact modes desiredX desiredY s.selectedMode) ∧
    ∀ record ∈ s.records, record < modes.length

end Specification

section Scan
variable {modes : List ModeInformation} {desiredX desiredY : ℤ}

theorem Scan.foldl_turn_filter (l : List (ModeInformation × ℕ)) (s : Scan) :
    l.foldl (Scan.turn desiredX desiredY) s =
      (l.filter (·.1.Matches desiredX desiredY)).foldl (Scan.turn desiredX desiredY) s := by
  rw [List.foldl_filter]
  congr 1
  funext s mode
  unfold Scan.turn
  split_ifs with hturn hmatches
  · rfl
  · exact absurd hturn.1 (by simpa using hmatches)
  · rfl
  · rfl

/-- Once a mode is selected the loop keeps the last mode that is as high as it is wide. -/
theorem Scan.foldl_turn_wide {l : List (ModeInformation × ℕ)} {s : Scan}
    (hl : ∀ mode ∈ l, mode.1.Matches desiredX desiredY)
    (hs : (s.currentResolutionY : ℤ) = desiredX % 2 ^ 32) :
    (l.foldl (Scan.turn desiredX desiredY) s).selectedMode =
      ((l.filter fun mode => s.currentResolutionY ≤ mode.1.verticalResolution).getLast?.map
        (·.2)).or s.selectedMode := by
  induction l generalizing s with
  | nil => rfl
  | cons mode l ih =>
    obtain ⟨hmode, hl⟩ := List.forall_mem_cons.mp hl
    rw [List.foldl_cons]
    by_cases hheight : mode.1.verticalResolution ≥ s.currentResolutionY
    · have hwidth : mode.1.horizontalResolution = s.currentResolutionY := by
        have hmatches := hmode.1
        omega
      have hturn : s.turn desiredX desiredY mode = ⟨some mode.2, s.currentResolutionY⟩ := by
        unfold Scan.turn
        rw [if_pos ⟨hmode, hheight⟩, hwidth]
      have hrest := @ih ⟨some mode.2, s.currentResolutionY⟩ hl hs
      rw [hturn, hrest, List.filter_cons_of_pos (by simpa using hheight), List.getLast?_cons]
      cases (l.filter fun m => s.currentResolutionY ≤ m.1.verticalResolution).getLast? <;> rfl
    · have hturn : s.turn desiredX desiredY mode = s := if_neg fun h => hheight h.2
      rw [hturn, ih hl hs, List.filter_cons_of_neg (by simpa using hheight)]

/-- The selected mode is the last one behind the first match that is as high as it is wide, or
else the first match. -/
theorem scan_selectedMode (modes : List ModeInformation) (desiredX desiredY : ℤ) :
    (scan modes desiredX desiredY).selectedMode =
      match modes.zipIdx.filter (·.1.Matches desiredX desiredY) with
      | [] => none
      | mode :: later => some ((later.filter fun m =>
          mode.1.horizontalResolution ≤ m.1.verticalResolution).getLast?.getD mode).2 := by
  have hall : ∀ mode ∈ modes.zipIdx.filter (·.1.Matches desiredX desiredY),
      mode.1.Matches desiredX desiredY := by
    intro mode hmode
    simpa using (List.mem_filter.mp hmode).2
  unfold scan
  rw [Scan.foldl_turn_filter]
  cases hfilter : modes.zipIdx.filter (·.1.Matches desiredX desiredY) with
  | nil => rfl
  | cons mode later =>
    rw [hfilter] at hall
    obtain ⟨hmode, hlater⟩ := List.forall_mem_cons.mp hall
    have hfirst : Scan.turn desiredX desiredY ⟨none, 0⟩ mode =
        ⟨some mode.2, mode.1.horizontalResolution⟩ := if_pos ⟨hmode, Nat.zero_le _⟩
    rw [List.foldl_cons, hfirst, Scan.foldl_turn_wide hlater hmode.1]
    dsimp only
    cases (later.filter fun m =>
      mode.1.horizontalResolution ≤ m.1.verticalResolution).getLast? <;> rfl

/-- No mode is selected if none matches. -/
theorem scan_selectedMode_eq_none_iff :
    (scan modes desiredX desiredY).selectedMode = none ↔
      ∀ info ∈ modes, ¬ info.Matches desiredX desiredY := by
  have hnil : modes.zipIdx.filter (·.1.Matches desiredX desiredY) = [] ↔
      ∀ info ∈ modes, ¬ info.Matches desiredX desiredY := by
    rw [List.filter_eq_nil_iff]
    constructor
    · intro hall info hinfo
      obtain ⟨i, hi, rfl⟩ := List.mem_iff_getElem.mp hinfo
      have hmem : (modes[i], i) ∈ modes.zipIdx :=
        List.mk_mem_zipIdx_iff_getElem?.mpr (List.getElem?_eq_getElem hi)
      simpa using hall _ hmem
    · intro hall mode hmode
      simpa using hall mode.1 (List.fst_mem_of_mem_zipIdx hmode)
  rw [scan_selectedMode, ← hnil]
  cases modes.zipIdx.filter (·.1.Matches desiredX desiredY) <;> simp

end Scan

section Selected
variable {modes : List ModeInformation} {desiredX desiredY : ℤ}

theorem setResolution_selectedMode :
    (setResolution modes desiredX desiredY).selectedMode =
      (scan modes desiredX desiredY).selectedMode := by
  unfold setResolution
  cases hselected : (scan modes desiredX desiredY).selectedMode with
  | none => rfl
  | some mode => rfl

theorem ModeInformation.Matches.of_eq {info : ModeInformation} (hx : desiredX < 2 ^ 31)
    (hy : desiredY < 2 ^ 31) (hwidth : (info.horizontalResolution : ℤ) = desiredX)
    (hheight : (info.verticalResolution : ℤ) = desiredY ∨ desiredY = -1) :
    info.Matches desiredX desiredY :=
  ⟨by omega, by omega⟩

/-- The record at the counter is not below the number of modes. -/
theorem not_correct_of_selected {mode : ℕ}
    (hmode : (scan modes desiredX desiredY).selectedMode = some mode) :
    ¬ Correct modes desiredX desiredY (setResolution modes desiredX desiredY) := by
  rintro ⟨-, hrecords⟩
  have hmem : modes.length ∈ (setResolution modes desiredX desiredY).records := by
    unfold setResolution
    rw [hmode]
    simp
  exact absurd (hrecords _ hmem) (lt_irrefl _)

theorem correct_of_none (hx : desiredX < 2 ^ 31) (hy : desiredY < 2 ^ 31)
    (hnone : ∀ info ∈ modes, ¬ info.Matches desiredX desiredY) :
    Correct modes desiredX desiredY (setResolution modes desiredX desiredY) := by
  unfold setResolution
  rw [scan_selectedMode_eq_none_iff.mpr hnone]
  refine ⟨?_, fun record hrecord => List.mem_range.mp hrecord⟩
  split_ifs with hany
  · refine ⟨fun mode hmode => absurd hmode (Option.some_ne_none mode).symm, ?_⟩
    refine iff_of_true rfl fun info hinfo hwidth => hnone info hinfo ?_
    exact .of_eq hx hy hwidth (Or.inr hany)
  · rintro ⟨info, hinfo, hwidth, hheight⟩
    exact absurd (ModeInformation.Matches.of_eq hx hy hwidth (Or.inl hheight)) (hnone info hinfo)

end Selected

/-- Among modes that are wider than high the first match is selected, whatever its height. -/
theorem scan_of_landscape {modes : List ModeInformation} {desiredX desiredY : ℤ}
    (hlandscape : ∀ info ∈ modes, info.Matches desiredX desiredY →
      info.verticalResolution < info.horizontalResolution) :
    (scan modes desiredX desiredY).selectedMode =
      (modes.zipIdx.filter (·.1.Matches desiredX desiredY)).head?.map (·.2) := by
  rw [scan_selectedMode]
  cases hfilter : modes.zipIdx.filter (·.1.Matches desiredX desiredY) with
  | nil => rfl
  | cons mode later =>
    have hmem : ∀ m ∈ mode :: later, m ∈ modes.zipIdx ∧ m.1.Matches desiredX desiredY := by
      intro m hm
      rw [← hfilter] at hm
      simpa using List.mem_filter.mp hm
    have hwidth := (hmem mode List.mem_cons_self).2.1
    have hnil : later.filter (fun m =>
        mode.1.horizontalResolution ≤ m.1.verticalResolution) = [] := by
      apply List.filter_eq_nil_iff.mpr
      intro m hm
      obtain ⟨hin, hmatches⟩ := hmem m (List.mem_cons_of_mem _ hm)
      have hlower := hlandscape m.1 (List.fst_mem_of_mem_zipIdx hin) hmatches
      have hsame := hmatches.1
      rw [decide_eq_true_iff]
      omega
    dsimp only
    rw [hnil]
    rfl

/-- The kernel starts in a mode unless all of the resolutions are missing. -/
theorem setAnyResolution_eq_none_iff (modes : List ModeInformation) :
    setAnyResolution modes = none ↔
      ∀ p ∈ resolutions, ∀ info ∈ modes, ¬ info.Matches p.1 p.2 := by
  unfold setAnyResolution
  rw [List.findSome?_eq_none_iff]
  refine forall₂_congr fun p _ => ?_
  rw [← scan_selectedMode_eq_none_iff, ← setResolution_selectedMode]

/-- The lowest of three modes of a width is selected, and a record behind them is read. -/
theorem lowest_selected :
    setResolution [⟨1280, 720⟩, ⟨1280, 800⟩, ⟨1280, 1024⟩] 1280 (-1) =
        ⟨some 0, [0, 1, 2, 3, 0]⟩ ∧
      ¬ SelectsGreatest [⟨1280, 720⟩, ⟨1280, 800⟩, ⟨1280, 1024⟩] 1280 (some 0) ∧
      ¬ Correct [⟨1280, 720⟩, ⟨1280, 800⟩, ⟨1280, 1024⟩] 1280 (-1)
        (setResolution [⟨1280, 720⟩, ⟨1280, 800⟩, ⟨1280, 1024⟩] 1280 (-1)) := by
  refine ⟨by decide, ?_, ?_⟩
  · rintro ⟨hgreatest, -⟩
    obtain ⟨info, hinfo, -, hall⟩ := hgreatest 0 rfl
    obtain rfl := Option.some.inj hinfo
    exact absurd (hall ⟨1280, 1024⟩ (by simp) rfl) (by decide)
  · rintro ⟨-, hrecords⟩
    exact absurd (hrecords 3 (by decide)) (by decide)

/-- SetResolution does what it is there for only when no mode has the resolution, and it reports
that. -/
theorem setResolution_correct_iff (modes : List ModeInformation) (desiredX desiredY : ℤ)
    (hx : desiredX < 2 ^ 31) (hy : desiredY < 2 ^ 31) :
    Correct modes desiredX desiredY (setResolution modes desiredX desiredY) ↔
      ∀ info ∈ modes, ¬ info.Matches desiredX desiredY := by
  constructor
  · intro hcorrect
    apply scan_selectedMode_eq_none_iff.mp
    by_contra hsome
    obtain ⟨mode, hmode⟩ := Option.ne_none_iff_exists'.mp hsome
    exact not_correct_of_selected hmode hcorrect
  · exact correct_of_none hx hy

theorem setResolution_correct_iff_missing :
    Correct [⟨1280, 720⟩] 1920 (-1) (setResolution [⟨1280, 720⟩] 1920 (-1)) ↔
      ∀ info ∈ [ModeInformation.mk 1280 720], ¬ info.Matches 1920 (-1) :=
  setResolution_correct_iff [⟨1280, 720⟩] 1920 (-1) (by decide) (by decide)

end Enkel.Resolution
