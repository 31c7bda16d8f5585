import Enkel.Keyboard

/-!
What KeyboardInterrupt puts into the input buffer: the text that GetPrintable finds for a
make code, but for the raw codes, which go to a buffer of their own. The handler stays in
its arrays only while the left control key is down, and then it finds no text.
-/
namespace Enkel.Keyboard

open Outcome ScanCode KeyState

/-- The characters among the effects of an interrupt. -/
def inserted (effects : List Effect) : List UInt8 :=
  effects.filterMap fun effect =>
    match effect with
    | .insertInput input false => some input
    | _ => none

/-- The text of a key under the Shift and AltGr keys that are down. -/
def KeyLayout.textOf (layout : KeyLayout) (codes : List ℕ) (key : ℕ) : Option (List ℕ) :=
  if Down codes shiftLeft ∨ Down codes shiftRight then
    if Down codes altGr then layout.standardShiftAltGr key else layout.standardShift key
  else
    if Down codes altGr then layout.standardAltGr key else layout.standard key

/-- The last of the scan codes is the make code of a key of the layout, no key that keeps
it from printing is down, and the text is the layout's. -/
structure Printed (layout : KeyLayout) (codes : List ℕ) (text : List UInt8) : Prop where
  make : ∃ key, codes.getLast? = some key ∧ key < rangeEndStandard ∧
    ∃ chars, layout.textOf codes key = some chars ∧ text = chars.map UInt8.ofNat
  controlLeft : ¬ Down codes controlLeft
  controlRight : ¬ Down codes controlRight
  alt : ¬ Down codes ScanCode.alt

/-- The layouts are the same in the standard range, which their arrays have entries for. -/
def KeyLayout.Agree (layout layout' : KeyLayout) : Prop :=
  ∀ key < rangeEndStandard, layout.standard key = layout'.standard key ∧
    layout.standardShift key = layout'.standardShift key ∧
    layout.standardAltGr key = layout'.standardAltGr key ∧
    layout.standardShiftAltGr key = layout'.standardShiftAltGr key

/-- Every byte is received without an access outside of an array, also of the layout, and
whatever characters it brings are the text of the key that is pressed with it. -/
def Inserts (layout : KeyLayout) (bytes : List UInt8) : Prop :=
  ∀ before scancode, before ++ [scancode] <+: bytes →
    ∃ s s' effects, interrupts layout before initKeyboard = .ok s ∧
      keyboardInterrupt layout (some scancode) s = .ok (s', effects) ∧
      (∀ layout', layout.Agree layout' →
        keyboardInterrupt layout' (some scancode) s = .ok (s', effects)) ∧
      (inserted effects ≠ [] →
        Printed layout (scanCodes 0 (before ++ [scancode])) (inserted effects))

/-- Each make code of a key of the standard range comes while the left control key is
down. -/
def ControlHeld (codes : List ℕ) : Prop :=
  ∀ before code, before ++ [code] <+: codes → code < rangeEndStandard →
    Down (before ++ [code]) controlLeft

section Codes
variable {layout : KeyLayout} {s s' : KeyState} {codes : List ℕ} {bytes : List UInt8}

theorem eachNamesKey_iff (before : List ℕ) :
    EachNamesKey before codes ↔
      (∀ code ∈ codes, ∃ key, IsKey key ∧ Names key code) ∧
      ∀ between code, between ++ [code] <+: codes → code < rangeEndStandard →
        Down (before ++ between ++ [code]) controlLeft := by
  induction codes generalizing before with
  | nil =>
    refine iff_of_true trivial ⟨by simp, fun between code h => ?_⟩
    simp at h
  | cons head codes ih =>
    unfold EachNamesKey
    rw [ih]
    constructor
    · rintro ⟨⟨hnames, hcontrol⟩, hrest, hheld⟩
      refine ⟨List.forall_mem_cons.mpr ⟨hnames, hrest⟩, fun between code h hlt => ?_⟩
      cases between with
      | nil =>
        obtain rfl : code = head := (List.cons_prefix_cons.mp h).1
        rw [List.append_nil]
        exact hcontrol hlt
      | cons first between =>
        obtain ⟨rfl, hprefix⟩ := List.cons_prefix_cons.mp h
        have hdown := hheld between code hprefix hlt
        rwa [← List.append_cons before first between] at hdown
    · rintro ⟨hnames, hheld⟩
      obtain ⟨hhead, hrest⟩ := List.forall_mem_cons.mp hnames
      refine ⟨⟨hhead, fun hlt => ?_⟩, hrest, fun between code h hlt => ?_⟩
      · have hdown := hheld [] head (by simp) hlt
        rwa [List.append_nil] at hdown
      · have hdown := hheld (head :: between) code (List.cons_prefix_cons.mpr ⟨rfl, h⟩) hlt
        rwa [List.append_cons before head between] at hdown

theorem scanCodes_prefix {before : List UInt8} (prefixed : UInt8) (h : before <+: bytes) :
    scanCodes prefixed before <+: scanCodes prefixed bytes := by
  induction before generalizing prefixed bytes with
  | nil => exact List.nil_prefix
  | cons scancode before ih =>
    obtain ⟨rest, rfl⟩ := h
    rw [List.cons_append]
    simp only [scanCodes]
    split_ifs
    · exact ih _ (List.prefix_append before rest)
    · exact List.cons_prefix_cons.mpr ⟨rfl, ih _ (List.prefix_append before rest)⟩

end Codes

section Interrupt
variable {layout layout' : KeyLayout} {s s' : KeyState} {effects : List Effect}
  {bytes before : List UInt8} {scancode : UInt8}

/-- The layout is read in the standard range only. -/
theorem getPrintable_agree (h : layout.Agree layout') (key : ℕ) :
    s.getPrintable key layout = s.getPrintable key layout' := by
  unfold KeyState.getPrintable
  split_ifs with hlt
  · obtain ⟨hstandard, hshift, haltGr, hshiftAltGr⟩ := h key hlt
    simp only [hstandard, hshift, haltGr, hshiftAltGr]
  · rfl

theorem interrupt_agree (h : layout.Agree layout') (data : Option UInt8) :
    keyboardInterrupt layout data s = keyboardInterrupt layout' data s := by
  unfold keyboardInterrupt
  simp only [getPrintable_agree h]

/-- A look for what to print that stays in the arrays finds the left control key down. -/
theorem getPrintable_none {key : ℕ} {ascii : Option (List ℕ)}
    (h : s.getPrintable key layout = .ok ascii) : ascii = none := by
  have hcontrol := succeeds_getPrintable.mp ⟨ascii, h⟩
  unfold KeyState.getPrintable at h
  split_ifs at h with hlt
  · have hleft : s.either controlLeft controlRight = .ok true := by
      unfold KeyState.either
      rw [load_eq (by decide), ok_bind, if_pos (hcontrol hlt)]
      rfl
    obtain ⟨shift, -, h⟩ := bind_eq_ok.mp h
    obtain ⟨alt, -, h⟩ := bind_eq_ok.mp h
    obtain ⟨altGr, -, h⟩ := bind_eq_ok.mp h
    rw [hleft, ok_bind, if_pos (Or.inl rfl)] at h
    exact (Except.ok.inj h).symm
  · exact (Except.ok.inj h).symm

/-- An interrupt that stays in the arrays inserts no character. -/
theorem inserted_nil (h : keyboardInterrupt layout (some scancode) s = .ok (s', effects)) :
    inserted effects = [] := by
  by_cases hprefix : scancode = 0xE0 ∨ scancode = 0xE1
  · rw [interrupt_incomplete hprefix] at h
    cases h
    rfl
  · simp only [keyboardInterrupt, if_neg hprefix] at h
    obtain ⟨s₁, -, h⟩ := bind_eq_ok.mp h
    obtain ⟨ascii, hascii, h⟩ := bind_eq_ok.mp h
    cases getPrintable_none hascii
    cases h
    rfl

theorem interrupts_snoc (before : List UInt8) (scancode : UInt8) (s : KeyState) :
    interrupts layout (before ++ [scancode]) s =
      interrupts layout before s >>= fun s =>
        Prod.fst <$> keyboardInterrupt layout (some scancode) s := by
  unfold interrupts
  rw [List.foldlM_append]
  refine congrArg _ (funext fun s₁ => ?_)
  exact bind_pure _

/-- A run that does not leave the arrays does as it has to in each of its interrupts. -/
theorem inserts_of_interrupts (h : ∀ before, before <+: bytes →
    Succeeds (interrupts layout before initKeyboard)) : Inserts layout bytes := by
  intro before scancode hprefix
  obtain ⟨s', hs'⟩ := h _ hprefix
  rw [interrupts_snoc] at hs'
  obtain ⟨s, hs, hinterrupt⟩ := bind_eq_ok.mp hs'
  obtain ⟨⟨s₁, effects⟩, heffects, -⟩ := bind_eq_ok.mp hinterrupt
  refine ⟨s, s₁, effects, hs, heffects, fun layout' hagree => ?_, fun hne => ?_⟩
  · rw [← interrupt_agree hagree, heffects]
  · exact absurd (inserted_nil heffects) hne

theorem Inserts.interrupts (h : Inserts layout bytes) :
    Succeeds (interrupts layout bytes initKeyboard) := by
  rcases List.eq_nil_or_concat bytes with rfl | ⟨before, scancode, rfl⟩
  · exact ⟨_, rfl⟩
  · rw [List.concat_eq_append] at h ⊢
    obtain ⟨s, s', effects, hs, heffects, -⟩ := h before scancode List.prefix_rfl
    exact ⟨s', by rw [interrupts_snoc, hs, ok_bind, heffects]; rfl⟩

end Interrupt

/-- For scan codes of keys, the handler stays in its arrays and inserts what it has to
exactly when the make codes of the standard range come while the left control key is
down. -/
theorem inserts_iff (layout : KeyLayout) (bytes : List UInt8)
    (hknown : ∀ code ∈ scanCodes 0 bytes, ∃ key, IsKey key ∧ Names key code) :
    Inserts layout bytes ↔ ControlHeld (scanCodes 0 bytes) := by
  constructor
  · intro hinserts before code hprefix hlt
    obtain ⟨s, hs⟩ := hinserts.interrupts
    have heach := each_of_interrupts bytes holds_initKeyboard hs
    exact ((eachNamesKey_iff []).mp heach).2 before code hprefix hlt
  · intro hheld
    refine inserts_of_interrupts fun before hprefix => ?_
    have hcodes := scanCodes_prefix 0 hprefix
    have heach : EachNamesKey [] (scanCodes 0 before) :=
      (eachNamesKey_iff []).mpr ⟨fun code hcode => hknown code (hcodes.subset hcode),
        fun between code h hlt => hheld between code (h.trans hcodes) hlt⟩
    obtain ⟨s, hs, -⟩ := interrupts_holds layout before holds_initKeyboard heach
    exact ⟨s, hs⟩

/-- The letters of a layout of one key. -/
def letterA : KeyLayout where
  standard key := if key = 0x1E then some [0x61] else none
  standardShift key := if key = 0x1E then some [0x41] else none
  standardAltGr _ := none
  standardShiftAltGr _ := none

/-- The left control key and the letter A. -/
theorem inserts_iff_control : Inserts letterA [0x1D, 0x1E] ↔ ControlHeld [0x1D, 0x1E] :=
  inserts_iff letterA [0x1D, 0x1E] fun code hcode => by
    have hmem : code = 0x1D ∨ code = 0x1E := by simpa [scanCodes] using hcode
    have hranges := ranges
    refine ⟨code, Or.inl (by omega), Or.inl rfl⟩

/-- The letter A alone: the right control key is looked up outside of its array. -/
theorem letter_not_inserted : ¬ Inserts letterA [0x1E] := by
  intro hinserts
  obtain ⟨s, hs⟩ := hinserts.interrupts
  have hstop : errorOf (interrupts letterA [0x1E] initKeyboard) =
      some (.outOfBounds .standard 0xE01D) := by decide +kernel
  rw [errorOf_eq_some, hs] at hstop
  cases hstop

end Enkel.Keyboard
