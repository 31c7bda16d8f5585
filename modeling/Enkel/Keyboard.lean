import Mathlib.Algebra.Ring.Nat
import Mathlib.Data.List.Basic
import Enkel.Outcome

/-!
The key states of keyboard.h and the interrupt handler that updates them. The
bytes E0 and E1 prefix the byte that follows them, and the two together are a
scan code: a number that lies in one of the three ranges of keys, or 0x80 above
when the key is released. The chain of comparisons takes the gaps between the
ranges for parts of them, the state of the key of the last range is stored in the
array of the range before it, and the key that is printed is looked up with the
number of the right control key, which lies outside of the standard range.
-/
namespace Enkel.Keyboard

open Outcome

namespace ScanCode

abbrev rangeEndStandard : ℕ := 0x59
abbrev rangeStartExtended1 : ℕ := 0xE010
abbrev rangeEndExtended1 : ℕ := 0xE06E
abbrev rangeStartExtended2 : ℕ := 0xE11D
abbrev rangeEndExtended2 : ℕ := 0xE11E

abbrev controlLeft : ℕ := 0x1D
abbrev shiftLeft : ℕ := 0x2A
abbrev shiftRight : ℕ := 0x36
abbrev alt : ℕ := 0x38
abbrev mediaTrackPrevious : ℕ := 0xE010
abbrev controlRight : ℕ := 0xE01D
abbrev altGr : ℕ := 0xE038
abbrev pause : ℕ := 0xE11D

end ScanCode

open ScanCode

abbrev releasedKeyOffset : ℕ := 0x80

/-- The arrays of KeyState. -/
inductive KeyArray
  | standard
  | extended1
  | extended2
deriving DecidableEq, Repr

/-- RangeLength_Standard and the like. -/
def KeyArray.length : KeyArray → ℕ
  | .standard => rangeEndStandard
  | .extended1 => rangeEndExtended1 - rangeStartExtended1
  | .extended2 => rangeEndExtended2 - rangeStartExtended2

inductive Fault
  | assertion (message : String)
  | outOfBounds (array : KeyArray) (index : ℕ)
deriving DecidableEq, Repr

structure KeyState where
  keys : KeyArray → ℕ → UInt8
  extendedKeyState : UInt8

/-- The strings of a layout; null where a key prints nothing. -/
structure KeyLayout where
  standard : ℕ → Option (List ℕ)
  standardShift : ℕ → Option (List ℕ)
  standardAltGr : ℕ → Option (List ℕ)
  standardShiftAltGr : ℕ → Option (List ℕ)

/-- What the handler does beside the update of the key states. -/
inductive Effect
  | consolePrint (text : List ℕ)
  | insertInput (input : UInt8) (scancode : Bool)
deriving DecidableEq, Repr

/-- The difference of two words of 32 bits. -/
def sub32 (a b : ℕ) : ℕ := (a + (2 ^ 32 - b)) % 2 ^ 32

namespace KeyState

def load (s : KeyState) (array : KeyArray) (index : ℕ) : Except Fault UInt8 := do
  require (index < array.length) (.outOfBounds array index)
  return s.keys array index

def put (s : KeyState) (array : KeyArray) (index : ℕ) (value : UInt8) : KeyState :=
  { s with keys := Function.update s.keys array (Function.update (s.keys array) index value) }

def store (s : KeyState) (array : KeyArray) (index : ℕ) (value : UInt8) :
    Except Fault KeyState := do
  require (index < array.length) (.outOfBounds array index)
  return s.put array index value

def getKeyState (s : KeyState) (key : ℕ) : Except Fault UInt8 :=
  if key < rangeEndStandard then
    s.load .standard key
  else if key < rangeEndExtended1 then
    s.load .extended1 (sub32 key rangeStartExtended1)
  else if key < rangeEndExtended2 then
    s.load .extended2 (sub32 key rangeStartExtended2)
  else
    throw (.assertion "Invalid scan code")

def updateKeyState (s : KeyState) (key : ℕ) : Except Fault KeyState :=
  if key < rangeEndStandard then
    s.store .standard key 1
  else if key < rangeEndStandard + releasedKeyOffset then
    s.store .standard (sub32 key releasedKeyOffset) 0
  else if key < rangeEndExtended1 then
    s.store .extended1 (sub32 key rangeStartExtended1) 1
  else if key < rangeEndExtended1 + releasedKeyOffset then
    s.store .extended1 (sub32 (sub32 key rangeStartExtended1) releasedKeyOffset) 0
  -- Extended1 here too, where GetKeyState reads Extended2
  else if key < rangeEndExtended2 then
    s.store .extended1 (sub32 key rangeStartExtended2) 1
  else if key < rangeEndExtended2 + releasedKeyOffset then
    s.store .extended1 (sub32 (sub32 key rangeStartExtended2) releasedKeyOffset) 0
  else
    throw (.assertion "Invalid scan code")

/-- The disjunction of two entries; the second is read when the first is zero. -/
def either (s : KeyState) (first second : ℕ) : Except Fault Bool := do
  if (← s.load .standard first) ≠ 0 then
    return true
  return (← s.load .standard second) ≠ 0

def getPrintable (s : KeyState) (key : ℕ) (layout : KeyLayout) :
    Except Fault (Option (List ℕ)) := do
  if key < rangeEndStandard then
    let shift ← s.either shiftLeft shiftRight
    let alt := (← s.load .standard ScanCode.alt) ≠ 0
    let altGr := (← s.load .extended1 (ScanCode.altGr - rangeStartExtended1)) ≠ 0
    let control ← s.either controlLeft controlRight
    if control ∨ alt then
      return none
    else if shift ∧ altGr then
      return layout.standardShiftAltGr key
    else if shift then
      return layout.standardShift key
    else if altGr then
      return layout.standardAltGr key
    else
      return layout.standard key
  return none

end KeyState

open KeyState

/-- KeyboardInterrupt; `data` is the byte at port 0x60, if the status says that there is one. -/
def keyboardInterrupt (layout : KeyLayout) (data : Option UInt8) (s : KeyState) :
    Except Fault (KeyState × List Effect) := do
  match data with
  | none => return (s, [])
  | some scancode =>
    if scancode = 0xE0 ∨ scancode = 0xE1 then
      return ({ s with extendedKeyState := scancode }, [])
    let lastScancode := s.extendedKeyState.toNat * 2 ^ 8 + scancode.toNat
    let s ← s.updateKeyState lastScancode
    let ascii ← s.getPrintable lastScancode layout
    let printed := match ascii with
      | none => []
      | some text =>
        .consolePrint text :: text.map fun char => .insertInput (UInt8.ofNat char) false
    return ({ s with extendedKeyState := 0 }, printed ++ [.insertInput scancode true])

def initKeyboard : KeyState := ⟨fun _ _ => 0, 0⟩

/-- The key states after an interrupt for each byte. -/
def interrupts (layout : KeyLayout) (bytes : List UInt8) (s : KeyState) : Except Fault KeyState :=
  bytes.foldlM (fun s scancode => Prod.fst <$> keyboardInterrupt layout (some scancode) s) s

/-- The complete scan codes among the bytes after a prefix, zero standing for none. -/
def scanCodes (prefixed : UInt8) : List UInt8 → List ℕ
  | [] => []
  | byte :: bytes =>
    if byte = 0xE0 ∨ byte = 0xE1 then scanCodes byte bytes
    else (prefixed.toNat * 2 ^ 8 + byte.toNat) :: scanCodes 0 bytes

/-- The keys of the three ranges. -/
def IsKey (key : ℕ) : Prop :=
  key < rangeEndStandard ∨ (rangeStartExtended1 ≤ key ∧ key < rangeEndExtended1) ∨
    (rangeStartExtended2 ≤ key ∧ key < rangeEndExtended2)

/-- A scan code names a key when it is the make code or the break code of the key. -/
def Names (key code : ℕ) : Prop := code = key ∨ code = key + releasedKeyOffset

instance (key code : ℕ) : Decidable (Names key code) := inferInstanceAs (Decidable (_ ∨ _))

/-- The last scan code that names the key is its make code. -/
def Down (codes : List ℕ) (key : ℕ) : Prop :=
  (codes.filter fun code => Names key code).getLast? = some key

instance (codes : List ℕ) (key : ℕ) : Decidable (Down codes key) :=
  inferInstanceAs (Decidable (_ = _))

/-- The key states tell which keys are down. -/
def Shows (s : KeyState) (codes : List ℕ) : Prop :=
  ∀ key, IsKey key → s.getKeyState key = .ok (if Down codes key then 1 else 0)

/-- The last scan code that names MediaTrackPrevious or Pause. -/
def lastShared (codes : List ℕ) : Option ℕ :=
  (codes.filter fun code => Names mediaTrackPrevious code ∨ Names pause code).getLast?

/-- What the state of a key depends on. MediaTrackPrevious and Pause are stored in one
place, and Pause is read from another one. -/
def Kept (codes : List ℕ) (key : ℕ) : Prop :=
  if key = pause then False
  else if key = mediaTrackPrevious then
    lastShared codes = some mediaTrackPrevious ∨ lastShared codes = some pause
  else Down codes key

instance (codes : List ℕ) (key : ℕ) : Decidable (Kept codes key) := by
  unfold Kept
  infer_instance

/-- The key states after the scan codes. -/
def Holds (s : KeyState) (codes : List ℕ) : Prop :=
  ∀ key, IsKey key → s.getKeyState key = .ok (if Kept codes key then 1 else 0)

/-- Pause is up, and MediaTrackPrevious is up unless it was pressed after the last scan code
of Pause. -/
def PauseApart (codes : List ℕ) : Prop :=
  ¬ Down codes pause ∧
    (Down codes mediaTrackPrevious → lastShared codes = some mediaTrackPrevious)

/-- The bytes are received without an access outside of an array, and the key states
tell which keys are down afterwards. -/
def Tracks (layout : KeyLayout) (bytes : List UInt8) : Prop :=
  ∃ s, interrupts layout bytes initKeyboard = .ok s ∧ Shows s (scanCodes 0 bytes)

/-- Each scan code names a key, and the left control key is down after it when it is the
make code of a key of the standard range. -/
def EachNamesKey (before : List ℕ) : List ℕ → Prop
  | [] => True
  | code :: codes =>
    ((∃ key, IsKey key ∧ Names key code) ∧
      (code < rangeEndStandard → Down (before ++ [code]) controlLeft)) ∧
    EachNamesKey (before ++ [code]) codes

section Slots
variable {s s' : KeyState} {key key' code : ℕ} {codes : List ℕ}

/-- The array and the index that the state of a key is read from. -/
def slotOf (key : ℕ) : KeyArray × ℕ :=
  if key < rangeEndStandard then (.standard, key)
  else if key < rangeEndExtended1 then (.extended1, key - rangeStartExtended1)
  else (.extended2, key - rangeStartExtended2)

/-- The array and the index that the state of a key is stored in. -/
def storedIn (key : ℕ) : KeyArray × ℕ :=
  if key < rangeEndStandard then (.standard, key)
  else if key < rangeEndExtended1 then (.extended1, key - rangeStartExtended1)
  else (.extended1, key - rangeStartExtended2)

/-- The bounds of the ranges, for linear arithmetic. -/
theorem ranges : rangeEndStandard = 0x59 ∧ rangeStartExtended1 = 0xE010 ∧
    rangeEndExtended1 = 0xE06E ∧ rangeStartExtended2 = 0xE11D ∧ rangeEndExtended2 = 0xE11E ∧
    releasedKeyOffset = 0x80 := ⟨rfl, rfl, rfl, rfl, rfl, rfl⟩

/-- The keys at the starts of the two extended ranges. -/
theorem sharing : mediaTrackPrevious = 0xE010 ∧ pause = 0xE11D := ⟨rfl, rfl⟩

/-- A key is stored where another one is read for Pause and MediaTrackPrevious only. -/
theorem storedIn_eq_slotOf (hkey : IsKey key) (hkey' : IsKey key') :
    storedIn key = slotOf key' ↔
      key' ≠ pause ∧ (key = key' ∨ key = pause ∧ key' = mediaTrackPrevious) := by
  have hranges := ranges
  have hsharing := sharing
  unfold storedIn slotOf
  unfold IsKey at hkey hkey'
  split_ifs <;> simp only [Prod.mk.injEq, reduceCtorEq, false_and, true_and, false_iff] <;> omega

theorem load_eq {array : KeyArray} {index : ℕ} (h : index < array.length) :
    s.load array index = .ok (s.keys array index) := by
  unfold KeyState.load
  rw [require_true h]
  rfl

theorem store_eq {array : KeyArray} {index : ℕ} {value : UInt8} (h : index < array.length) :
    s.store array index value = .ok (s.put array index value) := by
  unfold KeyState.store
  rw [require_true h]
  rfl

theorem not_succeeds_store {array : KeyArray} {index : ℕ} {value : UInt8}
    (h : array.length ≤ index) : ¬ Succeeds (s.store array index value) := by
  unfold KeyState.store
  simp [h]

theorem sub32_of_le {a b : ℕ} (h : b ≤ a) (ha : a < 2 ^ 32) : sub32 a b = a - b := by
  unfold sub32
  omega

theorem sub32_sub32 {a b c : ℕ} (h : b + c ≤ a) (ha : a < 2 ^ 32) :
    sub32 (sub32 a b) c = a - c - b := by
  rw [sub32_of_le (by omega) ha, sub32_of_le (by omega) (by omega), Nat.sub_right_comm]

/-- A difference that wraps around is no index of an array. -/
theorem length_le_sub32 {a b : ℕ} {array : KeyArray} (h : a < b) (hb : b < 2 ^ 31) :
    array.length ≤ sub32 a b := by
  have hlength : array.length ≤ 2 ^ 31 := by cases array <;> decide
  unfold sub32
  omega

theorem getKeyState_eq (hkey : IsKey key) :
    s.getKeyState key = .ok (s.keys (slotOf key).1 (slotOf key).2) := by
  have hranges := ranges
  unfold KeyState.getKeyState slotOf
  unfold IsKey at hkey
  split_ifs with hstandard hextended1 hextended2
  · exact load_eq hstandard
  · rw [sub32_of_le (by omega) (by omega)]
    apply load_eq
    simp only [KeyArray.length]
    omega
  · rw [sub32_of_le (by omega) (by omega)]
    apply load_eq
    simp only [KeyArray.length]
    omega
  · omega

/-- The make code of a key sets its state. -/
theorem updateKeyState_make (hkey : IsKey key) :
    s.updateKeyState key = .ok (s.put (storedIn key).1 (storedIn key).2 1) := by
  have hranges := ranges
  unfold KeyState.updateKeyState storedIn
  unfold IsKey at hkey
  split_ifs with h1 h2 h3 h4 h5 h6
  all_goals first | omega | skip
  · exact store_eq h1
  · rw [sub32_of_le (by omega) (by omega)]
    apply store_eq
    simp only [KeyArray.length]
    omega
  · rw [sub32_of_le (by omega) (by omega)]
    apply store_eq
    simp only [KeyArray.length]
    omega

/-- The break code of a key clears its state. -/
theorem updateKeyState_break (hkey : IsKey key) :
    s.updateKeyState (key + releasedKeyOffset) = .ok (s.put (storedIn key).1 (storedIn key).2 0) := by
  have hranges := ranges
  unfold KeyState.updateKeyState storedIn
  unfold IsKey at hkey
  split_ifs with h1 h2 h3 h4 h5 h6 h7 h8
  all_goals first | omega | skip
  · rw [sub32_of_le (by omega) (by omega), Nat.add_sub_cancel]
    exact store_eq (by assumption)
  · rw [sub32_sub32 (by omega) (by omega), Nat.add_sub_cancel]
    apply store_eq
    simp only [KeyArray.length]
    omega
  · rw [sub32_sub32 (by omega) (by omega), Nat.add_sub_cancel]
    apply store_eq
    simp only [KeyArray.length]
    omega

/-- A number that names no key is stored nowhere. -/
theorem not_succeeds_updateKeyState (hcode : code < 2 ^ 16)
    (h : ¬ ∃ key, IsKey key ∧ Names key code) : ¬ Succeeds (s.updateKeyState code) := by
  have hranges := ranges
  have hmake : ¬ IsKey code := fun hkey => h ⟨code, hkey, Or.inl rfl⟩
  have hbreak : releasedKeyOffset ≤ code → ¬ IsKey (code - releasedKeyOffset) := fun hle hkey =>
    h ⟨code - releasedKeyOffset, hkey, Or.inr (by omega)⟩
  unfold IsKey at hmake hbreak
  unfold KeyState.updateKeyState
  split_ifs with h1 h2 h3 h4 h5 h6
  · omega
  · exact not_succeeds_store (length_le_sub32 (by omega) (by omega))
  · exact not_succeeds_store (length_le_sub32 (by omega) (by omega))
  · have hlt : sub32 code rangeStartExtended1 < releasedKeyOffset := by
      rw [sub32_of_le (by omega) (by omega)]
      omega
    exact not_succeeds_store (length_le_sub32 hlt (by omega))
  · exact not_succeeds_store (length_le_sub32 (by omega) (by omega))
  · have hlt : sub32 code rangeStartExtended2 < releasedKeyOffset := by
      rw [sub32_of_le (by omega) (by omega)]
      omega
    exact not_succeeds_store (length_le_sub32 hlt (by omega))
  · exact not_succeeds_throw _

end Slots

section Step
variable {s s' : KeyState} {key key' code : ℕ} {codes : List ℕ} {layout : KeyLayout}

/-- A scan code names one key. -/
theorem Names.unique (hkey : IsKey key) (hkey' : IsKey key') (h : Names key code)
    (h' : Names key' code) : key = key' := by
  have hranges := ranges
  unfold IsKey at hkey hkey'
  unfold Names at h h'
  omega

theorem down_append_singleton :
    Down (codes ++ [code]) key ↔ if Names key code then code = key else Down codes key := by
  unfold Down
  by_cases hnames : Names key code
  · simp [List.filter_append, hnames]
  · simp [List.filter_append, hnames]

theorem lastShared_append_singleton :
    lastShared (codes ++ [code]) =
      if Names mediaTrackPrevious code ∨ Names pause code then some code else lastShared codes := by
  unfold lastShared
  by_cases hnames : Names mediaTrackPrevious code ∨ Names pause code
  · simp [List.filter_append, hnames]
  · simp [List.filter_append, hnames]

theorem isKey_mediaTrackPrevious : IsKey mediaTrackPrevious := Or.inr (Or.inl (by decide))

theorem isKey_pause : IsKey pause := Or.inr (Or.inr (by decide))

/-- The key whose make code is the last one of the two is down. -/
theorem down_of_lastShared (hkey : IsKey key) (h : lastShared codes = some key) :
    Down codes key := by
  obtain ⟨before, hbefore⟩ := List.getLast?_eq_some_iff.mp h
  have hmem : key ∈ codes.filter fun code => Names mediaTrackPrevious code ∨ Names pause code := by
    rw [hbefore]
    exact List.mem_append_right _ (List.mem_singleton_self key)
  have hshared : key = mediaTrackPrevious ∨ key = pause := by
    have hnames := of_decide_eq_true (List.mem_filter.mp hmem).2
    have hself : Names key key := Or.inl rfl
    exact hnames.imp (hself.unique hkey isKey_mediaTrackPrevious) (hself.unique hkey isKey_pause)
  have hfilter : codes.filter (fun code => Names key code) =
      (codes.filter fun code => Names mediaTrackPrevious code ∨ Names pause code).filter
        (fun code => Names key code) := by
    rw [List.filter_filter]
    refine List.filter_congr fun code _ => ?_
    rcases hshared with rfl | rfl
    · simpa using Or.inl
    · simpa using Or.inr
  unfold Down
  rw [hfilter, hbefore, List.filter_append, List.getLast?_append]
  simp [Names]

/-- What a scan code that names a key changes about the state of another one. -/
theorem kept_append_singleton (hkey : IsKey key) (hkey' : IsKey key') (hnames : Names key code) :
    Kept (codes ++ [code]) key' ↔
      if storedIn key = slotOf key' then code = key else Kept codes key' := by
  have hranges := ranges
  have hsharing := sharing
  have hother : ∀ {k}, IsKey k → (Names k code ↔ k = key) := fun hk =>
    ⟨fun hk' => hk'.unique hk hkey hnames, fun heq => heq ▸ hnames⟩
  simp only [storedIn_eq_slotOf hkey hkey', Kept]
  by_cases hpause : key' = pause
  · simp [hpause]
  by_cases htrack : key' = mediaTrackPrevious
  · simp only [lastShared_append_singleton, hother isKey_mediaTrackPrevious, hother isKey_pause,
      if_neg hpause, if_pos htrack]
    by_cases hshared : mediaTrackPrevious = key ∨ pause = key
    · rw [if_pos hshared, if_pos ⟨hpause, by omega⟩]
      simp only [Option.some.injEq]
      unfold Names at hnames
      omega
    · rw [if_neg hshared, if_neg (by omega)]
  · simp only [down_append_singleton, hother hkey', if_neg hpause, if_neg htrack]
    by_cases hsame : key = key'
    · rw [if_pos hsame.symm, if_pos ⟨hpause, Or.inl hsame⟩, hsame]
    · rw [if_neg (Ne.symm hsame), if_neg (by omega)]

/-- The states of the keys after a scan code that names one of them. -/
theorem Holds.update (h : Holds s codes) (hkey : IsKey key) (hnames : Names key code) :
    ∃ s', s.updateKeyState code = .ok s' ∧ Holds s' (codes ++ [code]) ∧
      s'.extendedKeyState = s.extendedKeyState := by
  have hupdate : s.updateKeyState code =
      .ok (s.put (storedIn key).1 (storedIn key).2 (if code = key then 1 else 0)) := by
    rcases hnames with rfl | rfl
    · rw [if_pos rfl]
      exact updateKeyState_make hkey
    · rw [if_neg (by have hranges := ranges; omega)]
      exact updateKeyState_break hkey
  refine ⟨_, hupdate, fun key' hkey' => ?_, rfl⟩
  have hbefore := h key' hkey'
  rw [getKeyState_eq hkey'] at hbefore ⊢
  rw [if_congr (kept_append_singleton hkey hkey' hnames) rfl rfl]
  simp only [KeyState.put]
  by_cases hslot : storedIn key = slotOf key'
  · rw [hslot, Function.update_self, Function.update_self]
    simp only [if_true]
  · simp only [if_neg hslot]
    rw [← hbefore]
    by_cases harray : (slotOf key').1 = (storedIn key).1
    · rw [harray, Function.update_self, Function.update_of_ne]
      exact fun hindex => hslot (Prod.ext harray hindex).symm
    · rw [Function.update_of_ne harray]

theorem exists_either {first second : ℕ} (hfirst : first < rangeEndStandard)
    (hsecond : second < rangeEndStandard) : ∃ b, s.either first second = .ok b := by
  unfold KeyState.either
  rw [load_eq hfirst, load_eq hsecond, ok_bind, ok_bind]
  split_ifs <;> exact ⟨_, rfl⟩

/-- The right control key is looked up in the standard range, which it is not in. -/
theorem succeeds_either_control :
    Succeeds (s.either controlLeft controlRight) ↔ s.keys .standard controlLeft ≠ 0 := by
  have hleft : controlLeft < KeyArray.standard.length := by decide
  have hright : ¬ Succeeds (s.load .standard controlRight) := by
    intro hok
    exact absurd (succeeds_require_bind.mp hok).1 (by decide)
  unfold KeyState.either
  rw [load_eq hleft, ok_bind]
  by_cases hdown : s.keys .standard controlLeft ≠ 0
  · simp [hdown]
  · rw [if_neg hdown]
    constructor
    · rintro ⟨b, hb⟩
      obtain ⟨value, hvalue, -⟩ := bind_eq_ok.mp hb
      exact absurd ⟨value, hvalue⟩ hright
    · exact fun h => absurd h hdown

/-- Looking for what to print stays in the arrays while the left control key is down. -/
theorem succeeds_getPrintable :
    Succeeds (s.getPrintable code layout) ↔
      (code < rangeEndStandard → s.keys .standard controlLeft ≠ 0) := by
  unfold KeyState.getPrintable
  by_cases hstandard : code < rangeEndStandard
  · obtain ⟨shift, hshift⟩ : ∃ b, s.either shiftLeft shiftRight = .ok b :=
      exists_either (by decide) (by decide)
    have halt : ScanCode.alt < KeyArray.standard.length := by decide
    have haltGr : ScanCode.altGr - rangeStartExtended1 < KeyArray.extended1.length := by decide
    rw [if_pos hstandard, hshift, ok_bind, load_eq halt, ok_bind, load_eq haltGr, ok_bind,
      succeeds_bind, succeeds_either_control]
    · simp only [hstandard, true_implies]
    · intro control
      split_ifs <;> exact succeeds_pure _
  · rw [if_neg hstandard]
    simp [hstandard]

/-- The state of a key that has a place of its own. -/
theorem Holds.down (h : Holds s codes) (hkey : IsKey key) (hpause : key ≠ pause)
    (htrack : key ≠ mediaTrackPrevious) :
    s.keys (slotOf key).1 (slotOf key).2 ≠ 0 ↔ Down codes key := by
  have hstate := h _ hkey
  have hkept : Kept codes key ↔ Down codes key := by
    unfold Kept
    rw [if_neg hpause, if_neg htrack]
  rw [getKeyState_eq hkey, if_congr hkept rfl rfl] at hstate
  rw [Except.ok.inj hstate]
  split_ifs with hdown <;> simp [hdown]

/-- The state of the left control key, as GetPrintable reads it. -/
theorem Holds.controlLeft (h : Holds s codes) :
    s.keys .standard controlLeft ≠ 0 ↔ Down codes controlLeft := by
  have hkey : IsKey ScanCode.controlLeft := Or.inl (by decide)
  exact h.down hkey (by decide) (by decide)

/-- The key states tell which keys are down, but for the two that share a place. -/
theorem Holds.shows_iff (h : Holds s codes) : Shows s codes ↔ PauseApart codes := by
  have hshows : Shows s codes ↔ ∀ key, IsKey key → (Kept codes key ↔ Down codes key) := by
    refine forall₂_congr fun key hkey => ?_
    rw [h key hkey]
    by_cases hkept : Kept codes key <;> by_cases hdown : Down codes key <;> simp [hkept, hdown]
  rw [hshows]
  constructor
  · intro hkept
    have hpause : ¬ Down codes pause := fun hdown => by
      have hfalse := (hkept _ isKey_pause).mpr hdown
      unfold Kept at hfalse
      rwa [if_pos rfl] at hfalse
    refine ⟨hpause, fun hdown => ?_⟩
    have hshared := (hkept _ isKey_mediaTrackPrevious).mpr hdown
    unfold Kept at hshared
    rw [if_neg (by decide), if_pos rfl] at hshared
    exact hshared.resolve_right fun hlast => hpause (down_of_lastShared isKey_pause hlast)
  · rintro ⟨hpause, htrack⟩ key -
    unfold Kept
    split_ifs with heq heq
    · rw [heq]
      exact iff_of_false id hpause
    · rw [heq]
      refine ⟨fun hlast => ?_, fun hdown => Or.inl (htrack hdown)⟩
      rcases hlast with hlast | hlast
      · exact down_of_lastShared isKey_mediaTrackPrevious hlast
      · exact absurd (down_of_lastShared isKey_pause hlast) hpause
    · exact Iff.rfl

/-- One byte of a scan code that has a byte E0 or E1 before it, or none. -/
theorem interrupt_code {scancode : UInt8} (hscancode : ¬ (scancode = 0xE0 ∨ scancode = 0xE1)) :
    Prod.fst <$> keyboardInterrupt layout (some scancode) s =
      (do
        let s' ← s.updateKeyState (s.extendedKeyState.toNat * 2 ^ 8 + scancode.toNat)
        let _ ← s'.getPrintable (s.extendedKeyState.toNat * 2 ^ 8 + scancode.toNat) layout
        return { s' with extendedKeyState := 0 }) := by
  simp only [keyboardInterrupt, if_neg hscancode]
  cases s.updateKeyState (s.extendedKeyState.toNat * 2 ^ 8 + scancode.toNat) with
  | error e => rfl
  | ok s' =>
    simp only [ok_bind]
    cases s'.getPrintable (s.extendedKeyState.toNat * 2 ^ 8 + scancode.toNat) layout with
    | error e => rfl
    | ok ascii => rfl

/-- The handler takes in a scan code exactly when it names a key and, for a key of the
standard range, the left control key is down. -/
theorem interrupt_holds (layout : KeyLayout) {scancode : UInt8} (h : Holds s codes)
    (hscancode : ¬ (scancode = 0xE0 ∨ scancode = 0xE1))
    (hcode : code = s.extendedKeyState.toNat * 2 ^ 8 + scancode.toNat)
    (hnames : ∃ key, IsKey key ∧ Names key code)
    (hcontrol : code < rangeEndStandard → Down (codes ++ [code]) controlLeft) :
    ∃ s', Prod.fst <$> keyboardInterrupt layout (some scancode) s = .ok s' ∧
      Holds s' (codes ++ [code]) ∧ s'.extendedKeyState = 0 := by
  obtain ⟨key, hkey, hnames⟩ := hnames
  obtain ⟨s', hupdate, hholds, -⟩ := h.update hkey hnames
  obtain ⟨ascii, hascii⟩ : Succeeds (s'.getPrintable code layout) :=
    succeeds_getPrintable.mpr fun hlt => hholds.controlLeft.mpr (hcontrol hlt)
  refine ⟨{ s' with extendedKeyState := 0 }, ?_, hholds, rfl⟩
  rw [interrupt_code hscancode, ← hcode, hupdate, ok_bind, hascii]
  rfl

/-- Whatever the handler takes in names a key, and is followed by the left control key. -/
theorem names_of_interrupt {scancode : UInt8} (h : Holds s codes)
    (hscancode : ¬ (scancode = 0xE0 ∨ scancode = 0xE1))
    (hcode : code = s.extendedKeyState.toNat * 2 ^ 8 + scancode.toNat)
    (hok : Succeeds (Prod.fst <$> keyboardInterrupt layout (some scancode) s)) :
    (∃ key, IsKey key ∧ Names key code) ∧
      (code < rangeEndStandard → Down (codes ++ [code]) controlLeft) := by
  obtain ⟨s₂, hs₂⟩ := hok
  rw [interrupt_code hscancode, ← hcode] at hs₂
  obtain ⟨s₁, hs₁, hs₂⟩ := bind_eq_ok.mp hs₂
  have hlt : code < 2 ^ 16 := by
    have hprefixed := s.extendedKeyState.toNat_lt
    have hbyte := scancode.toNat_lt
    omega
  have hnames : ∃ key, IsKey key ∧ Names key code := by
    by_contra hnone
    exact not_succeeds_updateKeyState hlt hnone ⟨s₁, hs₁⟩
  obtain ⟨key, hkey, hkeyNames⟩ := hnames
  obtain ⟨s', hupdate, hholds, -⟩ := h.update hkey hkeyNames
  obtain rfl : s₁ = s' := Except.ok.inj (hs₁.symm.trans hupdate)
  refine ⟨⟨key, hkey, hkeyNames⟩, fun hstandard => hholds.controlLeft.mp ?_⟩
  obtain ⟨ascii, hascii, -⟩ := bind_eq_ok.mp hs₂
  exact succeeds_getPrintable.mp ⟨ascii, hascii⟩ hstandard

end Step

section Run
variable {layout : KeyLayout}

theorem interrupts_cons (scancode : UInt8) (bytes : List UInt8) (s : KeyState) :
    interrupts layout (scancode :: bytes) s =
      (Prod.fst <$> keyboardInterrupt layout (some scancode) s) >>= interrupts layout bytes :=
  rfl

/-- A byte E0 or E1 is kept for the next byte. -/
theorem interrupt_incomplete {scancode : UInt8} (h : scancode = 0xE0 ∨ scancode = 0xE1)
    (s : KeyState) :
    keyboardInterrupt layout (some scancode) s =
      .ok ({ s with extendedKeyState := scancode }, []) := by
  simp only [keyboardInterrupt, if_pos h]
  rfl

/-- A run of the handler, from a state that holds the scan codes before it. -/
theorem interrupts_holds (layout : KeyLayout) (bytes : List UInt8) {s : KeyState}
    {codes : List ℕ} (h : Holds s codes)
    (heach : EachNamesKey codes (scanCodes s.extendedKeyState bytes)) :
    ∃ s', interrupts layout bytes s = .ok s' ∧
      Holds s' (codes ++ scanCodes s.extendedKeyState bytes) := by
  induction bytes generalizing s codes with
  | nil => exact ⟨s, rfl, by rwa [scanCodes, List.append_nil]⟩
  | cons scancode bytes ih =>
    rw [interrupts_cons]
    by_cases hprefix : scancode = 0xE0 ∨ scancode = 0xE1
    · rw [scanCodes, if_pos hprefix] at heach ⊢
      rw [interrupt_incomplete hprefix]
      exact ih h heach
    · rw [scanCodes, if_neg hprefix] at heach ⊢
      obtain ⟨⟨hnames, hcontrol⟩, hrest⟩ := heach
      obtain ⟨s₁, hs₁, hholds, hzero⟩ := interrupt_holds layout h hprefix rfl hnames hcontrol
      rw [← hzero] at hrest ⊢
      rw [hs₁, ok_bind, List.append_cons]
      exact ih hholds hrest

/-- Whatever a run takes in names keys, and comes with the left control key. -/
theorem each_of_interrupts (bytes : List UInt8) {s s' : KeyState} {codes : List ℕ}
    (h : Holds s codes) (hok : interrupts layout bytes s = .ok s') :
    EachNamesKey codes (scanCodes s.extendedKeyState bytes) := by
  induction bytes generalizing s codes with
  | nil => trivial
  | cons scancode bytes ih =>
    rw [interrupts_cons] at hok
    obtain ⟨s₁, hs₁, hrest⟩ := bind_eq_ok.mp hok
    by_cases hprefix : scancode = 0xE0 ∨ scancode = 0xE1
    · rw [interrupt_incomplete hprefix] at hs₁
      cases hs₁
      rw [scanCodes, if_pos hprefix]
      exact @ih { s with extendedKeyState := scancode } _ h hrest
    · obtain ⟨hnames, hcontrol⟩ := names_of_interrupt h hprefix rfl ⟨s₁, hs₁⟩
      obtain ⟨s₂, hs₂, hholds, hzero⟩ := interrupt_holds layout h hprefix rfl hnames hcontrol
      obtain rfl : s₁ = s₂ := Except.ok.inj (hs₁.symm.trans hs₂)
      have hnext := ih hholds hrest
      rw [hzero] at hnext
      rw [scanCodes, if_neg hprefix]
      exact ⟨⟨hnames, hcontrol⟩, hnext⟩

theorem holds_initKeyboard : Holds initKeyboard [] := fun key hkey => by
  rw [getKeyState_eq hkey]
  simp [initKeyboard, Kept, lastShared, Down]

/-- The key states follow the keyboard exactly as long as every scan code names a key and
the make codes of the standard range come while the left control key is down, and when Pause
is up and has not taken the place of MediaTrackPrevious. -/
theorem tracks_iff (bytes : List UInt8) :
    Tracks layout bytes ↔ EachNamesKey [] (scanCodes 0 bytes) ∧ PauseApart (scanCodes 0 bytes) := by
  constructor
  · rintro ⟨s, hs, hshows⟩
    have heach := each_of_interrupts bytes holds_initKeyboard hs
    obtain ⟨s', hs', hholds⟩ := interrupts_holds layout bytes holds_initKeyboard heach
    obtain rfl : s = s' := Except.ok.inj (hs.symm.trans hs')
    exact ⟨heach, hholds.shows_iff.mp hshows⟩
  · rintro ⟨heach, hpause⟩
    obtain ⟨s, hs, hholds⟩ := interrupts_holds layout bytes holds_initKeyboard heach
    exact ⟨s, hs, hholds.shows_iff.mpr hpause⟩

/-- A layout in which no key prints anything. -/
def silent : KeyLayout := ⟨fun _ => none, fun _ => none, fun _ => none, fun _ => none⟩

/-- The letter A is pressed: the look for the right control key leaves its array. -/
theorem letter_leaves_array : ¬ Tracks silent [0x1E] := by
  have hstop : errorOf (interrupts silent [0x1E] initKeyboard) =
      some (.outOfBounds .standard 0xE01D) := by decide +kernel
  rintro ⟨s, hs, -⟩
  rw [errorOf_eq_some, hs] at hstop
  cases hstop

end Run

end Enkel.Keyboard
