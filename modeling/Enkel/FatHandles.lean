import Mathlib.Data.List.Find
import Enkel.PositionedReads

/-!
The table of open files, with its pointers. FileHandles holds the addresses of FIL
objects; opening takes the first null entry and memory from rpmalloc, closing gives
both back. What the calls do to the files behind the pointers is what `VolumeCalls`
says of the table of files.
-/
namespace Enkel.FatHandles

open Outcome VolumeSystem FileHandleMask BitFields VolumeCalls
open FileMapping (Fil FileHandles currentOffset maxFileHandles readAt)

/-- FileHandles, where 0 is null, and the FIL objects by their addresses. -/
structure State where
  volumeIndices : VolumeIndices Volume
  table : ℕ → ℕ
  heap : ℕ → Option Fil

inductive Fault
  | nullFil
  | useAfterFree
  | outOfRange
  | bufferOverflow
  | assertion (message : String)
  /-- An address that is in use; rpmalloc does not return it. -/
  | notFresh
deriving DecidableEq, Repr

/-- The operations. What f_open finds is given by the path, and rpmalloc returns `fresh`. -/
inductive Operation
  | «open» (volumeHandle : ℕ) (path : List ℕ) (fresh : ℕ)
  | read (handle offset size : ℕ)
  | seek (handle : ℕ) (offset : ℤ) (origin : SeekMode)
  | close (handle : ℕ)
deriving DecidableEq, Repr

namespace State

variable (s : State)

def isFat (handle : ℕ) : Prop :=
  (getVolumeIndex s.volumeIndices handle).volumeImplementation = some .fat

instance (handle : ℕ) : Decidable (s.isFat handle) := inferInstanceAs (Decidable (_ = _))

def freeSlot : Option ℕ := (List.range maxFileHandles).find? fun i => s.table i = 0

/-- FatVolume_OpenHandle. -/
def openHandle (fOpen : List ℕ → Option Contents) (volumeHandle : ℕ) (path : List ℕ)
    (fresh : ℕ) : Except Fault (Opened × State) := do
  let adjustedPath := slash :: path
  require (adjustedPath.length < 256) .bufferOverflow
  match s.freeSlot with
  | none => return (.nothing 0, s)
  | some i =>
    require (fresh ≠ 0 ∧ s.heap fresh = none) .notFresh
    let table := Function.update s.table i fresh
    match fOpen adjustedPath with
    | none =>
      -- rpfree, and the entry is null again
      return (.nothing 0,
        { s with
          table := Function.update table i 0
          heap := Function.update s.heap fresh none })
    | some contents =>
      let fil := ⟨contents.val, 0, contents_lt contents, zero_le_contents contents⟩
      return (.file (setFileHandle i volumeHandle),
        { s with
          table := table
          heap := Function.update s.heap fresh (some fil) })

/-- The file of a handle, with its address. -/
def fileOf (handle : ℕ) : Except Fault (ℕ × Fil) := do
  require (fileHandle handle < maxFileHandles) .outOfRange
  let p := s.table (fileHandle handle)
  require (p ≠ 0) .nullFil
  match s.heap p with
  | none => throw .useAfterFree
  | some fil => return (p, fil)

/-- FatVolume_CloseHandle. -/
def closeHandle (handle : ℕ) : Except Fault State := do
  let i := fileHandle handle
  require (i < maxFileHandles) .outOfRange
  if s.table i = 0 then
    return s
  else
    return { s with
      table := Function.update s.table i 0
      heap := Function.update s.heap (s.table i) none }

/-- FatVolume_Read. -/
def readHandle (handle offset size : ℕ) : Except Fault (List UInt8 × State) :=
  if size = 0 then
    .ok ([], s)
  else do
    let (p, fil) ← s.fileOf handle
    require (offset ≠ currentOffset → offset < 2 ^ 63) (.assertion "Invalid offset")
    let (bytes, fil) := readAt fil offset size
    return (bytes, { s with heap := Function.update s.heap p (some fil) })

/-- VolumeSeek and FatVolume_Seek. -/
def seekHandle (handle : ℕ) (offset : ℤ) (origin : SeekMode) : Except Fault (ℕ × State) :=
  if handle = 0 then
    .ok (einval, s)
  else do
    let (p, fil) ← s.fileOf handle
    let (returned, fil) := seekFile fil offset origin
    return (returned, { s with heap := Function.update s.heap p (some fil) })

end State

/-- An operation; the result matters for open only. -/
def step (fOpen : List ℕ → Option Contents) (s : State) : Operation → Except Fault (Opened × State)
  | .open volumeHandle path fresh => s.openHandle fOpen volumeHandle path fresh
  | .read handle offset size => do
    let (bytes, s) ← s.readHandle handle offset size
    return (.nothing bytes.length, s)
  | .seek handle offset origin => do
    let (returned, s) ← s.seekHandle handle offset origin
    return (.nothing returned, s)
  | .close handle => do
    let s ← s.closeHandle handle
    return (.nothing 0, s)

/-- The handle that an operation is about. -/
def Operation.handle : Operation → Option ℕ
  | .open _ _ _ => none
  | .read handle _ _ => some handle
  | .seek handle _ _ => some handle
  | .close handle => some handle

/-- Handles are used while they are open, and files are opened on FAT volumes. -/
def Operation.Allowed (s : State) (live : List ℕ) : Operation → Prop
  | .open volumeHandle _ _ => s.isFat volumeHandle
  | .read handle _ _ => handle ∈ live
  | .seek handle _ _ => handle ∈ live
  | .close handle => handle ∈ live

/-- The open handles after an operation. -/
def Operation.liveAfter (live : List ℕ) : Operation → Opened → List ℕ
  | .open _ _ _, .file handle => handle :: live
  | .close handle, _ => live.erase handle
  | _, _ => live

namespace State

/-- The address of the FIL that a handle selects. -/
def pointer (s : State) (handle : ℕ) : ℕ := s.table (fileHandle handle)

/-- What is seen through a handle: the contents of its file and the position. -/
def seen (s : State) (handle : ℕ) : Option Fil := s.heap (s.pointer handle)

end State

/-- What an operation keeps to. -/
structure Lawful (s s' : State) (live live' : List ℕ) (operation : Operation) (result : Opened) :
    Prop where
  distinct : live'.Pairwise fun a b => a ≠ b ∧ s'.pointer a ≠ s'.pointer b
  usable : ∀ h ∈ live', s'.isFat h ∧ s'.pointer h ≠ 0 ∧ (s'.seen h).isSome
  others : ∀ h ∈ live, h ∈ live' → operation.handle ≠ some h →
    s'.pointer h = s.pointer h ∧ s'.seen h = s.seen h
  reused : ∀ h, result = .file h → ∀ h' ∈ live, fileHandle h ≠ fileHandle h'
  failed : operation.handle = none → (∀ h, result ≠ .file h) → s' = s ∧ live' = live
  full : operation.handle = none → (∀ i < maxFileHandles, s.table i ≠ 0) → result = .nothing 0

/-- A run obeys the laws in every step in which it uses open handles only, until it ends
or an assertion of the kernel stops it. -/
def Obeys (fOpen : List ℕ → Option Contents) : List Operation → State → List ℕ → Prop
  | [], _, _ => True
  | operation :: operations, s, live => operation.Allowed s live →
    match step fOpen s operation with
    | .error e => e = .assertion "Invalid offset" ∨ e = .notFresh
    | .ok (result, s') => Lawful s s' live (operation.liveAfter live result) operation result ∧
        Obeys fOpen operations s' (operation.liveAfter live result)

/-- A path that is opened leaves room for the slash and the NUL. -/
def Operation.PathFits : Operation → Prop
  | .open _ path _ => path.length < 255
  | _ => True

instance (operation : Operation) : Decidable operation.PathFits := by
  cases operation <;> unfold Operation.PathFits <;> infer_instance

/-- Every path that is opened in the run fits. -/
def PathsFit (fOpen : List ℕ → Option Contents) : List Operation → State → List ℕ → Prop
  | [], _, _ => True
  | operation :: operations, s, live => operation.Allowed s live → operation.PathFits ∧
      ∀ result s', step fOpen s operation = .ok (result, s') →
        PathsFit fOpen operations s' (operation.liveAfter live result)

/-- The open handles and the entries of the table belong together, and no address is
entered twice. -/
structure Inv (s : State) (live : List ℕ) : Prop where
  slots : live.Pairwise fun a b => fileHandle a ≠ fileHandle b
  fat : ∀ h ∈ live, s.isFat h
  inRange : ∀ h ∈ live, fileHandle h < maxFileHandles
  entered : ∀ h ∈ live, s.pointer h ≠ 0
  allocated : ∀ i < maxFileHandles, s.table i ≠ 0 → (s.heap (s.table i)).isSome
  injective : ∀ i < maxFileHandles, ∀ j < maxFileHandles, s.table i = s.table j → s.table i ≠ 0 → i = j

section Open
variable {s s' : State} {fOpen : List ℕ → Option Contents} {volumeHandle fresh i : ℕ}
  {path : List ℕ} {result : Opened}

theorem freeSlot_eq_some (h : s.freeSlot = some i) : i < maxFileHandles ∧ s.table i = 0 := by
  unfold State.freeSlot at h
  have hmem := List.mem_of_find?_eq_some h
  have hzero := List.find?_some h
  exact ⟨List.mem_range.mp hmem, by simpa using hzero⟩

theorem freeSlot_eq_none (h : ∀ i < maxFileHandles, s.table i ≠ 0) : s.freeSlot = none := by
  unfold State.freeSlot
  apply List.find?_eq_none.mpr
  intro i hi
  simpa using h i (List.mem_range.mp hi)

/-- What an opened file leaves: the entry leads to the new object. -/
def State.enter (s : State) (i fresh : ℕ) (fil : Fil) : State :=
  { s with
    table := Function.update s.table i fresh
    heap := Function.update s.heap fresh (some fil) }

/-- rpfree, and the entry is null again. -/
theorem undo_enter (hzero : s.table i = 0) (hnone : s.heap fresh = none) :
    { s with
      table := Function.update (Function.update s.table i fresh) i 0
      heap := Function.update s.heap fresh none } = s := by
  have htable : Function.update (Function.update s.table i fresh) i 0 = s.table := by
    rw [Function.update_idem, ← hzero, Function.update_eq_self]
  have hheap : Function.update s.heap fresh none = s.heap := by
    rw [← hnone, Function.update_eq_self]
  rw [htable, hheap]

/-- The two ways in which opening returns. -/
theorem openHandle_eq_ok (h : s.openHandle fOpen volumeHandle path fresh = .ok (result, s')) :
    (result = .nothing 0 ∧ s' = s) ∨
      ∃ i fil, s.freeSlot = some i ∧ fresh ≠ 0 ∧ s.heap fresh = none ∧
        result = .file (setFileHandle i volumeHandle) ∧ s' = s.enter i fresh fil := by
  obtain ⟨u, -, h⟩ := bind_eq_ok.mp h
  cases hslot : s.freeSlot with
  | none =>
    simp only [hslot] at h
    cases h
    exact Or.inl ⟨rfl, rfl⟩
  | some i =>
    simp only [hslot] at h
    obtain ⟨v, hfresh, h⟩ := bind_eq_ok.mp h
    obtain ⟨hne, hnone⟩ := require_eq_ok.mp hfresh
    cases hfound : fOpen (slash :: path) with
    | none =>
      simp only [hfound] at h
      cases h
      exact Or.inl ⟨rfl, undo_enter (freeSlot_eq_some hslot).2 hnone⟩
    | some contents =>
      simp only [hfound] at h
      cases h
      exact Or.inr ⟨i, _, rfl, hne, hnone, rfl, rfl⟩

/-- Opening returns, unless the path is too long for the array. -/
theorem openHandle_fault {e : Fault} (h : s.openHandle fOpen volumeHandle path fresh = .error e) :
    (255 ≤ path.length ∧ e = .bufferOverflow) ∨ (path.length < 255 ∧ e = .notFresh) := by
  unfold State.openHandle at h
  dsimp only at h
  by_cases hfits : (slash :: path).length < 256
  · have hlength : path.length < 255 := Nat.lt_of_succ_lt_succ hfits
    rw [require_true hfits, ok_bind] at h
    split at h
    · cases h
    · by_cases hfresh : fresh ≠ 0 ∧ s.heap fresh = none
      · rw [require_true hfresh, ok_bind] at h
        split at h <;> cases h
      · rw [require, if_neg hfresh] at h
        cases h
        exact Or.inr ⟨hlength, rfl⟩
  · rw [require, if_neg hfits] at h
    cases h
    refine Or.inl ⟨?_, rfl⟩
    simp only [List.length_cons] at hfits
    omega

end Open

section Steps
variable {s s' : State} {live : List ℕ} {handle offset size : ℕ}

theorem fileHandle_setFileHandle {i : ℕ} (hi : i < maxFileHandles) (volumeHandle : ℕ) :
    fileHandle (setFileHandle i volumeHandle) = i := by
  unfold fileHandle setFileHandle maxFileHandles at *
  rw [field_setField]
  exact Nat.mod_eq_of_lt (by omega)

/-- Writing the slot into a handle keeps its volume. -/
theorem isFat_setFileHandle {i volumeHandle : ℕ} (h : s.isFat volumeHandle) :
    s.isFat (setFileHandle i volumeHandle) := by
  unfold State.isFat getVolumeIndex segments volumeIndex setFileHandle at *
  rw [field_setField_of_ge _ _ (by decide), field_setField_of_ge _ _ (by decide)]
  exact h

theorem Inv.exists_file (h : Inv s live) (hmem : handle ∈ live) :
    ∃ fil, s.heap (s.pointer handle) = some fil :=
  Option.isSome_iff_exists.mp (h.allocated _ (h.inRange _ hmem) (h.entered _ hmem))

theorem Inv.fileOf (h : Inv s live) (hmem : handle ∈ live) :
    ∃ fil, s.fileOf handle = .ok (s.pointer handle, fil) := by
  obtain ⟨fil, hfil⟩ := h.exists_file hmem
  refine ⟨fil, ?_⟩
  have hentered := h.entered _ hmem
  unfold State.pointer at *
  simp only [State.fileOf, require_true (h.inRange _ hmem), ok_bind, require_true hentered, hfil]
  rfl

/-- Different open handles select different objects. -/
theorem Inv.pointer_ne (h : Inv s live) {a b : ℕ} (ha : a ∈ live) (hb : b ∈ live)
    (hne : fileHandle a ≠ fileHandle b) : s.pointer a ≠ s.pointer b := fun heq =>
  hne (h.injective _ (h.inRange _ ha) _ (h.inRange _ hb) heq (h.entered _ ha))

theorem Inv.distinct (h : Inv s live) :
    live.Pairwise fun a b => a ≠ b ∧ s.pointer a ≠ s.pointer b := by
  apply h.slots.imp_of_mem
  intro a b ha hb hne
  exact ⟨fun heq => hne (congrArg fileHandle heq), h.pointer_ne ha hb hne⟩

theorem Inv.usable (h : Inv s live) :
    ∀ a ∈ live, s.isFat a ∧ s.pointer a ≠ 0 ∧ (s.seen a).isSome := by
  intro a ha
  exact ⟨h.fat a ha, h.entered a ha, h.allocated _ (h.inRange a ha) (h.entered a ha)⟩

theorem Inv.slot_ne (h : Inv s live) {a b : ℕ} (ha : a ∈ live) (hb : b ∈ live) (hne : a ≠ b) :
    fileHandle a ≠ fileHandle b := by
  have : Std.Symm fun a b => fileHandle a ≠ fileHandle b := ⟨fun _ _ hne => hne.symm⟩
  exact h.slots.forall ha hb hne

/-- What is left as it was for the handles other than one. -/
def KeepsOthers (s s' : State) (live : List ℕ) (handle : Option ℕ) : Prop :=
  ∀ a ∈ live, handle ≠ some a → s'.pointer a = s.pointer a ∧ s'.seen a = s.seen a

theorem keepsOthers_refl (s : State) (live : List ℕ) (handle : Option ℕ) :
    KeepsOthers s s live handle := fun _ _ _ => ⟨rfl, rfl⟩

/-- A new object behind a null entry. -/
theorem Inv.enter (h : Inv s live) {i fresh volumeHandle : ℕ} (hslot : s.freeSlot = some i)
    (hne : fresh ≠ 0) (hnone : s.heap fresh = none) (hfat : s.isFat volumeHandle) (fil : Fil) :
    Inv (s.enter i fresh fil) (setFileHandle i volumeHandle :: live) ∧
      KeepsOthers s (s.enter i fresh fil) live none ∧ ∀ a ∈ live, fileHandle a ≠ i := by
  obtain ⟨hi, hzero⟩ := freeSlot_eq_some hslot
  have hother : ∀ a ∈ live, fileHandle a ≠ i := by
    rintro a ha rfl
    exact h.entered a ha hzero
  have hslot := fileHandle_setFileHandle hi volumeHandle
  have hunused : ∀ j < maxFileHandles, s.table j ≠ 0 → s.table j ≠ fresh := by
    rintro j hj hentered rfl
    have := h.allocated j hj hentered
    rw [hnone] at this
    cases this
  have hpointer : ∀ a ∈ live, (s.enter i fresh fil).pointer a = s.pointer a := fun a ha =>
    Function.update_of_ne (hother a ha) _ _
  refine ⟨?_, fun a ha _ => ⟨hpointer a ha, ?_⟩, hother⟩
  · refine ⟨?_, ?_, ?_, ?_, ?_, ?_⟩
    · rw [List.pairwise_cons, hslot]
      exact ⟨fun a ha => (hother a ha).symm, h.slots⟩
    · exact List.forall_mem_cons.mpr ⟨isFat_setFileHandle hfat, h.fat⟩
    · rw [List.forall_mem_cons, hslot]
      exact ⟨hi, h.inRange⟩
    · rw [List.forall_mem_cons]
      constructor
      · have htable : (s.enter i fresh fil).table i = fresh := Function.update_self _ _ _
        unfold State.pointer
        rw [hslot, htable]
        exact hne
      · intro a ha
        rw [hpointer a ha]
        exact h.entered a ha
    · intro j hj hentered
      unfold State.enter at hentered ⊢
      by_cases hji : j = i
      · subst hji
        simp only [Function.update_self, Option.isSome_some]
      · simp only [Function.update_of_ne hji] at hentered ⊢
        rw [Function.update_of_ne (hunused j hj hentered)]
        exact h.allocated j hj hentered
    · intro j hj l hl heq hentered
      unfold State.enter at heq hentered
      by_cases hji : j = i <;> by_cases hli : l = i
      · rw [hji, hli]
      · subst hji
        simp only [Function.update_self, Function.update_of_ne hli] at heq
        exact absurd heq.symm (hunused l hl (heq ▸ hne))
      · subst hli
        simp only [Function.update_self, Function.update_of_ne hji] at heq
        exact absurd heq (hunused j hj (heq ▸ hne))
      · simp only [Function.update_of_ne hji, Function.update_of_ne hli] at heq hentered
        exact h.injective j hj l hl heq hentered
  · unfold State.seen
    rw [hpointer a ha]
    exact Function.update_of_ne (hunused _ (h.inRange a ha) (h.entered a ha)) _ _

/-- The object of an open handle is replaced. -/
def State.setFil (s : State) (handle : ℕ) (fil : Fil) : State :=
  { s with heap := Function.update s.heap (s.pointer handle) (some fil) }

theorem Inv.setFil (h : Inv s live) (hmem : handle ∈ live) (fil : Fil) :
    Inv (s.setFil handle fil) live ∧ KeepsOthers s (s.setFil handle fil) live (some handle) := by
  constructor
  · refine { h with allocated := ?_ }
    intro i hi hentered
    unfold State.setFil
    by_cases heq : s.table i = s.pointer handle
    · simp only [heq, Function.update_self, Option.isSome_some]
    · simp only [Function.update_of_ne heq]
      exact h.allocated i hi hentered
  · intro a ha hne
    have hpointer := h.pointer_ne ha hmem (h.slot_ne ha hmem fun heq => hne (congrArg some heq.symm))
    exact ⟨rfl, Function.update_of_ne hpointer _ _⟩

/-- A handle is closed. -/
def State.release (s : State) (handle : ℕ) : State :=
  { s with
    table := Function.update s.table (fileHandle handle) 0
    heap := Function.update s.heap (s.table (fileHandle handle)) none }

theorem Inv.release (h : Inv s live) (hmem : handle ∈ live) :
    Inv (s.release handle) (live.erase handle) ∧
      KeepsOthers s (s.release handle) live (some handle) := by
  have hnodup : live.Nodup := h.distinct.imp And.left
  have hpointer : ∀ a ∈ live, a ≠ handle → (s.release handle).pointer a = s.pointer a :=
    fun a ha hne => Function.update_of_ne (h.slot_ne ha hmem hne) _ _
  have herase : ∀ a ∈ live.erase handle, a ∈ live ∧ a ≠ handle := fun a ha =>
    ((hnodup.mem_erase_iff).mp ha).symm
  have hkept : ∀ i < maxFileHandles, (s.release handle).table i ≠ 0 →
      (s.release handle).table i = s.table i ∧ s.table i ≠ s.table (fileHandle handle) := by
    intro i hi hentered
    unfold State.release at hentered ⊢
    by_cases hne : i = fileHandle handle
    · subst hne
      simp only [Function.update_self, ne_eq, not_true_eq_false] at hentered
    · simp only [Function.update_of_ne hne] at hentered ⊢
      exact ⟨trivial, fun heq => hne (h.injective i hi _ (h.inRange _ hmem) heq hentered)⟩
  constructor
  · refine ⟨h.slots.sublist List.erase_sublist, ?_, ?_, ?_, ?_, ?_⟩
    · exact fun a ha => h.fat a (herase a ha).1
    · exact fun a ha => h.inRange a (herase a ha).1
    · intro a ha
      obtain ⟨hlive, hne⟩ := herase a ha
      rw [hpointer a hlive hne]
      exact h.entered a hlive
    · intro i hi hentered
      obtain ⟨heq, hne⟩ := hkept i hi hentered
      rw [heq] at hentered ⊢
      unfold State.release
      simp only [Function.update_of_ne hne]
      exact h.allocated i hi hentered
    · intro i hi j hj heq hentered
      have hi' := hkept i hi hentered
      have hj' := hkept j hj (heq ▸ hentered)
      rw [hi'.1, hj'.1] at heq
      exact h.injective i hi j hj heq (hi'.1 ▸ hentered)
  · intro a ha hne
    have hne : a ≠ handle := fun heq => hne (congrArg some heq.symm)
    refine ⟨hpointer a ha hne, ?_⟩
    unfold State.seen
    rw [hpointer a ha hne]
    exact Function.update_of_ne (h.pointer_ne ha hmem (h.slot_ne ha hmem hne)) _ _

/-- The operations on an open handle keep the table, and change one file at most. -/
theorem Inv.readHandle (h : Inv s live) (hmem : handle ∈ live) {bytes : List UInt8}
    (hread : s.readHandle handle offset size = .ok (bytes, s')) :
    s' = s ∨ ∃ fil, s' = s.setFil handle fil := by
  unfold State.readHandle at hread
  split_ifs at hread
  · cases hread
    exact Or.inl rfl
  · obtain ⟨fil, hfil⟩ := h.fileOf hmem
    rw [hfil, ok_bind] at hread
    obtain ⟨u, -, hread⟩ := bind_eq_ok.mp hread
    cases hread
    exact Or.inr ⟨_, rfl⟩

theorem Inv.seekHandle (h : Inv s live) (hmem : handle ∈ live) (offset : ℤ) (origin : SeekMode) :
    ∃ returned s', s.seekHandle handle offset origin = .ok (returned, s') ∧
      (s' = s ∨ ∃ fil, s' = s.setFil handle fil) := by
  unfold State.seekHandle
  split_ifs
  · exact ⟨_, _, rfl, Or.inl rfl⟩
  · obtain ⟨fil, hfil⟩ := h.fileOf hmem
    rw [hfil, ok_bind]
    exact ⟨_, _, rfl, Or.inr ⟨_, rfl⟩⟩

theorem Inv.closeHandle (h : Inv s live) (hmem : handle ∈ live) :
    s.closeHandle handle = .ok (s.release handle) := by
  unfold State.closeHandle
  simp only [require_true (h.inRange _ hmem), ok_bind]
  exact if_neg (h.entered _ hmem)

end Steps

section Runs
variable {fOpen : List ℕ → Option Contents} {s s' : State} {live : List ℕ}
  {operation : Operation} {result : Opened}

/-- A state that keeps the handles and changes the file of one of them at most. -/
theorem Inv.lawful_keep (h : Inv s live) (hs : s' = s ∨ ∃ fil handle, handle ∈ live ∧
      operation.handle = some handle ∧ s' = s.setFil handle fil)
    (hhandle : operation.handle ≠ none) (hresult : ∀ handle, result ≠ .file handle) :
    Inv s' live ∧ Lawful s s' live live operation result := by
  have hkept : Inv s' live ∧ KeepsOthers s s' live operation.handle := by
    rcases hs with rfl | ⟨fil, handle, hmem, heq, rfl⟩
    · exact ⟨h, keepsOthers_refl _ _ _⟩
    · rw [heq]
      exact h.setFil hmem fil
  exact ⟨hkept.1,
    { distinct := hkept.1.distinct
      usable := hkept.1.usable
      others := fun a ha _ => hkept.2 a ha
      reused := fun a ha => absurd ha (hresult a)
      failed := fun hnone => absurd hnone hhandle
      full := fun hnone => absurd hnone hhandle }⟩

/-- What every allowed operation keeps. -/
theorem Inv.step (h : Inv s live) (hallowed : operation.Allowed s live)
    (hstep : step fOpen s operation = .ok (result, s')) :
    Inv s' (operation.liveAfter live result) ∧
      Lawful s s' live (operation.liveAfter live result) operation result := by
  cases operation with
  | «open» volumeHandle path fresh =>
    simp only [FatHandles.step] at hstep
    rcases openHandle_eq_ok hstep with ⟨rfl, rfl⟩ | ⟨i, fil, hslot, hne, hnone, rfl, rfl⟩
    · exact ⟨h,
        { distinct := h.distinct
          usable := h.usable
          others := fun a ha _ _ => ⟨rfl, rfl⟩
          reused := fun a ha => nomatch ha
          failed := fun _ _ => ⟨rfl, rfl⟩
          full := fun _ _ => rfl }⟩
    · obtain ⟨hinv, hothers, hslots⟩ := h.enter hslot hne hnone hallowed fil
      refine ⟨hinv,
        { distinct := hinv.distinct
          usable := hinv.usable
          others := fun a ha _ => hothers a ha
          reused := ?_
          failed := fun _ hfile => absurd rfl (hfile _)
          full := ?_ }⟩
      · intro a ha b hb
        cases ha
        rw [fileHandle_setFileHandle (freeSlot_eq_some hslot).1]
        exact (hslots b hb).symm
      · intro _ hfull
        rw [freeSlot_eq_none hfull] at hslot
        cases hslot
  | read handle offset size =>
    obtain ⟨⟨bytes, s1⟩, hread, hstep⟩ := bind_eq_ok.mp hstep
    cases hstep
    refine h.lawful_keep ?_ (fun hnone => nomatch hnone) fun a ha => nomatch ha
    rcases h.readHandle hallowed hread with rfl | ⟨fil, rfl⟩
    · exact Or.inl rfl
    · exact Or.inr ⟨fil, handle, hallowed, rfl, rfl⟩
  | seek handle offset origin =>
    obtain ⟨returned, s1, hseek, hs⟩ := h.seekHandle hallowed offset origin
    simp only [FatHandles.step, hseek, ok_bind] at hstep
    cases hstep
    refine h.lawful_keep ?_ (fun hnone => nomatch hnone) fun a ha => nomatch ha
    rcases hs with rfl | ⟨fil, rfl⟩
    · exact Or.inl rfl
    · exact Or.inr ⟨fil, handle, hallowed, rfl, rfl⟩
  | close handle =>
    simp only [FatHandles.step, h.closeHandle hallowed, ok_bind] at hstep
    cases hstep
    obtain ⟨hinv, hothers⟩ := h.release hallowed
    exact ⟨hinv,
      { distinct := hinv.distinct
        usable := hinv.usable
        others := fun a ha _ => hothers a ha
        reused := fun a ha => nomatch ha
        failed := fun hnone => nomatch hnone
        full := fun hnone => nomatch hnone }⟩

/-- An allowed operation stops in an assertion, without fresh memory, or because of its
path. -/
theorem Inv.fault (h : Inv s live) (hallowed : operation.Allowed s live) {e : Fault}
    (hstep : FatHandles.step fOpen s operation = .error e) :
    (e = .assertion "Invalid offset" ∨ e = .notFresh) ↔ operation.PathFits := by
  cases operation with
  | «open» volumeHandle path fresh =>
    simp only [FatHandles.step] at hstep
    rcases openHandle_fault hstep with ⟨hlong, rfl⟩ | ⟨hfits, rfl⟩
    · simp [Operation.PathFits, hlong]
    · simp [Operation.PathFits, hfits]
  | read handle offset size =>
    apply iff_of_true _ trivial
    obtain ⟨fil, hfil⟩ := h.fileOf hallowed
    simp only [FatHandles.step, State.readHandle, hfil, ok_bind] at hstep
    by_cases hzero : size = 0
    · rw [if_pos hzero] at hstep
      cases hstep
    · rw [if_neg hzero] at hstep
      by_cases hoffset : offset ≠ currentOffset → offset < 2 ^ 63
      · rw [require_true hoffset] at hstep
        cases hstep
      · rw [require, if_neg hoffset] at hstep
        cases hstep
        exact Or.inl rfl
  | seek handle offset origin =>
    obtain ⟨returned, s1, hseek, hs⟩ := h.seekHandle hallowed offset origin
    simp only [FatHandles.step, hseek, ok_bind] at hstep
    cases hstep
  | close handle =>
    simp only [FatHandles.step, h.closeHandle hallowed, ok_bind] at hstep
    cases hstep

/-- A path that does not fit stops the run. -/
theorem step_long {volumeHandle fresh : ℕ} {path : List ℕ}
    (hlong : ¬ Operation.PathFits (.open volumeHandle path fresh)) :
    FatHandles.step fOpen s (.open volumeHandle path fresh) = .error .bufferOverflow := by
  have hlength : ¬ (slash :: path).length < 256 := fun hlt => hlong (Nat.lt_of_succ_lt_succ hlt)
  unfold FatHandles.step State.openHandle
  dsimp only
  rw [require, if_neg hlength]
  rfl

theorem Inv.obeys_iff (h : Inv s live) (operations : List Operation) :
    Obeys fOpen operations s live ↔ PathsFit fOpen operations s live := by
  induction operations generalizing s live with
  | nil => exact Iff.rfl
  | cons operation operations ih =>
    unfold Obeys PathsFit
    apply forall_congr'
    intro hallowed
    cases hstep : FatHandles.step fOpen s operation with
    | error e =>
      dsimp only
      rw [h.fault hallowed hstep]
      constructor
      · exact fun hfits => ⟨hfits, fun _ _ hok => nomatch hok⟩
      · exact And.left
    | ok result =>
      obtain ⟨result, s'⟩ := result
      obtain ⟨hinv, hlawful⟩ := h.step hallowed hstep
      have hfits : operation.PathFits := by
        by_contra hlong
        cases operation with
        | «open» volumeHandle path fresh =>
          rw [step_long hlong] at hstep
          cases hstep
        | _ => exact hlong trivial
      dsimp only
      rw [ih hinv]
      constructor
      · rintro ⟨-, hrest⟩
        refine ⟨hfits, fun result1 s1 hok => ?_⟩
        cases hok
        exact hrest
      · rintro ⟨-, hrest⟩
        exact ⟨hlawful, hrest result s' rfl⟩

/-- Before the first file is opened. -/
def State.initial (volumeIndices : VolumeIndices Volume) : State :=
  ⟨volumeIndices, fun _ => 0, fun _ => none⟩

theorem inv_initial (volumeIndices : VolumeIndices Volume) : Inv (State.initial volumeIndices) [] :=
  { slots := List.Pairwise.nil
    fat := fun _ hmem => nomatch hmem
    inRange := fun _ hmem => nomatch hmem
    entered := fun _ hmem => nomatch hmem
    allocated := fun _ _ hentered => absurd rfl hentered
    injective := fun _ _ _ _ _ hentered => absurd rfl hentered }

end Runs

section View
variable {fOpen : List ℕ → Option Contents} {s s' : State} {live : List ℕ}
  {operation : Operation} {result : Opened}

/-- The open files by their entries. -/
def State.view (s : State) : FileHandles := fun i =>
  if i < maxFileHandles ∧ s.table i ≠ 0 then s.heap (s.table i) else none

/-- The operations on the table of files, as `VolumeCalls` has them. -/
def volumeStep (fOpen : List ℕ → Option Contents) (files : FileHandles) :
    Operation → Except VolumeCalls.Fault (Opened × FileHandles)
  | .open volumeHandle path _ => fatOpenHandle files fOpen volumeHandle path
  | .read handle offset size => do
    let (bytes, files) ← (FileMapping.fatVolumeRead handle offset size files).mapError
      VolumeCalls.Fault.ofVolumeFault
    return (.nothing bytes.length, files)
  | .seek handle offset origin =>
    if handle = 0 then
      .ok (.nothing einval, files)
    else do
      let (returned, files) ← fatVolumeSeek handle files offset origin
      return (.nothing returned, files)
  | .close handle => do
    let files ← fatCloseHandle handle files
    return (.nothing 0, files)

theorem Inv.view_eq_none_iff (h : Inv s live) {i : ℕ} (hi : i < maxFileHandles) :
    s.view i = none ↔ s.table i = 0 := by
  unfold State.view
  by_cases hentered : s.table i = 0
  · simp [hentered]
  · rw [if_pos ⟨hi, hentered⟩]
    have := Option.isSome_iff_ne_none.mp (h.allocated i hi hentered)
    simp [hentered, this]

theorem Inv.freeSlot_view (h : Inv s live) : VolumeCalls.freeSlot s.view = s.freeSlot := by
  unfold VolumeCalls.freeSlot State.freeSlot
  apply List.find?_congr
  intro i hi
  rw [Bool.eq_iff_iff]
  simpa using h.view_eq_none_iff (List.mem_range.mp hi)

theorem view_enter (h : Inv s live) {i fresh : ℕ} (hi : i < maxFileHandles) (hne : fresh ≠ 0)
    (hnone : s.heap fresh = none) (fil : Fil) :
    (s.enter i fresh fil).view = Function.update s.view i (some fil) := by
  funext j
  unfold State.view State.enter
  by_cases hji : j = i
  · subst hji
    simp [hi, hne]
  · simp only [Function.update_of_ne hji]
    split_ifs with hj
    · apply Function.update_of_ne
      intro heq
      have hallocated := h.allocated j hj.1 hj.2
      rw [heq, hnone] at hallocated
      cases hallocated
    · rfl

theorem view_setFil (h : Inv s live) {handle : ℕ} (hmem : handle ∈ live) (fil : Fil) :
    (s.setFil handle fil).view = Function.update s.view (fileHandle handle) (some fil) := by
  have hi := h.inRange handle hmem
  have hentered := h.entered handle hmem
  funext j
  unfold State.view State.setFil
  unfold State.pointer at *
  by_cases hj : j = fileHandle handle
  · subst hj
    simp [hi, hentered]
  · rw [Function.update_of_ne hj]
    dsimp only
    split_ifs with hpos
    · exact Function.update_of_ne (fun heq => hj (h.injective j hpos.1 _ hi heq hpos.2)) _ _
    · rfl

theorem view_release (h : Inv s live) {handle : ℕ} (hmem : handle ∈ live) :
    (s.release handle).view = Function.update s.view (fileHandle handle) none := by
  have hi := h.inRange handle hmem
  funext j
  unfold State.view State.release
  by_cases hj : j = fileHandle handle
  · subst hj
    simp
  · simp only [Function.update_of_ne hj]
    split_ifs with hpos
    · exact Function.update_of_ne (fun heq => hj (h.injective j hpos.1 _ hi heq hpos.2)) _ _
    · rfl

theorem Inv.view_file (h : Inv s live) {handle p : ℕ} {fil : Fil} (hmem : handle ∈ live)
    (hfile : s.fileOf handle = .ok (p, fil)) :
    s.view (fileHandle handle) = some fil ∧ p = s.pointer handle := by
  obtain ⟨fil', hfil'⟩ := h.exists_file hmem
  have hentered := h.entered handle hmem
  unfold State.pointer at *
  unfold State.view
  rw [if_pos ⟨h.inRange handle hmem, hentered⟩]
  simp only [State.fileOf, require_true (h.inRange handle hmem), ok_bind, require_true hentered,
    hfil'] at hfile ⊢
  cases hfile
  exact ⟨rfl, rfl⟩

/-- Every operation does to the files behind the pointers what `VolumeCalls` says. -/
theorem Inv.step_refines (h : Inv s live) (hallowed : operation.Allowed s live)
    (hstep : FatHandles.step fOpen s operation = .ok (result, s')) :
    volumeStep fOpen s.view operation = .ok (result, s'.view) := by
  cases operation with
  | «open» volumeHandle path fresh =>
    have hfits : Operation.PathFits (.open volumeHandle path fresh) := by
      by_contra hlong
      rw [step_long hlong] at hstep
      cases hstep
    have hlength : (slash :: path).length < 256 := Nat.succ_lt_succ hfits
    simp only [FatHandles.step, State.openHandle, require_true hlength, ok_bind] at hstep
    simp only [volumeStep, fatOpenHandle, require_true hlength, ok_bind, h.freeSlot_view]
    cases hslot : s.freeSlot with
    | none =>
      simp only [hslot] at hstep
      cases hstep
      rfl
    | some i =>
      simp only [hslot] at hstep
      obtain ⟨u, hfresh, hstep⟩ := bind_eq_ok.mp hstep
      obtain ⟨hne, hnone⟩ := require_eq_ok.mp hfresh
      obtain ⟨hi, hzero⟩ := freeSlot_eq_some hslot
      cases hfound : fOpen (slash :: path) with
      | none =>
        simp only [hfound] at hstep
        cases hstep
        rw [undo_enter hzero hnone]
        rfl
      | some contents =>
        simp only [hfound] at hstep
        cases hstep
        exact congrArg (fun files => Except.ok (_, files)) (view_enter h hi hne hnone _).symm
  | read handle offset size =>
    obtain ⟨⟨bytes, s1⟩, hread, hstep⟩ := bind_eq_ok.mp hstep
    cases hstep
    unfold State.readHandle at hread
    by_cases hzero : size = 0
    · rw [if_pos hzero] at hread
      cases hread
      simp only [volumeStep, FileMapping.fatVolumeRead, if_pos hzero]
      rfl
    · obtain ⟨fil, hfile⟩ := h.fileOf hallowed
      obtain ⟨hview, hp⟩ := h.view_file hallowed hfile
      rw [if_neg hzero, hfile, ok_bind] at hread
      obtain ⟨u, hoffset, hread⟩ := bind_eq_ok.mp hread
      cases hread
      have hset := view_setFil h hallowed (readAt fil offset size).2
      simp only [volumeStep, FileMapping.fatVolumeRead, if_neg hzero,
        require_true (h.inRange handle hallowed), ok_bind, hview,
        require_true (require_eq_ok.mp hoffset)]
      exact congrArg (fun files => Except.ok (_, files)) hset.symm
  | seek handle offset origin =>
    obtain ⟨⟨returned, s1⟩, hseek, hstep⟩ := bind_eq_ok.mp hstep
    cases hstep
    unfold State.seekHandle at hseek
    by_cases hzero : handle = 0
    · rw [if_pos hzero] at hseek
      cases hseek
      simp only [volumeStep, if_pos hzero]
    · obtain ⟨fil, hfile⟩ := h.fileOf hallowed
      obtain ⟨hview, hp⟩ := h.view_file hallowed hfile
      rw [if_neg hzero, hfile, ok_bind] at hseek
      cases hseek
      have hset := view_setFil h hallowed (seekFile fil offset origin).2
      simp only [volumeStep, fatVolumeSeek, fatFile, if_neg hzero,
        require_true (h.inRange handle hallowed), ok_bind, hview]
      exact congrArg (fun files => Except.ok (_, files)) hset.symm
  | close handle =>
    simp only [FatHandles.step, h.closeHandle hallowed, ok_bind] at hstep
    cases hstep
    simp only [volumeStep, fatCloseHandle, require_true (h.inRange handle hallowed), ok_bind]
    exact congrArg (fun files => Except.ok (_, files)) (view_release h hallowed).symm

end View

/-- A table that starts empty obeys the laws, in every run, exactly when every path that
is opened fits. -/
theorem fat_handles_lawful_iff (fOpen : List ℕ → Option Contents)
    (volumeIndices : VolumeIndices Volume) (operations : List Operation) :
    Obeys fOpen operations (State.initial volumeIndices) [] ↔
      PathsFit fOpen operations (State.initial volumeIndices) [] :=
  (inv_initial volumeIndices).obeys_iff operations

/-- A path of 255 characters is written behind the end of adjustedPath. -/
theorem long_path_overflows :
    ¬ Obeys (fun _ => none) [.open lettersHandle (List.replicate 255 0x61) 1]
      (State.initial lettersOpen.volumeIndices) [] := by
  intro h
  rw [(inv_initial _).obeys_iff, PathsFit] at h
  have hallowed : (State.initial lettersOpen.volumeIndices).isFat lettersHandle :=
    isOpen_letters.volume
  have hlong := (h hallowed).1
  rw [Operation.PathFits, List.length_replicate] at hlong
  exact lt_irrefl _ hlong

end Enkel.FatHandles
