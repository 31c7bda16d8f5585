import Mathlib.Algebra.Order.Group.Nat
import Enkel.ByteMemory
import Enkel.Types

/-!
The device path of the boot drive. The bootloader walks over it to the end, to know how much
it has to copy, and the kernel walks over the copy twice, for the SATA bus and for the drive.
The nodes are found by their lengths alone.
-/
namespace Enkel.DevicePaths

open Outcome ByteMemory

/-- The messages of the assertions. -/
inductive Stopped
  | acpiBusMandatory
  | pciHostMandatory
  | sataDeviceMandatory
deriving DecidableEq, Repr

abbrev endDevicePathType : ℕ := 0x7F
abbrev hardwareDevicePath : ℕ := 1
abbrev acpiDevicePath : ℕ := 2
abbrev messagingDevicePath : ℕ := 3
abbrev hwPciDp : ℕ := 1
abbrev msgSataDp : ℕ := 0x12

section Walk
variable (b : ℕ → UInt8)

/-- The Type of the node at an address. -/
def nodeType (devicePath : ℕ) : ℕ := (b devicePath).toNat

def subType (devicePath : ℕ) : ℕ := (b (add64 devicePath 1)).toNat

def devicePathNodeLength (devicePath : ℕ) : ℕ :=
  (b (add64 devicePath 2)).toNat ||| (b (add64 devicePath 3)).toNat <<< 8

def nextDevicePathNode (devicePath : ℕ) : ℕ :=
  add64 devicePath (devicePathNodeLength b devicePath)

/-- The loop over the nodes up to the end, and where it has ended; `none` if it goes on. -/
def walk {α : Type} (visit : ℕ → α → α) : (fuel devicePath : ℕ) → α → Option (ℕ × α)
  | 0, _, _ => none
  | fuel + 1, devicePath, found =>
    if nodeType b devicePath = endDevicePathType then some (devicePath, found)
    else walk visit fuel (nextDevicePathNode b devicePath) (visit devicePath found)

/-- The devicePathLength of LoadKernel. -/
def devicePathLength (fuel devicePathStart : ℕ) : Option ℕ :=
  (walk b (fun _ _ => ()) fuel devicePathStart ()).map fun r =>
    add64 (sub64 r.1 devicePathStart) (devicePathNodeLength b r.1)

/-- The body of the loop of SataBus::Initialize, over acpiDevicePath and pciDevicePath. -/
def visitBus (devicePath : ℕ) (found : ℕ × ℕ) : ℕ × ℕ :=
  if nodeType b devicePath = acpiDevicePath then
    if subType b devicePath = hwPciDp then (devicePath, found.2) else found
  else if nodeType b devicePath = hardwareDevicePath then
    if subType b devicePath = hwPciDp then (found.1, devicePath) else found
  else found

/-- The device and the function of the controller that SataBus::Initialize looks for. -/
def busNodes (fuel devicePath : ℕ) : Option (Except Stopped (ℕ × ℕ)) :=
  (walk b (visitBus b) fuel devicePath (0, 0)).map fun r => do
    require (r.2.1 ≠ 0) .acpiBusMandatory
    require (r.2.2 ≠ 0) .pciHostMandatory
    return ((b (add64 r.2.2 5)).toNat, (b (add64 r.2.2 4)).toNat)

/-- The body of the loop of CdRomDevice::Initialize, over sataDevicePath. -/
def visitDrive (devicePath found : ℕ) : ℕ :=
  if nodeType b devicePath = messagingDevicePath then
    if subType b devicePath = msgSataDp then devicePath else found
  else found

/-- The HBAPortNumber that CdRomDevice::Initialize takes. -/
def drivePort (fuel devicePath : ℕ) : Option (Except Stopped ℕ) :=
  (walk b (visitDrive b) fuel devicePath 0).map fun r => do
    require (r.2 ≠ 0) .sataDeviceMandatory
    return readWord b (add64 r.2 4) 2

end Walk

/-- A node before the end. -/
structure Node where
  type : UInt8
  subType : UInt8
  payload : List UInt8
  fits : payload.length + 4 < 2 ^ 16
  type_ne : type ≠ 0x7F

namespace Node
variable (n : Node)

def size : ℕ := n.payload.length + 4

def bytes : List UInt8 :=
  [n.type, n.subType, UInt8.ofNat n.size, UInt8.ofNat (n.size / 256)] ++ n.payload

/-- The node has a type and a subtype, given as numbers. -/
def Is (type subType : ℕ) : Prop := n.type.toNat = type ∧ n.subType.toNat = subType

instance (type subType : ℕ) : Decidable (n.Is type subType) :=
  inferInstanceAs (Decidable (_ ∧ _))

@[simp] theorem length_bytes : n.bytes.length = n.size := by
  unfold bytes size
  rw [List.length_append, Nat.add_comm]
  rfl

end Node

/-- The nodes before the end node, which may end an instance or the path. -/
structure DevicePath where
  nodes : List Node
  endSubType : UInt8

namespace DevicePath
variable (p : DevicePath)

def endBytes : List UInt8 := [0x7F, p.endSubType, 4, 0]

def bytes : List UInt8 := p.nodes.flatMap Node.bytes ++ p.endBytes

/-- The last node of a kind. -/
def last (type subType : ℕ) : Option Node :=
  p.nodes.reverse.find? fun n => n.Is type subType

/-- The device and the function that the path names. -/
def controller : Except Stopped (ℕ × ℕ) :=
  match p.last acpiDevicePath hwPciDp, p.last hardwareDevicePath hwPciDp with
  | none, _ => .error .acpiBusMandatory
  | some _, none => .error .pciHostMandatory
  | some _, some n => .ok ((n.payload.getD 1 0).toNat, (n.payload.getD 0 0).toNat)

/-- The port that the path names. -/
def port : Except Stopped ℕ :=
  match p.last messagingDevicePath msgSataDp with
  | none => .error .sataDeviceMandatory
  | some n => .ok ((n.payload.getD 0 0).toNat + 256 * (n.payload.getD 1 0).toNat)

/-- The nodes that are read have the two bytes that are read of them. -/
def Regular : Prop :=
  ∀ n ∈ p.nodes, n.Is hardwareDevicePath hwPciDp ∨ n.Is messagingDevicePath msgSataDp →
    2 ≤ n.payload.length

end DevicePath

/-- The bytes lie in memory from an address on. -/
def StoredAt (b : ℕ → UInt8) (start : ℕ) (bytes : List UInt8) : Prop :=
  ∀ i < bytes.length, b (start + i) = bytes.getD i 0

section Stored
variable {b : ℕ → UInt8} {start : ℕ} {xs ys : List UInt8} {n : Node}

theorem storedAt_append : StoredAt b start (xs ++ ys) ↔
    StoredAt b start xs ∧ StoredAt b (start + xs.length) ys := by
  unfold StoredAt
  constructor
  · intro h
    refine ⟨fun i hi => ?_, fun i hi => ?_⟩
    · have := h i (by rw [List.length_append]; omega)
      rwa [List.getD_append _ _ _ _ hi] at this
    · have := h (xs.length + i) (by rw [List.length_append]; omega)
      rwa [List.getD_append_right _ _ _ _ (by omega), Nat.add_sub_cancel_left,
        ← Nat.add_assoc] at this
  · rintro ⟨hxs, hys⟩ i hi
    rw [List.length_append] at hi
    rcases Nat.lt_or_ge i xs.length with hlt | hge
    · rw [List.getD_append _ _ _ _ hlt]
      exact hxs i hlt
    · rw [List.getD_append_right _ _ _ _ hge, ← hys (i - xs.length) (by omega)]
      congr 1
      omega

/-- The copy of a range that it does not meet. -/
theorem storedAt_copy {dest : ℕ} (h : StoredAt b start xs) (hstart : start + xs.length ≤ 2 ^ 64)
    (hdest : dest + xs.length ≤ 2 ^ 64)
    (hapart : dest + xs.length ≤ start ∨ start + xs.length ≤ dest) :
    StoredAt (copyBytes dest start xs.length b) dest xs := by
  intro i hi
  have hoffset : offset dest (dest + i) = i := by
    rw [offset_of_le (Nat.le_add_right _ _) (by omega), Nat.add_sub_cancel_left]
  rw [copyBytes_eq (by omega) (by omega), hoffset, if_pos hi, Nat.mod_eq_of_lt (by omega)]
  · exact h i hi
  · intro i hi j hj
    rw [Nat.mod_eq_of_lt (by omega), Nat.mod_eq_of_lt (by omega)]
    omega

/-- The bytes of the header of a node. -/
theorem storedAt_node (h : StoredAt b start n.bytes) (hend : start + n.size < 2 ^ 64) :
    nodeType b start = n.type.toNat ∧ subType b start = n.subType.toNat ∧
      nextDevicePathNode b start = start + n.size ∧
      ∀ i < n.payload.length, b (add64 start (4 + i)) = n.payload.getD i 0 := by
  have hfits := n.fits
  have hsize : n.size = n.payload.length + 4 := rfl
  have hbyte : ∀ i < n.size, b (add64 start i) = n.bytes.getD i 0 := by
    intro i hi
    rw [add64, Nat.mod_eq_of_lt (by omega)]
    exact h i (by rwa [n.length_bytes])
  have h0 := hbyte 0 (by omega)
  rw [add64, Nat.add_zero, Nat.mod_eq_of_lt (by omega)] at h0
  have hlength : devicePathNodeLength b start = n.size := by
    unfold devicePathNodeLength
    rw [hbyte 2 (by omega), hbyte 3 (by omega)]
    change n.size % 256 ||| (n.size / 256 % 256) <<< 8 = n.size
    rw [Nat.lor_comm, ← Nat.shiftLeft_add_eq_or_of_lt (Nat.mod_lt _ (by decide)),
      Nat.shiftLeft_eq]
    omega
  refine ⟨?_, ?_, ?_, fun i hi => ?_⟩
  · unfold nodeType
    rw [h0]
    rfl
  · unfold DevicePaths.subType
    rw [hbyte 1 (by omega)]
    rfl
  · unfold nextDevicePathNode
    rw [hlength, add64, Nat.mod_eq_of_lt hend]
  · rw [hbyte (4 + i) (by omega), Nat.add_comm 4 i]
    rfl

end Stored

/-- The addresses of the nodes of a path. -/
def located : ℕ → List Node → List ℕ
  | _, [] => []
  | start, n :: nodes => start :: located (start + n.size) nodes

section Run
variable {b : ℕ → UInt8} {start : ℕ} {nodes : List Node}

/-- The loop visits every node and ends at the end node. -/
theorem walk_stored {α : Type} (visit : ℕ → α → α) (found : α) (endSubType : UInt8) {fuel : ℕ}
    (hfuel : nodes.length < fuel)
    (h : StoredAt b start (nodes.flatMap Node.bytes ++ [0x7F, endSubType, 4, 0]))
    (hend : start + (nodes.flatMap Node.bytes).length + 4 ≤ 2 ^ 64) :
    walk b visit fuel start found = some (start + (nodes.flatMap Node.bytes).length,
      (located start nodes).foldl (fun found a => visit a found) found) := by
  induction nodes generalizing start found fuel with
  | nil =>
    obtain ⟨fuel, rfl⟩ := Nat.exists_eq_add_of_lt hfuel
    have htype : nodeType b start = endDevicePathType := by
      unfold nodeType
      rw [show b start = 0x7F from h 0 (by simp)]
      rfl
    unfold walk
    rw [if_pos htype]
    rfl
  | cons n nodes ih =>
    obtain ⟨fuel, rfl⟩ : ∃ k, fuel = k + 1 := ⟨fuel - 1, by omega⟩
    rw [List.flatMap_cons, List.append_assoc, storedAt_append, n.length_bytes] at h
    rw [List.flatMap_cons, List.length_append, n.length_bytes] at hend ⊢
    obtain ⟨htype, -, hnext, -⟩ := storedAt_node h.1 (by omega)
    have hne : nodeType b start ≠ endDevicePathType := by
      rw [htype]
      intro heq
      exact n.type_ne (UInt8.toNat_inj.mp heq)
    unfold walk
    rw [if_neg hne, hnext, ih _ (by rw [List.length_cons] at hfuel; omega) h.2 (by omega)]
    rw [located, List.foldl_cons, Nat.add_assoc]

/-- A node without a length that is not the end node is visited for ever. -/
theorem walk_without_length {α : Type} (visit : ℕ → α → α) (found : α) {type subType : UInt8}
    (htype : type ≠ 0x7F) (h : StoredAt b start (nodes.flatMap Node.bytes ++ [type, subType, 0, 0]))
    (hend : start + (nodes.flatMap Node.bytes).length + 4 ≤ 2 ^ 64) (fuel : ℕ) :
    walk b visit fuel start found = none := by
  induction fuel generalizing start found nodes with
  | zero => rfl
  | succ fuel ih =>
    cases nodes with
    | nil =>
      have hbyte : ∀ i < 4, b (start + i) = [type, subType, 0, 0].getD i 0 := h
      have hne : nodeType b start ≠ endDevicePathType := by
        unfold nodeType
        rw [show b start = type from hbyte 0 (by decide)]
        exact fun heq => htype (UInt8.toNat_inj.mp heq)
      rw [List.flatMap_nil, List.length_nil] at hend
      have hlow : b (add64 start 2) = 0 := by
        rw [add64, Nat.mod_eq_of_lt (by omega)]
        exact hbyte 2 (by decide)
      have hhigh : b (add64 start 3) = 0 := by
        rw [add64, Nat.mod_eq_of_lt (by omega)]
        exact hbyte 3 (by decide)
      have hnext : nextDevicePathNode b start = start := by
        unfold nextDevicePathNode devicePathNodeLength
        have hzero : (0 : UInt8).toNat ||| (0 : UInt8).toNat <<< 8 = 0 := by decide
        rw [hlow, hhigh, hzero]
        exact Nat.mod_eq_of_lt (by omega)
      unfold walk
      rw [if_neg hne, hnext]
      have hnil : StoredAt b start
          (([] : List Node).flatMap Node.bytes ++ [type, subType, 0, 0]) := h
      exact ih _ hnil hend
    | cons n nodes =>
      rw [List.flatMap_cons, List.append_assoc, storedAt_append, n.length_bytes] at h
      rw [List.flatMap_cons, List.length_append, n.length_bytes] at hend
      obtain ⟨hnode, -, hnext, -⟩ := storedAt_node h.1 (by omega)
      have hne : nodeType b start ≠ endDevicePathType := by
        rw [hnode]
        exact fun heq => n.type_ne (UInt8.toNat_inj.mp heq)
      unfold walk
      rw [if_neg hne, hnext]
      exact ih _ h.2 (by omega)

/-- A loop that keeps the last node of a kind. -/
theorem foldl_last (type subType : ℕ) {test : ℕ → Prop} [DecidablePred test]
    (htest : ∀ a, test a ↔ nodeType b a = type ∧ DevicePaths.subType b a = subType)
    (h : StoredAt b start (nodes.flatMap Node.bytes))
    (hend : start + (nodes.flatMap Node.bytes).length < 2 ^ 64) (found : ℕ) :
    match nodes.reverse.find? fun n => n.Is type subType with
    | none => (located start nodes).foldl (fun found a => if test a then a else found) found = found
    | some n => ∃ a, (located start nodes).foldl (fun found a => if test a then a else found)
        found = a ∧ start ≤ a ∧ a + n.size < 2 ^ 64 ∧ StoredAt b a n.bytes := by
  induction nodes generalizing start found with
  | nil => rfl
  | cons n nodes ih =>
    rw [List.flatMap_cons, storedAt_append, n.length_bytes] at h
    rw [List.flatMap_cons, List.length_append, n.length_bytes] at hend
    obtain ⟨htype, hsub, -, -⟩ := storedAt_node h.1 (by omega)
    have hiff : test start ↔ n.Is type subType := by
      rw [htest, htype, hsub]
      rfl
    have hlater := ih h.2 (by omega) (if test start then start else found)
    rw [List.reverse_cons, List.find?_append, located, List.foldl_cons]
    cases hfind : nodes.reverse.find? fun n => n.Is type subType with
    | some m =>
      rw [hfind] at hlater
      obtain ⟨a, ha, hle, hlt, hstored⟩ := hlater
      exact ⟨a, ha, by omega, hlt, hstored⟩
    | none =>
      rw [hfind] at hlater
      dsimp only at hlater
      by_cases his : n.Is type subType
      · rw [if_pos (hiff.mpr his)] at hlater ⊢
        simp only [Option.none_or, List.find?_singleton, his, decide_true, if_true]
        exact ⟨start, hlater, le_rfl, by omega, h.1⟩
      · rw [if_neg fun ht => his (hiff.mp ht)] at hlater ⊢
        simp only [Option.none_or, List.find?_singleton, his, decide_false]
        exact hlater

theorem foldl_visitBus (found : ℕ × ℕ) : (located start nodes).foldl
    (fun found a => visitBus b a found) found =
    ((located start nodes).foldl (fun found a => if nodeType b a = acpiDevicePath ∧
        DevicePaths.subType b a = hwPciDp then a else found) found.1,
      (located start nodes).foldl (fun found a => if nodeType b a = hardwareDevicePath ∧
        DevicePaths.subType b a = hwPciDp then a else found) found.2) := by
  generalize located start nodes = addresses
  induction addresses generalizing found with
  | nil => rfl
  | cons a addresses ih =>
    rw [List.foldl_cons, List.foldl_cons, List.foldl_cons, ih]
    unfold visitBus
    by_cases hacpi : nodeType b a = acpiDevicePath
    · have hne : ¬ nodeType b a = hardwareDevicePath := by
        rw [hacpi]
        decide
      by_cases hsub : DevicePaths.subType b a = hwPciDp <;> simp [hacpi, hsub]
    · by_cases hhardware : nodeType b a = hardwareDevicePath
      · by_cases hsub : DevicePaths.subType b a = hwPciDp <;> simp [hhardware, hsub]
      · simp [hacpi, hhardware]

end Run

section Path
variable {b : ℕ → UInt8} {start fuel : ℕ} {p : DevicePath}

theorem DevicePath.length_bytes :
    p.bytes.length = (p.nodes.flatMap Node.bytes).length + 4 := by
  unfold DevicePath.bytes DevicePath.endBytes
  rw [List.length_append]
  rfl

theorem DevicePath.of_last {type subType : ℕ} {n : Node} (h : p.last type subType = some n) :
    n ∈ p.nodes ∧ n.Is type subType :=
  ⟨List.mem_reverse.mp (List.mem_of_find?_eq_some h), by simpa using List.find?_some h⟩

/-- The bootloader measures the path with its end node. -/
theorem devicePathLength_stored (h : StoredAt b start p.bytes) (hpos : 0 < start)
    (hend : start + p.bytes.length ≤ 2 ^ 64) (hfuel : p.nodes.length < fuel) :
    devicePathLength b fuel start = some p.bytes.length := by
  have hlength := p.length_bytes
  rw [hlength] at hend ⊢
  have hwalk := walk_stored (fun _ _ => ()) () p.endSubType hfuel h (by omega)
  obtain ⟨last, hlast⟩ : ∃ last, last = start + (p.nodes.flatMap Node.bytes).length := ⟨_, rfl⟩
  unfold DevicePath.bytes at h
  have hlow : b (add64 last 2) = 4 := by
    rw [add64, Nat.mod_eq_of_lt (by omega), hlast]
    exact (storedAt_append.mp h).2 2 (show 2 < 4 by decide)
  have hhigh : b (add64 last 3) = 0 := by
    rw [add64, Nat.mod_eq_of_lt (by omega), hlast]
    exact (storedAt_append.mp h).2 3 (show 3 < 4 by decide)
  unfold devicePathLength
  rw [hwalk, ← hlast]
  simp only [Option.map_some]
  have hfour : devicePathNodeLength b last = 4 := by
    unfold devicePathNodeLength
    rw [hlow, hhigh]
    rfl
  rw [hfour, hlast, sub64_of_le (Nat.le_add_right _ _) (by omega), Nat.add_sub_cancel_left,
    add64, Nat.mod_eq_of_lt (by omega)]

/-- The two bytes behind the header of a node. -/
theorem payload_stored {a : ℕ} {n : Node} (h : StoredAt b a n.bytes)
    (hend : a + n.size < 2 ^ 64) (hlength : 2 ≤ n.payload.length) :
    b (add64 a 4) = n.payload.getD 0 0 ∧ b (add64 a 5) = n.payload.getD 1 0 := by
  obtain ⟨-, -, -, hpayload⟩ := storedAt_node h hend
  exact ⟨hpayload 0 (by omega), hpayload 1 (by omega)⟩

/-- The controller that the kernel finds is the one that the path names. -/
theorem busNodes_stored (h : StoredAt b start p.bytes) (hregular : p.Regular) (hpos : 0 < start)
    (hend : start + p.bytes.length ≤ 2 ^ 64) (hfuel : p.nodes.length < fuel) :
    busNodes b fuel start = some p.controller := by
  rw [p.length_bytes] at hend
  have hwalk := walk_stored (visitBus b) (0, 0) p.endSubType hfuel h (by omega)
  have hnodes := (storedAt_append.mp h).1
  have hacpi := foldl_last acpiDevicePath hwPciDp (fun a => Iff.rfl) hnodes (by omega) 0
  have hpci := foldl_last hardwareDevicePath hwPciDp (fun a => Iff.rfl) hnodes (by omega) 0
  unfold busNodes
  rw [hwalk, foldl_visitBus]
  simp only [Option.map_some]
  congr 1
  unfold DevicePath.controller DevicePath.last
  cases hlast : p.nodes.reverse.find? fun n => n.Is acpiDevicePath hwPciDp with
  | none =>
    rw [hlast] at hacpi
    dsimp only at hacpi
    rw [hacpi]
    rfl
  | some bus =>
    rw [hlast] at hacpi
    obtain ⟨a, ha, hle, -, -⟩ := hacpi
    rw [ha, require_true (by omega), ok_bind]
    cases hlast' : p.nodes.reverse.find? fun n => n.Is hardwareDevicePath hwPciDp with
    | none =>
      rw [hlast'] at hpci
      dsimp only at hpci
      rw [hpci]
      rfl
    | some n =>
      rw [hlast'] at hpci
      obtain ⟨a', ha', hle', hlt, hstored⟩ := hpci
      obtain ⟨hmem, his⟩ := p.of_last hlast'
      obtain ⟨h4, h5⟩ := payload_stored hstored hlt (hregular n hmem (Or.inl his))
      rw [ha', require_true (by omega), ok_bind, h4, h5]
      rfl

theorem drivePort_stored (h : StoredAt b start p.bytes) (hregular : p.Regular) (hpos : 0 < start)
    (hend : start + p.bytes.length ≤ 2 ^ 64) (hfuel : p.nodes.length < fuel) :
    drivePort b fuel start = some p.port := by
  rw [p.length_bytes] at hend
  have hwalk := walk_stored (visitDrive b) 0 p.endSubType hfuel h (by omega)
  have hnodes := (storedAt_append.mp h).1
  have htest : ∀ a, (nodeType b a = messagingDevicePath ∧ DevicePaths.subType b a = msgSataDp) ↔
      nodeType b a = messagingDevicePath ∧ DevicePaths.subType b a = msgSataDp := fun a => Iff.rfl
  have hdrive := foldl_last messagingDevicePath msgSataDp htest hnodes (by omega) 0
  have hvisit : (fun found a => visitDrive b a found) = fun found a =>
      if nodeType b a = messagingDevicePath ∧ DevicePaths.subType b a = msgSataDp then a
      else found := by
    funext found a
    unfold visitDrive
    split_ifs <;> first | rfl | omega
  unfold drivePort
  rw [hwalk, hvisit]
  simp only [Option.map_some]
  congr 1
  unfold DevicePath.port DevicePath.last
  cases hlast : p.nodes.reverse.find? fun n => n.Is messagingDevicePath msgSataDp with
  | none =>
    rw [hlast] at hdrive
    dsimp only at hdrive
    rw [hdrive]
    rfl
  | some n =>
    rw [hlast] at hdrive
    obtain ⟨a, ha, hle, hlt, hstored⟩ := hdrive
    obtain ⟨hmem, his⟩ := p.of_last hlast
    obtain ⟨h4, h5⟩ := payload_stored hstored hlt (hregular n hmem (Or.inr his))
    have hsize : n.size = n.payload.length + 4 := rfl
    have hlength := hregular n hmem (Or.inr his)
    have hword : readWord b (add64 a 4) 2 =
        (n.payload.getD 0 0).toNat + 256 * (n.payload.getD 1 0).toNat := by
      rw [← h4, ← h5]
      unfold add64
      simp only [readWord, Nat.pow_zero, Nat.one_mul, Nat.zero_add, Nat.add_zero, Nat.pow_one]
      rw [Nat.mod_mod, Nat.mod_eq_of_lt (show a + 4 < 2 ^ 64 by omega)]
    rw [ha, require_true (by omega), ok_bind, hword]
    rfl

/-- What the kernel finds in the copy is what the firmware has put in the path, as far as the
first end node. -/
theorem boot_path_found {dest : ℕ} (h : StoredAt b start p.bytes) (hregular : p.Regular)
    (hstart : 0 < start) (hdest : 0 < dest) (hend : start + p.bytes.length ≤ 2 ^ 64)
    (hend' : dest + p.bytes.length ≤ 2 ^ 64)
    (hapart : dest + p.bytes.length ≤ start ∨ start + p.bytes.length ≤ dest)
    (hfuel : p.nodes.length < fuel) :
    ∃ length, devicePathLength b fuel start = some length ∧
      StoredAt (copyBytes dest start length b) dest p.bytes ∧
      busNodes (copyBytes dest start length b) fuel dest = some p.controller ∧
      drivePort (copyBytes dest start length b) fuel dest = some p.port := by
  have hcopy := storedAt_copy h hend hend' hapart
  exact ⟨_, devicePathLength_stored h hstart hend hfuel, hcopy,
    busNodes_stored hcopy hregular hdest hend' hfuel,
    drivePort_stored hcopy hregular hdest hend' hfuel⟩

/-- A drive at port 2 of the controller 31.2, with a node for the medium. -/
def drivePath : DevicePath where
  nodes := [⟨2, 1, [0xD0, 0x41, 0x03, 0x0A, 0, 0, 0, 0], by decide, by decide⟩,
    ⟨1, 1, [2, 31], by decide, by decide⟩,
    ⟨3, 0x12, [2, 0, 0xFF, 0xFF, 0, 0], by decide, by decide⟩,
    ⟨4, 2, [0, 0, 0, 0], by decide, by decide⟩]
  endSubType := 0xFF

/-- The path at 0x1000 in a memory of zeros. -/
def driveMemory (address : ℕ) : UInt8 :=
  if address < 0x1000 then 0 else drivePath.bytes.getD (address - 0x1000) 0

theorem boot_path_found_drive : ∃ length, devicePathLength driveMemory 5 0x1000 = some length ∧
    busNodes (copyBytes 0x9000 0x1000 length driveMemory) 5 0x9000 = some (.ok (31, 2)) ∧
    drivePort (copyBytes 0x9000 0x1000 length driveMemory) 5 0x9000 = some (.ok 2) := by
  have hlength : drivePath.bytes.length = 40 := by decide
  have hstored : StoredAt driveMemory 0x1000 drivePath.bytes := by
    intro i _
    unfold driveMemory
    rw [if_neg (by omega), Nat.add_sub_cancel_left]
  obtain ⟨length, hmeasured, -, hbus, hport⟩ := @boot_path_found driveMemory 0x1000 5 drivePath
    0x9000 hstored (by unfold DevicePath.Regular; decide) (by decide) (by decide)
    (by rw [hlength]; decide) (by rw [hlength]; decide) (by rw [hlength]; decide) (by decide)
  exact ⟨length, hmeasured, hbus, hport⟩

end Path

end Enkel.DevicePaths
