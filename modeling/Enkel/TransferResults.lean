import Enkel.DescriptorSafety

/-!
What a program is told of a transfer. Read and Write of a volume return a count or a
negated errno in one unsigned number; sys_read and sys_write narrow it to an int, and
sys_writev adds the numbers of its pieces.
-/
namespace Enkel.VolumeCalls

open Outcome Paging StandardStreams
open FileMapping (currentOffset)

/-- What Read or Write of a volume does: so many bytes, or an error. ~0 is the negated 1. -/
inductive Transfer
  | moved (count : ℕ)
  | failed (errno : ℕ) (errno_pos : 1 ≤ errno) (errno_le : errno ≤ 4095)
deriving DecidableEq, Repr

namespace Transfer

/-- The number that is returned for it. -/
def returned : Transfer → ℕ
  | moved count => count
  | failed errno _ _ => 2 ^ 64 - errno

def count : Transfer → ℕ
  | moved count => count
  | failed _ _ _ => 0

def errno : Transfer → ℕ
  | moved _ => 0
  | failed errno _ _ => errno

def Fails (t : Transfer) : Prop := t.errno ≠ 0

instance (t : Transfer) : Decidable t.Fails := inferInstanceAs (Decidable (¬ _))

/-- The bytes of all pieces. -/
def bytes (ts : List Transfer) : ℕ := (ts.map count).sum

def errnos (ts : List Transfer) : ℕ := (ts.map errno).sum

/-- The bytes of the pieces before the first error. -/
def accepted (ts : List Transfer) : ℕ := bytes (ts.takeWhile fun t => decide (¬ t.Fails))

end Transfer

/-- The volumes behind VolumeRead and VolumeWrite, whatever they do. -/
structure VolumeLayer (σ : Type) where
  volumeRead : (handle offset size : ℕ) → σ → Transfer × σ
  volumeWrite : (handle offset : ℕ) → (buffer : ℕ → UInt8) → (size : ℕ) → σ → Transfer × σ
  read_le : ∀ handle offset size s, (volumeRead handle offset size s).1.count ≤ size
  write_le : ∀ handle offset buffer size s,
    (volumeWrite handle offset buffer size s).1.count ≤ size

namespace VolumeLayer
variable {σ : Type} (v : VolumeLayer σ)

def sysRead (fileHandle dataSize : ℕ) (s : σ) : ℤ × σ :=
  let (t, s) := v.volumeRead (fileHandle % 2 ^ 64) currentOffset dataSize s
  (signed32 t.returned, s)

def sysWrite (fileHandle : ℕ) (data : ℕ → UInt8) (dataSize : ℕ) (s : σ) : ℤ × σ :=
  let (t, s) := v.volumeWrite (fileHandle % 2 ^ 64) currentOffset data dataSize s
  (signed32 t.returned, s)

/-- The loop of sys_writev. -/
def writevLoop (handle : ℕ) : List Iovec → (total : ℕ) → σ → ℕ × σ
  | [], total, s => (total, s)
  | piece :: iov, total, s =>
    let (t, s) := v.volumeWrite handle currentOffset piece.iovBase piece.iovLen s
    writevLoop handle iov (add64 total t.returned) s

def sysWritev (fileHandle : ℕ) (iov : List Iovec) (s : σ) : ℤ × σ :=
  let (total, s) := v.writevLoop (ofInt fileHandle) iov 0 s
  (signed64 total, s)

/-- The transfers of the pieces, in their order. -/
def writes (handle : ℕ) : List Iovec → σ → List Transfer
  | [], _ => []
  | piece :: iov, s =>
    let (t, s) := v.volumeWrite handle currentOffset piece.iovBase piece.iovLen s
    t :: writes handle iov s

end VolumeLayer

/-- An error as a program takes it. -/
def IsErrno (received : ℤ) : Prop := -4095 ≤ received ∧ received ≤ -1

instance (received : ℤ) : Decidable (IsErrno received) := inferInstanceAs (Decidable (_ ∧ _))

/-- The program is told the number of bytes or an error; the number, if there was no error;
and what was accepted before the first error, if that is anything. -/
structure Reported (ts : List Transfer) (received : ℤ) : Prop where
  exact_or_errno : received = Transfer.bytes ts ∨ IsErrno received
  success : (∀ t ∈ ts, ¬ t.Fails) → received = Transfer.bytes ts
  part : (∃ t ∈ ts, t.Fails) → 0 < Transfer.accepted ts → received = Transfer.accepted ts

section Single
variable {t : Transfer}

theorem Transfer.count_of_fails (h : t.Fails) : t.count = 0 := by
  cases t with
  | moved count => exact absurd rfl h
  | failed errno hpos hle => rfl

theorem Transfer.returned_of_fails (h : t.Fails) :
    1 ≤ t.errno ∧ t.errno ≤ 4095 ∧ t.returned = 2 ^ 64 - t.errno := by
  cases t with
  | moved count => exact absurd rfl h
  | failed errno hpos hle => exact ⟨hpos, hle, rfl⟩

theorem Transfer.returned_of_not_fails (h : ¬ t.Fails) : t.returned = t.count ∧ t.errno = 0 := by
  cases t with
  | moved count => exact ⟨rfl, rfl⟩
  | failed e hpos hle =>
    have hzero : e = 0 := not_not.mp h
    omega

/-- An int tells the count of a single transfer if that is below 2^31, and every error. -/
theorem reported_single_iff : Reported [t] (signed32 t.returned) ↔ t.count < 2 ^ 31 := by
  have hbytes : Transfer.bytes [t] = t.count := by simp [Transfer.bytes]
  by_cases hfails : t.Fails
  · obtain ⟨hpos, hle, hreturned⟩ := t.returned_of_fails hfails
    have hzero := t.count_of_fails hfails
    have hreceived : signed32 t.returned = -(t.errno : ℤ) := by
      rw [hreturned]
      unfold signed32
      split_ifs <;> omega
    rw [hzero]
    refine iff_of_true ⟨Or.inr ?_, fun hnone => ?_, fun _ haccepted => ?_⟩ (by decide)
    · rw [hreceived, IsErrno]
      omega
    · exact absurd hfails (hnone t List.mem_cons_self)
    · exact absurd haccepted (by simp [Transfer.accepted, Transfer.bytes, hfails])
  · obtain ⟨hreturned, -⟩ := t.returned_of_not_fails hfails
    have hreceived : signed32 t.returned = t.count ↔ t.count < 2 ^ 31 := by
      rw [hreturned]
      unfold signed32
      split_ifs <;> omega
    have hnone : ∀ t' ∈ [t], ¬ t'.Fails := by simpa using hfails
    rw [← hreceived, ← hbytes]
    constructor
    · intro h
      exact h.success hnone
    · intro h
      refine ⟨Or.inl h, fun _ => h, ?_⟩
      rintro ⟨t', hmem, hfails'⟩
      exact absurd hfails' (hnone t' hmem)

end Single

section Sums
variable {t : Transfer} {ts : List Transfer}

@[simp] theorem bytes_cons : Transfer.bytes (t :: ts) = t.count + Transfer.bytes ts := by
  simp [Transfer.bytes]

@[simp] theorem errnos_cons : Transfer.errnos (t :: ts) = t.errno + Transfer.errnos ts := by
  simp [Transfer.errnos]

theorem errnos_le : Transfer.errnos ts ≤ 4095 * ts.length := by
  induction ts with
  | nil => exact le_rfl
  | cons t ts ih =>
    have hle : t.errno ≤ 4095 := by
      by_cases hfails : t.Fails
      · exact (t.returned_of_fails hfails).2.1
      · exact (t.returned_of_not_fails hfails).2 ▸ Nat.zero_le _
    rw [errnos_cons, List.length_cons]
    omega

theorem errnos_pos_iff : 0 < Transfer.errnos ts ↔ ∃ t ∈ ts, t.Fails := by
  induction ts with
  | nil => simp [Transfer.errnos]
  | cons t ts ih =>
    rw [List.exists_mem_cons_iff, ← ih, errnos_cons, Transfer.Fails]
    omega

/-- The sum of the numbers, as a signed one. -/
def signedSum (ts : List Transfer) : ℤ :=
  let d := ((Transfer.bytes ts : ℤ) - Transfer.errnos ts) % 2 ^ 64
  if d < 2 ^ 63 then d else d - 2 ^ 64

/-- Where the sum of the numbers tells what it is to tell: there is no error, and a program
does not take the sum for one; or nothing comes before the first error, and the errors
together are one. -/
def SumTells (ts : List Transfer) : Prop :=
  if ∃ t ∈ ts, t.Fails then
    Transfer.accepted ts = 0 ∧
      2 ^ 64 - 4095 ≤ ((Transfer.bytes ts : ℤ) - Transfer.errnos ts) % 2 ^ 64
  else Transfer.bytes ts < 2 ^ 63

theorem reported_sum_iff (hlength : ts.length < 2 ^ 31) :
    Reported ts (signedSum ts) ↔ SumTells ts := by
  have hle : Transfer.errnos ts ≤ 4095 * ts.length := errnos_le
  have hpos : 0 < Transfer.errnos ts ↔ ∃ t ∈ ts, t.Fails := errnos_pos_iff
  unfold SumTells
  by_cases hfails : ∃ t ∈ ts, t.Fails
  · have hsum := hpos.mpr hfails
    have hinexact : signedSum ts ≠ Transfer.bytes ts := by
      unfold signedSum
      dsimp only
      split_ifs <;> omega
    have herrno : IsErrno (signedSum ts) ↔
        2 ^ 64 - 4095 ≤ ((Transfer.bytes ts : ℤ) - Transfer.errnos ts) % 2 ^ 64 := by
      unfold signedSum IsErrno
      dsimp only
      split_ifs <;> omega
    rw [if_pos hfails, ← herrno]
    constructor
    · intro h
      have hcode := h.exact_or_errno.resolve_left hinexact
      refine ⟨?_, hcode⟩
      by_contra hne
      have hpart := h.part hfails (Nat.pos_of_ne_zero hne)
      have hneg := hcode.2
      omega
    · rintro ⟨hzero, hcode⟩
      refine ⟨Or.inr hcode, fun hnone => ?_, fun _ haccepted => ?_⟩
      · obtain ⟨t, hmem, hfails⟩ := hfails
        exact absurd hfails (hnone t hmem)
      · omega
  · have hnone : ∀ t ∈ ts, ¬ t.Fails := fun t hmem hfails' => hfails ⟨t, hmem, hfails'⟩
    have hzero : Transfer.errnos ts = 0 := by
      by_contra hne
      exact hfails (hpos.mp (Nat.pos_of_ne_zero hne))
    have hexact : signedSum ts = Transfer.bytes ts ↔ Transfer.bytes ts < 2 ^ 63 := by
      unfold signedSum
      rw [hzero]
      dsimp only
      split_ifs <;> omega
    rw [if_neg hfails, ← hexact]
    constructor
    · intro h
      exact h.success hnone
    · intro h
      exact ⟨Or.inl h, fun _ => h, fun hsome => absurd hsome hfails⟩

end Sums

section Loop
variable {σ : Type} {v : VolumeLayer σ} {handle total : ℕ} {iov : List Iovec} {s : σ}

theorem length_writes : (v.writes handle iov s).length = iov.length := by
  induction iov generalizing s with
  | nil => rfl
  | cons piece iov ih => exact congrArg Nat.succ ih

/-- A number is what its transfer has moved, less its errno, up to 64 bits. -/
theorem Transfer.returned_mod (t : Transfer) :
    (t.returned : ℤ) % 2 ^ 64 = ((t.count : ℤ) - t.errno) % 2 ^ 64 := by
  by_cases hfails : t.Fails
  · obtain ⟨hpos, hle, hreturned⟩ := t.returned_of_fails hfails
    rw [hreturned, t.count_of_fails hfails]
    omega
  · obtain ⟨hreturned, hzero⟩ := t.returned_of_not_fails hfails
    rw [hreturned, hzero]
    omega

theorem writevLoop_total : ((v.writevLoop handle iov total s).1 : ℤ) % 2 ^ 64 =
    ((total : ℤ) + Transfer.bytes (v.writes handle iov s) -
      Transfer.errnos (v.writes handle iov s)) % 2 ^ 64 := by
  induction iov generalizing total s with
  | nil => simp [VolumeLayer.writevLoop, VolumeLayer.writes, Transfer.bytes, Transfer.errnos]
  | cons piece iov ih =>
    unfold VolumeLayer.writevLoop VolumeLayer.writes
    generalize v.volumeWrite handle currentOffset piece.iovBase piece.iovLen s = step
    obtain ⟨t, s'⟩ := step
    have hmod := t.returned_mod
    dsimp only
    rw [ih, bytes_cons, errnos_cons]
    unfold add64
    omega

theorem sysWritev_eq {fileHandle : ℕ} :
    (v.sysWritev fileHandle iov s).1 = signedSum (v.writes (ofInt fileHandle) iov s) := by
  have htotal : ((v.writevLoop (ofInt fileHandle) iov 0 s).1 : ℤ) % 2 ^ 64 =
      ((0 : ℕ) + Transfer.bytes (v.writes (ofInt fileHandle) iov s) -
        Transfer.errnos (v.writes (ofInt fileHandle) iov s)) % 2 ^ 64 := writevLoop_total
  change signed64 (v.writevLoop (ofInt fileHandle) iov 0 s).1 = _
  unfold signed64 signedSum
  dsimp only
  rw [Nat.cast_zero, zero_add] at htotal
  rw [← htotal]
  split_ifs <;> omega

end Loop

section Volumes
variable {devices : Devices} {s s' : System} {handle offset size returned total total' : ℕ}
  {buffer : ℕ → UInt8} {data : List UInt8} {printed printed' calls : List ConsoleCall}
  {iov : List Iovec} {fileHandle : ℕ}

/-- The transfer that a number of a volume stands for. -/
def StandsFor (returned size : ℕ) (t : Transfer) : Prop := t.returned = returned ∧ t.count ≤ size

theorem standsFor_einval : StandsFor einval size (.failed 22 (by decide) (by decide)) :=
  ⟨rfl, Nat.zero_le _⟩

theorem standsFor_eperm : StandsFor (2 ^ 64 - 1) size (.failed 1 (by decide) (by decide)) :=
  ⟨rfl, Nat.zero_le _⟩

/-- The volumes of the kernel return what a layer may return. -/
theorem volumeRead_standsFor
    (h : s.volumeRead devices handle offset size = .ok (returned, data, s')) :
    ∃ t, StandsFor returned size t := by
  unfold System.volumeRead at h
  rw [volumeOf_implementation, ok_bind] at h
  cases himpl : s.implementation handle with
  | none =>
    rw [himpl] at h
    cases h
    exact ⟨_, standsFor_einval⟩
  | some volume =>
    simp only [himpl, Option.map_some] at h
    cases volume with
    | standardIo =>
      simp only [Volume.read] at h
      split_ifs at h
      · cases h
        exact ⟨.moved _, rfl, (devices.readInput _ size).property⟩
      · cases h
        exact ⟨_, standsFor_eperm⟩
    | specialProc =>
      obtain ⟨-, -, h⟩ := bind_eq_ok.mp h
      obtain ⟨-, -, h⟩ := bind_eq_ok.mp h
      cases h
      exact ⟨.moved _, rfl, List.length_take_le _ _⟩
    | device =>
      obtain ⟨-, -, h⟩ := bind_eq_ok.mp h
      cases h
      exact ⟨.moved 0, rfl, Nat.zero_le _⟩
    | fat =>
      obtain ⟨⟨bytes, files⟩, hread, h⟩ := bind_eq_ok.mp h
      cases h
      refine ⟨.moved _, rfl, ?_⟩
      have hread := mapError_eq_ok.mp hread
      unfold FileMapping.fatVolumeRead at hread
      split_ifs at hread
      · cases hread
        exact Nat.zero_le _
      · obtain ⟨-, -, hread⟩ := bind_eq_ok.mp hread
        dsimp only at hread
        cases hfile : s.fileHandles (VolumeSystem.FileHandleMask.fileHandle handle) with
        | none =>
          rw [hfile] at hread
          cases hread
        | some fil =>
          rw [hfile] at hread
          obtain ⟨-, -, hread⟩ := bind_eq_ok.mp hread
          cases hread
          rw [Transfer.count, FileMapping.readAt_bytes]
          exact (List.length_take_le _ _).trans (Nat.mod_le _ _)
    | cdrom =>
      cases h
      exact ⟨.moved _, rfl, (devices.cdromRead _ offset size).property⟩

theorem standardWrite_size {write : VolumeWrite} {print : List ℕ → ConsoleCall}
    (hwrite : write size buffer size =
      (writeLoop print buffer size size).map fun calls => (calls, size))
    (h : standardWrite write buffer size = .ok (returned, calls)) : returned = size := by
  unfold standardWrite at h
  rw [hwrite] at h
  cases hloop : writeLoop print buffer size size with
  | none =>
    rw [hloop] at h
    cases h
  | some printed =>
    rw [hloop] at h
    cases h
    rfl

theorem volumeWrite_standsFor
    (h : s.volumeWrite handle offset buffer size = .ok (returned, calls, s')) :
    ∃ t, StandsFor returned size t := by
  unfold System.volumeWrite at h
  rw [volumeOf_implementation, ok_bind] at h
  cases himpl : s.implementation handle with
  | none =>
    rw [himpl] at h
    cases h
    exact ⟨_, standsFor_einval⟩
  | some volume =>
    simp only [himpl, Option.map_some] at h
    cases volume with
    | standardIo =>
      simp only [Volume.write] at h
      split_ifs at h
      · obtain ⟨⟨r, c⟩, hwrite, h⟩ := bind_eq_ok.mp h
        cases h
        exact ⟨.moved _, rfl, (standardWrite_size rfl hwrite).le⟩
      · obtain ⟨⟨r, c⟩, hwrite, h⟩ := bind_eq_ok.mp h
        cases h
        exact ⟨.moved _, rfl, (standardWrite_size rfl hwrite).le⟩
      · cases h
        exact ⟨_, standsFor_eperm⟩
    | device =>
      obtain ⟨-, -, h⟩ := bind_eq_ok.mp h
      cases h
      exact ⟨.moved _, rfl, le_rfl⟩
    | fat =>
      obtain ⟨⟨r, files⟩, hwrite, h⟩ := bind_eq_ok.mp h
      cases h
      refine ⟨.moved 0, ?_, Nat.zero_le _⟩
      unfold fatVolumeWrite at hwrite
      by_cases hzero : size = 0
      · rw [if_pos hzero] at hwrite
        cases hwrite
        rfl
      · rw [if_neg hzero] at hwrite
        obtain ⟨fil, -, hwrite⟩ := bind_eq_ok.mp hwrite
        obtain ⟨-, -, hwrite⟩ := bind_eq_ok.mp hwrite
        cases hwrite
        rfl
    | _ => cases h

/-- The loop of sys_writev over the volumes of the kernel adds up such transfers. -/
theorem writevLoop_standsFor (h : VolumeCalls.writevLoop handle iov total printed s =
    .ok (total', printed', s')) :
    ∃ ts, List.Forall₂ (fun (piece : Iovec) (t : Transfer) => t.count ≤ piece.iovLen) iov ts ∧
      (total' : ℤ) % 2 ^ 64 =
        ((total : ℤ) + Transfer.bytes ts - Transfer.errnos ts) % 2 ^ 64 := by
  induction iov generalizing total printed s with
  | nil =>
    cases h
    exact ⟨[], .nil, by simp [Transfer.bytes, Transfer.errnos]⟩
  | cons piece iov ih =>
    obtain ⟨⟨returned, calls, s1⟩, hwrite, hrest⟩ := bind_eq_ok.mp h
    obtain ⟨t, hreturned, hle⟩ := volumeWrite_standsFor hwrite
    obtain ⟨ts, hpieces, htotal⟩ := ih hrest
    refine ⟨t :: ts, .cons hle hpieces, ?_⟩
    have hmod := t.returned_mod
    rw [hreturned] at hmod
    rw [htotal, bytes_cons, errnos_cons]
    unfold add64
    omega

/-- A vector of the kernel's own volumes is told as the sum says. -/
theorem sysWritev_reported_iff {answer : Answer} (hlength : iov.length < 2 ^ 31)
    (h : VolumeCalls.sysWritev fileHandle iov s = .ok (answer, s')) :
    ∃ ts, List.Forall₂ (fun (piece : Iovec) (t : Transfer) => t.count ≤ piece.iovLen) iov ts ∧
      (Reported ts (signed64 (unsigned64 answer.returned)) ↔ SumTells ts) := by
  obtain ⟨⟨total, calls, s1⟩, hloop, h⟩ := bind_eq_ok.mp h
  cases h
  obtain ⟨ts, hpieces, htotal⟩ := writevLoop_standsFor hloop
  refine ⟨ts, hpieces, ?_⟩
  rw [← reported_sum_iff (hpieces.length_eq ▸ hlength)]
  have hsum : signed64 (unsigned64 total) = signedSum ts := by
    rw [Nat.cast_zero, zero_add] at htotal
    unfold signed64 unsigned64 signedSum
    dsimp only
    rw [← htotal]
    split_ifs <;> omega
  rw [hsum]

end Volumes

/-- No volume is mounted. -/
def noVolumes : VolumeLayer Unit :=
  { volumeRead := fun _ _ _ s => (.failed 22 (by decide) (by decide), s)
    volumeWrite := fun _ _ _ _ s => (.failed 22 (by decide) (by decide), s)
    read_le := fun _ _ _ _ => Nat.zero_le _
    write_le := fun _ _ _ _ _ => Nat.zero_le _ }

end Enkel.VolumeCalls
