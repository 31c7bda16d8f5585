import Enkel.Types

/-!
Byte reads from the CD-ROM of cdrom.cpp. The drive delivers whole sectors into
a buffer that all reads share and that keeps what the last one left there. A
read asks for the sectors of its range and one more, and copies as many bytes
as the drive has delivered, at most as many as were asked for; the copy starts
inside the first sector, and the bytes before it count as delivered too.
-/
namespace Enkel.Cdrom

open Outcome

abbrev sectorSize : ℕ := 2048

inductive Fault
  | assertion (message : String)
deriving DecidableEq, Repr

/-- The 12 bytes of READ(12). -/
def atapiCommand (lba sectorCount : ℕ) : List ℕ :=
  [0xA8, 0, lba >>> 24 &&& 0xFF, lba >>> 16 &&& 0xFF, lba >>> 8 &&& 0xFF, lba &&& 0xFF, 0, 0, 0,
    if sectorCount = 256 then 0 else sectorCount &&& 0xFF, 0, 0]

def bigEndian (bytes : List ℕ) : ℕ := bytes.foldl (fun value byte => value * 256 + byte) 0

/-- The sector that a command starts with. -/
def firstSector (command : List ℕ) : ℕ := bigEndian ((command.drop 2).take 4)

/-- The number of sectors that a command asks for. -/
def sectorsWanted (command : List ℕ) : ℕ := bigEndian ((command.drop 6).take 4)

/-- How the drive ends a command: with an error in its task file, with a SATA error,
or with so many bytes in the buffer, from the first one wanted on. -/
inductive Completion
  | failed
  | sataError
  | transferred (byteCount : ℕ)
deriving DecidableEq, Repr

abbrev Drive := List ℕ → Completion

/-- GTempCDRomBufferSize and GTempCDRomBuffer. -/
structure TempBuffer where
  size : ℕ
  bytes : ℕ → UInt8

section Model
variable (disc : ℕ → UInt8) (drive : Drive)

def readSectorsCD (lba sectorCount : ℕ) (buffer : ℕ → UInt8) :
    Except Fault (ℕ × (ℕ → UInt8)) := do
  let byteSize := sectorCount * sectorSize % 2 ^ 32
  require (sectorCount < 256) (.assertion "READ(12) limited to 255 sectors.")
  require (byteSize ≤ 4 * 1024 * 1024) (.assertion "PRDT limited to 4MB each.")
  let command := atapiCommand lba sectorCount
  match drive command with
  | .failed => return (0, buffer)
  | .sataError => throw (.assertion "SATA Error")
  | .transferred byteCount =>
    return (byteCount, fun i =>
      if i < byteCount then disc (firstSector command * sectorSize + i) else buffer i)

/-- The buffer that the next read uses; one that rpmalloc returns holds anything. -/
def TempBuffer.grow (temp : TempBuffer) (size : ℕ) (allocated : ℕ → UInt8) : TempBuffer :=
  if temp.size < size then ⟨size, allocated⟩ else temp

/-- CdromVolume_Read into a buffer: the value returned and both buffers afterwards. -/
def cdromVolumeRead (allocated : ℕ → UInt8) (offset : ℕ) (buffer : ℕ → UInt8) (size : ℕ)
    (temp : TempBuffer) : Except Fault (ℕ × (ℕ → UInt8) × TempBuffer) := do
  let startSector := (offset &&& (2 ^ 64 - sectorSize)) / sectorSize
  let sectorCount := sub64 (alignSize (add64 offset size) sectorSize / sectorSize) startSector
  let sectorCountUpperBound := add64 1 sectorCount
  let temp := temp.grow (sectorCountUpperBound * sectorSize % 2 ^ 64) allocated
  let (readSize, bytes) ← readSectorsCD disc drive startSector sectorCountUpperBound temp.bytes
  let writeSize := min readSize size
  return (writeSize,
    fun i => if i < writeSize then bytes (offset - startSector * sectorSize + i) else buffer i,
    { temp with bytes := bytes })

end Model

/-- The sectors that the bytes of a range lie in. -/
def sectorsOf (offset size : ℕ) : ℕ :=
  (offset + size + (sectorSize - 1)) / sectorSize - offset / sectorSize

/-- What the drive is asked for. -/
def commandFor (offset size : ℕ) : List ℕ :=
  atapiCommand (offset / sectorSize) (1 + sectorsOf offset size)

section Commands
variable {lba sectorCount : ℕ}

theorem and_byte (x : ℕ) : x &&& 0xFF = x % 256 := Nat.and_two_pow_sub_one_eq_mod x 8

/-- Four bytes of the command hold the sector. -/
theorem firstSector_atapiCommand : firstSector (atapiCommand lba sectorCount) = lba % 2 ^ 32 := by
  simp only [firstSector, atapiCommand, bigEndian, List.drop_succ_cons, List.drop_zero,
    List.take_succ_cons, List.take_zero, List.foldl_cons, List.foldl_nil, and_byte,
    Nat.shiftRight_eq_div_pow]
  omega

theorem sectorsWanted_atapiCommand (h : sectorCount < 256) :
    sectorsWanted (atapiCommand lba sectorCount) = sectorCount := by
  have hne : sectorCount ≠ 256 := by omega
  simp only [sectorsWanted, atapiCommand, bigEndian, List.drop_succ_cons, List.drop_zero,
    List.take_succ_cons, List.take_zero, List.foldl_cons, List.foldl_nil, and_byte, if_neg hne]
  omega

/-- Masking off the offset inside a sector. -/
theorem and_sectorMask (x : ℕ) : x &&& (2 ^ 64 - sectorSize) = x / 2048 % 2 ^ 53 * 2048 :=
  Words.and_span x (show 11 ≤ 64 by omega)

end Commands

section Spec
variable {disc : ℕ → UInt8} {drive : Drive} {allocated buffer : ℕ → UInt8} {offset size r : ℕ}
  {temp : TempBuffer}

/-- A range of bytes that a 64-bit offset can reach, in few enough sectors. -/
structure Request (offset size : ℕ) : Prop where
  end_lt : offset + size + sectorSize ≤ 2 ^ 64
  few : sectorsOf offset size ≤ 254

/-- The shared buffer after a command with `r` bytes delivered. -/
def TempBuffer.filled (temp : TempBuffer) (disc allocated : ℕ → UInt8) (offset size r : ℕ) :
    TempBuffer :=
  let grown := temp.grow ((1 + sectorsOf offset size) * sectorSize) allocated
  { grown with
    bytes := fun i =>
      if i < r then disc (offset / sectorSize % 2 ^ 32 * sectorSize + i) else grown.bytes i }

theorem Request.sectors (h : Request offset size) :
    (offset &&& (2 ^ 64 - sectorSize)) / sectorSize = offset / sectorSize ∧
    add64 1 (sub64 (alignSize (add64 offset size) sectorSize / sectorSize) (offset / sectorSize)) =
      1 + sectorsOf offset size := by
  obtain ⟨hend, hfew⟩ := h
  unfold sectorsOf at hfew ⊢
  simp only [sectorSize] at hend hfew ⊢
  have hsum : add64 offset size = offset + size := add64_of_lt (by omega)
  have halign : alignSize (offset + size) 2048 = (offset + size + 2047) / 2048 * 2048 := by
    have hadd : add64 (offset + size) 2047 = offset + size + 2047 := add64_of_lt (by omega)
    have hmask := and_sectorMask (offset + size + 2047)
    unfold alignSize
    rw [hadd]
    exact hmask.trans (by omega)
  have hmask := and_sectorMask offset
  simp only [sectorSize] at hmask
  refine ⟨by rw [hmask]; omega, ?_⟩
  rw [hsum, halign, Nat.mul_div_cancel _ (by omega), sub64_of_le (by omega) (by omega)]
  exact add64_of_lt (by omega)

/-- How many bytes the drive delivers for a range, if no assertion stops the read. -/
def delivered (drive : Drive) (offset size : ℕ) : Option ℕ :=
  match drive (commandFor offset size) with
  | .failed => some 0
  | .sataError => none
  | .transferred byteCount => some byteCount

/-- What a read asks the drive for, and what it copies. -/
theorem cdromVolumeRead_eq_bind (h : Request offset size) :
    cdromVolumeRead disc drive allocated offset buffer size temp =
      (match drive (commandFor offset size) with
        | .failed => return (0, (temp.filled disc allocated offset size 0).bytes)
        | .sataError => throw (.assertion "SATA Error")
        | .transferred byteCount =>
          return (byteCount, (temp.filled disc allocated offset size byteCount).bytes) :
        Except Fault (ℕ × (ℕ → UInt8))) >>= fun result =>
      .ok (min result.1 size,
        fun i => if i < min result.1 size then result.2 (offset % sectorSize + i) else buffer i,
        { temp.filled disc allocated offset size 0 with bytes := result.2 }) := by
  obtain ⟨hstart, hcount⟩ := h.sectors
  have hfew := h.few
  have hlt : 1 + sectorsOf offset size < 256 := by omega
  have hbytes : (1 + sectorsOf offset size) * sectorSize % 2 ^ 32 ≤ 4 * 1024 * 1024 := by
    simp only [sectorSize]
    omega
  have hsize : (1 + sectorsOf offset size) * sectorSize % 2 ^ 64 =
      (1 + sectorsOf offset size) * sectorSize := by
    simp only [sectorSize]
    omega
  have hinside : offset - offset / sectorSize * sectorSize = offset % sectorSize := by
    simp only [sectorSize]
    omega
  unfold cdromVolumeRead readSectorsCD commandFor
  simp only [hstart, hcount, hsize, hinside, require_true hlt, require_true hbytes, ok_bind]
  cases drive (atapiCommand (offset / sectorSize) (1 + sectorsOf offset size)) with
  | failed =>
    simp only [TempBuffer.filled, Nat.not_lt_zero, if_false]
    rfl
  | sataError => rfl
  | transferred byteCount =>
    simp only [TempBuffer.filled, firstSector_atapiCommand]
    rfl

/-- A read copies from inside the first sector on, whatever was delivered. -/
theorem cdromVolumeRead_eq (h : Request offset size) (hr : delivered drive offset size = some r) :
    cdromVolumeRead disc drive allocated offset buffer size temp =
      .ok (min r size,
        fun i => if i < min r size then
          (temp.filled disc allocated offset size r).bytes (offset % sectorSize + i)
        else buffer i, temp.filled disc allocated offset size r) := by
  rw [cdromVolumeRead_eq_bind h]
  unfold delivered at hr
  cases hend : drive (commandFor offset size) with
  | failed =>
    rw [hend] at hr
    obtain rfl : 0 = r := Option.some.inj hr
    rfl
  | sataError =>
    rw [hend] at hr
    cases hr
  | transferred byteCount =>
    rw [hend] at hr
    obtain rfl : byteCount = r := Option.some.inj hr
    rfl

/-- Where the sector fits into the command, the delivered bytes are those of the range. -/
theorem filled_bytes (hlba : offset / sectorSize < 2 ^ 32) (i : ℕ) :
    (temp.filled disc allocated offset size r).bytes (offset % sectorSize + i) =
      if offset % sectorSize + i < r then disc (offset + i)
      else (temp.grow ((1 + sectorsOf offset size) * sectorSize) allocated).bytes
        (offset % sectorSize + i) := by
  have haddress : offset / sectorSize % 2 ^ 32 * sectorSize + (offset % sectorSize + i) =
      offset + i := by
    simp only [sectorSize] at hlba ⊢
    omega
  simp only [TempBuffer.filled]
  rw [haddress]

/-- A SATA error stops the kernel. -/
theorem cdromVolumeRead_stops (h : Request offset size) (hr : delivered drive offset size = none) :
    cdromVolumeRead disc drive allocated offset buffer size temp =
      .error (.assertion "SATA Error") := by
  rw [cdromVolumeRead_eq_bind h]
  unfold delivered at hr
  cases hend : drive (commandFor offset size) with
  | sataError => rfl
  | failed =>
    rw [hend] at hr
    cases hr
  | transferred byteCount =>
    rw [hend] at hr
    cases hr

end Spec

section Claim
variable {drive : Drive} {sectors offset size r : ℕ}

/-- A range of bytes on a disc, in few enough sectors for one command. -/
structure OnDisc (sectors offset size : ℕ) : Prop where
  disc_lt : sectors * sectorSize < 2 ^ 64
  end_le : offset + size ≤ sectors * sectorSize
  few : sectorsOf offset size ≤ 254

theorem OnDisc.request (h : OnDisc sectors offset size) : Request offset size := by
  obtain ⟨hdisc, hend, hfew⟩ := h
  simp only [sectorSize] at hdisc hend
  refine ⟨?_, hfew⟩
  simp only [sectorSize]
  omega

/-- The bytes of the wanted sectors that a disc has. -/
def existingBytes (sectors : ℕ) (command : List ℕ) : ℕ :=
  (min (firstSector command + sectorsWanted command) sectors - firstSector command) * sectorSize

/-- For every disc and whatever the buffers held before, the read returns the number of
bytes that it has put into the buffer. They are those of the range, they come from the bytes
just delivered, and none is missing when every wanted sector that exists was delivered. -/
def ReadsRange (drive : Drive) (sectors offset size r : ℕ) : Prop :=
  ∀ (disc allocated buffer : ℕ → UInt8) (temp : TempBuffer),
    ∃ n buffer' temp',
      cdromVolumeRead disc drive allocated offset buffer size temp = .ok (n, buffer', temp') ∧
      n ≤ size ∧ (∀ i < n, buffer' i = disc (offset + i)) ∧
      (∀ i < n, offset % sectorSize + i < r) ∧ (∀ i, n ≤ i → buffer' i = buffer i) ∧
      (r = existingBytes sectors (commandFor offset size) → n = size)

/-- Nothing is copied, or the sector fits into the command and the delivered bytes reach
up to the end of the range, unless it starts with a sector. -/
def Reaches (offset size r : ℕ) : Prop :=
  size = 0 ∨ r = 0 ∨ (offset / sectorSize < 2 ^ 32 ∧
    (offset % sectorSize = 0 ∨ offset % sectorSize + size ≤ r))

theorem OnDisc.size_le_existingBytes (h : OnDisc sectors offset size) :
    size ≤ existingBytes sectors (commandFor offset size) := by
  have hfew := h.few
  have hend := h.end_le
  unfold existingBytes commandFor
  rw [firstSector_atapiCommand, sectorsWanted_atapiCommand (by omega)]
  unfold sectorsOf at hfew ⊢
  simp only [sectorSize] at hend hfew ⊢
  omega

/-- The byte of the disc that a command for a later sector asks for in its place. -/
theorem wrapped_ne (h : ¬ offset / sectorSize < 2 ^ 32) :
    offset / sectorSize % 2 ^ 32 * sectorSize + offset % sectorSize ≠ offset := by
  simp only [sectorSize] at h ⊢
  omega

/-- What is copied comes from the delivered bytes and is right exactly when the range is
reached. -/
theorem readsRange_iff (h : OnDisc sectors offset size)
    (hr : delivered drive offset size = some r) :
    ReadsRange drive sectors offset size r ↔ Reaches offset size r := by
  constructor
  · intro hreads
    by_cases hcopied : size = 0 ∨ r = 0
    · exact hcopied.elim Or.inl fun hzero => Or.inr (Or.inl hzero)
    push Not at hcopied
    obtain ⟨hsize, hpos⟩ := hcopied
    refine Or.inr (Or.inr ⟨?_, ?_⟩)
    · -- A disc on which only the first byte of the range is set.
      by_contra hwrapped
      obtain ⟨n, buffer', temp', heq, -, hbytes, hinside, -⟩ :=
        hreads (fun a => if a = offset then 1 else 0) (fun _ => 0) (fun _ => 0) ⟨0, fun _ => 0⟩
      rw [cdromVolumeRead_eq h.request hr] at heq
      cases heq
      have hn : 0 < min r size := by omega
      have hzero := hbytes 0 hn
      have hin := hinside 0 hn
      simp only [TempBuffer.filled, Nat.add_zero] at hzero hin
      rw [if_pos hn, if_pos hin, if_neg (wrapped_ne hwrapped), if_pos trivial] at hzero
      exact absurd hzero (by decide)
    · obtain ⟨n, buffer', temp', heq, -, -, hinside, -⟩ :=
        hreads (fun _ => 0) (fun _ => 0) (fun _ => 0) ⟨0, fun _ => 0⟩
      rw [cdromVolumeRead_eq h.request hr] at heq
      cases heq
      have hlast := hinside (min r size - 1) (by omega)
      omega
  · intro hreaches disc allocated buffer temp
    refine ⟨_, _, _, cdromVolumeRead_eq h.request hr, Nat.min_le_right r size, fun i hi => ?_,
      fun i hi => ?_, fun i hi => if_neg (by omega), fun hfull => ?_⟩
    · obtain hzero | hzero | ⟨hlba, hend⟩ := hreaches
      · omega
      · omega
      have hin : offset % sectorSize + i < r := by omega
      rw [if_pos hi, filled_bytes hlba, if_pos hin]
    · obtain hzero | hzero | ⟨-, hend⟩ := hreaches <;> omega
    · apply Nat.min_eq_right
      rw [hfull]
      exact h.size_le_existingBytes

/-- The first bytes of a disc of one sector, delivered whole. -/
theorem readsRange_iff_first :
    ReadsRange (fun _ => .transferred 2048) 1 0 16 2048 ↔ Reaches 0 16 2048 :=
  readsRange_iff ⟨by decide, by decide, by decide⟩ rfl

/-- The second half of a sector of which the drive delivers the first quarter: the bytes
copied were in the buffer before. -/
theorem short_read_copies_old_bytes :
    ¬ ReadsRange (fun _ => .transferred 512) 1 1024 1024 512 := by
  intro hreads
  obtain ⟨n, buffer', temp', heq, -, -, hinside, -⟩ :=
    hreads (fun _ => 0) (fun _ => 0) (fun _ => 0) ⟨0, fun _ => 0⟩
  have hrequest : Request 1024 1024 := ⟨by decide, by decide⟩
  rw [cdromVolumeRead_eq hrequest rfl] at heq
  cases heq
  exact absurd (hinside 0 (by decide)) (by decide)

end Claim

end Enkel.Cdrom
