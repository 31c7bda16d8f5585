import Enkel.CdromReads
import Enkel.VolumeTable

/-!
The disk reads that FatFs asks for in diskio.cpp. The partition starts at a
fixed sector of the CD; the sector number of FatFs is multiplied as a 32-bit
word before it is added, and what the volume reports is not looked at, so the
read succeeds whatever the drive delivers.
-/
namespace Enkel.Cdrom

open Outcome VolumeSystem

inductive DResult
  | ok
  | error
  | writeProtected
  | notReady
  | invalidParameter
deriving DecidableEq, Repr

def gCDPartitionStartSector : ℕ := 33

def einval : ℕ := 2 ^ 64 - 22

section Model
variable (disc : ℕ → UInt8) (pages : VolumeIndices Drive) (allocated : ℕ → UInt8)

/-- VolumeRead, where the implementations are those of CD-ROM drives. -/
def volumeRead (handle offset : ℕ) (buffer : ℕ → UInt8) (size : ℕ) (temp : TempBuffer) :
    Except Fault (ℕ × (ℕ → UInt8) × TempBuffer) :=
  match (getVolumeIndex pages handle).volumeImplementation with
  | none => return (einval, buffer, temp)
  | some drive => cdromVolumeRead disc drive allocated offset buffer size temp

/-- disk_read of a drive with the given volume. -/
def diskRead (volume : ℕ) (buff : ℕ → UInt8) (sector count : ℕ) (temp : TempBuffer) :
    Except Fault (DResult × (ℕ → UInt8) × TempBuffer) := do
  let sectorSize := 512
  let offset := add64 (gCDPartitionStartSector * Cdrom.sectorSize) (sector * sectorSize % 2 ^ 32)
  let (_, buff, temp) ←
    volumeRead disc pages allocated volume offset buff (count * sectorSize % 2 ^ 32) temp
  return (.ok, buff, temp)

end Model

section Claim
variable {pages : VolumeIndices Drive} {drive : Drive} {volume sector count r : ℕ}
  {disc allocated buff : ℕ → UInt8} {temp : TempBuffer}

/-- Where a sector of the partition starts on the disc. -/
def partitionOffset (sector : ℕ) : ℕ := 33 * 2048 + sector * 512

/-- No assertion fails, and after a read that succeeds the buffer holds the sectors. -/
def ReadsSectors (pages : VolumeIndices Drive) (volume sector count : ℕ) : Prop :=
  ∀ (disc allocated buff : ℕ → UInt8) (temp : TempBuffer),
    ∃ result buff' temp',
      diskRead disc pages allocated volume buff sector count temp = .ok (result, buff', temp') ∧
      (result = .ok → ∀ i < count * 512, buff' i = disc (partitionOffset sector + i))

/-- The volume is that of a drive, the sector lies in the first 2^32 bytes of the
partition, and what the drive delivers reaches up to the end of the last sector. -/
def Served (pages : VolumeIndices Drive) (volume sector count : ℕ) : Prop :=
  ∃ drive r, (getVolumeIndex pages volume).volumeImplementation = some drive ∧
    sector * 512 < 2 ^ 32 ∧
    delivered drive (partitionOffset sector) (count * 512) = some r ∧
    partitionOffset sector % sectorSize + count * 512 ≤ r

/-- The offset that disk_read passes on. -/
def readOffset (sector : ℕ) : ℕ := 33 * 2048 + sector * 512 % 2 ^ 32

theorem request_readOffset (hcount : count ≤ 128) :
    Request (readOffset sector) (count * 512) := by
  unfold readOffset
  refine ⟨?_, ?_⟩
  · simp only [sectorSize]
    omega
  · unfold sectorsOf
    simp only [sectorSize]
    omega

theorem diskRead_eq (hcount : count ≤ 128)
    (hvolume : (getVolumeIndex pages volume).volumeImplementation = some drive) :
    diskRead disc pages allocated volume buff sector count temp =
      (cdromVolumeRead disc drive allocated (readOffset sector) buff (count * 512) temp >>=
        fun result => .ok (.ok, result.2.1, result.2.2)) := by
  have hoffset : add64 (gCDPartitionStartSector * Cdrom.sectorSize) (sector * 512 % 2 ^ 32) =
      readOffset sector := add64_of_lt (by simp only [gCDPartitionStartSector, sectorSize]; omega)
  have hsize : count * 512 % 2 ^ 32 = count * 512 := Nat.mod_eq_of_lt (by omega)
  unfold diskRead volumeRead
  simp only [hvolume, hoffset, hsize]
  rfl

/-- The buffer after a read of which the drive delivered `r` bytes. -/
theorem diskRead_delivered (hcount : count ≤ 128)
    (hvolume : (getVolumeIndex pages volume).volumeImplementation = some drive)
    (hr : delivered drive (readOffset sector) (count * 512) = some r) :
    diskRead disc pages allocated volume buff sector count temp =
      .ok (.ok, fun i => if i < min r (count * 512) then
          (temp.filled disc allocated (readOffset sector) (count * 512) r).bytes
            (readOffset sector % sectorSize + i)
        else buff i,
        temp.filled disc allocated (readOffset sector) (count * 512) r) := by
  rw [diskRead_eq hcount hvolume, cdromVolumeRead_eq (request_readOffset hcount) hr, ok_bind]

theorem readOffset_div_lt : readOffset sector / sectorSize < 2 ^ 32 := by
  unfold readOffset
  simp only [sectorSize]
  omega

/-- What a read makes of a cleared buffer when no other buffer holds anything. -/
theorem diskRead_blank (hcount : count ≤ 128)
    (hvolume : (getVolumeIndex pages volume).volumeImplementation = some drive)
    (hr : delivered drive (readOffset sector) (count * 512) = some r) :
    diskRead disc pages (fun _ => 0) volume (fun _ => 0) sector count ⟨0, fun _ => 0⟩ =
      .ok (.ok, fun i =>
        if i < min r (count * 512) ∧ readOffset sector % sectorSize + i < r then
          disc (readOffset sector + i)
        else 0,
        TempBuffer.filled ⟨0, fun _ => 0⟩ disc (fun _ => 0) (readOffset sector) (count * 512) r) := by
  have hgrown : ∀ size, (TempBuffer.grow ⟨0, fun _ => 0⟩ size fun _ => 0).bytes = fun _ => 0 := by
    intro size
    unfold TempBuffer.grow
    split_ifs <;> rfl
  rw [diskRead_delivered hcount hvolume hr]
  congr 3
  funext i
  rw [filled_bytes readOffset_div_lt, hgrown]
  by_cases hcopied : i < min r (count * 512) <;> simp [hcopied]

/-- A disc of ones, of which no byte is found in a cleared buffer. -/
theorem ReadsSectors.reaches (h : ReadsSectors pages volume sector count) (hpos : 1 ≤ count)
    (hcount : count ≤ 128)
    (hvolume : (getVolumeIndex pages volume).volumeImplementation = some drive)
    (hr : delivered drive (readOffset sector) (count * 512) = some r) :
    readOffset sector % sectorSize + count * 512 ≤ r := by
  obtain ⟨result, buff', temp', heq, hbytes⟩ :=
    h (fun _ => 1) (fun _ => 0) (fun _ => 0) ⟨0, fun _ => 0⟩
  rw [diskRead_blank hcount hvolume hr] at heq
  cases heq
  have hlast := hbytes rfl (count * 512 - 1) (by omega)
  by_contra hshort
  dsimp only at hlast
  rw [if_neg (by omega)] at hlast
  exact absurd hlast (by decide)

/-- A disc with a single one, at the first byte of the sectors. -/
theorem ReadsSectors.offset_lt (h : ReadsSectors pages volume sector count) (hpos : 1 ≤ count)
    (hcount : count ≤ 128)
    (hvolume : (getVolumeIndex pages volume).volumeImplementation = some drive)
    (hr : delivered drive (readOffset sector) (count * 512) = some r) : sector * 512 < 2 ^ 32 := by
  obtain ⟨result, buff', temp', heq, hbytes⟩ :=
    h (fun a => if a = partitionOffset sector then 1 else 0) (fun _ => 0) (fun _ => 0)
      ⟨0, fun _ => 0⟩
  rw [diskRead_blank hcount hvolume hr] at heq
  cases heq
  have hfirst := hbytes rfl 0 (by omega)
  by_contra hwrapped
  have hne : readOffset sector ≠ partitionOffset sector := by
    unfold readOffset partitionOffset
    omega
  simp only [Nat.add_zero, if_neg hne, ite_self, if_true] at hfirst
  exact absurd hfirst (by decide)

theorem readsSectors_iff (hpos : 1 ≤ count) (hcount : count ≤ 128) :
    ReadsSectors pages volume sector count ↔ Served pages volume sector count := by
  have hoffset : sector * 512 < 2 ^ 32 → readOffset sector = partitionOffset sector := by
    intro hlt
    unfold readOffset partitionOffset
    rw [Nat.mod_eq_of_lt hlt]
  constructor
  · intro hreads
    cases hvolume : (getVolumeIndex pages volume).volumeImplementation with
    | none =>
      obtain ⟨result, buff', temp', heq, hbytes⟩ :=
        hreads (fun _ => 1) (fun _ => 0) (fun _ => 0) ⟨0, fun _ => 0⟩
      unfold diskRead volumeRead at heq
      simp only [hvolume] at heq
      cases heq
      exact absurd (hbytes rfl 0 (by omega)) (by decide)
    | some drive =>
      cases hr : delivered drive (readOffset sector) (count * 512) with
      | none =>
        obtain ⟨result, buff', temp', heq, -⟩ :=
          hreads (fun _ => 1) (fun _ => 0) (fun _ => 0) ⟨0, fun _ => 0⟩
        rw [diskRead_eq hcount hvolume,
          cdromVolumeRead_stops (request_readOffset hcount) hr] at heq
        cases heq
      | some r =>
        have hlt := hreads.offset_lt hpos hcount hvolume hr
        have hreach := hreads.reaches hpos hcount hvolume hr
        rw [hoffset hlt] at hr hreach
        exact ⟨drive, r, hvolume, hlt, hr, hreach⟩
  · rintro ⟨drive, r, hvolume, hlt, hr, hreach⟩ disc allocated buff temp
    rw [← hoffset hlt] at hr hreach
    refine ⟨_, _, _, diskRead_delivered hcount hvolume hr, fun _ i hi => ?_⟩
    rw [if_pos (by omega), filled_bytes readOffset_div_lt, if_pos (by omega), hoffset hlt]

end Claim

section Examples

/-- One CD-ROM drive, mounted as the volume of the handle zero. -/
def oneDrive (drive : Drive) : VolumeIndices Drive := fun _ _ => ⟨0, some drive, 0⟩

/-- The first sector, from a drive that delivers both sectors asked for. -/
theorem readsSectors_iff_first :
    ReadsSectors (oneDrive fun _ => .transferred 4096) 0 0 1 ↔
      Served (oneDrive fun _ => .transferred 4096) 0 0 1 :=
  readsSectors_iff (by decide) (by decide)

/-- A failed command leaves the buffer as it was, and the read succeeds. -/
theorem failed_command_succeeds :
    ¬ ReadsSectors (oneDrive fun _ => .failed) 0 0 1 := by
  intro hreads
  have hnothing : delivered (fun _ => .failed) (readOffset 0) (1 * 512) = some 0 := rfl
  exact absurd (hreads.reaches (by decide) (by decide) rfl hnothing) (by decide)

end Examples

end Enkel.Cdrom
