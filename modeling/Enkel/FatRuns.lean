import Enkel.FatSeeks
import Enkel.VolumeCalls
import Enkel.RequestRuns
import Mathlib.Tactic.IntervalCases

/-!
Calls of FatVolume_Read and FatVolume_Seek, down to the medium. Every open file has a file object
of its own, and all of them share the window of the volume. Through any run of these calls, the
files behave as contents with a file pointer, provided that the chains are whole and the medium
delivers the sectors of the volume.
-/
namespace Enkel.FatFs

open Outcome FATFS FileMapping VolumeCalls VolumeSystem.FileHandleMask

/-- How a call can stop: in the volume, or in FatFs. -/
inductive Halt
  | volume (fault : VolumeCalls.Fault)
  | fatFs (stop : Stop)
deriving DecidableEq, Repr

inductive Request
  | read (handle offset size : ℕ) (buffer : ℕ → UInt8)
  | seek (handle : ℕ) (offset : ℤ) (origin : SeekMode)

/-- What a call returns, and the buffer of the caller after a read. -/
inductive Answer
  | read (returned : ℕ) (buffer : ℕ → UInt8)
  | sought (returned : ℕ)

/-- The volume with the file objects in FileHandles, and what has been answered. -/
structure FatState (σ : Type) where
  fs : FATFS
  files : ℕ → Option FIL
  medium : σ
  answers : List Answer

/-- The same with files that are contents and a file pointer. -/
structure FileState where
  files : FileHandles
  answers : List Answer

section Model
variable {σ : Type} (disk : DiskRead σ)

/-- The seek, the read and the seek back of FatVolume_Read. -/
def readFile (a : Access σ) (offset size : ℕ) (buffer : ℕ → UInt8) :
    Except Stop (ℕ × (ℕ → UInt8) × Access σ) := do
  let tell := a.fp.fptr
  let (_, a) ←
    if offset ≠ currentOffset then fLseek disk a (offset % 2 ^ 32) else .ok (.ok, a)
  let (result, t) ← fRead disk a buffer (size % 2 ^ 32)
  let (_, a) ←
    if offset ≠ currentOffset then fLseek disk t.toAccess (tell % 2 ^ 32)
    else .ok (.ok, t.toAccess)
  return (if result = .ok then t.br else 0, t.rbuff, a)

/-- FatVolume_Seek of a file. -/
def soughtFile (a : Access σ) (offset : ℤ) : SeekMode → Except Stop (ℕ × Access σ)
  | .set => do
    let (_, a) ← fLseek disk a (unsigned64 offset % 2 ^ 32)
    return (a.fp.fptr, a)
  | .current => do
    let current : ℤ := a.fp.fptr
    let (_, a) ← fLseek disk a (unsigned64 (offset + current) % 2 ^ 32)
    return (unsigned64 (current + offset), a)
  | .end => do
    let size : ℤ := a.fp.objsize
    let (_, a) ← fLseek disk a (unsigned64 (size - offset) % 2 ^ 32)
    return (unsigned64 (size - offset), a)

def FatState.file (s : FatState σ) (handle : ℕ) : Except Halt FIL := do
  require (fileHandle handle < maxFileHandles) (.volume (.outOfRange .fileHandles))
  match s.files (fileHandle handle) with
  | none => throw (.volume .nullFil)
  | some fp => return fp

def FatState.store (s : FatState σ) (handle : ℕ) (a : Access σ) (answer : Answer) : FatState σ :=
  { fs := a.fs
    files := Function.update s.files (fileHandle handle) (some a.fp)
    medium := a.medium
    answers := answer :: s.answers }

/-- A call, with the volume in the state that the calls before it have left. -/
def fatStep : Request → FatState σ → Except Halt (FatState σ)
  | .read handle offset size buffer, s =>
    if size = 0 then
      .ok { s with answers := .read 0 buffer :: s.answers }
    else do
      let fp ← s.file handle
      require (offset ≠ currentOffset → offset < 2 ^ 63) (.volume (.assertion "Invalid offset"))
      let (returned, bytes, a) ←
        (readFile disk ⟨s.fs, fp, s.medium⟩ offset size buffer).mapError Halt.fatFs
      return s.store handle a (.read returned bytes)
  | .seek handle offset origin, s => do
    let fp ← s.file handle
    let (returned, a) ← (soughtFile disk ⟨s.fs, fp, s.medium⟩ offset origin).mapError Halt.fatFs
    return s.store handle a (.sought returned)

/-- The buffer of a caller with bytes at its start. -/
def filled (buffer : ℕ → UInt8) (bytes : List UInt8) : ℕ → UInt8 := fun i => bytes.getD i (buffer i)

/-- The same call on files that are contents and a file pointer. -/
def fileStep : Request → FileState → Except Halt FileState
  | .read handle offset size buffer, t => do
    let (bytes, files) ← (fatVolumeRead handle offset size t.files).mapError fun fault =>
      Halt.volume (Fault.ofVolumeFault fault)
    return ⟨files, .read bytes.length (filled buffer bytes) :: t.answers⟩
  | .seek handle offset origin, t => do
    let (returned, files) ← (fatVolumeSeek handle t.files offset origin).mapError Halt.volume
    return ⟨files, .sought returned :: t.answers⟩

end Model

/-- An open file object, and its file: the bytes along the chain. -/
structure Represents (image : ℕ → UInt8) (fs : FATFS) (fp : FIL) (fil : Fil) : Prop where
  file : FileOk image fs fp
  contents : fil.contents = (List.range fp.objsize).map (byteAt image fs fp.sclust)
  fptr : fil.fptr = fp.fptr

/-- The volume can be read, and each file object represents the file of its handle. -/
structure Stored {σ : Type} (disk : DiskRead σ) (image : ℕ → UInt8) (s : FatState σ)
    (t : FileState) : Prop where
  sound : s.fs.Sound
  serves : Serves disk image s.fs
  window : s.fs.WindowOk image
  files : ∀ i, Option.Rel (Represents image s.fs) (s.files i) (t.files i)
  answers : s.answers = t.answers

section Files
variable {σ : Type} {disk : DiskRead σ} {image : ℕ → UInt8} {a : Access σ} {fil : Fil}
  {fs fs' : FATFS} {fp : FIL}

theorem FileOk.of_same (h : FileOk image fs fp) (hsame : fs.SameVolume fs') :
    FileOk image fs' fp := by
  obtain ⟨win, winsect, rfl⟩ := hsame
  exact ⟨⟨h.checks, h.size_lt, h.chain, h.fptr_le, h.cached⟩, h.cluster, h.sector⟩

theorem Represents.of_same (h : Represents image fs fp fil) (hsame : fs.SameVolume fs') :
    Represents image fs' fp fil := by
  refine ⟨h.file.of_same hsame, ?_, h.fptr⟩
  rw [h.contents]
  obtain ⟨win, winsect, rfl⟩ := hsame
  rfl

theorem Represents.length_eq (h : Represents image fs fp fil) :
    fil.contents.length = fp.objsize := by
  rw [h.contents, List.length_map, List.length_range]

theorem Represents.getElem?_eq (h : Represents image fs fp fil) {x : ℕ} (hx : x < fp.objsize) :
    fil.contents[x]? = some (byteAt image fs fp.sclust x) := by
  rw [h.contents, List.getElem?_map, List.getElem?_range hx]
  rfl

theorem fLseek_represents (ofs : ℕ) (hsound : a.fs.Sound) (hserves : Serves disk image a.fs)
    (hwindow : a.fs.WindowOk image) (h : Represents image a.fs a.fp fil) :
    ∃ b, fLseek disk a (ofs % 2 ^ 32) = .ok (.ok, b) ∧ a.fs.SameVolume b.fs ∧
      b.fs.WindowOk image ∧ Represents image b.fs b.fp (fil.fLseek ofs) := by
  obtain ⟨b, hseek, hsame, hwindow', hfile, hsclust, hsize, hfptr⟩ :=
    fLseek_served (ofs % 2 ^ 32) hsound hserves hwindow h.file
  have hrepresents : Represents image a.fs b.fp (fil.fLseek ofs) := by
    refine ⟨hfile, ?_, ?_⟩
    · rw [hsclust, hsize]
      exact h.contents
    · change min (ofs % 2 ^ 32) fil.contents.length = b.fp.fptr
      rw [hfptr, h.length_eq]
  exact ⟨b, hseek, hsame, hwindow', hrepresents.of_same hsame⟩

theorem fRead_represents (btr : ℕ) (buffer : ℕ → UInt8) (hsound : a.fs.Sound)
    (hserves : Serves disk image a.fs) (hwindow : a.fs.WindowOk image)
    (h : Represents image a.fs a.fp fil) :
    ∃ t, fRead disk a buffer (btr % 2 ^ 32) = .ok (.ok, t) ∧ a.fs.SameVolume t.fs ∧
      t.fs.WindowOk image ∧ Represents image t.fs t.fp (fil.fRead btr).2 ∧
      t.br = (fil.delivered btr).length ∧ t.rbuff = filled buffer (fil.delivered btr) := by
  obtain ⟨t, hread, ⟨hreading, hfile⟩, hbr⟩ := fRead_served buffer (btr % 2 ^ 32)
    hsound hserves hwindow h.file
  have hlength : (fil.delivered btr).length = t.br := by
    unfold Fil.delivered
    rw [List.length_take, List.length_drop, h.length_eq, h.fptr, hbr]
  have hrepresents : Represents image a.fs t.fp (fil.fRead btr).2 := by
    refine ⟨hfile, ?_, ?_⟩
    · rw [hreading.sclust_eq, hreading.objsize_eq]
      exact h.contents
    · change fil.fptr + (fil.delivered btr).length = t.fp.fptr
      rw [hlength, h.fptr, hreading.position]
  refine ⟨t, hread, hreading.same, hreading.window, hrepresents.of_same hreading.same,
    hlength.symm, ?_⟩
  funext i
  unfold filled
  rw [hreading.bytes i, List.getD_eq_getElem?_getD]
  by_cases hi : i < t.br
  · have hin : a.fp.fptr + i < a.fp.objsize := by omega
    rw [if_pos hi]
    unfold Fil.delivered
    rw [List.getElem?_take_of_lt (by omega), List.getElem?_drop, h.fptr, h.getElem?_eq hin]
    rfl
  · rw [if_neg hi, List.getElem?_eq_none (by omega)]
    rfl

/-- The bytes of a read at an offset, and the file pointer that it leaves. -/
theorem readFile_represents (offset size : ℕ) (buffer : ℕ → UInt8) (hsound : a.fs.Sound)
    (hserves : Serves disk image a.fs) (hwindow : a.fs.WindowOk image)
    (h : Represents image a.fs a.fp fil) :
    ∃ b, readFile disk a offset size buffer = .ok ((readAt fil offset size).1.length,
        filled buffer (readAt fil offset size).1, b) ∧
      a.fs.SameVolume b.fs ∧ b.fs.WindowOk image ∧
      Represents image b.fs b.fp (readAt fil offset size).2 := by
  have htell : fil.fTell = a.fp.fptr := h.fptr
  unfold readFile readAt
  dsimp only
  by_cases hoffset : offset ≠ currentOffset
  · obtain ⟨b1, hseek, hsame1, hwindow1, h1⟩ := fLseek_represents offset hsound hserves
      hwindow h
    obtain ⟨t, hread, hsame2, hwindow2, h2, hbr, hbuffer⟩ := fRead_represents size buffer
      (hsame1.sound hsound) (serves_of_same hsame1 hserves) hwindow1 h1
    have hsame := hsame1.trans hsame2
    obtain ⟨b3, hback, hsame3, hwindow3, h3⟩ := fLseek_represents (a := t.toAccess)
      a.fp.fptr (hsame.sound hsound) (serves_of_same hsame hserves) hwindow2 h2
    rw [if_pos hoffset, hseek, ok_bind]
    dsimp only
    rw [hread, ok_bind]
    dsimp only
    rw [if_pos hoffset, hback, ok_bind, if_pos rfl, if_pos hoffset, if_pos hoffset, htell, hbr,
      hbuffer]
    exact ⟨b3, rfl, hsame.trans hsame3, hwindow3, h3⟩
  · obtain ⟨t, hread, hsame, hwindow', h', hbr, hbuffer⟩ := fRead_represents size buffer
      hsound hserves hwindow h
    rw [if_neg hoffset, ok_bind]
    dsimp only
    rw [hread, ok_bind]
    dsimp only
    rw [if_neg hoffset, ok_bind, if_pos rfl, if_neg hoffset, if_neg hoffset, hbr, hbuffer]
    exact ⟨t.toAccess, rfl, hsame, hwindow', h'⟩

theorem soughtFile_represents (origin : SeekMode) (distance : ℤ) (hsound : a.fs.Sound)
    (hserves : Serves disk image a.fs) (hwindow : a.fs.WindowOk image)
    (h : Represents image a.fs a.fp fil) :
    ∃ b, soughtFile disk a distance origin = .ok ((seekFile fil distance origin).1, b) ∧
      a.fs.SameVolume b.fs ∧ b.fs.WindowOk image ∧
      Represents image b.fs b.fp (seekFile fil distance origin).2 := by
  have htell : fil.fTell = a.fp.fptr := h.fptr
  have hsize : fil.fSize = a.fp.objsize := h.length_eq
  cases origin with
  | set =>
    obtain ⟨b, hseek, hsame, hwindow', h'⟩ := fLseek_represents (unsigned64 distance) hsound
      hserves hwindow h
    refine ⟨b, ?_, hsame, hwindow', h'⟩
    unfold soughtFile
    rw [hseek, ok_bind]
    exact congrArg Except.ok (congrArg (·, b) h'.fptr.symm)
  | current =>
    obtain ⟨b, hseek, hsame, hwindow', h'⟩ := fLseek_represents
      (unsigned64 (distance + fil.fTell)) hsound hserves hwindow h
    refine ⟨b, ?_, hsame, hwindow', h'⟩
    unfold soughtFile seekFile
    dsimp only
    rw [← htell, hseek, ok_bind]
    rfl
  | «end» =>
    obtain ⟨b, hseek, hsame, hwindow', h'⟩ := fLseek_represents
      (unsigned64 (fil.fSize - distance)) hsound hserves hwindow h
    refine ⟨b, ?_, hsame, hwindow', h'⟩
    unfold soughtFile seekFile
    dsimp only
    rw [← hsize, hseek, ok_bind]
    rfl

end Files

section Calls
variable {σ : Type} {disk : DiskRead σ} {image : ℕ → UInt8} {s s' : FatState σ} {t t' : FileState}
  {a : Access σ} {fil : Fil} {handle : ℕ} {answer : Answer} {requests : List Request}

/-- The entry of a handle in FileHandles. -/
theorem Stored.entry_cases (h : Stored disk image s t) (i : ℕ) :
    (s.files i = none ∧ t.files i = none) ∨
      ∃ fp fil, s.files i = some fp ∧ t.files i = some fil ∧ Represents image s.fs fp fil := by
  have hentry := h.files i
  cases hs : s.files i with
  | none =>
    cases ht : t.files i with
    | none => exact Or.inl ⟨rfl, rfl⟩
    | some fil =>
      rw [hs, ht] at hentry
      cases hentry
  | some fp =>
    cases ht : t.files i with
    | none =>
      rw [hs, ht] at hentry
      cases hentry
    | some fil =>
      rw [hs, ht] at hentry
      cases hentry with
      | some hrel => exact Or.inr ⟨fp, fil, rfl, rfl, hrel⟩

/-- A call on one file leaves the others as they are. -/
theorem Stored.store (h : Stored disk image s t) (hsame : s.fs.SameVolume a.fs)
    (hwindow : a.fs.WindowOk image) (hfile : Represents image a.fs a.fp fil) :
    Stored disk image (s.store handle a answer)
      ⟨Function.update t.files (fileHandle handle) (some fil), answer :: t.answers⟩ := by
  refine ⟨hsame.sound h.sound, serves_of_same hsame h.serves, hwindow, fun i => ?_,
    congrArg (answer :: ·) h.answers⟩
  change Option.Rel (Represents image a.fs)
    (Function.update s.files (fileHandle handle) (some a.fp) i)
    (Function.update t.files (fileHandle handle) (some fil) i)
  by_cases hi : i = fileHandle handle
  · rw [hi, Function.update_self, Function.update_self]
    exact Option.Rel.some hfile
  · rw [Function.update_of_ne hi, Function.update_of_ne hi]
    rcases h.entry_cases i with ⟨hs, ht⟩ | ⟨fp, fil', hs, ht, hrepresents⟩
    · rw [hs, ht]
      exact Option.Rel.none
    · rw [hs, ht]
      exact Option.Rel.some (hrepresents.of_same hsame)

/-- The two ways in which a call ends: both machines go on, or both stop with one error. -/
def Together (disk : DiskRead σ) (image : ℕ → UInt8) (x : Except Halt (FatState σ))
    (y : Except Halt FileState) : Prop :=
  (∃ s' t', x = .ok s' ∧ y = .ok t' ∧ Stored disk image s' t') ∨ ∃ e, x = .error e ∧ y = .error e

theorem Stored.read (h : Stored disk image s t) (handle offset size : ℕ) (buffer : ℕ → UInt8) :
    Together disk image (fatStep disk (.read handle offset size buffer) s)
      (fileStep (.read handle offset size buffer) t) := by
  unfold fatStep fileStep fatVolumeRead FatState.file
  dsimp only
  by_cases hsize : size = 0
  · rw [if_pos hsize, if_pos hsize]
    exact Or.inl ⟨_, _, rfl, rfl, h.sound, h.serves, h.window, h.files,
      congrArg (.read 0 buffer :: ·) h.answers⟩
  · rw [if_neg hsize, if_neg hsize]
    by_cases hlt : fileHandle handle < maxFileHandles
    · rw [require_true hlt, require_true hlt, ok_bind, ok_bind]
      rcases h.entry_cases (fileHandle handle) with ⟨hs, ht⟩ | ⟨fp, fil, hs, ht, hrepresents⟩
      · rw [hs, ht]
        exact Or.inr ⟨_, rfl, rfl⟩
      · rw [hs, ht]
        dsimp only
        by_cases hoffset : offset ≠ currentOffset → offset < 2 ^ 63
        · obtain ⟨b, hread, hsame, hwindow, hfile⟩ := readFile_represents
            (a := ⟨s.fs, fp, s.medium⟩) offset size buffer h.sound h.serves h.window hrepresents
          rw [pure_bind, require_true hoffset, require_true hoffset, hread]
          exact Or.inl ⟨_, _, rfl, rfl, h.store hsame hwindow hfile⟩
        · unfold require
          rw [pure_bind, if_neg hoffset, if_neg hoffset]
          exact Or.inr ⟨_, rfl, rfl⟩
    · unfold require
      rw [if_neg hlt, if_neg hlt]
      exact Or.inr ⟨_, rfl, rfl⟩

theorem Stored.seek (h : Stored disk image s t) (handle : ℕ) (offset : ℤ) (origin : SeekMode) :
    Together disk image (fatStep disk (.seek handle offset origin) s)
      (fileStep (.seek handle offset origin) t) := by
  unfold fatStep fileStep fatVolumeSeek fatFile FatState.file
  dsimp only
  by_cases hlt : fileHandle handle < maxFileHandles
  · rw [require_true hlt, require_true hlt, ok_bind, ok_bind]
    rcases h.entry_cases (fileHandle handle) with ⟨hs, ht⟩ | ⟨fp, fil, hs, ht, hrepresents⟩
    · rw [hs, ht]
      exact Or.inr ⟨_, rfl, rfl⟩
    · obtain ⟨b, hseek, hsame, hwindow, hfile⟩ := soughtFile_represents
        (a := ⟨s.fs, fp, s.medium⟩) origin offset h.sound h.serves
        h.window hrepresents
      rw [hs, ht]
      dsimp only
      rw [pure_bind, pure_bind, hseek]
      exact Or.inl ⟨_, _, rfl, rfl, h.store hsame hwindow hfile⟩
  · unfold require
    rw [if_neg hlt, if_neg hlt]
    exact Or.inr ⟨_, rfl, rfl⟩

theorem related (disk : DiskRead σ) (image : ℕ → UInt8) :
    RequestRuns.Related (fatStep disk) fileStep (Stored disk image) := by
  have htogether : ∀ r (s : FatState σ) t, Stored disk image s t →
      Together disk image (fatStep disk r s) (fileStep r t) := by
    intro r s t h
    cases r with
    | read handle offset size buffer => exact h.read handle offset size buffer
    | seek handle offset origin => exact h.seek handle offset origin
  refine ⟨fun r s t h => ?_, fun r s t s' t' h hs ht => ?_⟩
  · rcases htogether r s t h with ⟨s', t', hs, ht, -⟩ | ⟨e, hs, ht⟩
    · exact iff_of_true ⟨s', hs⟩ ⟨t', ht⟩
    · rw [hs, ht]
      constructor
      · rintro ⟨_, hok⟩
        cases hok
      · rintro ⟨_, hok⟩
        cases hok
  · rcases htogether r s t h with ⟨s1, t1, hs1, ht1, h1⟩ | ⟨e, hs1, -⟩
    · cases hs.symm.trans hs1
      cases ht.symm.trans ht1
      exact h1
    · cases hs.symm.trans hs1

/-- Through any run of reads and seeks, on any of the files that are open, the volume answers
what the contents of the files answer, and stops only where these do. -/
theorem Stored.run (h : Stored disk image s t) :
    (Succeeds (RequestRuns.run (fatStep disk) requests s) ↔
        Succeeds (RequestRuns.run fileStep requests t)) ∧
      ∀ s' t', RequestRuns.run (fatStep disk) requests s = .ok s' →
        RequestRuns.run fileStep requests t = .ok t' →
        s'.answers = t'.answers ∧ Stored disk image s' t' := by
  refine ⟨(related disk image).succeeds_run h, fun s' t' hs ht => ?_⟩
  have hstored := (related disk image).run h hs ht
  exact ⟨hstored.answers, hstored⟩

end Calls

section Disc
variable {disc allocated : ℕ → UInt8} {pages : VolumeSystem.VolumeIndices Cdrom.Drive}
  {volume : ℕ} {fs : FATFS} {s : FatState Cdrom.TempBuffer} {t : FileState}
  {requests : List Request}

/-- disk_read of diskio.cpp. -/
def cdromDisk (disc : ℕ → UInt8) (pages : VolumeSystem.VolumeIndices Cdrom.Drive)
    (allocated : ℕ → UInt8) (volume : ℕ) : DiskRead Cdrom.TempBuffer :=
  fun sector count buffer temp =>
    (Cdrom.diskRead disc pages allocated volume buffer sector count temp).mapError Stop.medium

/-- The sectors of the partition. -/
def partitionImage (disc : ℕ → UInt8) : ℕ → UInt8 := fun i => disc (Cdrom.partitionOffset 0 + i)

theorem FATFS.Sound.count_le (h : fs.Sound) {sector count : ℕ} (hin : fs.InArea sector count) :
    count ≤ 128 := by
  have hle := h.csize_le
  rcases hin with ⟨rfl, -, -⟩ | ⟨-, clst, -, -, hstart, hend⟩
  · decide
  · omega

/-- A drive that delivers the sectors of the volume serves it. -/
theorem serves_cdromDisk (hsound : fs.Sound)
    (hserved : ∀ sector count, fs.InArea sector count → Cdrom.Served pages volume sector count) :
    Serves (cdromDisk disc pages allocated volume) (partitionImage disc) fs := by
  intro sector count buffer temp hin
  obtain ⟨drive, r, hvolume, hlt, hr, hreach⟩ := hserved sector count hin
  have hoffset : Cdrom.readOffset sector = Cdrom.partitionOffset sector := by
    unfold Cdrom.readOffset Cdrom.partitionOffset
    rw [Nat.mod_eq_of_lt hlt]
  rw [← hoffset] at hr hreach
  have hread : Cdrom.diskRead disc pages allocated volume buffer sector count temp = _ :=
    Cdrom.diskRead_delivered (hsound.count_le hin) hvolume hr
  have hok := congrArg (Except.mapError Stop.medium) hread
  refine ⟨_, _, hok, fun i => ?_⟩
  by_cases hi : i < count * 512
  · have hplace : Cdrom.readOffset sector + i = Cdrom.partitionOffset 0 + (sector * 512 + i) := by
      rw [hoffset]
      unfold Cdrom.partitionOffset
      omega
    rw [if_pos (by omega), if_pos hi, Cdrom.filled_bytes Cdrom.readOffset_div_lt,
      if_pos (by omega), hplace]
    rfl
  · rw [if_neg (by omega), if_neg hi]

/-- FatVolume_Read and FatVolume_Seek over FatFs on the CD: through any run of calls, on any of
the files that are open, the answers are those of files that are contents with a file pointer,
and the calls stop only where these do. -/
theorem calls_follow_files (hsound : s.fs.Sound)
    (hserved : ∀ sector count, s.fs.InArea sector count → Cdrom.Served pages volume sector count)
    (hwindow : s.fs.WindowOk (partitionImage disc))
    (hfiles : ∀ i, Option.Rel (Represents (partitionImage disc) s.fs) (s.files i) (t.files i))
    (hanswers : s.answers = t.answers) :
    (Succeeds (RequestRuns.run (fatStep (cdromDisk disc pages allocated volume)) requests s) ↔
        Succeeds (RequestRuns.run fileStep requests t)) ∧
      ∀ s' t', RequestRuns.run (fatStep (cdromDisk disc pages allocated volume)) requests s =
          .ok s' → RequestRuns.run fileStep requests t = .ok t' →
        s'.answers = t'.answers ∧
          ∀ i, Option.Rel (Represents (partitionImage disc) s'.fs) (s'.files i) (t'.files i) := by
  have hstored : Stored (cdromDisk disc pages allocated volume) (partitionImage disc) s t :=
    ⟨hsound, serves_cdromDisk hsound hserved, hwindow, hfiles, hanswers⟩
  obtain ⟨hiff, hrun⟩ := @Stored.run _ _ _ s t requests hstored
  refine ⟨hiff, fun s' t' hs ht => ?_⟩
  obtain ⟨heq, hafter⟩ := hrun s' t' hs ht
  exact ⟨heq, hafter.files⟩

end Disc

section Example

/-- FAT16 with one sector for the table and two clusters of one sector. -/
def smallVolume : FATFS :=
  { fsType := .fat16
    nFats := 1
    wflag := false
    id := 1
    nRootdir := 16
    csize := 1
    nFatent := 4
    fsize := 1
    volbase := 0
    fatbase := 1
    dirbase := 2
    database := 3
    winsect := 2 ^ 32 - 1
    win := fun _ => 0 }

/-- The chain of one file from cluster 3 to cluster 2, and ones in its last sector. -/
def smallDisc (a : ℕ) : UInt8 :=
  if a = 33 * 2048 + 512 + 6 then 2 else
  if 33 * 2048 + 3 * 512 ≤ a ∧ a < 33 * 2048 + 4 * 512 then 1 else 0

/-- The file as f_open leaves it. -/
def smallFile : FIL :=
  { valid := true
    id := 1
    sclust := 3
    objsize := 600
    err := .ok
    fptr := 0
    clust := 0
    sect := 0
    buf := fun _ => 0 }

theorem smallVolume_sound : smallVolume.Sound :=
  ⟨by decide, ⟨0, by decide, rfl⟩, by decide, by decide, by decide, by decide, by decide,
    by decide⟩

theorem smallFile_ok : FileOk (partitionImage smallDisc) smallVolume smallFile := by
  refine ⟨⟨by decide, by decide, fun k hk => ?_, by decide, fun h => absurd rfl h⟩,
    fun h => absurd h (by decide), fun h => absurd rfl h⟩
  have hlt : k < 2 := by
    change k * 512 < 600 at hk
    omega
  interval_cases k <;> decide

def smallContents : Fil :=
  { contents := (List.range smallFile.objsize).map
      (byteAt (partitionImage smallDisc) smallVolume smallFile.sclust)
    fptr := 0
    size_lt := by
      rw [List.length_map, List.length_range]
      decide
    fptr_le := Nat.zero_le _ }

def smallState : FatState Cdrom.TempBuffer :=
  { fs := smallVolume
    files := fun i => if i = 0 then some smallFile else none
    medium := ⟨0, fun _ => 0⟩
    answers := [] }

def smallFiles : FileState := ⟨fun i => if i = 0 then some smallContents else none, []⟩

theorem smallVolume_inArea {sector count : ℕ} (h : smallVolume.InArea sector count) :
    sector < 5 ∧ count = 1 := by
  rcases h with ⟨hcount, -, hlt⟩ | ⟨hcount, clst, hge, hlt, hstart, hend⟩
  · exact ⟨hlt.trans (by decide), hcount⟩
  · change clst < 4 at hlt
    change 3 + 1 * (clst - 2) ≤ sector at hstart
    change sector + count ≤ 3 + 1 * (clst - 2) + 1 at hend
    omega

theorem smallVolume_served (sector count : ℕ) (h : smallVolume.InArea sector count) :
    Cdrom.Served (Cdrom.oneDrive fun _ => .transferred 4096) 0 sector count := by
  obtain ⟨hsector, hcount⟩ := smallVolume_inArea h
  refine ⟨_, 4096, rfl, by omega, rfl, ?_⟩
  have := Nat.mod_lt (Cdrom.partitionOffset sector) (show 0 < Cdrom.sectorSize by decide)
  change Cdrom.partitionOffset sector % 2048 < 2048 at this
  change Cdrom.partitionOffset sector % 2048 + count * 512 ≤ 4096
  omega

/-- A read of the whole file and a seek behind its first cluster, on that disc. -/
theorem calls_follow_files_small : Succeeds (RequestRuns.run (fatStep (cdromDisk smallDisc
    (Cdrom.oneDrive fun _ => .transferred 4096) (fun _ => 0) 0))
      [.read 0 currentOffset 600 fun _ => 0, .seek 0 550 .set] smallState) := by
  have hfiles : ∀ i, Option.Rel (Represents (partitionImage smallDisc) smallVolume)
      (smallState.files i) (smallFiles.files i) := by
    intro i
    unfold smallState smallFiles
    dsimp only
    by_cases hi : i = 0
    · rw [if_pos hi, if_pos hi]
      exact Option.Rel.some ⟨smallFile_ok, by simp only [smallContents], rfl⟩
    · rw [if_neg hi, if_neg hi]
      exact Option.Rel.none
  apply (calls_follow_files (t := smallFiles) smallVolume_sound smallVolume_served
    ⟨rfl, fun h => absurd rfl h⟩ hfiles rfl).1.mpr
  exact ⟨_, rfl⟩

end Example

end Enkel.FatFs
