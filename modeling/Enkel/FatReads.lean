import Enkel.FatVolume

/-!
f_read and f_lseek of ff.c, for files that are open for reading alone: neither FA_WRITE nor
FA_DIRTY is set. A file has the cluster of the byte before its file pointer, and one sector in a
buffer of its own. A read takes whole sectors straight from the medium, as many as the cluster
has, and what remains out of the buffer. A seek follows the chain from the present cluster when
it goes forward, and from the start of the chain when it goes back.
-/
namespace Enkel.FatFs

open Outcome Cdrom

/-- The file object; `valid` stands for the pointer to the volume, which is null in an object
that is not open. -/
structure FIL where
  valid : Bool
  id : ℕ
  sclust : ℕ
  objsize : ℕ
  err : FResult
  fptr : ℕ
  clust : ℕ
  sect : ℕ
  buf : ℕ → UInt8

/-- A volume, a file on it and the medium below them. -/
structure Access (σ : Type) where
  fs : FATFS
  fp : FIL
  medium : σ

/-- The variables of a read: the buffer of the caller, how many bytes of it are filled, and how
many are still to be read. -/
structure Transfer (σ : Type) extends Access σ where
  rbuff : ℕ → UInt8
  br : ℕ
  btr : ℕ

def validate (fs : FATFS) (fp : FIL) : FResult :=
  if fp.valid ∧ fs.fsType ≠ .none ∧ fp.id = fs.id then .ok else .invalidObject

/-- What f_read and f_lseek check first. -/
def checkFile (fs : FATFS) (fp : FIL) : FResult :=
  if validate fs fp = .ok then fp.err else validate fs fp

/-- ABORT: the error is kept in the file object. -/
def FIL.abort (fp : FIL) (result : FResult) : FIL :=
  if result = .ok then fp else { fp with err := result }

section Files
variable {σ : Type} (disk : DiskRead σ)

/-- Fill the buffer of the file, unless it holds the sector. -/
def Access.loadSector (a : Access σ) (sect : ℕ) : Except Stop (FResult × Access σ) :=
  if a.fp.sect = sect then
    .ok (.ok, a)
  else do
    let (answer, buf, medium) ← disk sect 1 a.fp.buf a.medium
    if answer = .ok then
      return (.ok, { a with fp := { a.fp with buf := buf, sect := sect }, medium := medium })
    else
      return (.diskErr, { a with fp := { a.fp with buf := buf }, medium := medium })

/-- The cluster that a read goes on with at the start of a cluster. -/
def Access.followCluster (a : Access σ) : Except Stop (FResult × Access σ) := do
  let (clst, fs, medium) ←
    if a.fp.fptr = 0 then .ok (a.fp.sclust, a.fs, a.medium)
    else a.fs.getFat disk a.fp.clust a.medium
  let a := { a with fs := fs, medium := medium }
  if clst < 2 then
    return (.intErr, a)
  else if clst = 0xFFFFFFFF then
    return (.diskErr, a)
  else
    return (.ok, { a with fp := { a.fp with clust := clst } })

/-- A turn of the loop has transferred `rcnt` bytes. -/
def Transfer.advance (t : Transfer σ) (rcnt : ℕ) : Transfer σ :=
  { t with
    fp := { t.fp with fptr := add32 t.fp.fptr rcnt }
    br := t.br + rcnt
    btr := t.btr - rcnt }

/-- Take bytes of the sector out of the buffer of the file. -/
def Transfer.copyPart (t : Transfer σ) : Transfer σ :=
  let rcnt := min (512 - t.fp.fptr % 512) t.btr
  { t with
    rbuff := fun i =>
      if t.br ≤ i ∧ i < t.br + rcnt then t.fp.buf (t.fp.fptr % 512 + (i - t.br))
      else t.rbuff i }.advance rcnt

/-- Read `cc` sectors into the buffer of the caller. -/
def Transfer.readSectors (t : Transfer σ) (sect cc : ℕ) : Except Stop (FResult × Transfer σ) := do
  let (answer, bytes, medium) ← disk sect cc (fun i => t.rbuff (t.br + i)) t.medium
  let t := { t with
    medium := medium
    rbuff := fun i => if i < t.br then t.rbuff i else bytes (i - t.br) }
  if answer = .ok then
    return (.ok, t.advance (512 * cc))
  else
    return (.diskErr, t)

/-- A turn on the boundary of a sector, with the cluster of the next byte. -/
def Transfer.readBoundary (t : Transfer σ) (csect : ℕ) : Except Stop (FResult × Transfer σ) :=
  let sect := t.fs.clst2sect t.fp.clust
  if sect = 0 then
    .ok (.intErr, t)
  else
    let sect := add32 sect csect
    let cc := t.btr / 512
    if 0 < cc then
      -- clip at the end of the cluster
      t.readSectors disk sect (if t.fs.csize < csect + cc then sub32 t.fs.csize csect else cc)
    else do
      let (result, a) ← t.loadSector disk sect
      let t := { t with toAccess := a }
      return (result, if result = .ok then t.copyPart else t)

/-- One turn of the loop of f_read. -/
def Transfer.readTurn (t : Transfer σ) : Except Stop (FResult × Transfer σ) :=
  if t.fp.fptr % 512 = 0 then do
    let csect := t.fp.fptr / 512 &&& sub32 t.fs.csize 1
    let (result, a) ← if csect = 0 then t.followCluster disk else .ok (.ok, t.toAccess)
    let t := { t with toAccess := a }
    if result = .ok then t.readBoundary disk csect else return (result, t)
  else
    .ok (.ok, t.copyPart)

/-- The loop of f_read, for a number of turns. -/
def Transfer.readLoop : (fuel : ℕ) → Transfer σ → Except Stop (FResult × Transfer σ)
  | 0, t => if t.btr = 0 then .ok (.ok, t) else .error .endless
  | fuel + 1, t =>
    if t.btr = 0 then
      .ok (.ok, t)
    else do
      let (result, t) ← t.readTurn disk
      if result = .ok then t.readLoop fuel else return (result, t)

/-- f_read: its result, and the buffer with the number of bytes that were read. -/
def fRead (a : Access σ) (rbuff : ℕ → UInt8) (btr : ℕ) : Except Stop (FResult × Transfer σ) :=
  if checkFile a.fs a.fp = .ok then do
    let remain := sub32 a.fp.objsize a.fp.fptr
    let btr := if remain < btr then remain else btr
    let (result, t) ← Transfer.readLoop disk btr ⟨a, rbuff, 0, btr⟩
    return (result, { t with fp := t.fp.abort result })
  else
    .ok (checkFile a.fs a.fp, ⟨a, rbuff, 0, btr⟩)

/-- The loop of f_lseek that follows the chain, for a number of turns: the cluster that it has
reached, and how far the position lies behind the start of this cluster. -/
def Access.seekLoop (bcs : ℕ) : (fuel clst ofs : ℕ) → Access σ →
    Except Stop (FResult × ℕ × ℕ × Access σ)
  | 0, clst, ofs, a => if ofs ≤ bcs then .ok (.ok, clst, ofs, a) else .error .endless
  | fuel + 1, clst, ofs, a =>
    if ofs ≤ bcs then
      .ok (.ok, clst, ofs, a)
    else do
      let a := { a with fp := { a.fp with fptr := add32 a.fp.fptr bcs } }
      let (clst, fs, medium) ← a.fs.getFat disk clst a.medium
      let a := { a with fs := fs, medium := medium }
      if clst = 0xFFFFFFFF then
        return (.diskErr, clst, ofs, a)
      else if clst ≤ 1 ∨ fs.nFatent ≤ clst then
        return (.intErr, clst, ofs, a)
      else
        Access.seekLoop bcs fuel clst (ofs - bcs) { a with fp := { a.fp with clust := clst } }

/-- Go to a position: the sector of the byte there, unless it starts a sector. -/
def Access.seekFrom (a : Access σ) (clst ofs : ℕ) : Except Stop (FResult × ℕ × Access σ) :=
  if clst = 0 then
    .ok (.ok, 0, a)
  else do
    let bcs := a.fs.csize * 512 % 2 ^ 32
    let (result, clst, ofs, a) ← Access.seekLoop disk bcs ofs clst ofs a
    if result = .ok then
      let a := { a with fp := { a.fp with fptr := add32 a.fp.fptr ofs } }
      if ofs % 512 = 0 then
        return (.ok, 0, a)
      else if a.fs.clst2sect clst = 0 then
        return (.intErr, 0, a)
      else
        return (.ok, add32 (a.fs.clst2sect clst) (ofs / 512), a)
    else
      return (result, 0, a)

/-- The cluster that a seek starts from. -/
def Access.seekChain (a : Access σ) (ofs : ℕ) : Except Stop (FResult × ℕ × Access σ) :=
  let ifptr := a.fp.fptr
  let bcs := a.fs.csize * 512 % 2 ^ 32
  let a := { a with fp := { a.fp with fptr := 0 } }
  if ofs = 0 then
    .ok (.ok, 0, a)
  else if 0 < ifptr ∧ (ifptr - 1) / bcs ≤ (ofs - 1) / bcs then
    let fptr := (ifptr - 1) &&& (2 ^ 32 - 1 - sub32 bcs 1)
    Access.seekFrom disk { a with fp := { a.fp with fptr := fptr } } a.fp.clust (sub32 ofs fptr)
  else if a.fp.sclust = 0 then
    .error .createsChain
  else
    Access.seekFrom disk { a with fp := { a.fp with clust := a.fp.sclust } } a.fp.sclust ofs

def fLseek (a : Access σ) (ofs : ℕ) : Except Stop (FResult × Access σ) :=
  if checkFile a.fs a.fp = .ok then do
    let ofs := if a.fp.objsize < ofs then a.fp.objsize else ofs
    let (result, nsect, a) ← a.seekChain disk ofs
    let (result, a) ←
      if result = .ok then
        let objsize := if a.fp.objsize < a.fp.fptr then a.fp.fptr else a.fp.objsize
        let a := { a with fp := { a.fp with objsize := objsize } }
        if a.fp.fptr % 512 = 0 then .ok (.ok, a) else a.loadSector disk nsect
      else
        .ok (result, a)
    return (result, { a with fp := a.fp.abort result })
  else
    .ok (checkFile a.fs a.fp, a)

end Files

end Enkel.FatFs
