import Enkel.CdromReads
import Enkel.RecordFields

/-!
The commands that cdrom.cpp gives to a SATA port. A command is a header in the command list
of the port, and a table with a frame for the drive, a packet and the ranges of memory to
transfer to. Every command stores most of this anew, and the controller reads it from memory;
some bits of a header are never stored.
-/
namespace Enkel.AhciCommands

open ByteMemory BitFields RecordFields Words

abbrev Bytes := ℕ → UInt8

abbrev maxCommands : ℕ := 32
abbrev maxPRDTEntries : ℕ := 16
abbrev sizeofHBACommandTable : ℕ := 144
abbrev sizeofHBAPRDTEntry : ℕ := 16
abbrev sizeofFISData : ℕ := 220

def fisSize : ℕ := alignSize sizeofFISData 128

def commandListAndPRDTSize : ℕ :=
  alignSize (sizeofHBACommandTable + sizeofHBAPRDTEntry * (maxCommands * maxPRDTEntries - 1)) 128

def commandTableAllocSize : ℕ :=
  alignSize (fisSize + commandListAndPRDTSize * maxCommands) pageSize

/-- TO_LOW_HIGH. -/
def low (x : ℕ) : ℕ := x &&& 0xffffffff

def high (x : ℕ) : ℕ := x >>> 32 &&& 0xffffffff

/-- The addresses of the command list and of the block with the tables. -/
structure Layout where
  commandList : ℕ
  commandTableAlloc : ℕ
  getPhysicalAddress : ℕ → ℕ

section Model
variable (layout : Layout)

def header (slot : ℕ) : ℕ := layout.commandList + 32 * slot

def table (slot : ℕ) : ℕ :=
  layout.commandTableAlloc + fisSize + commandListAndPRDTSize * slot

/-- The fields of a header that CdromPort::Initialize sets. -/
def headerFields (slot : ℕ) : List Field :=
  [⟨8, 4, low (layout.getPhysicalAddress (table layout slot))⟩,
    ⟨12, 4, high (layout.getPhysicalAddress (table layout slot))⟩, ⟨2, 2, maxPRDTEntries⟩,
    ⟨4, 4, 0⟩]

/-- What CdromPort::Initialize does to the memory. -/
def initializePort (b : Bytes) : Bytes :=
  writeRecords layout.commandList 32
    ((List.range maxCommands).map fun slot => (slot, headerFields layout slot))
    (setBytes layout.commandTableAlloc 0 commandTableAllocSize b)

/-- What a command stores. Pairs are offsets and bytes. -/
structure Setup where
  slot : ℕ
  fis : List (ℕ × ℕ)
  packet : Option (List (ℕ × ℕ))
  clearsPRDT : Bool
  bufferPhysical : ℕ
  byteCount : ℕ
  interruptOnCompletion : ℕ
  atapi : Option ℕ

/-- The frame is cleared and stored; CommandControl is the highest bit of its second byte. -/
def storeFIS (start : ℕ) (stores : List (ℕ × ℕ)) (b : Bytes) : Bytes :=
  writeBits (start + 1) 1 7 1 1 (storeBytes start stores (setBytes start 0 20 b))

def storePacket (start : ℕ) (stores : List (ℕ × ℕ)) (b : Bytes) : Bytes :=
  storeBytes start stores (setBytes start 0 12 b)

def storePRDT (start : ℕ) (setup : Setup) (b : Bytes) : Bytes :=
  let b := if setup.clearsPRDT then setBytes start 0 16 b else b
  let b := writeWord (start + 0) (low setup.bufferPhysical) 4 b
  let b := writeWord (start + 4) (high setup.bufferPhysical) 4 b
  let b := writeBits (start + 12) 4 0 22 setup.byteCount b
  writeBits (start + 12) 4 31 1 setup.interruptOnCompletion b

/-- The header: Atapi, PRDTLength, CommandFISLength, Write and PRDByteCount. -/
def storeHeader (start : ℕ) (atapi : Option ℕ) (b : Bytes) : Bytes :=
  let b := match atapi with
    | none => b
    | some value => writeBits start 1 5 1 value b
  let b := writeWord (start + 2) 1 2 b
  let b := writeBits start 1 0 5 (20 / 4) b
  let b := writeBits start 1 6 1 0 b
  writeWord (start + 4) 0 4 b

def storeTable (start : ℕ) (setup : Setup) (b : Bytes) : Bytes :=
  let b := storeFIS start setup.fis b
  let b := match setup.packet with
    | none => b
    | some stores => storePacket (start + 64) stores b
  storePRDT (start + 128) setup b

def issue (setup : Setup) (b : Bytes) : Bytes :=
  storeHeader (header layout setup.slot) setup.atapi (storeTable (table layout setup.slot) setup b)

end Model

section Commands
variable (lba sectorCount bufferPhysical bufferSize : ℕ)

def identifyDrive (isATAPI : Bool) : Setup where
  slot := 0
  fis := [(0, 0x27), (2, if isATAPI then 0xA1 else 0xEC), (7, 0)]
  packet := none
  clearsPRDT := false
  bufferPhysical := bufferPhysical
  byteCount := 511
  interruptOnCompletion := 0
  atapi := none

/-- The number of sectors is not stored. -/
def readSectorsSATA : Setup where
  slot := 0
  fis := [(0, 0x27), (2, 0x25), (7, 0x40), (4, lba &&& 0xFF), (5, lba >>> 8 &&& 0xFF),
    (6, lba >>> 16 &&& 0xFF), (8, lba >>> 24 &&& 0xFF), (9, lba >>> 32 &&& 0xFF),
    (10, lba >>> 40 &&& 0xFF)]
  packet := none
  clearsPRDT := false
  bufferPhysical := bufferPhysical
  byteCount := (sectorCount * 2048 % 2 ^ 32 + (2 ^ 32 - 1)) % 2 ^ 32
  interruptOnCompletion := 1
  atapi := some 0

def readSectorsCD : Setup where
  slot := 1
  fis := [(0, 0x27), (3, 1), (2, 0xA0)]
  packet := some [(0, 0xA8), (1, 0), (2, lba >>> 24 &&& 0xFF), (3, lba >>> 16 &&& 0xFF),
    (4, lba >>> 8 &&& 0xFF), (5, lba &&& 0xFF),
    (9, if sectorCount = 256 then 0 else sectorCount &&& 0xFF)]
  clearsPRDT := true
  bufferPhysical := bufferPhysical
  byteCount := (sectorCount * 2048 % 2 ^ 32 + (2 ^ 32 - 1)) % 2 ^ 32
  interruptOnCompletion := 0
  atapi := some 1

def readToc : Setup where
  slot := 0
  fis := [(0, 0x27), (3, 1), (2, 0xA0)]
  packet := some [(0, 0x43), (2, 0), (6, 0), (7, bufferSize >>> 8 &&& 0xFF),
    (8, bufferSize &&& 0xFF)]
  clearsPRDT := true
  bufferPhysical := bufferPhysical
  byteCount := (bufferSize + (2 ^ 32 - 1)) % 2 ^ 32
  interruptOnCompletion := 0
  atapi := some 1

end Commands

/-- A command as the controller understands it. -/
structure HBACommand where
  fis : List UInt8
  packet : Option (List UInt8)
  write : Bool
  reset : Bool
  bist : Bool
  clearBusyUponROK : Bool
  portMultiplierPort : ℕ
  /-- Addresses and lengths of the ranges that data is transferred to. -/
  regions : List (ℕ × ℕ)
deriving DecidableEq, Repr

section Controller
variable (dma : Bytes) (commandList slot : ℕ)

def fetchRegion (entry : ℕ) : ℕ × ℕ :=
  (readWord dma (entry + 0) 4 + 2 ^ 32 * readWord dma (entry + 4) 4,
    field 0 22 (readWord dma (entry + 12) 4) + 1)

/-- The controller reads a command from memory. -/
def fetchCommand : HBACommand :=
  let start := commandList + 32 * slot
  let options := readWord dma start 1
  let control := readWord dma (start + 1) 1
  let table := readWord dma (start + 8) 4 + 2 ^ 32 * readWord dma (start + 12) 4
  { fis := bytesAt dma table (4 * field 0 5 options)
    packet := if field 5 1 options = 1 then some (bytesAt dma (table + 64) 12) else none
    write := field 6 1 options = 1
    reset := field 0 1 control = 1
    bist := field 1 1 control = 1
    clearBusyUponROK := field 2 1 control = 1
    portMultiplierPort := field 4 4 control
    regions := (List.range (readWord dma (start + 2) 2)).map fun i =>
      fetchRegion dma (table + 128 + 16 * i) }

end Controller

section Stores
variable {start n : ℕ} {stores : List (ℕ × ℕ)} {setup : Setup} {b : Bytes}

theorem low_add_high {x : ℕ} (h : x < 2 ^ 64) :
    low x % 256 ^ 4 + 2 ^ 32 * (high x % 256 ^ 4) = x := by
  have hmask (y : ℕ) : y &&& 0xffffffff = y % 2 ^ 32 := Nat.and_two_pow_sub_one_eq_mod y 32
  unfold low high
  rw [hmask, hmask, Nat.shiftRight_eq_div_pow]
  omega

/-- The frame that is stored. -/
def fisBytes (stores : List (ℕ × ℕ)) : List UInt8 :=
  let bytes := setAll stores (List.replicate 20 0)
  bytes.set 1 (UInt8.ofNat (setField 7 1 1 (bytes.getD 1 0).toNat))

theorem touches_storeFIS (hend : start + 20 ≤ 2 ^ 64) (hstores : ∀ s ∈ stores, s.1 < 20) :
    Touches start 20 (storeFIS start stores) :=
  ((touches_setBytes hend).comp (touches_storeBytes hend hstores)).comp
    ((touches_writeBits (by omega)).mono (by omega) (by omega))

theorem bytesAt_storeFIS (hend : start + 20 ≤ 2 ^ 64) (hstores : ∀ s ∈ stores, s.1 < 20) :
    bytesAt (storeFIS start stores b) start 20 = fisBytes stores := by
  have hcleared : bytesAt (setBytes start 0 20 b) start 20 = List.replicate 20 0 :=
    bytesAt_setBytes hend
  have hstored := bytesAt_storeBytes (b := setBytes start 0 20 b) hend hstores
  rw [hcleared] at hstored
  have hold : readWord (storeBytes start stores (setBytes start 0 20 b)) (start + 1) 1 =
      ((setAll stores (List.replicate 20 0)).getD 1 0).toNat := by
    rw [← hstored, getD_bytesAt (by decide), readWord_one (by omega)]
  unfold storeFIS writeBits
  rw [bytesAt_storeByte hend (by decide), hstored, hold]
  rfl

theorem touches_storePacket (hend : start + 12 ≤ 2 ^ 64) (hstores : ∀ s ∈ stores, s.1 < 12) :
    Touches start 12 (storePacket start stores) :=
  (touches_setBytes hend).comp (touches_storeBytes hend hstores)

theorem bytesAt_storePacket (hend : start + 12 ≤ 2 ^ 64) (hstores : ∀ s ∈ stores, s.1 < 12) :
    bytesAt (storePacket start stores b) start 12 = setAll stores (List.replicate 12 0) := by
  unfold storePacket
  rw [bytesAt_storeBytes hend hstores, bytesAt_setBytes hend]

theorem touches_storePRDT (hend : start + 16 ≤ 2 ^ 64) : Touches start 16 (storePRDT start setup) := by
  have hclear : Touches start 16 fun b : Bytes =>
      if setup.clearsPRDT then setBytes start 0 16 b else b := by
    intro b a ha hout
    split_ifs
    · exact touches_setBytes hend b a ha hout
    · rfl
  have hlow (v : ℕ) : Touches start 16 (writeWord (start + 0) v 4) :=
    (touches_writeWord (by omega)).mono (by omega) (by omega)
  have hhigh (v : ℕ) : Touches start 16 (writeWord (start + 4) v 4) :=
    (touches_writeWord (by omega)).mono (by omega) (by omega)
  have hbits (i n v : ℕ) : Touches start 16 (writeBits (start + 12) 4 i n v) :=
    (touches_writeBits (by omega)).mono (by omega) (by omega)
  exact (((hclear.comp (hlow _)).comp (hhigh _)).comp (hbits 0 22 _)).comp (hbits 31 1 _)

/-- The range that is stored, with the bits of its length that fit. -/
theorem fetchRegion_storePRDT (hend : start + 16 ≤ 2 ^ 64) (hbuffer : setup.bufferPhysical < 2 ^ 64) :
    fetchRegion (storePRDT start setup b) start =
      (setup.bufferPhysical, setup.byteCount % 2 ^ 22 + 1) := by
  unfold fetchRegion storePRDT
  simp (disch := omega) only [readWord_writeBits_of_apart, readWord_writeWord_of_apart,
    readWord_writeWord, readWord_writeBits]
  rw [low_add_high hbuffer, field_setField_of_le _ _ (show 0 + 22 ≤ 31 by decide), field_setField]

theorem touches_storeHeader {atapi : Option ℕ} (hend : start + 8 ≤ 2 ^ 64) :
    Touches start 8 (storeHeader start atapi) := by
  have hbits (i n v : ℕ) : Touches start 8 (writeBits start 1 i n v) :=
    (touches_writeBits (by omega)).mono le_rfl (by omega)
  have hatapi : Touches start 8 fun b => match atapi with
      | none => b
      | some value => writeBits start 1 5 1 value b := by
    cases atapi with
    | none => exact fun _ _ _ _ => rfl
    | some value => exact hbits 5 1 value
  have hlength : Touches start 8 (writeWord (start + 2) 1 2) :=
    (touches_writeWord (by omega)).mono (by omega) (by omega)
  have hcount : Touches start 8 (writeWord (start + 4) 0 4) :=
    (touches_writeWord (by omega)).mono (by omega) (by omega)
  exact (((hatapi.comp hlength).comp (hbits 0 5 _)).comp (hbits 6 1 _)).comp hcount

/-- What the first four bytes of a header say afterwards. -/
structure HeaderStored (start : ℕ) (atapi : Option ℕ) (b b' : Bytes) : Prop where
  length : field 0 5 (readWord b' start 1) = 5
  write : field 6 1 (readWord b' start 1) = 0
  atapi : field 5 1 (readWord b' start 1) =
    (atapi.map (· % 2)).getD (field 5 1 (readWord b start 1))
  control : readWord b' (start + 1) 1 = readWord b (start + 1) 1
  entries : readWord b' (start + 2) 2 = 1

theorem headerStored (hend : start + 8 ≤ 2 ^ 64) (atapi : Option ℕ) (b : Bytes) :
    HeaderStored start atapi b (storeHeader start atapi b) := by
  obtain ⟨b0, hb0, hcontrol, hatapi⟩ : ∃ b0, (match atapi with
      | none => b
      | some value => writeBits start 1 5 1 value b) = b0 ∧
      readWord b0 (start + 1) 1 = readWord b (start + 1) 1 ∧
      field 5 1 (readWord b0 start 1) =
        (atapi.map (· % 2)).getD (field 5 1 (readWord b start 1)) := by
    cases atapi with
    | none => exact ⟨b, rfl, rfl, rfl⟩
    | some value =>
      refine ⟨_, rfl, readWord_writeBits_of_apart (by omega) (by omega) (by omega), ?_⟩
      rw [readWord_writeBits (by decide) (by decide), field_setField]
      rfl
  have hoptions : readWord (storeHeader start atapi b) start 1 =
      setField 6 1 0 (setField 0 5 (20 / 4) (readWord b0 start 1)) := by
    unfold storeHeader
    rw [hb0]
    simp (disch := omega) only [readWord_writeWord_of_apart, readWord_writeBits]
  refine ⟨?_, ?_, ?_, ?_, ?_⟩
  · rw [hoptions, field_setField_of_le _ _ (show 0 + 5 ≤ 6 by decide), field_setField]
    rfl
  · rw [hoptions, field_setField]
    rfl
  · rw [hoptions, field_setField_of_le _ _ (show 5 + 1 ≤ 6 by decide),
      field_setField_of_ge _ _ (show 0 + 5 ≤ 5 by decide), hatapi]
  · unfold storeHeader
    rw [hb0, ← hcontrol]
    simp (disch := omega) only [readWord_writeWord_of_apart, readWord_writeBits_of_apart]
  · unfold storeHeader
    simp (disch := omega) only [readWord_writeWord_of_apart, readWord_writeBits_of_apart,
      readWord_writeWord]
    rfl

/-- The offsets that a command stores to are inside of the frame and the packet. -/
structure Setup.Fits (setup : Setup) : Prop where
  slot : setup.slot < maxCommands
  fis : ∀ s ∈ setup.fis, s.1 < 20
  packet : ∀ stores, setup.packet = some stores → ∀ s ∈ stores, s.1 < 12
  buffer : setup.bufferPhysical < 2 ^ 64

/-- What a table holds afterwards. -/
structure TableStored (start : ℕ) (setup : Setup) (b' : Bytes) : Prop where
  fis : bytesAt b' start 20 = fisBytes setup.fis
  packet : ∀ stores, setup.packet = some stores →
    bytesAt b' (start + 64) 12 = setAll stores (List.replicate 12 0)
  region : fetchRegion b' (start + 128) = (setup.bufferPhysical, setup.byteCount % 2 ^ 22 + 1)

theorem touches_storeTable (hend : start + 144 ≤ 2 ^ 64) (h : setup.Fits) :
    Touches start 144 (storeTable start setup) := by
  have hfis : Touches start 144 (storeFIS start setup.fis) :=
    (touches_storeFIS (by omega) h.fis).mono le_rfl (by omega)
  have hpacket : Touches start 144 fun b => match setup.packet with
      | none => b
      | some stores => storePacket (start + 64) stores b := by
    intro b a ha hout
    cases hstores : setup.packet with
    | none => rfl
    | some stores =>
      exact touches_storePacket (by omega) (h.packet stores hstores) b a ha (by omega)
  have hprdt : Touches start 144 (storePRDT (start + 128) setup) :=
    (touches_storePRDT (by omega)).mono (by omega) (by omega)
  exact (hfis.comp hpacket).comp hprdt

theorem tableStored (hend : start + 144 ≤ 2 ^ 64) (h : setup.Fits) (b : Bytes) :
    TableStored start setup (storeTable start setup b) := by
  have hprdt : Touches (start + 128) 16 (storePRDT (start + 128) setup) :=
    touches_storePRDT (by omega)
  refine ⟨?_, fun stores hstores => ?_, fetchRegion_storePRDT (by omega) h.buffer⟩
  · unfold storeTable
    rw [hprdt.bytesAt_eq (by omega) (by omega)]
    cases hstores : setup.packet with
    | none => exact bytesAt_storeFIS (by omega) h.fis
    | some stores =>
      have hpacket : Touches (start + 64) 12 (storePacket (start + 64) stores) :=
        touches_storePacket (by omega) (h.packet stores hstores)
      dsimp only
      rw [hpacket.bytesAt_eq (by omega) (by omega)]
      exact bytesAt_storeFIS (by omega) h.fis
  · unfold storeTable
    rw [hprdt.bytesAt_eq (by omega) (by omega), hstores]
    exact bytesAt_storePacket (by omega) (h.packet stores hstores)

end Stores

section Sizes

theorem fisSize_eq : fisSize = 256 := rfl

theorem commandListAndPRDTSize_eq : commandListAndPRDTSize = 8320 := rfl

theorem commandTableAllocSize_eq : commandTableAllocSize = 270336 := rfl

/-- The two blocks do not wrap, and have no byte in common. -/
structure Placed (layout : Layout) : Prop where
  list : layout.commandList + 1024 ≤ 2 ^ 64
  tables : layout.commandTableAlloc + 270336 ≤ 2 ^ 64
  apart : layout.commandList + 1024 ≤ layout.commandTableAlloc ∨
    layout.commandTableAlloc + 270336 ≤ layout.commandList

variable {layout : Layout} {slot other : ℕ}

/-- A table lies in its block, and a header in the list. -/
theorem table_bounds (layout : Layout) (hslot : slot < maxCommands) :
    layout.commandTableAlloc ≤ table layout slot ∧
      table layout slot + 8320 ≤ layout.commandTableAlloc + 270336 ∧
      layout.commandList ≤ header layout slot ∧
      header layout slot + 32 ≤ layout.commandList + 1024 := by
  have hmax : maxCommands = 32 := rfl
  unfold table header
  rw [fisSize_eq, commandListAndPRDTSize_eq]
  omega

theorem header_apart (layout : Layout) (hne : slot ≠ other) :
    header layout slot + 32 ≤ header layout other ∨
      header layout other + 32 ≤ header layout slot := by
  unfold header
  omega

end Sizes

section Runs
variable {layout : Layout} {setup : Setup} {slot : ℕ} {b b0 b1 b' : Bytes}

/-- The controller finds the tables, and what no command stores is as it was at first. -/
structure Prepared (layout : Layout) (b0 b : Bytes) : Prop where
  low : ∀ slot < maxCommands, readWord b (header layout slot + 8) 4 =
    low (layout.getPhysicalAddress (table layout slot)) % 256 ^ 4
  high : ∀ slot < maxCommands, readWord b (header layout slot + 12) 4 =
    high (layout.getPhysicalAddress (table layout slot)) % 256 ^ 4
  control : ∀ slot < maxCommands,
    readWord b (header layout slot + 1) 1 = readWord b0 (header layout slot + 1) 1

theorem headerFields_fits : Fits 32 (headerFields layout slot) := by simp [headerFields, Fits]

theorem headerFields_apart : (headerFields layout slot).Pairwise Field.Apart := by
  simp [headerFields, Field.Apart]

theorem headers_inArray : InArray 32 maxCommands
    ((List.range maxCommands).map fun slot => (slot, headerFields layout slot)) := by
  intro record hrecord
  obtain ⟨slot, hslot, rfl⟩ := List.mem_map.mp hrecord
  exact ⟨List.mem_range.mp hslot, headerFields_fits⟩

theorem prepared_initializePort (hplaced : Placed layout) :
    Prepared layout b0 (initializePort layout b0) := by
  have hlist : layout.commandList + 32 * maxCommands ≤ 2 ^ 64 := hplaced.list
  have hapart := hplaced.apart
  have htables := hplaced.tables
  have hkeys : (((List.range maxCommands).map fun slot =>
      (slot, headerFields layout slot)).map Prod.fst).Nodup := by
    simp [Function.comp_def, List.nodup_range]
  have hfield (slot : ℕ) (hslot : slot < maxCommands) (f : Field)
      (hf : f ∈ headerFields layout slot) :
      readWord (initializePort layout b0) (header layout slot + f.offset) f.width =
        f.value % 256 ^ f.width :=
    readWord_writeRecords headers_inArray hlist hkeys
      (List.mem_map_of_mem (List.mem_range.mpr hslot)) headerFields_apart hf
  refine ⟨fun slot hslot => ?_, fun slot hslot => ?_, fun slot hslot => ?_⟩
  · exact hfield slot hslot ⟨8, 4, _⟩ List.mem_cons_self
  · exact hfield slot hslot ⟨12, 4, _⟩ (List.mem_cons_of_mem _ List.mem_cons_self)
  · have hkept : readWord (initializePort layout b0) (header layout slot + 1) 1 =
        readWord (setBytes layout.commandTableAlloc 0 commandTableAllocSize b0)
          (header layout slot + 1) 1 := by
      apply readWord_writeRecords_of_apart headers_inArray hlist hslot (by decide)
      intro record hrecord heq g hg
      obtain ⟨other, hother, rfl⟩ := List.mem_map.mp hrecord
      simp only [headerFields, List.mem_cons, List.not_mem_nil, or_false] at hg
      rcases hg with rfl | rfl | rfl | rfl <;> simp
    have hbounds := table_bounds layout hslot
    have hend := hplaced.list
    rw [hkept, commandTableAllocSize_eq]
    exact readWord_setBytes_of_apart htables (by omega) (by omega)

/-- A command keeps what is prepared. -/
theorem Prepared.issue (h : Prepared layout b0 b) (hplaced : Placed layout) (hfits : setup.Fits) :
    Prepared layout b0 (issue layout setup b) := by
  have hbounds := table_bounds layout hfits.slot
  have hlist := hplaced.list
  have htables := hplaced.tables
  have hapart := hplaced.apart
  have htable : Touches (table layout setup.slot) 144 (storeTable (table layout setup.slot) setup) :=
    touches_storeTable (by omega) hfits
  have hheader : Touches (header layout setup.slot) 8
      (storeHeader (header layout setup.slot) setup.atapi) := touches_storeHeader (by omega)
  have hkept {slot : ℕ} (hslot : slot < maxCommands) (i n : ℕ) (hi : 8 ≤ i) (hin : i + n ≤ 32) :
      readWord (AhciCommands.issue layout setup b) (header layout slot + i) n =
        readWord b (header layout slot + i) n := by
    have hslots := table_bounds layout hslot
    have hown : header layout slot + i + n ≤ header layout setup.slot ∨
        header layout setup.slot + 8 ≤ header layout slot + i := by
      by_cases heq : slot = setup.slot
      · rw [heq]
        omega
      · have := header_apart layout heq
        omega
    unfold AhciCommands.issue
    rw [hheader.readWord_eq (by omega) hown, htable.readWord_eq (by omega) (by omega)]
  refine ⟨fun slot hslot => ?_, fun slot hslot => ?_, fun slot hslot => ?_⟩
  · rw [hkept hslot 8 4 le_rfl (by decide)]
    exact h.low slot hslot
  · rw [hkept hslot 12 4 (by decide) (by decide)]
    exact h.high slot hslot
  · have hslots := table_bounds layout hslot
    have hbyte : readWord (storeTable (table layout setup.slot) setup b) (header layout slot + 1) 1 =
        readWord b (header layout slot + 1) 1 := htable.readWord_eq (by omega) (by omega)
    rw [← h.control slot hslot, ← hbyte]
    unfold AhciCommands.issue
    by_cases heq : slot = setup.slot
    · rw [heq]
      exact (headerStored (by omega) setup.atapi _).control
    · have hother := header_apart layout heq
      exact hheader.readWord_eq (by omega) (by omega)

/-- The controller changes the count of a header, and any memory that is no part of the list. -/
def DeviceKeeps (layout : Layout) (b b' : Bytes) : Prop :=
  ∀ slot < maxCommands, ∀ i < 32, i < 4 ∨ 8 ≤ i →
    b' (header layout slot + i) = b (header layout slot + i)

theorem Prepared.device (h : Prepared layout b0 b) (hplaced : Placed layout)
    (hdevice : DeviceKeeps layout b b') : Prepared layout b0 b' := by
  have hlist := hplaced.list
  have hkept {slot : ℕ} (hslot : slot < maxCommands) (i n : ℕ) (hin : i + n ≤ 32)
      (hi : i + n ≤ 4 ∨ 8 ≤ i) :
      readWord b' (header layout slot + i) n = readWord b (header layout slot + i) n := by
    have hslots := table_bounds layout hslot
    apply readWord_congr
    intro j hj
    rw [Nat.mod_eq_of_lt (by omega), Nat.add_assoc]
    exact hdevice slot hslot _ (by omega) (by omega)
  refine ⟨fun slot hslot => ?_, fun slot hslot => ?_, fun slot hslot => ?_⟩
  · rw [hkept hslot 8 4 (by decide) (by decide)]
    exact h.low slot hslot
  · rw [hkept hslot 12 4 (by decide) (by decide)]
    exact h.high slot hslot
  · rw [hkept hslot 1 1 (by decide) (by decide)]
    exact h.control slot hslot

end Runs

section Fetch
variable {layout : Layout} {setup : Setup} {getPhysicalAddress : ℕ → ℕ} {start n : ℕ}
variable {b b0 dma : Bytes}

/-- The controller sees a range of the kernel's memory, one byte after the other. -/
structure Dma (getPhysicalAddress : ℕ → ℕ) (b dma : Bytes) (start n : ℕ) : Prop where
  lt : getPhysicalAddress start + n ≤ 2 ^ 64
  bytes : ∀ i < n, dma (getPhysicalAddress start + i) = b (start + i)

theorem Dma.readWord_eq (h : Dma getPhysicalAddress b dma start n) (hend : start + n ≤ 2 ^ 64)
    {i width : ℕ} (hi : i + width ≤ n) :
    readWord dma (getPhysicalAddress start + i) width = readWord b (start + i) width := by
  have hlt := h.lt
  apply readWord_congr
  intro j hj
  rw [Nat.mod_eq_of_lt (by omega), Nat.mod_eq_of_lt (by omega), Nat.add_assoc, Nat.add_assoc]
  exact h.bytes _ (by omega)

theorem Dma.bytesAt_eq (h : Dma getPhysicalAddress b dma start n) {i width : ℕ}
    (hi : i + width ≤ n) :
    bytesAt dma (getPhysicalAddress start + i) width = bytesAt b (start + i) width :=
  bytesAt_congr fun j hj => by
    rw [Nat.add_assoc, Nat.add_assoc]
    exact h.bytes _ (by omega)

/-- What a command leaves in its table and in its header. -/
theorem issue_stored (hplaced : Placed layout) (hfits : setup.Fits) (b : Bytes) :
    TableStored (table layout setup.slot) setup (issue layout setup b) ∧
      HeaderStored (header layout setup.slot) setup.atapi b (issue layout setup b) := by
  obtain ⟨hstart, hend, hfirst, hlast⟩ := table_bounds layout hfits.slot
  have hlist := hplaced.list
  have htables := hplaced.tables
  have hapart := hplaced.apart
  have htable : Touches (table layout setup.slot) 144 (storeTable (table layout setup.slot) setup) :=
    touches_storeTable (by omega) hfits
  have hheader : Touches (header layout setup.slot) 8
      (storeHeader (header layout setup.slot) setup.atapi) := touches_storeHeader (by omega)
  have hstored : TableStored (table layout setup.slot) setup
      (storeTable (table layout setup.slot) setup b) := tableStored (by omega) hfits b
  have hoptions : HeaderStored (header layout setup.slot) setup.atapi
      (storeTable (table layout setup.slot) setup b) (issue layout setup b) :=
    headerStored (by omega) setup.atapi _
  have hbyte (i : ℕ) (hi : i < 32) :
      readWord (storeTable (table layout setup.slot) setup b) (header layout setup.slot + i) 1 =
        readWord b (header layout setup.slot + i) 1 := htable.readWord_eq (by omega) (by omega)
  constructor
  · refine ⟨?_, fun stores hstores => ?_, ?_⟩
    · exact (hheader.bytesAt_eq (by omega) (by omega)).trans hstored.fis
    · exact (hheader.bytesAt_eq (by omega) (by omega)).trans (hstored.packet stores hstores)
    · rw [← hstored.region]
      unfold fetchRegion issue
      rw [hheader.readWord_eq (by omega) (by omega), hheader.readWord_eq (by omega) (by omega),
        hheader.readWord_eq (by omega) (by omega)]
  · refine ⟨hoptions.length, hoptions.write, ?_, ?_, hoptions.entries⟩
    · have hfirstByte := hbyte 0 (by decide)
      rw [Nat.add_zero] at hfirstByte
      rw [← hfirstByte]
      exact hoptions.atapi
    · rw [← hbyte 1 (by decide)]
      exact hoptions.control

/-- What the controller fetches: what was stored, with the bits that are never stored. -/
theorem fetchCommand_issue (hplaced : Placed layout) (hprepared : Prepared layout b0 b)
    (hfits : setup.Fits)
    (hlist : Dma layout.getPhysicalAddress (issue layout setup b) dma layout.commandList 1024)
    (htable : Dma layout.getPhysicalAddress (issue layout setup b) dma
      (table layout setup.slot) 144) :
    fetchCommand dma (layout.getPhysicalAddress layout.commandList) setup.slot =
      { fis := fisBytes setup.fis
        packet :=
          if (setup.atapi.map (· % 2)).getD
              (field 5 1 (readWord b (header layout setup.slot) 1)) = 1 then
            some (bytesAt (issue layout setup b) (table layout setup.slot + 64) 12)
          else none
        write := false
        reset := field 0 1 (readWord b0 (header layout setup.slot + 1) 1) = 1
        bist := field 1 1 (readWord b0 (header layout setup.slot + 1) 1) = 1
        clearBusyUponROK := field 2 1 (readWord b0 (header layout setup.slot + 1) 1) = 1
        portMultiplierPort := field 4 4 (readWord b0 (header layout setup.slot + 1) 1)
        regions := [(setup.bufferPhysical, setup.byteCount % 2 ^ 22 + 1)] } := by
  obtain ⟨hstart, hend, hfirst, hlast⟩ := table_bounds layout hfits.slot
  have hlistEnd := hplaced.list
  have htablesEnd := hplaced.tables
  obtain ⟨hstored, hheader⟩ := issue_stored hplaced hfits b
  have hprepared' := hprepared.issue hplaced hfits
  have hslot := hfits.slot
  have hmax : maxCommands = 32 := rfl
  have hword (i width : ℕ) (hi : i + width ≤ 32) :
      readWord dma (layout.getPhysicalAddress layout.commandList + 32 * setup.slot + i) width =
        readWord (issue layout setup b) (header layout setup.slot + i) width := by
    rw [Nat.add_assoc, hlist.readWord_eq hlistEnd (by omega), ← Nat.add_assoc]
    rfl
  have haddress : readWord dma
        (layout.getPhysicalAddress layout.commandList + 32 * setup.slot + 8) 4 +
      2 ^ 32 * readWord dma
        (layout.getPhysicalAddress layout.commandList + 32 * setup.slot + 12) 4 =
      layout.getPhysicalAddress (table layout setup.slot) := by
    have hlt := htable.lt
    rw [hword 8 4 (by decide), hword 12 4 (by decide), hprepared'.low _ hslot,
      hprepared'.high _ hslot]
    exact low_add_high (by omega)
  have hoptions := hword 0 1 (by decide)
  rw [Nat.add_zero, Nat.add_zero] at hoptions
  have hfis : bytesAt dma (layout.getPhysicalAddress (table layout setup.slot)) 20 =
      fisBytes setup.fis := (htable.bytesAt_eq (i := 0) (by decide)).trans hstored.fis
  have hregion : fetchRegion dma
      (layout.getPhysicalAddress (table layout setup.slot) + 128 + 16 * 0) =
        (setup.bufferPhysical, setup.byteCount % 2 ^ 22 + 1) := by
    have hread (i : ℕ) (hi : i + 4 ≤ 16) : readWord dma
        (layout.getPhysicalAddress (table layout setup.slot) + 128 + i) 4 =
          readWord (issue layout setup b) (table layout setup.slot + 128 + i) 4 := by
      rw [Nat.add_assoc, htable.readWord_eq (by omega) (by omega), ← Nat.add_assoc]
    rw [← hstored.region, Nat.mul_zero, Nat.add_zero]
    unfold fetchRegion
    rw [hread 0 (by decide), hread 4 (by decide), hread 12 (by decide)]
  unfold fetchCommand
  dsimp only
  rw [haddress, hoptions, hheader.length, hfis, hheader.atapi, hheader.write,
    hword 1 1 (by decide), hheader.control, hword 2 2 (by decide), hheader.entries,
    hprepared.control _ hslot, htable.bytesAt_eq (by decide)]
  simp only [List.range_one, List.map_cons, List.map_nil, hregion]
  rfl

end Fetch

/-- The commands to a drive with packets, each with the physical address of its buffer. -/
inductive Command
  | identifyDrive (bufferPhysical : ℕ)
  | readSectorsSATA (lba sectorCount bufferPhysical : ℕ)
  | readSectorsCD (lba sectorCount bufferPhysical : ℕ)
  | readToc (bufferSize bufferPhysical : ℕ)
deriving DecidableEq, Repr

namespace Command

def setup : Command → Setup
  | identifyDrive bufferPhysical => AhciCommands.identifyDrive bufferPhysical true
  | readSectorsSATA lba sectorCount bufferPhysical =>
    AhciCommands.readSectorsSATA lba sectorCount bufferPhysical
  | readSectorsCD lba sectorCount bufferPhysical =>
    AhciCommands.readSectorsCD lba sectorCount bufferPhysical
  | readToc bufferSize bufferPhysical => AhciCommands.readToc bufferPhysical bufferSize

/-- The buffer has an address, the assertions of the command hold, and a table of contents is
asked for with a length that its packet can hold. -/
def Valid : Command → Prop
  | identifyDrive bufferPhysical => bufferPhysical < 2 ^ 64
  | readSectorsSATA _ sectorCount bufferPhysical =>
    bufferPhysical < 2 ^ 64 ∧ 0 < sectorCount ∧ sectorCount ≤ 2048
  | readSectorsCD _ sectorCount bufferPhysical =>
    bufferPhysical < 2 ^ 64 ∧ 0 < sectorCount ∧ sectorCount < 256
  | readToc bufferSize bufferPhysical =>
    bufferPhysical < 2 ^ 64 ∧ 0 < bufferSize ∧ bufferSize < 2 ^ 16

end Command

/-- A command that reads into one range, with nothing special asked of the controller. -/
def plainCommand (fis : List UInt8) (packet : Option (List UInt8)) (region : ℕ × ℕ) : HBACommand :=
  { fis := fis
    packet := packet
    write := false
    reset := false
    bist := false
    clearBusyUponROK := false
    portMultiplierPort := 0
    regions := [region] }

def bytesOf (values : List ℕ) : List UInt8 := values.map UInt8.ofNat

/-- The frame of a command: type, command bit, command, feature, addresses and count. -/
def frame (command feature device lba count : ℕ) : List UInt8 :=
  bytesOf [0x27, 0x80, command, feature, lba % 256, lba / 2 ^ 8 % 256, lba / 2 ^ 16 % 256, device,
    lba / 2 ^ 24 % 256, lba / 2 ^ 32 % 256, lba / 2 ^ 40 % 256, 0, count % 256, count / 256 % 256,
    0, 0, 0, 0, 0, 0]

/-- What the controller is to do for a command. -/
def Command.intended : Command → HBACommand
  | identifyDrive bufferPhysical => plainCommand (frame 0xA1 0 0 0 0) none (bufferPhysical, 512)
  | readSectorsSATA lba sectorCount bufferPhysical =>
    plainCommand (frame 0x25 0 0x40 lba sectorCount) none (bufferPhysical, sectorCount * 2048)
  | readSectorsCD lba sectorCount bufferPhysical =>
    plainCommand (frame 0xA0 1 0 0 0) (some (bytesOf (Cdrom.atapiCommand lba sectorCount)))
      (bufferPhysical, sectorCount * 2048)
  | readToc bufferSize bufferPhysical =>
    plainCommand (frame 0xA0 1 0 0 0)
      (some (bytesOf [0x43, 0, 0, 0, 0, 0, 0, bufferSize / 256, bufferSize % 256, 0, 0, 0]))
      (bufferPhysical, bufferSize)

/-- Commands are given one after the other, and the controller works in between. -/
inductive Runs (layout : Layout) : Bytes → List Command → Bytes → Prop
  | nil {b b' : Bytes} (hdevice : DeviceKeeps layout b b') : Runs layout b [] b'
  | cons {b b1 b2 : Bytes} {c : Command} {cs : List Command} (hdevice : DeviceKeeps layout b b1)
    (hvalid : c.Valid) (hrest : Runs layout (issue layout c.setup b1) cs b2) :
    Runs layout b (c :: cs) b2

section Results
variable {layout : Layout} {b b0 dma : Bytes} {c : Command} {cs : List Command}

theorem Command.fits (h : c.Valid) : c.setup.Fits := by
  cases c with
  | identifyDrive bufferPhysical =>
    refine ⟨show 0 < 32 by decide, ?_, fun stores hstores => ?_, h⟩
    · simp [setup, AhciCommands.identifyDrive]
    · cases hstores
  | readSectorsSATA lba sectorCount bufferPhysical =>
    refine ⟨show 0 < 32 by decide, ?_, fun stores hstores => ?_, h.1⟩
    · simp [setup, AhciCommands.readSectorsSATA]
    · cases hstores
  | readSectorsCD lba sectorCount bufferPhysical =>
    refine ⟨show 1 < 32 by decide, ?_, fun stores hstores => ?_, h.1⟩
    · simp [setup, AhciCommands.readSectorsCD]
    · cases hstores
      simp
  | readToc bufferSize bufferPhysical =>
    refine ⟨show 0 < 32 by decide, ?_, fun stores hstores => ?_, h.1⟩
    · simp [setup, AhciCommands.readToc]
    · cases hstores
      simp

theorem Runs.prepared (hplaced : Placed layout) (hrun : Runs layout b0 cs b)
    {first : Bytes} (h : Prepared layout first b0) : Prepared layout first b := by
  induction hrun with
  | nil hdevice => exact h.device hplaced hdevice
  | cons hdevice hvalid hrest ih =>
    exact ih ((h.device hplaced hdevice).issue hplaced (Command.fits hvalid))

/-- The bits of a header that no command stores, as they were before the port was set up. -/
structure Clean (control : ℕ) : Prop where
  reset : field 0 1 control = 0
  bist : field 1 1 control = 0
  clearBusyUponROK : field 2 1 control = 0
  portMultiplierPort : field 4 4 control = 0

/-- What a command itself leaves as it was: IdentifyDrive the packet bit, and
ReadSectorsSATA the count. -/
def Command.Complete (layout : Layout) (b : Bytes) : Command → Prop
  | identifyDrive _ => field 5 1 (readWord b (header layout 0) 1) = 0
  | readSectorsSATA _ _ _ => False
  | readSectorsCD _ _ _ => True
  | readToc _ _ => True

theorem bit_iff {control low : ℕ} : decide (field low 1 control = 1) = false ↔
    field low 1 control = 0 := by
  have hlt : field low 1 control < 2 := Nat.mod_lt _ (by decide)
  rw [decide_eq_false_iff_not]
  omega

theorem fetched_iff {fis fis' : List UInt8} {packet packet' : Option (List UInt8)}
    {region region' : ℕ × ℕ} {control : ℕ} :
    { fis := fis
      packet := packet
      write := false
      reset := field 0 1 control = 1
      bist := field 1 1 control = 1
      clearBusyUponROK := field 2 1 control = 1
      portMultiplierPort := field 4 4 control
      regions := [region] } = plainCommand fis' packet' region' ↔
      Clean control ∧ fis = fis' ∧ packet = packet' ∧ region = region' := by
  unfold plainCommand
  rw [HBACommand.mk.injEq, bit_iff, bit_iff, bit_iff, List.cons.injEq]
  constructor
  · rintro ⟨hfis, hpacket, -, hreset, hbist, hclear, hport, hregion, -⟩
    exact ⟨⟨hreset, hbist, hclear, hport⟩, hfis, hpacket, hregion⟩
  · rintro ⟨⟨hreset, hbist, hclear, hport⟩, hfis, hpacket, hregion⟩
    exact ⟨hfis, hpacket, rfl, hreset, hbist, hclear, hport, hregion, rfl⟩

/-- The length of a range, as its field holds it. -/
theorem byteCount_eq {size : ℕ} (hpos : 0 < size) (hle : size ≤ 2 ^ 22) :
    (size + (2 ^ 32 - 1)) % 2 ^ 32 % 2 ^ 22 + 1 = size := by omega

theorem fisBytes_identify : fisBytes [(0, 0x27), (2, 0xA1), (7, 0)] = frame 0xA1 0 0 0 0 := by decide

/-- The two commands with a packet have the same frame. -/
theorem fisBytes_packet : fisBytes [(0, 0x27), (3, 1), (2, 0xA0)] = frame 0xA0 1 0 0 0 := by decide

/-- The frame of ReadSectorsSATA asks for no sectors. -/
theorem fisBytes_readSectorsSATA_ne {lba sectorCount bufferPhysical : ℕ} (hpos : 0 < sectorCount)
    (hle : sectorCount ≤ 2048) :
    fisBytes (readSectorsSATA lba sectorCount bufferPhysical).fis ≠
      frame 0x25 0 0x40 lba sectorCount := by
  intro heq
  have hlow : (0 : UInt8) = UInt8.ofNat (sectorCount % 256) :=
    congrArg (fun l => List.getD l 12 0) heq
  have hhigh : (0 : UInt8) = UInt8.ofNat (sectorCount / 256 % 256) :=
    congrArg (fun l => List.getD l 13 0) heq
  have hlow' : 0 = sectorCount % 256 % 256 := congrArg UInt8.toNat hlow
  have hhigh' : 0 = sectorCount / 256 % 256 % 256 := congrArg UInt8.toNat hhigh
  omega

/-- The packet that is stored for a read is READ(12). -/
theorem packet_readSectorsCD (lba sectorCount bufferPhysical : ℕ) :
    ((readSectorsCD lba sectorCount bufferPhysical).packet.map fun stores =>
      setAll stores (List.replicate 12 0)) = some (bytesOf (Cdrom.atapiCommand lba sectorCount)) :=
  rfl

theorem packet_readToc {bufferSize : ℕ} (bufferPhysical : ℕ) (hlt : bufferSize < 2 ^ 16) :
    ((readToc bufferPhysical bufferSize).packet.map fun stores =>
      setAll stores (List.replicate 12 0)) =
        some (bytesOf [0x43, 0, 0, 0, 0, 0, 0, bufferSize / 256, bufferSize % 256, 0, 0, 0]) := by
  have hhigh : bufferSize >>> 8 &&& 0xFF = bufferSize / 256 := by
    rw [Cdrom.and_byte, Nat.shiftRight_eq_div_pow]
    omega
  unfold readToc
  rw [hhigh, Cdrom.and_byte]
  rfl

/-- Whatever commands have been given before, and whatever memory the lists and the tables were
in, the controller fetches exactly the command that is meant if the bits that are never
stored were clear at first; the command of ReadSectorsSATA is never the one that is meant. -/
theorem command_fetched_iff (hplaced : Placed layout)
    (hrun : Runs layout (initializePort layout b0) cs b) (hvalid : c.Valid)
    (hlist : Dma layout.getPhysicalAddress (issue layout c.setup b) dma layout.commandList 1024)
    (htable : Dma layout.getPhysicalAddress (issue layout c.setup b) dma
      (table layout c.setup.slot) 144) :
    fetchCommand dma (layout.getPhysicalAddress layout.commandList) c.setup.slot = c.intended ↔
      Clean (readWord b0 (header layout c.setup.slot + 1) 1) ∧ c.Complete layout b := by
  have hfits := Command.fits hvalid
  have hprepared : Prepared layout b0 b := hrun.prepared hplaced (prepared_initializePort hplaced)
  have hpacket := (issue_stored hplaced hfits b).1.packet
  have hfetched := fetchCommand_issue hplaced hprepared hfits hlist htable
  rw [hfetched]
  cases c with
  | identifyDrive bufferPhysical =>
    refine fetched_iff.trans (and_congr_right fun _ => ?_)
    have hlt : field 5 1 (readWord b (header layout 0) 1) < 2 := Nat.mod_lt _ (by decide)
    constructor
    · rintro ⟨-, hnone, -⟩
      have hbit : ¬ field 5 1 (readWord b (header layout 0) 1) = 1 := by
        intro hbit
        have hsome := (if_pos hbit).symm.trans hnone
        cases hsome
      change field 5 1 (readWord b (header layout 0) 1) = 0
      omega
    · intro hbit
      refine ⟨fisBytes_identify, if_neg ?_, rfl⟩
      change ¬ field 5 1 (readWord b (header layout 0) 1) = 1
      rw [show field 5 1 (readWord b (header layout 0) 1) = 0 from hbit]
      decide
  | readSectorsSATA lba sectorCount bufferPhysical =>
    obtain ⟨-, hpos, hle⟩ := hvalid
    refine fetched_iff.trans (and_congr_right fun _ => ?_)
    constructor
    · rintro ⟨hfis, -⟩
      exact fisBytes_readSectorsSATA_ne hpos hle hfis
    · exact False.elim
  | readSectorsCD lba sectorCount bufferPhysical =>
    obtain ⟨-, hpos, hlt⟩ := hvalid
    have hsize : (sectorCount * 2048 % 2 ^ 32 + (2 ^ 32 - 1)) % 2 ^ 32 % 2 ^ 22 + 1 =
        sectorCount * 2048 := by
      rw [Nat.mod_eq_of_lt (show sectorCount * 2048 < 2 ^ 32 by omega)]
      exact byteCount_eq (by omega) (by omega)
    have hstored := hpacket _ rfl
    refine fetched_iff.trans (and_congr_right fun _ => ?_)
    refine iff_of_true ⟨fisBytes_packet, ?_, congrArg (Prod.mk bufferPhysical) hsize⟩ trivial
    exact (congrArg some hstored).trans (packet_readSectorsCD lba sectorCount bufferPhysical)
  | readToc bufferSize bufferPhysical =>
    obtain ⟨-, hpos, hlt⟩ := hvalid
    have hsize : (bufferSize + (2 ^ 32 - 1)) % 2 ^ 32 % 2 ^ 22 + 1 = bufferSize :=
      byteCount_eq hpos (by omega)
    have hstored := hpacket _ rfl
    refine fetched_iff.trans (and_congr_right fun _ => ?_)
    refine iff_of_true ⟨fisBytes_packet, ?_, congrArg (Prod.mk bufferPhysical) hsize⟩ trivial
    exact (congrArg some hstored).trans (packet_readToc bufferPhysical hlt)

/-- A layout for a controller that sees the memory of the kernel as it is. -/
def exampleLayout : Layout where
  commandList := 0x1000
  commandTableAlloc := 0x10000
  getPhysicalAddress address := address

/-- A read that follows IdentifyDrive, in memory that was clear. -/
theorem command_fetched_read :
    fetchCommand (issue exampleLayout (readSectorsCD 16 1 0x4000)
        (issue exampleLayout (identifyDrive 0x8000 true)
          (initializePort exampleLayout fun _ => 0))) 0x1000 1 =
      (Command.readSectorsCD 16 1 0x4000).intended := by
  have hplaced : Placed exampleLayout := ⟨by decide, by decide, Or.inl (by decide)⟩
  have hrun : Runs exampleLayout (initializePort exampleLayout fun _ => 0)
      [Command.identifyDrive 0x8000] (issue exampleLayout (identifyDrive 0x8000 true)
        (initializePort exampleLayout fun _ => 0)) :=
    .cons (fun _ _ _ _ _ => rfl) (show 0x8000 < 2 ^ 64 by decide) (.nil fun _ _ _ _ _ => rfl)
  have hvalid : (Command.readSectorsCD 16 1 0x4000).Valid := ⟨by decide, by decide, by decide⟩
  apply (command_fetched_iff (c := Command.readSectorsCD 16 1 0x4000) hplaced hrun hvalid
    ⟨by decide, fun _ _ => rfl⟩ ⟨by decide, fun _ _ => rfl⟩).mpr
  have hcontrol : readWord (fun _ => 0) (header exampleLayout 1 + 1) 1 = 0 := by
    rw [readWord_one (by decide)]
    rfl
  refine ⟨?_, trivial⟩
  change Clean (readWord (fun _ => 0) (header exampleLayout 1 + 1) 1)
  rw [hcontrol]
  exact ⟨rfl, rfl, rfl, rfl⟩

end Results

end Enkel.AhciCommands
