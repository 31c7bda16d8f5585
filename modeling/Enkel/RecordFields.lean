import Enkel.BitFields
import Enkel.ByteMemory

/-!
Records in a byte memory: little-endian fields at offsets from the start of the record,
and arrays of records. A field that is written reads as its value when the fields of its
record are apart, whatever is written to the other records of the array. Bit fields are
written by replacing some bits of a word, and ranges of bytes are read as lists.
-/
namespace Enkel.RecordFields

open ByteMemory BitFields

structure Field where
  offset : ℕ
  width : ℕ
  value : ℕ
deriving DecidableEq, Repr

/-- Fields without a byte in common. -/
def Field.Apart (f g : Field) : Prop :=
  f.offset + f.width ≤ g.offset ∨ g.offset + g.width ≤ f.offset

instance (f g : Field) : Decidable (f.Apart g) := inferInstanceAs (Decidable (_ ∨ _))

def writeField (base : ℕ) (b : ℕ → UInt8) (f : Field) : ℕ → UInt8 :=
  writeWord (base + f.offset) f.value f.width b

/-- The fields are written one after the other. -/
def writeFields (base : ℕ) (fs : List Field) (b : ℕ → UInt8) : ℕ → UInt8 :=
  fs.foldl (writeField base) b

/-- Records of `size` bytes are written at their numbers. -/
def writeRecords (base size : ℕ) (records : List (ℕ × List Field)) (b : ℕ → UInt8) :
    ℕ → UInt8 :=
  records.foldl (fun b record => writeFields (base + size * record.1) record.2 b) b

section Words
variable {start n m address value : ℕ} {b : ℕ → UInt8}

theorem writeWord_of_outside (hn : start + n ≤ 2 ^ 64) (ha : address < 2 ^ 64)
    (hout : address < start ∨ start + n ≤ address) : writeWord start value n b address = b address := by
  unfold writeWord
  rw [writeBytes_eq (by omega) ha, if_neg]
  rw [offset_lt_iff hn ha]
  omega

theorem readWord_writeWord_of_apart (hn : start + n ≤ 2 ^ 64) (hm : address + m ≤ 2 ^ 64)
    (hapart : address + m ≤ start ∨ start + n ≤ address) :
    readWord (writeWord start value n b) address m = readWord b address m := by
  apply readWord_congr
  intro i hi
  have hmod : (address + i) % 2 ^ 64 = address + i := Nat.mod_eq_of_lt (by omega)
  rw [hmod]
  exact writeWord_of_outside hn (by omega) (by omega)

end Words

section Fields
variable {base size address width : ℕ} {f : Field} {fs : List Field} {b : ℕ → UInt8}

/-- The fields lie within the record. -/
def Fits (size : ℕ) (fs : List Field) : Prop := ∀ f ∈ fs, f.offset + f.width ≤ size

theorem writeFields_cons (base : ℕ) (f : Field) (fs : List Field) (b : ℕ → UInt8) :
    writeFields base (f :: fs) b = writeFields base fs (writeField base b f) := rfl

theorem writeFields_of_outside (hfits : Fits size fs) (hbase : base + size ≤ 2 ^ 64)
    (ha : address < 2 ^ 64) (hout : address < base ∨ base + size ≤ address) :
    writeFields base fs b address = b address := by
  induction fs generalizing b with
  | nil => rfl
  | cons f fs ih =>
    have hf := hfits f List.mem_cons_self
    rw [writeFields_cons, ih fun g hg => hfits g (List.mem_cons_of_mem f hg)]
    exact writeWord_of_outside (by omega) ha (by omega)

/-- Words apart from all the fields are as they were. -/
theorem readWord_writeFields_of_apart (hfits : Fits size fs) (hbase : base + size ≤ 2 ^ 64)
    (ha : address + width ≤ 2 ^ 64)
    (hapart : ∀ f ∈ fs, address + width ≤ base + f.offset ∨ base + f.offset + f.width ≤ address) :
    readWord (writeFields base fs b) address width = readWord b address width := by
  induction fs generalizing b with
  | nil => rfl
  | cons f fs ih =>
    have hf := hfits f List.mem_cons_self
    rw [writeFields_cons, ih (fun g hg => hfits g (List.mem_cons_of_mem f hg))
      fun g hg => hapart g (List.mem_cons_of_mem f hg)]
    exact readWord_writeWord_of_apart (by omega) ha (hapart f List.mem_cons_self)

theorem readWord_writeFields (hfits : Fits size fs) (hbase : base + size ≤ 2 ^ 64)
    (hapart : fs.Pairwise Field.Apart) (hf : f ∈ fs) :
    readWord (writeFields base fs b) (base + f.offset) f.width = f.value % 256 ^ f.width := by
  induction fs generalizing b with
  | nil => cases hf
  | cons g fs ih =>
    obtain ⟨hg, hrest⟩ := List.pairwise_cons.mp hapart
    have hfits' : Fits size fs := fun h hh => hfits h (List.mem_cons_of_mem g hh)
    have hin := hfits f hf
    rw [writeFields_cons]
    rcases List.mem_cons.mp hf with rfl | hf
    · rw [readWord_writeFields_of_apart hfits' hbase (by omega)]
      · exact readWord_writeWord (by omega)
      · intro h hh
        have := hg h hh
        unfold Field.Apart at this
        omega
    · exact ih hfits' hrest hf

end Fields

section Records
variable {base size count i offset width : ℕ} {f : Field} {fs : List Field}
variable {records : List (ℕ × List Field)} {b : ℕ → UInt8}

/-- The records lie within an array of `count` records. -/
def InArray (size count : ℕ) (records : List (ℕ × List Field)) : Prop :=
  ∀ record ∈ records, record.1 < count ∧ Fits size record.2

theorem writeRecords_cons (base size : ℕ) (record : ℕ × List Field)
    (records : List (ℕ × List Field)) (b : ℕ → UInt8) :
    writeRecords base size (record :: records) b =
      writeRecords base size records (writeFields (base + size * record.1) record.2 b) := rfl

/-- Another record ends before this one starts, or starts behind it. -/
theorem record_apart {i j : ℕ} (h : i ≠ j) (size : ℕ) :
    size * i + size ≤ size * j ∨ size * j + size ≤ size * i := by
  rcases Nat.lt_or_gt_of_ne h with hlt | hlt
  · exact Or.inl (Nat.mul_le_mul_left size hlt)
  · exact Or.inr (Nat.mul_le_mul_left size hlt)

theorem record_end {i : ℕ} (h : i < count) (size : ℕ) : size * i + size ≤ size * count :=
  Nat.mul_le_mul_left size h

theorem writeRecords_of_outside {address : ℕ} (hin : InArray size count records)
    (hbase : base + size * count ≤ 2 ^ 64) (ha : address < 2 ^ 64)
    (hout : address < base ∨ base + size * count ≤ address) :
    writeRecords base size records b address = b address := by
  induction records generalizing b with
  | nil => rfl
  | cons record records ih =>
    obtain ⟨hlt, hfits⟩ := hin record List.mem_cons_self
    have hend := record_end hlt size
    rw [writeRecords_cons, ih fun r hr => hin r (List.mem_cons_of_mem record hr)]
    exact writeFields_of_outside hfits (by omega) ha (by omega)

/-- A word apart from the fields of its record. -/
theorem readWord_writeRecords_of_apart (hin : InArray size count records)
    (hbase : base + size * count ≤ 2 ^ 64) (hi : i < count) (hwidth : offset + width ≤ size)
    (hapart : ∀ record ∈ records, record.1 = i → ∀ g ∈ record.2,
      offset + width ≤ g.offset ∨ g.offset + g.width ≤ offset) :
    readWord (writeRecords base size records b) (base + size * i + offset) width =
      readWord b (base + size * i + offset) width := by
  induction records generalizing b with
  | nil => rfl
  | cons record records ih =>
    obtain ⟨hlt, hfits⟩ := hin record List.mem_cons_self
    have hend := record_end hlt size
    have hend' := record_end hi size
    rw [writeRecords_cons, ih (fun r hr => hin r (List.mem_cons_of_mem record hr))
      fun r hr => hapart r (List.mem_cons_of_mem record hr)]
    apply readWord_writeFields_of_apart hfits (by omega) (by omega)
    intro g hg
    have hin' := hfits g hg
    by_cases h : record.1 = i
    · have hg' := hapart record List.mem_cons_self h g hg
      rw [h]
      omega
    · have hother := record_apart h size
      omega

/-- A record that is not written. -/
theorem readWord_writeRecords_of_notMem (hin : InArray size count records)
    (hbase : base + size * count ≤ 2 ^ 64) (hi : i < count) (hwidth : offset + width ≤ size)
    (hnot : i ∉ records.map Prod.fst) :
    readWord (writeRecords base size records b) (base + size * i + offset) width =
      readWord b (base + size * i + offset) width := by
  apply readWord_writeRecords_of_apart hin hbase hi hwidth
  intro record hrecord heq
  exact absurd (heq ▸ List.mem_map_of_mem hrecord) hnot

/-- A record that is written once. -/
theorem readWord_writeRecords (hin : InArray size count records)
    (hbase : base + size * count ≤ 2 ^ 64) (hnodup : (records.map Prod.fst).Nodup)
    (hmem : (i, fs) ∈ records) (hapart : fs.Pairwise Field.Apart) (hf : f ∈ fs) :
    readWord (writeRecords base size records b) (base + size * i + f.offset) f.width =
      f.value % 256 ^ f.width := by
  induction records generalizing b with
  | nil => cases hmem
  | cons record records ih =>
    rw [List.map_cons, List.nodup_cons] at hnodup
    have hin' : InArray size count records := fun r hr => hin r (List.mem_cons_of_mem record hr)
    rw [writeRecords_cons]
    rcases List.mem_cons.mp hmem with rfl | hmem
    · obtain ⟨hlt, hfits⟩ := hin _ List.mem_cons_self
      have hend := record_end hlt size
      rw [readWord_writeRecords_of_notMem hin' hbase hlt (hfits f hf) hnodup.1]
      exact readWord_writeFields hfits (by omega) hapart hf
    · exact ih hin' hnodup.2 hmem

end Records

section Bits
variable {address width low count value start n : ℕ} {b : ℕ → UInt8}

/-- Some bits of a word are replaced. -/
def writeBits (address width low count value : ℕ) (b : ℕ → UInt8) : ℕ → UInt8 :=
  writeWord address (setField low count value (readWord b address width)) width b

theorem readWord_writeBits (hwidth : width ≤ 2 ^ 64) (hcount : low + count ≤ 8 * width) :
    readWord (writeBits address width low count value b) address width =
      setField low count value (readWord b address width) := by
  have hpow : (256 : ℕ) ^ width = 2 ^ (8 * width) := by
    rw [pow_mul]
    rfl
  unfold writeBits
  rw [readWord_writeWord hwidth, hpow, Nat.mod_eq_of_lt]
  apply setField_lt hcount
  rw [← hpow]
  exact readWord_lt

theorem writeBits_of_outside {a : ℕ} (hend : address + width ≤ 2 ^ 64) (ha : a < 2 ^ 64)
    (hout : a < address ∨ address + width ≤ a) :
    writeBits address width low count value b a = b a := writeWord_of_outside hend ha hout

theorem readWord_writeBits_of_apart (hend : address + width ≤ 2 ^ 64) (hn : start + n ≤ 2 ^ 64)
    (hapart : start + n ≤ address ∨ address + width ≤ start) :
    readWord (writeBits address width low count value b) start n = readWord b start n :=
  readWord_writeWord_of_apart hend hn hapart

theorem setBytes_of_outside {a : ℕ} {byte : UInt8} (hend : start + n ≤ 2 ^ 64) (ha : a < 2 ^ 64)
    (hout : a < start ∨ start + n ≤ a) : setBytes start byte n b a = b a := by
  rw [setBytes_eq (by omega) ha, if_neg]
  rw [offset_lt_iff hend ha]
  omega

theorem readWord_setBytes_of_apart {byte : UInt8} (hend : start + n ≤ 2 ^ 64)
    (hwidth : address + width ≤ 2 ^ 64) (hapart : address + width ≤ start ∨ start + n ≤ address) :
    readWord (setBytes start byte n b) address width = readWord b address width := by
  apply readWord_congr
  intro i hi
  rw [Nat.mod_eq_of_lt (by omega)]
  exact setBytes_of_outside hend (by omega) (by omega)

end Bits

section Lists
variable {start n address width i value : ℕ} {byte : UInt8} {b b' : ℕ → UInt8}

def bytesAt (b : ℕ → UInt8) (start n : ℕ) : List UInt8 := (List.range n).map fun i => b (start + i)

theorem bytesAt_congr {start' : ℕ} (h : ∀ i < n, b (start + i) = b' (start' + i)) :
    bytesAt b start n = bytesAt b' start' n :=
  List.map_congr_left fun i hi => h i (List.mem_range.mp hi)

theorem bytesAt_writeWord_of_apart (hend : address + width ≤ 2 ^ 64) (hn : start + n ≤ 2 ^ 64)
    (hapart : start + n ≤ address ∨ address + width ≤ start) :
    bytesAt (writeWord address value width b) start n = bytesAt b start n :=
  bytesAt_congr fun i hi => writeWord_of_outside hend (by omega) (by omega)

theorem bytesAt_setBytes_of_apart (hend : address + width ≤ 2 ^ 64) (hn : start + n ≤ 2 ^ 64)
    (hapart : start + n ≤ address ∨ address + width ≤ start) :
    bytesAt (setBytes address byte width b) start n = bytesAt b start n :=
  bytesAt_congr fun i hi => setBytes_of_outside hend (by omega) (by omega)

theorem readWord_one (h : address < 2 ^ 64) : readWord b address 1 = (b address).toNat := by
  unfold readWord readWord
  rw [Nat.add_zero, Nat.mod_eq_of_lt h, pow_zero, Nat.one_mul, Nat.zero_add]

theorem getD_bytesAt (hi : i < n) (byte : UInt8) : (bytesAt b start n).getD i byte = b (start + i) := by
  simp [bytesAt, hi]

/-- A range that is cleared, or set to one value. -/
theorem bytesAt_setBytes (hn : start + n ≤ 2 ^ 64) :
    bytesAt (setBytes start byte n b) start n = List.replicate n byte := by
  apply List.eq_replicate_iff.mpr
  refine ⟨by simp [bytesAt], fun x hx => ?_⟩
  obtain ⟨i, hi, rfl⟩ := List.mem_map.mp hx
  have hlt := List.mem_range.mp hi
  rw [setBytes_eq (by omega) (by omega), if_pos]
  rw [offset_lt_iff hn (by omega)]
  omega

/-- One byte of a range is stored. -/
theorem bytesAt_storeByte (hn : start + n ≤ 2 ^ 64) (hi : i < n) :
    bytesAt (writeWord (start + i) value 1 b) start n =
      (bytesAt b start n).set i (UInt8.ofNat value) := by
  apply List.ext_getElem
  · simp [bytesAt]
  · intro j hj hj'
    have hlt : j < n := by simpa [bytesAt] using hj
    simp only [bytesAt, List.getElem_map, List.getElem_range, List.getElem_set]
    by_cases h : i = j
    · subst h
      unfold writeWord
      rw [writeBytes_eq (by omega) (by omega), if_pos rfl, offset_of_le le_rfl (by omega),
        Nat.sub_self, if_pos Nat.one_pos]
      simp [digit]
    · rw [writeWord_of_outside (by omega) (by omega) (by omega), if_neg h]

end Lists

section Touches
variable {start n start' n' address width : ℕ} {f g : (ℕ → UInt8) → ℕ → UInt8} {b : ℕ → UInt8}

/-- Only bytes of a range are changed. -/
def Touches (start n : ℕ) (f : (ℕ → UInt8) → ℕ → UInt8) : Prop :=
  ∀ b, ∀ a < 2 ^ 64, (a < start ∨ start + n ≤ a) → f b a = b a

theorem Touches.comp (hf : Touches start n f) (hg : Touches start n g) :
    Touches start n fun b => g (f b) :=
  fun b a ha hout => (hg (f b) a ha hout).trans (hf b a ha hout)

theorem Touches.mono (h : Touches start n f) (hle : start' ≤ start)
    (hend : start + n ≤ start' + n') : Touches start' n' f :=
  fun b a ha hout => h b a ha (by omega)

theorem touches_writeWord {value : ℕ} (hend : start + n ≤ 2 ^ 64) :
    Touches start n (writeWord start value n) :=
  fun _ _ ha hout => writeWord_of_outside hend ha hout

theorem touches_writeBits {low count value : ℕ} (hend : start + n ≤ 2 ^ 64) :
    Touches start n (writeBits start n low count value) :=
  fun _ _ ha hout => writeBits_of_outside hend ha hout

theorem touches_setBytes {byte : UInt8} (hend : start + n ≤ 2 ^ 64) :
    Touches start n (setBytes start byte n) :=
  fun _ _ ha hout => setBytes_of_outside hend ha hout

theorem Touches.readWord_eq (h : Touches start n f) (hend : address + width ≤ 2 ^ 64)
    (hapart : address + width ≤ start ∨ start + n ≤ address) :
    readWord (f b) address width = readWord b address width := by
  apply readWord_congr
  intro i hi
  rw [Nat.mod_eq_of_lt (by omega)]
  exact h b _ (by omega) (by omega)

theorem Touches.bytesAt_eq (h : Touches start n f) (hend : address + width ≤ 2 ^ 64)
    (hapart : address + width ≤ start ∨ start + n ≤ address) :
    bytesAt (f b) address width = bytesAt b address width :=
  bytesAt_congr fun i hi => h b _ (by omega) (by omega)

end Touches

section Stores
variable {start n : ℕ} {stores : List (ℕ × ℕ)} {b : ℕ → UInt8}

/-- Bytes are stored one after the other, each at its offset. -/
def storeBytes (start : ℕ) (stores : List (ℕ × ℕ)) (b : ℕ → UInt8) : ℕ → UInt8 :=
  stores.foldl (fun b store => writeWord (start + store.1) store.2 1 b) b

def setAll (stores : List (ℕ × ℕ)) (l : List UInt8) : List UInt8 :=
  stores.foldl (fun l store => l.set store.1 (UInt8.ofNat store.2)) l

theorem touches_storeBytes (hend : start + n ≤ 2 ^ 64) (hstores : ∀ s ∈ stores, s.1 < n) :
    Touches start n (storeBytes start stores) := by
  induction stores with
  | nil => exact fun _ _ _ _ => rfl
  | cons s stores ih =>
    have hs := hstores s List.mem_cons_self
    have hfirst : Touches start n (writeWord (start + s.1) s.2 1) :=
      (touches_writeWord (by omega)).mono (by omega) (by omega)
    exact hfirst.comp (ih fun t ht => hstores t (List.mem_cons_of_mem s ht))

theorem bytesAt_storeBytes (hend : start + n ≤ 2 ^ 64) (hstores : ∀ s ∈ stores, s.1 < n) :
    bytesAt (storeBytes start stores b) start n = setAll stores (bytesAt b start n) := by
  induction stores generalizing b with
  | nil => rfl
  | cons s stores ih =>
    have hs := hstores s List.mem_cons_self
    change bytesAt (storeBytes start stores (writeWord (start + s.1) s.2 1 b)) start n = _
    rw [ih fun t ht => hstores t (List.mem_cons_of_mem s ht), bytesAt_storeByte hend hs]
    rfl

end Stores

end Enkel.RecordFields
