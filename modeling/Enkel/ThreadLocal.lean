import Enkel.Rounding
import Enkel.SegmentBounds

/-!
The thread-local block of a process. The two parts are rounded up one by one and
laid right below the control block, whose address is the FS base. Compiled code
subtracts the rounded sum of the sizes from the FS base instead, so the block is
where it is looked for exactly if the size of the first part is a multiple of the
alignment.
-/
namespace Enkel.ThreadLocal

open ByteMemory Elf Rounding

/-- The control block at the FS base. -/
structure TlsData where
  self : ℕ
  reserved0 : ℕ
  reserved1 : ℕ
  reserved2 : ℕ
  reserved3 : ℕ
  stackCanary : ℕ

/-- The words of the control block, in the order of their addresses. -/
def TlsData.words (d : TlsData) : List ℕ :=
  [d.self, d.reserved0, d.reserved1, d.reserved2, d.reserved3, d.stackCanary]

def TlsData.byte (d : TlsData) (i : ℕ) : UInt8 := digit (d.words.getD (i / 8) 0) (i % 8)

abbrev sizeofTlsData : ℕ := 48

structure TlsAllocation where
  memory : ℕ
  size : ℕ
  fsBase : ℕ
deriving DecidableEq, Repr

/-- The sizes that CreateTLS computes, by the names of its variables. -/
structure TlsSizes where
  tdataSize : ℕ
  tbssSize : ℕ
  alignedSize : ℕ
  alignedOffset : ℕ
  tlsAllocationSize : ℕ
deriving DecidableEq, Repr

def tlsSizes (tdataSize tbssSize tlsAlign : ℕ) : TlsSizes :=
  let tdataSize := alignSize tdataSize tlsAlign
  let tbssSize := alignSize tbssSize tlsAlign
  let tbssSize := if tbssSize = 0 ∧ tdataSize = 0 then pageSize else tbssSize
  let tlsSize := add64 tdataSize tbssSize
  let alignedSize := alignSize tlsSize pageSize
  { tdataSize := tdataSize
    tbssSize := tbssSize
    alignedSize := alignedSize
    alignedOffset := sub64 alignedSize tlsSize
    tlsAllocationSize := add64 alignedSize pageSize }

/-- The control block that is written for the block at `tls`. -/
def kernelData (tls alignedSize : ℕ) : TlsData :=
  { self := add64 tls alignedSize
    reserved0 := 0x715000AA
    reserved1 := 0x715000BB
    reserved2 := 0x715000CC
    reserved3 := 0x715000DD
    stackCanary := 0xDEADC0DEDEADC0DE }

/-- A copy from a local variable. -/
def store (dest : ℕ) (f : ℕ → UInt8) (n : ℕ) (m : Memory) : Memory :=
  { bytes := writeBytes dest f n m.bytes
    log := m.log ++ [(dest, n)] }

/-- CreateTLS: the allocation, the ranges that are read from the program, and the
memory. -/
def createTLS (virtualAlloc : ℕ → ℕ) (tdataSize tbssSize tdataStart tlsAlign : ℕ) (m : Memory) :
    TlsAllocation × List (ℕ × ℕ) × Memory :=
  let z := tlsSizes tdataSize tbssSize tlsAlign
  let tls := virtualAlloc z.tlsAllocationSize
  let m := memset tls 0xFE z.tlsAllocationSize m
  let m := store (add64 tls z.alignedSize) (kernelData tls z.alignedSize).byte sizeofTlsData m
  let m := if z.tdataSize ≠ 0 then
      memcpy (add64 tls z.alignedOffset) tdataStart z.tdataSize m else m
  let reads := if z.tdataSize ≠ 0 then [(tdataStart, z.tdataSize)] else []
  let m := memset (add64 (add64 tls z.alignedOffset) z.tdataSize) 0 z.tbssSize m
  let tlsHigh := add64 tls z.alignedSize
  ({ memory := tls
     size := z.tlsAllocationSize
     fsBase := tlsHigh }, reads, m)

section Sizes
variable {tdataSize tbssSize tlsAlign : ℕ}

/-- The alignments of a program header. -/
def ElfAlignment (tlsAlign : ℕ) : Prop := tlsAlign = 0 ∨ ∃ k < 64, tlsAlign = 2 ^ k

theorem alignSize_zero {n : ℕ} : alignSize n 0 = 0 := by
  have hlt : add64 n (0 - 1) < 2 ^ 64 := Nat.mod_lt _ (Nat.two_pow_pos 64)
  unfold alignSize
  apply Nat.eq_of_testBit_eq
  intro i
  rw [Nat.sub_zero, Nat.testBit_and, Nat.testBit_two_pow, Nat.zero_testBit]
  by_cases hi : 64 = i
  · rw [← hi, Nat.testBit_lt_two_pow hlt, Bool.false_and]
  · simp [hi]

/-- Rounding up to a power of two, unless the sum wraps around. -/
theorem alignSize_two_pow {n k : ℕ} (hk : k < 64) (hn : n < 2 ^ 64) :
    alignSize n (2 ^ k) = if n + 2 ^ k ≤ 2 ^ 64 then roundUp n (2 ^ k) else 0 := by
  rw [← and_mask hk.le hn]
  have hspan := Words.and_span (add64 n (2 ^ k - 1)) hk.le
  unfold Words.span at hspan
  unfold alignSize
  rw [hspan, Nat.mod_eq_of_lt]
  · rfl
  · apply Nat.div_lt_of_lt_mul
    rw [← pow_add, Nat.add_sub_cancel' hk.le]
    exact Nat.mod_lt _ (Nat.two_pow_pos 64)

theorem alignSize_page {n : ℕ} (hn : n < 2 ^ 64) :
    alignSize n pageSize = if n + 4096 ≤ 2 ^ 64 then roundUp n 4096 else 0 :=
  alignSize_two_pow (k := 12) (by omega) hn

end Sizes

/-- The parts lie one behind the other, and no size wraps around. -/
structure TlsSizes.Laid (z : TlsSizes) : Prop where
  parts : z.alignedOffset + z.tdataSize + z.tbssSize = z.alignedSize
  size : z.tlsAllocationSize = z.alignedSize + 4096

section Bytes
variable {virtualAlloc : ℕ → ℕ} {tdataSize tbssSize tdataStart tlsAlign x : ℕ} {m : Memory}
  {z : TlsSizes}

/-- The ranges that CreateTLS writes. -/
theorem createTLS_log (hz : tlsSizes tdataSize tbssSize tlsAlign = z) :
    (createTLS virtualAlloc tdataSize tbssSize tdataStart tlsAlign m).2.2.log =
      m.log ++ [(virtualAlloc z.tlsAllocationSize, z.tlsAllocationSize),
        (add64 (virtualAlloc z.tlsAllocationSize) z.alignedSize, 48)] ++
      (if z.tdataSize ≠ 0 then
        [(add64 (virtualAlloc z.tlsAllocationSize) z.alignedOffset, z.tdataSize)] else []) ++
      [(add64 (add64 (virtualAlloc z.tlsAllocationSize) z.alignedOffset) z.tdataSize,
        z.tbssSize)] := by
  subst hz
  unfold createTLS
  split_ifs with h
  · simp [memset, memcpy, store, h]
  · simp [memset, store, h]

/-- The writes one after the other. An empty first part is not copied. -/
theorem createTLS_bytes (hz : tlsSizes tdataSize tbssSize tlsAlign = z) :
    (createTLS virtualAlloc tdataSize tbssSize tdataStart tlsAlign m).2.2.bytes =
      setBytes (add64 (add64 (virtualAlloc z.tlsAllocationSize) z.alignedOffset) z.tdataSize) 0
          z.tbssSize
        (copyBytes (add64 (virtualAlloc z.tlsAllocationSize) z.alignedOffset) tdataStart
            z.tdataSize
          (writeBytes (add64 (virtualAlloc z.tlsAllocationSize) z.alignedSize)
              (kernelData (virtualAlloc z.tlsAllocationSize) z.alignedSize).byte 48
            (setBytes (virtualAlloc z.tlsAllocationSize) 0xFE z.tlsAllocationSize m.bytes))) := by
  subst hz
  unfold createTLS
  by_cases h : (tlsSizes tdataSize tbssSize tlsAlign).tdataSize ≠ 0
  · simp only [if_pos h, memset, memcpy, store]
  · have hcopy : ∀ dest src b, copyBytes dest src 0 b = b := fun _ _ _ => rfl
    simp only [if_neg h, memset, store]
    rw [not_not.mp h, hcopy]

/-- Every byte after CreateTLS, when the parts are laid as they should be and the
data lies outside the new block. -/
theorem createTLS_byte {tls : ℕ} (hz : tlsSizes tdataSize tbssSize tlsAlign = z) (hlaid : z.Laid)
    (htls : virtualAlloc z.tlsAllocationSize = tls)
    (hblock : tls + z.tlsAllocationSize ≤ 2 ^ 64)
    (hapart : ∀ k < z.tdataSize, (tdataStart + k) % 2 ^ 64 < tls ∨
      tls + z.tlsAllocationSize ≤ (tdataStart + k) % 2 ^ 64) (hx : x < 2 ^ 64) :
    (createTLS virtualAlloc tdataSize tbssSize tdataStart tlsAlign m).2.2.bytes x =
      if tls + z.alignedOffset + z.tdataSize ≤ x ∧ x < tls + z.alignedSize then 0
      else if tls + z.alignedOffset ≤ x ∧ x < tls + z.alignedOffset + z.tdataSize then
        m.bytes ((tdataStart + (x - (tls + z.alignedOffset))) % 2 ^ 64)
      else if tls + z.alignedSize ≤ x ∧ x < tls + z.alignedSize + 48 then
        (kernelData tls z.alignedSize).byte (x - (tls + z.alignedSize))
      else if tls ≤ x ∧ x < tls + z.tlsAllocationSize then 0xFE
      else m.bytes x := by
  obtain ⟨hparts, hsize⟩ := hlaid
  have hoff : add64 tls z.alignedOffset = tls + z.alignedOffset := add64_of_lt (by omega)
  have hcontrol : add64 tls z.alignedSize = tls + z.alignedSize := add64_of_lt (by omega)
  have htbss : add64 (tls + z.alignedOffset) z.tdataSize = tls + z.alignedOffset + z.tdataSize :=
    add64_of_lt (by omega)
  have hdest : ∀ i < z.tdataSize, (tls + z.alignedOffset + i) % 2 ^ 64 =
      tls + z.alignedOffset + i := fun i hi => Nat.mod_eq_of_lt (by omega)
  rw [createTLS_bytes hz, htls, hoff, hcontrol, htbss, setBytes_eq (by omega) hx,
    copyBytes_eq (by omega) hx, writeBytes_eq (by omega) hx, setBytes_eq (by omega) hx]
  · simp only [offset_lt_iff (show tls + z.alignedOffset + z.tdataSize + z.tbssSize ≤ 2 ^ 64 by omega)
        hx, offset_lt_iff (show tls + z.alignedOffset + z.tdataSize ≤ 2 ^ 64 by omega) hx,
      offset_lt_iff (show tls + z.alignedSize + 48 ≤ 2 ^ 64 by omega) hx,
      offset_lt_iff hblock hx]
    have hend : tls + z.alignedOffset + z.tdataSize + z.tbssSize = tls + z.alignedSize := by omega
    rw [hend]
    split_ifs with hzero hdata hword
    · rfl
    · -- the byte comes from the program, where nothing was written
      have hoffset : offset (tls + z.alignedOffset) x = x - (tls + z.alignedOffset) :=
        offset_of_le hdata.1 hx
      have hsrc := hapart (x - (tls + z.alignedOffset)) (by omega)
      have hlt : (tdataStart + (x - (tls + z.alignedOffset))) % 2 ^ 64 < 2 ^ 64 :=
        Nat.mod_lt _ (Nat.two_pow_pos 64)
      rw [hoffset, writeBytes_eq (by omega) hlt, if_neg, setBytes_eq (by omega) hlt, if_neg]
      · rw [offset_lt_iff hblock hlt]
        omega
      · rw [offset_lt_iff (by omega) hlt]
        omega
    · rw [offset_of_le hword.1 hx]
    all_goals rfl
  · intro i hi j hj
    have hsrc := hapart j hj
    rw [hdest i hi]
    omega

end Bytes

/-- Byte `k` of the thread-local block, where compiled code looks for it. -/
def blockByte (fsBase tdataSize tbssSize tlsAlign k : ℕ) : ℕ :=
  (((fsBase : ℤ) - roundUp (tdataSize + tbssSize) (max tlsAlign 1) + k) % 2 ^ 64).toNat

theorem blockByte_eq {fsBase tdataSize tbssSize tlsAlign k r x : ℕ}
    (hr : roundUp (tdataSize + tbssSize) (max tlsAlign 1) = r)
    (h : (x + r) % 2 ^ 64 = (fsBase + k) % 2 ^ 64) (hx : x < 2 ^ 64) :
    blockByte fsBase tdataSize tbssSize tlsAlign k = x := by
  unfold blockByte
  rw [hr]
  omega

/-- What compiled code relies on, for a result of CreateTLS. -/
structure Placed (b : ℕ → UInt8) (tdataSize tbssSize tdataStart tlsAlign : ℕ)
    (r : TlsAllocation × List (ℕ × ℕ) × Memory) : Prop where
  data : ∀ k < tdataSize,
    r.2.2.bytes (blockByte r.1.fsBase tdataSize tbssSize tlsAlign k) =
      b ((tdataStart + k) % 2 ^ 64)
  zero : ∀ k, tdataSize ≤ k → k < tdataSize + tbssSize →
    r.2.2.bytes (blockByte r.1.fsBase tdataSize tbssSize tlsAlign k) = 0
  self : readWord r.2.2.bytes r.1.fsBase 8 = r.1.fsBase
  reads : ∀ a < 2 ^ 64, (∃ w ∈ r.2.1, offset w.1 a < w.2) ↔ offset tdataStart a < tdataSize
  inside : ∀ w ∈ r.2.2.log, Inside r.1.memory r.1.size w

section Placed
variable {virtualAlloc : ℕ → ℕ} {tdataSize tbssSize tdataStart tlsAlign : ℕ} {b : ℕ → UInt8}

theorem alignSize_lt_two_pow {n a : ℕ} : alignSize n a < 2 ^ 64 := by
  unfold alignSize
  exact Nat.and_le_left.trans_lt (Nat.mod_lt _ (Nat.two_pow_pos 64))

/-- How the sizes are computed from those of the two parts. -/
structure TlsSizes.Computed (z : TlsSizes) : Prop where
  tdata_lt : z.tdataSize < 2 ^ 64
  tbss_lt : z.tbssSize < 2 ^ 64
  offset_eq : z.alignedOffset = sub64 z.alignedSize (add64 z.tdataSize z.tbssSize)
  allocation_eq : z.tlsAllocationSize = add64 z.alignedSize 4096
  aligned : (add64 z.tdataSize z.tbssSize + 4096 ≤ 2 ^ 64 ∧
      add64 z.tdataSize z.tbssSize ≤ z.alignedSize ∧
      z.alignedSize < add64 z.tdataSize z.tbssSize + 4096 ∧ 4096 ∣ z.alignedSize) ∨
    (2 ^ 64 < add64 z.tdataSize z.tbssSize + 4096 ∧ z.alignedSize = 0)

theorem tlsSizes_computed {z : TlsSizes} (hz : tlsSizes tdataSize tbssSize tlsAlign = z) :
    z.Computed := by
  subst hz
  constructor
  · exact alignSize_lt_two_pow
  · show (if _ then pageSize else _) < _
    split_ifs
    · decide
    · exact alignSize_lt_two_pow
  · rfl
  · rfl
  · have hlt : ∀ x y, add64 x y < 2 ^ 64 := fun x y => Nat.mod_lt _ (Nat.two_pow_pos 64)
    have halign := alignSize_page (hlt (tlsSizes tdataSize tbssSize tlsAlign).tdataSize
      (tlsSizes tdataSize tbssSize tlsAlign).tbssSize)
    split_ifs at halign with hwrap
    · left
      rw [show (tlsSizes tdataSize tbssSize tlsAlign).alignedSize = _ from halign]
      exact ⟨hwrap, le_roundUp (by omega), roundUp_lt (by omega), dvd_roundUp _ _⟩
    · right
      exact ⟨by omega, halign⟩

/-- The parts are laid as they should be exactly if the sizes do not wrap around. -/
theorem TlsSizes.Computed.laid_iff {z : TlsSizes} (hz : z.Computed) :
    z.Laid ↔ z.tdataSize + z.tbssSize + 8192 ≤ 2 ^ 64 := by
  obtain ⟨htd, htb, hoff, halloc, haligned⟩ := hz
  unfold sub64 add64 at *
  constructor
  · rintro ⟨hparts, hsize⟩
    omega
  · intro h
    constructor
    · omega
    · omega

/-- Everything is written inside the new block exactly if the parts are laid as they
should be. -/
theorem inside_iff_laid (virtualAlloc : ℕ → ℕ) (tdataStart : ℕ) (b : ℕ → UInt8) {z : TlsSizes}
    (hz : tlsSizes tdataSize tbssSize tlsAlign = z)
    (hblock : virtualAlloc z.tlsAllocationSize + z.tlsAllocationSize ≤ 2 ^ 64) :
    (∀ w ∈ (createTLS virtualAlloc tdataSize tbssSize tdataStart tlsAlign ⟨b, []⟩).2.2.log,
      Inside (virtualAlloc z.tlsAllocationSize) z.tlsAllocationSize w) ↔ z.Laid := by
  have hcomputed := tlsSizes_computed hz
  obtain ⟨htd, htb, hoff, halloc, haligned⟩ := hcomputed
  have hlt : ∀ x y, add64 x y < 2 ^ 64 := fun x y => Nat.mod_lt _ (Nat.two_pow_pos 64)
  have hsize : z.tlsAllocationSize < 2 ^ 64 := halloc ▸ hlt _ _
  have haligned_lt : z.alignedSize < 2 ^ 64 := by
    have := hlt z.tdataSize z.tbssSize
    omega
  have hoff_lt : z.alignedOffset < 2 ^ 64 := by
    rw [hoff]
    exact Nat.mod_lt _ (Nat.two_pow_pos 64)
  have hassoc : add64 (add64 (virtualAlloc z.tlsAllocationSize) z.alignedOffset) z.tdataSize =
      add64 (virtualAlloc z.tlsAllocationSize) (add64 z.alignedOffset z.tdataSize) := by
    unfold add64
    omega
  have hfill : Inside (virtualAlloc z.tlsAllocationSize) z.tlsAllocationSize
      (virtualAlloc z.tlsAllocationSize, z.tlsAllocationSize) := fun k hk => by
    dsimp only at hk ⊢
    omega
  have hdata : (∀ w ∈ (if z.tdataSize ≠ 0 then
        [(add64 (virtualAlloc z.tlsAllocationSize) z.alignedOffset, z.tdataSize)] else []),
      Inside (virtualAlloc z.tlsAllocationSize) z.tlsAllocationSize w) ↔
      (z.tdataSize = 0 ∨ z.alignedOffset + z.tdataSize ≤ z.tlsAllocationSize) := by
    split_ifs with hnone
    · rw [List.forall_mem_singleton, inside_add_iff hoff_lt hsize hblock]
    · simp [not_not.mp hnone]
  rw [createTLS_log hz, List.forall_mem_append, List.forall_mem_append, List.nil_append, hdata,
    List.forall_mem_singleton, List.forall_mem_cons, List.forall_mem_singleton, hassoc,
    inside_add_iff haligned_lt hsize hblock, inside_add_iff (hlt _ _) hsize hblock,
    TlsSizes.Computed.laid_iff ⟨htd, htb, hoff, halloc, haligned⟩]
  simp only [hfill, true_and]
  unfold sub64 add64 at *
  omega

/-- The bytes of the program that are read are those of the rounded first part. -/
theorem reads_iff (virtualAlloc : ℕ → ℕ) (tdataStart : ℕ) (b : ℕ → UInt8) {z : TlsSizes}
    (hz : tlsSizes tdataSize tbssSize tlsAlign = z)
    (hsize : tdataSize < 2 ^ 64) :
    (∀ a < 2 ^ 64, (∃ w ∈ (createTLS virtualAlloc tdataSize tbssSize tdataStart tlsAlign
        ⟨b, []⟩).2.1, offset w.1 a < w.2) ↔ offset tdataStart a < tdataSize) ↔
      z.tdataSize = tdataSize := by
  have htd := (tlsSizes_computed hz).tdata_lt
  have hreads : ∀ a, (∃ w ∈ (createTLS virtualAlloc tdataSize tbssSize tdataStart tlsAlign
      ⟨b, []⟩).2.1, offset w.1 a < w.2) ↔ offset tdataStart a < z.tdataSize := by
    intro a
    subst hz
    unfold createTLS
    dsimp only
    split_ifs with hnone
    · simp
    · simp [not_not.mp hnone]
  simp only [hreads]
  constructor
  · exact length_unique htd hsize
  · intro h a _
    rw [h]

/-- The control block is written right at the FS base and survives the two parts. -/
theorem createTLS_control (b : ℕ → UInt8) {z : TlsSizes} {tls i : ℕ}
    (hz : tlsSizes tdataSize tbssSize tlsAlign = z) (hlaid : z.Laid)
    (htls : virtualAlloc z.tlsAllocationSize = tls)
    (hblock : tls + z.tlsAllocationSize ≤ 2 ^ 64) (hi : i < 48) :
    (createTLS virtualAlloc tdataSize tbssSize tdataStart tlsAlign ⟨b, []⟩).2.2.bytes
      (tls + z.alignedSize + i) = (kernelData tls z.alignedSize).byte i := by
  obtain ⟨hparts, hsize⟩ := hlaid
  have hoff : add64 tls z.alignedOffset = tls + z.alignedOffset := add64_of_lt (by omega)
  have hcontrol : add64 tls z.alignedSize = tls + z.alignedSize := add64_of_lt (by omega)
  have htbss : add64 (tls + z.alignedOffset) z.tdataSize = tls + z.alignedOffset + z.tdataSize :=
    add64_of_lt (by omega)
  have hx : tls + z.alignedSize + i < 2 ^ 64 := by omega
  have hset : ¬ offset (tls + z.alignedOffset + z.tdataSize) (tls + z.alignedSize + i) <
      z.tbssSize := by
    rw [offset_lt_iff (by omega) hx]
    omega
  have hcopy : z.tdataSize ≤ offset (tls + z.alignedOffset) (tls + z.alignedSize + i) := by
    rw [offset_of_le (by omega) hx]
    omega
  have hword : offset (tls + z.alignedSize) (tls + z.alignedSize + i) = i := by
    rw [offset_of_le (by omega) hx, Nat.add_sub_cancel_left]
  rw [createTLS_bytes hz, htls, hoff, hcontrol, htbss, setBytes_eq (by omega) hx, if_neg hset,
    copyBytes_of_le (by omega) hx hcopy, writeBytes_eq (by omega) hx, hword, if_pos hi]

/-- The word at the FS base is the FS base. -/
theorem createTLS_self (b : ℕ → UInt8) {z : TlsSizes} {tls : ℕ}
    (hz : tlsSizes tdataSize tbssSize tlsAlign = z) (hlaid : z.Laid)
    (htls : virtualAlloc z.tlsAllocationSize = tls)
    (hblock : tls + z.tlsAllocationSize ≤ 2 ^ 64) :
    readWord (createTLS virtualAlloc tdataSize tbssSize tdataStart tlsAlign ⟨b, []⟩).2.2.bytes
      (tls + z.alignedSize) 8 = tls + z.alignedSize := by
  have hsize := hlaid.size
  have hself : (kernelData tls z.alignedSize).self = tls + z.alignedSize := add64_of_lt (by omega)
  have hword : ∀ i < 8, (kernelData tls z.alignedSize).byte i = digit (tls + z.alignedSize) i := by
    intro i hi
    unfold TlsData.byte
    rw [Nat.div_eq_of_lt hi, Nat.mod_eq_of_lt hi, ← hself]
    rfl
  have hdigits : ∀ i < 8, (createTLS virtualAlloc tdataSize tbssSize tdataStart tlsAlign
      ⟨b, []⟩).2.2.bytes ((tls + z.alignedSize + i) % 2 ^ 64) = digit (tls + z.alignedSize) i := by
    intro i hi
    rw [Nat.mod_eq_of_lt (by omega), createTLS_control b hz hlaid htls hblock (by omega), hword i hi]
  rw [readWord_of_digits hdigits]
  apply Nat.mod_eq_of_lt
  omega

/-- The sizes fit: the first part needs no rounding, and nothing wraps around. -/
def Fits (tdataSize tbssSize tlsAlign : ℕ) : Prop :=
  tlsAlign ≠ 0 ∧ tlsAlign ∣ tdataSize ∧ tdataSize + roundUp tbssSize tlsAlign + 8192 ≤ 2 ^ 64

/-- Without an alignment one page of zeros is made. There is no data, and what is
looked for outside this page happens to be zero. -/
def FitsPage (b : ℕ → UInt8) (tls tdataSize tbssSize tlsAlign : ℕ) : Prop :=
  tlsAlign = 0 ∧ tdataSize = 0 ∧ ∀ k < tbssSize,
    let x := (tls + 4096 + k + (2 ^ 64 - tbssSize)) % 2 ^ 64
    (tls ≤ x ∧ x < tls + 4096) ∨ ((x < tls ∨ tls + 8192 ≤ x) ∧ b x = 0)

theorem tlsSizes_zero :
    tlsSizes tdataSize tbssSize 0 =
      { tdataSize := 0
        tbssSize := 4096
        alignedSize := 4096
        alignedOffset := 0
        tlsAllocationSize := 8192 } := by
  unfold tlsSizes
  rw [alignSize_zero, alignSize_zero]
  rfl

theorem placed_zero_iff {tls : ℕ} (hpos : 0 < tdataSize + tbssSize) (hd : tdataSize < 2 ^ 64)
    (hb : tbssSize < 2 ^ 64) (htls : virtualAlloc 8192 = tls) (hblock : tls + 8192 ≤ 2 ^ 64) :
    Placed b tdataSize tbssSize tdataStart 0
      (createTLS virtualAlloc tdataSize tbssSize tdataStart 0 ⟨b, []⟩) ↔
    FitsPage b tls tdataSize tbssSize 0 := by
  have hz : tlsSizes tdataSize tbssSize 0 = _ := tlsSizes_zero
  have hlaid := (tlsSizes_computed hz).laid_iff.mpr (by decide)
  have hbase : (createTLS virtualAlloc tdataSize tbssSize tdataStart 0 ⟨b, []⟩).1 =
      { memory := tls
        size := 8192
        fsBase := tls + 4096 } := by
    unfold createTLS
    rw [hz]
    dsimp only
    rw [htls, add64_of_lt (by omega)]
  have hapart : ∀ k < 0, (tdataStart + k) % 2 ^ 64 < tls ∨ tls + 8192 ≤ (tdataStart + k) % 2 ^ 64 :=
    fun k hk => absurd hk (Nat.not_lt_zero k)
  have hbyte := fun {x : ℕ} (hx : x < 2 ^ 64) =>
    createTLS_byte (m := ⟨b, []⟩) hz hlaid htls hblock hapart hx
  have hreads := reads_iff virtualAlloc tdataStart b hz hd
  have hself : readWord
      (createTLS virtualAlloc tdataSize tbssSize tdataStart 0 ⟨b, []⟩).2.2.bytes _ 8 = _ :=
    createTLS_self b hz hlaid htls hblock
  dsimp only at hbyte hreads hself
  have hat : ∀ k < 2 ^ 64, blockByte (tls + 4096) 0 tbssSize 0 k =
      (tls + 4096 + k + (2 ^ 64 - tbssSize)) % 2 ^ 64 := by
    intro k hk
    apply blockByte_eq (r := tbssSize)
    · rw [Nat.zero_add, Nat.max_eq_right (Nat.zero_le 1), roundUp_one]
    · omega
    · exact Nat.mod_lt _ (Nat.two_pow_pos 64)
  constructor
  · intro h
    have hnone : tdataSize = 0 := (hreads.mp h.reads).symm
    subst hnone
    have hzero : ∀ k < tbssSize, (createTLS virtualAlloc 0 tbssSize tdataStart 0 ⟨b, []⟩).2.2.bytes
        ((tls + 4096 + k + (2 ^ 64 - tbssSize)) % 2 ^ 64) = 0 := by
      intro k hk
      have h0 := h.zero k (Nat.zero_le k) (by omega)
      rwa [hbase, hat k (by omega)] at h0
    refine ⟨rfl, rfl, fun k hk => ?_⟩
    have hx := hzero k hk
    have hlt := Nat.mod_lt (tls + 4096 + k + (2 ^ 64 - tbssSize)) (Nat.two_pow_pos 64)
    by_cases hpage : tls ≤ (tls + 4096 + k + (2 ^ 64 - tbssSize)) % 2 ^ 64 ∧
        (tls + 4096 + k + (2 ^ 64 - tbssSize)) % 2 ^ 64 < tls + 4096
    · exact Or.inl hpage
    right
    by_cases hin : tls + 4096 ≤ (tls + 4096 + k + (2 ^ 64 - tbssSize)) % 2 ^ 64 ∧
        (tls + 4096 + k + (2 ^ 64 - tbssSize)) % 2 ^ 64 < tls + 8192
    · -- the last byte of the page of the control block would be looked at as well
      have hlast := hzero (k + (tls + 8191 - (tls + 4096 + k + (2 ^ 64 - tbssSize)) % 2 ^ 64))
        (by omega)
      rw [show (tls + 4096 + (k + (tls + 8191 - (tls + 4096 + k + (2 ^ 64 - tbssSize)) % 2 ^ 64)) +
          (2 ^ 64 - tbssSize)) % 2 ^ 64 = tls + 8191 by omega, hbyte (by omega), if_neg (by omega),
        if_neg (by omega), if_neg (by omega), if_pos (by omega)] at hlast
      cases hlast
    · rw [hbyte hlt, if_neg (by omega), if_neg (by omega), if_neg (by omega),
        if_neg (by omega)] at hx
      exact ⟨by omega, hx⟩
  · rintro ⟨-, hnone, hzero⟩
    subst hnone
    constructor
    · intro k hk
      exact absurd hk (Nat.not_lt_zero k)
    · intro k _ hk
      have hlt := Nat.mod_lt (tls + 4096 + k + (2 ^ 64 - tbssSize)) (Nat.two_pow_pos 64)
      rw [hbase, hat k (by omega), hbyte hlt]
      rcases hzero k (by omega) with hpage | ⟨hout, hb0⟩
      · rw [if_pos (by omega)]
      · rw [if_neg (by omega), if_neg (by omega), if_neg (by omega), if_neg (by omega), hb0]
    · rw [hbase]
      exact hself
    · exact hreads.mpr rfl
    · rw [hbase]
      have hinside := (inside_iff_laid virtualAlloc tdataStart b hz
        (by dsimp only; omega)).mpr hlaid
      dsimp only at hinside
      rwa [htls] at hinside

/-- The sizes of the parts for a power of two. -/
theorem tlsSizes_two_pow {z : TlsSizes} {k : ℕ} (hk : k < 64)
    (hz : tlsSizes tdataSize tbssSize (2 ^ k) = z) (hd : tdataSize < 2 ^ 64)
    (hb : tbssSize < 2 ^ 64) :
    z.tdataSize = (if tdataSize + 2 ^ k ≤ 2 ^ 64 then roundUp tdataSize (2 ^ k) else 0) ∧
    z.tbssSize = (if alignSize tbssSize (2 ^ k) = 0 ∧ z.tdataSize = 0 then 4096
      else if tbssSize + 2 ^ k ≤ 2 ^ 64 then roundUp tbssSize (2 ^ k) else 0) := by
  subst hz
  rw [← alignSize_two_pow hk hd, ← alignSize_two_pow hk hb]
  exact ⟨rfl, rfl⟩

theorem placed_two_pow_iff {z : TlsSizes} {tls k : ℕ} (hk : k < 64)
    (hpos : 0 < tdataSize + tbssSize) (hd : tdataSize < 2 ^ 64) (hb : tbssSize < 2 ^ 64)
    (hz : tlsSizes tdataSize tbssSize (2 ^ k) = z) (htls : virtualAlloc z.tlsAllocationSize = tls)
    (hblock : tls + z.tlsAllocationSize ≤ 2 ^ 64)
    (hapart : ∀ k < tdataSize, (tdataStart + k) % 2 ^ 64 < tls ∨
      tls + z.tlsAllocationSize ≤ (tdataStart + k) % 2 ^ 64) :
    Placed b tdataSize tbssSize tdataStart (2 ^ k)
      (createTLS virtualAlloc tdataSize tbssSize tdataStart (2 ^ k) ⟨b, []⟩) ↔
    Fits tdataSize tbssSize (2 ^ k) := by
  have hpow := Nat.two_pow_pos k
  have hpow_le : 2 ^ k ≤ 2 ^ 63 := Nat.pow_le_pow_right Nat.two_pos (Nat.le_of_lt_succ hk)
  have hmax : max (2 ^ k) 1 = 2 ^ k := Nat.max_eq_left hpow
  obtain ⟨htd, htb⟩ := tlsSizes_two_pow hk hz hd hb
  have hlaid_iff := (tlsSizes_computed hz).laid_iff
  have hreads := reads_iff virtualAlloc tdataStart b hz hd
  have hinside := inside_iff_laid virtualAlloc tdataStart b hz (by rw [htls]; exact hblock)
  have hmemory : (createTLS virtualAlloc tdataSize tbssSize tdataStart (2 ^ k) ⟨b, []⟩).1 =
      { memory := tls
        size := z.tlsAllocationSize
        fsBase := add64 tls z.alignedSize } := by
    unfold createTLS
    rw [hz]
    dsimp only
    rw [htls]
  rw [htls] at hinside
  have hfull : 2 ^ k ∣ 2 ^ 64 := Nat.pow_dvd_pow 2 hk.le
  have hroom : ∀ x, 2 ^ k ∣ x → x < 2 ^ 64 → x + 2 ^ k ≤ 2 ^ 64 := fun x hx hlt => by
    have := Nat.le_of_dvd (by omega) (Nat.dvd_sub hfull hx)
    omega
  have hround : 2 ^ k ∣ tdataSize →
      roundUp (tdataSize + tbssSize) (max (2 ^ k) 1) = tdataSize + roundUp tbssSize (2 ^ k) :=
    fun hdvd => by rw [hmax, roundUp_add hpow hdvd]
  have halign : alignSize tbssSize (2 ^ k) = _ := alignSize_two_pow hk hb
  have hge := le_roundUp (n := tbssSize) hpow
  have hrdvd := dvd_roundUp tbssSize (2 ^ k)
  constructor
  · intro h
    have hsame : z.tdataSize = tdataSize := hreads.mp h.reads
    have hlaid : z.Laid := by
      apply hinside.mp
      have := h.inside
      rwa [hmemory] at this
    have hfit := hlaid_iff.mp hlaid
    obtain ⟨hparts, hsize⟩ := id hlaid
    have hdvd : 2 ^ k ∣ tdataSize := by
      rw [hsame] at htd
      split_ifs at htd with hin
      · exact (roundUp_eq_self_iff hpow).mp htd.symm
      · omega
    refine ⟨hpow.ne', hdvd, ?_⟩
    by_cases hin : tbssSize + 2 ^ k ≤ 2 ^ 64
    · rw [if_pos hin] at htb halign
      have hnone := roundUp_eq_zero_iff (n := tbssSize) hpow
      split_ifs at htb with hzero
      · omega
      · omega
    · -- the second part is lost, and the last byte of the allocation is looked at
      have hwrap : roundUp tbssSize (2 ^ k) = 2 ^ 64 := by
        have hle := roundUp_le hfull hb.le
        have hrest := Nat.eq_zero_of_dvd_of_lt (Nat.dvd_sub hfull hrdvd) (by omega)
        omega
      obtain ⟨x, hx⟩ : ∃ x, x = tls + z.alignedSize + 4095 := ⟨_, rfl⟩
      obtain ⟨i, hi⟩ : ∃ i, i = tdataSize + 4095 := ⟨_, rfl⟩
      have hlast := h.zero i (by omega) (by omega)
      rw [hmemory, add64_of_lt (by omega)] at hlast
      have hat : blockByte (tls + z.alignedSize) tdataSize tbssSize (2 ^ k) i = x :=
        blockByte_eq (hround hdvd) (by omega) (by omega)
      dsimp only at hlast
      rw [hat, createTLS_byte hz hlaid htls hblock (by rwa [hsame]) (by omega), if_neg (by omega),
        if_neg (by omega), if_neg (by omega), if_pos (by omega)] at hlast
      cases hlast
  · rintro ⟨-, hdvd, hfit⟩
    rw [if_pos (hroom _ hdvd hd), roundUp_of_dvd hpow hdvd] at htd
    have hin : tbssSize + 2 ^ k ≤ 2 ^ 64 := by
      have := hroom _ hrdvd (by omega)
      omega
    rw [if_pos hin] at htb halign
    have hnone := roundUp_eq_zero_iff (n := tbssSize) hpow
    rw [if_neg (by omega)] at htb
    have hlaid : z.Laid := hlaid_iff.mpr (by omega)
    obtain ⟨hparts, hsize⟩ := id hlaid
    have hbase : add64 tls z.alignedSize = tls + z.alignedSize := add64_of_lt (by omega)
    have hat : ∀ i < tdataSize + tbssSize,
        blockByte (tls + z.alignedSize) tdataSize tbssSize (2 ^ k) i =
          tls + z.alignedOffset + i := fun i hi =>
      blockByte_eq (hround hdvd) (by omega) (by omega)
    have hbyte := fun {x : ℕ} (hx : x < 2 ^ 64) =>
      createTLS_byte (m := ⟨b, []⟩) hz hlaid htls hblock (by rwa [htd]) hx
    constructor
    · intro i hi
      rw [hmemory, hbase]
      dsimp only
      rw [hat i (by omega), hbyte (by omega), if_neg (by omega), if_pos (by omega),
        Nat.add_sub_cancel_left]
    · intro i hle hi
      rw [hmemory, hbase]
      dsimp only
      rw [hat i hi, hbyte (by omega), if_pos (by omega)]
    · rw [hmemory, hbase]
      exact createTLS_self b hz hlaid htls hblock
    · exact hreads.mpr htd
    · rw [hmemory]
      exact hinside.mpr hlaid

/-- The thread-local block is where compiled code looks for it exactly if the
alignment divides the size of the first part and nothing wraps around. Without an
alignment there must be no first part, and the second one must fit in the page
that is made, or run into zeros that were there before. -/
theorem createTLS_placed_iff (hpos : 0 < tdataSize + tbssSize) (hd : tdataSize < 2 ^ 64)
    (hb : tbssSize < 2 ^ 64) (halign : ElfAlignment tlsAlign) {tls size : ℕ}
    (hsize : (tlsSizes tdataSize tbssSize tlsAlign).tlsAllocationSize = size)
    (htls : virtualAlloc size = tls) (hblock : tls + size ≤ 2 ^ 64)
    (hapart : ∀ k < tdataSize, (tdataStart + k) % 2 ^ 64 < tls ∨
      tls + size ≤ (tdataStart + k) % 2 ^ 64) :
    Placed b tdataSize tbssSize tdataStart tlsAlign
      (createTLS virtualAlloc tdataSize tbssSize tdataStart tlsAlign ⟨b, []⟩) ↔
    Fits tdataSize tbssSize tlsAlign ∨ FitsPage b tls tdataSize tbssSize tlsAlign := by
  subst hsize
  rcases halign with rfl | ⟨k, hk, rfl⟩
  · have hnot : ¬ Fits tdataSize tbssSize 0 := fun h => h.1 rfl
    have hz : tlsSizes tdataSize tbssSize 0 = _ := tlsSizes_zero
    rw [hz] at htls hblock
    rw [or_iff_right hnot]
    exact placed_zero_iff hpos hd hb htls hblock
  · have hnot : ¬ FitsPage b tls tdataSize tbssSize (2 ^ k) := fun h =>
      (Nat.two_pow_pos k).ne' h.1
    rw [or_iff_left hnot]
    exact placed_two_pow_iff hk hpos hd hb rfl htls hblock hapart

end Placed

/-- Two variables of 8 bytes are laid as they should be. -/
theorem createTLS_placed_eight :
    Placed (fun _ => 1) 8 8 0x10000 8
      (createTLS (fun _ => 0x40000000) 8 8 0x10000 8 ⟨fun _ => 1, []⟩) := by
  have hfits : Fits 8 8 8 := by
    refine ⟨by decide, dvd_refl 8, ?_⟩
    rw [roundUp_of_dvd (by decide) (dvd_refl 8)]
    decide
  apply (createTLS_placed_iff (by decide) (by decide) (by decide) (Or.inr ⟨3, by decide, rfl⟩)
    (show _ = 8192 by decide) rfl (by decide) ?_).mpr (Or.inl hfits)
  intro k hk
  omega

/-- Two variables of 4 bytes with an alignment of 8: the first one is looked for where
the second part was set to zero. -/
theorem createTLS_misplaced :
    ElfAlignment 8 ∧ (∀ k < 4, (0x10000 + k) % 2 ^ 64 < 0x40000000) ∧
    ¬ Placed (fun _ => 1) 4 4 0x10000 8
      (createTLS (fun _ => 0x40000000) 4 4 0x10000 8 ⟨fun _ => 1, []⟩) := by
  refine ⟨Or.inr ⟨3, by decide, rfl⟩, by decide, fun h => ?_⟩
  have hz : tlsSizes 4 4 8 =
      { tdataSize := 8
        tbssSize := 8
        alignedSize := 4096
        alignedOffset := 4080
        tlsAllocationSize := 8192 } := by decide
  have hlaid := (tlsSizes_computed hz).laid_iff.mpr (by decide)
  have hdata := h.data 0 (by decide)
  have hat : blockByte 0x40001000 4 4 8 0 = 0x40000FF8 := by decide
  have hbase : (createTLS (fun _ => 0x40000000) 4 4 0x10000 8 ⟨fun _ => 1, []⟩).1.fsBase =
      0x40001000 := by decide
  rw [hbase, hat, createTLS_byte hz hlaid rfl (by decide) ?_ (by decide)] at hdata
  · revert hdata
    decide
  · dsimp only
    intro k hk
    omega

end Enkel.ThreadLocal
