import Mathlib.Data.Nat.Digits.Lemmas
import Mathlib.Data.List.Enum
import Enkel.PixelRows

/-!
The encoder of base45.cpp. Two bytes become three characters and a last byte becomes two,
with the least significant digit first. The digits come from a loop that ends at zero, and
zeros are added up to the number that a group has. The number of characters is computed
beforehand, in a size_t, and returned as an int.
-/
namespace Enkel.Base45

/-- The digits of a number of `k` digits, least significant first. -/
def fixedDigits (base : ℕ) : (k n : ℕ) → List ℕ
  | 0, _ => []
  | k + 1, n => n % base :: fixedDigits base k (n / base)

/-- The 45 characters. -/
def charset : List UInt8 :=
  [0x30, 0x31, 0x32, 0x33, 0x34, 0x35, 0x36, 0x37, 0x38, 0x39, 0x41, 0x42, 0x43, 0x44, 0x45, 0x46,
    0x47, 0x48, 0x49, 0x4A, 0x4B, 0x4C, 0x4D, 0x4E, 0x4F, 0x50, 0x51, 0x52, 0x53, 0x54, 0x55, 0x56,
    0x57, 0x58, 0x59, 0x5A, 0x20, 0x24, 0x25, 0x2A, 0x2B, 0x2D, 0x2E, 0x2F, 0x3A]

def character (digit : ℕ) : UInt8 := charset.getD digit 0

/-- A character that is written, with its index in the destination. -/
abbrev Write := UInt8 × ℕ

section Encode

def powInt (base exp : ℕ) : ℕ := (List.range exp).foldl (fun result _ => result * base % 2 ^ 32) 1

/-- The number that the bytes make, the last one first. -/
def sumOf (src : List UInt8) : ℕ :=
  (src.reverse.zipIdx).foldl (fun sum (c, i) => (sum + c.toNat * powInt 256 i) % 2 ^ 32) 0

/-- The loop over the digits; the sum is a number of 32 bits. -/
def digitLoop (dst : ℕ) : (fuel sum i : ℕ) → List Write × ℕ
  | 0, _, i => ([], i)
  | fuel + 1, sum, i =>
    if sum > 0 then
      let (writes, written) := digitLoop dst fuel (sum / 45) (i + 1)
      ((character (sum % 45), dst + i) :: writes, written)
    else ([], i)

def encode (dst : ℕ) (src : List UInt8) : List Write × ℕ := digitLoop dst 32 (sumOf src) 0

/-- The loop that adds zeros behind the characters that are written. -/
def padLoop (dst : ℕ) : (turns written : ℕ) → List Write
  | 0, _ => []
  | turns + 1, written => (character 0, dst + written) :: padLoop dst turns (written + 1)

/-- A turn of Base45_encode, with the characters that it adds to the offset. -/
def encodeGroup (dst : ℕ) (src : List UInt8) : List Write × ℕ :=
  let (writes, written) := encode dst src
  (writes ++ padLoop dst (src.length + 1 - written) written, max written (src.length + 1))

/-- The loop over the input, two bytes at a time while there are two. -/
def encodeLoop : (input : List UInt8) → (offset : ℕ) → List Write
  | a :: b :: rest, offset =>
    let (writes, written) := encodeGroup offset [a, b]
    writes ++ encodeLoop rest (offset + written)
  | [a], offset => (encodeGroup offset [a]).1
  | [], _ => []

abbrev memoryError : ℤ := 4

def requiredLength (length : ℕ) : ℕ := (length / 2 * 3 + length % 2 * 2 + 1) % 2 ^ 64

/-- Base45_encode: what it returns, and what it writes to the destination. -/
def base45Encode (destLength : ℕ) (input : List UInt8) : ℤ × List Write :=
  if destLength < requiredLength input.length then (-memoryError, [])
  else
    (Framebuffer.int32 (((requiredLength input.length : ℤ) - 1) % 2 ^ 64), encodeLoop input 0)

end Encode

section Rfc

/-- The characters of a group. -/
def group (k n : ℕ) : List UInt8 := (fixedDigits 45 k n).map character

/-- The encoding of RFC 9285. -/
def rfcEncode : List UInt8 → List UInt8
  | a :: b :: rest => group 3 (a.toNat * 256 + b.toNat) ++ rfcEncode rest
  | [a] => group 2 a.toNat
  | [] => []

def digitValue (c : UInt8) : Option ℕ := charset.idxOf? c

/-- The decoding of RFC 9285. -/
def rfcDecode : List UInt8 → Option (List UInt8)
  | c :: d :: e :: rest => do
    let n := (← digitValue c) + 45 * (← digitValue d) + 45 ^ 2 * (← digitValue e)
    guard (n < 2 ^ 16)
    return UInt8.ofNat (n / 256) :: UInt8.ofNat (n % 256) :: (← rfcDecode rest)
  | [c, d] => do
    let n := (← digitValue c) + 45 * (← digitValue d)
    guard (n < 2 ^ 8)
    return [UInt8.ofNat n]
  | [_] => none
  | [] => some []

end Rfc

/-- The number of characters for so many bytes. -/
def encodedLength (length : ℕ) : ℕ := length / 2 * 3 + length % 2 * 2

/-- A destination with room for the characters and a NUL gets the encoding, one character at
each index, and their number is returned. A shorter one is left alone. -/
def Correct (destLength : ℕ) (input : List UInt8) : Prop :=
  if encodedLength input.length < destLength then
    (base45Encode destLength input).2 = (rfcEncode input).zipIdx ∧
      (base45Encode destLength input).1 = (rfcEncode input).length ∧
      rfcDecode (rfcEncode input) = some input ∧ (∀ c ∈ rfcEncode input, c ∈ charset) ∧
      ∀ w ∈ (base45Encode destLength input).2, w.2 < destLength
  else
    (base45Encode destLength input).1 < 0 ∧ (base45Encode destLength input).2 = []

section Digits
variable {base k n : ℕ}

@[simp] theorem length_fixedDigits : (fixedDigits base k n).length = k := by
  induction k generalizing n with
  | zero => rfl
  | succ k ih => rw [fixedDigits, List.length_cons, ih]

theorem fixedDigits_zero : fixedDigits base k 0 = List.replicate k 0 := by
  induction k with
  | zero => rfl
  | succ k ih => rw [fixedDigits, Nat.zero_mod, Nat.zero_div, ih, List.replicate_succ]

theorem fixedDigits_lt (hbase : 0 < base) {d : ℕ} (hd : d ∈ fixedDigits base k n) : d < base := by
  induction k generalizing n with
  | zero => cases hd
  | succ k ih =>
    rcases List.mem_cons.mp hd with rfl | hd
    · exact Nat.mod_lt _ hbase
    · exact ih hd

end Digits

section Groups
variable {dst sum k : ℕ}

theorem padLoop_eq (turns : ℕ) {written : ℕ} :
    padLoop dst turns written = (List.replicate turns (character 0)).zipIdx (dst + written) := by
  induction turns generalizing written with
  | zero => rfl
  | succ turns ih =>
    rw [padLoop, ih, List.replicate_succ, List.zipIdx_cons]
    rfl

/-- The loop and the zeros behind it write the digits of a group. -/
theorem digitLoop_pad (fuel : ℕ) {i : ℕ} (hsum : sum < 45 ^ k) (hfuel : k ≤ fuel) :
    (digitLoop dst fuel sum i).1 ++
        padLoop dst (i + k - (digitLoop dst fuel sum i).2) (digitLoop dst fuel sum i).2 =
      ((fixedDigits 45 k sum).map character).zipIdx (dst + i) ∧
      (digitLoop dst fuel sum i).2 ≤ i + k := by
  have hzero : ∀ k i : ℕ, ([] : List Write) ++ padLoop dst (i + k - i) i =
      ((fixedDigits 45 k 0).map character).zipIdx (dst + i) := by
    intro k i
    rw [Nat.add_sub_cancel_left, List.nil_append, padLoop_eq, fixedDigits_zero, List.map_replicate]
  induction fuel generalizing sum k i with
  | zero =>
    obtain rfl : k = 0 := by omega
    obtain rfl : sum = 0 := by omega
    exact ⟨hzero 0 i, le_rfl⟩
  | succ fuel ih =>
    unfold digitLoop
    by_cases hpos : sum > 0
    · obtain ⟨k, rfl⟩ : ∃ k', k = k' + 1 := by
        refine Nat.exists_eq_succ_of_ne_zero fun hk => ?_
        rw [hk, pow_zero] at hsum
        omega
      have hnext : sum / 45 < 45 ^ k := by
        rw [Nat.div_lt_iff_lt_mul (by decide)]
        exact hsum
      obtain ⟨hwrites, hwritten⟩ := ih (i := i + 1) hnext (by omega)
      rw [show i + 1 + k = i + (k + 1) by omega] at hwrites hwritten
      simp only [if_pos hpos]
      refine ⟨?_, hwritten⟩
      rw [List.cons_append, hwrites, fixedDigits, List.map_cons, List.zipIdx_cons]
      rfl
    · obtain rfl : sum = 0 := by omega
      simp only [if_neg hpos]
      exact ⟨hzero k i, by omega⟩

/-- A turn writes a group and goes on behind it. -/
theorem encodeGroup_eq {src : List UInt8} (hsum : sumOf src < 45 ^ (src.length + 1))
    (hlength : src.length < 32) :
    encodeGroup dst src =
      ((group (src.length + 1) (sumOf src)).zipIdx dst, src.length + 1) := by
  have hpad := @digitLoop_pad dst _ _ 32 0 hsum (by omega)
  rw [zero_add] at hpad
  refine Prod.ext ?_ (max_eq_right hpad.2)
  exact hpad.1

theorem sumOf_pair (a b : UInt8) : sumOf [a, b] = a.toNat * 256 + b.toNat := by
  have ha := a.toNat_lt
  have hb := b.toNat_lt
  have hone : powInt 256 0 = 1 := rfl
  have hbase : powInt 256 1 = 256 := rfl
  simp only [sumOf, List.reverse_cons, List.reverse_nil, List.nil_append, List.cons_append,
    List.zipIdx_cons, List.zipIdx_nil, List.foldl_cons, List.foldl_nil, hone, hbase, zero_add]
  omega

theorem sumOf_single (a : UInt8) : sumOf [a] = a.toNat := by
  have ha := a.toNat_lt
  have hone : powInt 256 0 = 1 := rfl
  simp only [sumOf, List.reverse_cons, List.reverse_nil, List.nil_append,
    List.zipIdx_cons, List.zipIdx_nil, List.foldl_cons, List.foldl_nil, hone, zero_add]
  omega

/-- The loop writes the encoding, one character after the other. -/
theorem encodeLoop_eq (input : List UInt8) (offset : ℕ) :
    encodeLoop input offset = (rfcEncode input).zipIdx offset := by
  induction input using rfcEncode.induct generalizing offset with
  | case1 a b rest ih =>
    have ha := a.toNat_lt
    have hb := b.toNat_lt
    have hsum : sumOf [a, b] < 45 ^ ([a, b].length + 1) := by
      rw [sumOf_pair]
      simp only [List.length_cons, List.length_nil]
      omega
    have hgroup := @encodeGroup_eq offset _ hsum (by simp)
    rw [sumOf_pair] at hgroup
    have hlength : (group 3 (a.toNat * 256 + b.toNat)).length = 3 := by
      rw [group, List.length_map, length_fixedDigits]
    unfold encodeLoop rfcEncode
    rw [hgroup, List.zipIdx_append, hlength]
    simp only [List.length_cons, List.length_nil, ih]
  | case2 a =>
    have ha := a.toNat_lt
    have hsum : sumOf [a] < 45 ^ ([a].length + 1) := by
      rw [sumOf_single]
      simp only [List.length_cons, List.length_nil]
      omega
    have hgroup := @encodeGroup_eq offset _ hsum (by simp)
    rw [sumOf_single] at hgroup
    unfold encodeLoop rfcEncode
    rw [hgroup]
    rfl
  | case3 => rfl

end Groups

section Decode

theorem digitValue_character {d : ℕ} (hd : d < 45) : digitValue (character d) = some d := by
  have htable : ∀ d < 45, digitValue (character d) = some d := by decide
  exact htable d hd

theorem character_mem {d : ℕ} (hd : d < 45) : character d ∈ charset := by
  have htable : ∀ d < 45, character d ∈ charset := by decide
  exact htable d hd

theorem group_mem {k n : ℕ} {c : UInt8} (hc : c ∈ group k n) : c ∈ charset := by
  obtain ⟨d, hd, rfl⟩ := List.mem_map.mp hc
  exact character_mem (fixedDigits_lt (by decide) hd)

theorem rfcEncode_mem (input : List UInt8) {c : UInt8} (hc : c ∈ rfcEncode input) :
    c ∈ charset := by
  induction input using rfcEncode.induct with
  | case1 a b rest ih =>
    rcases List.mem_append.mp hc with hc | hc
    · exact group_mem hc
    · exact ih hc
  | case2 a => exact group_mem hc
  | case3 => cases hc

theorem length_rfcEncode (input : List UInt8) :
    (rfcEncode input).length = encodedLength input.length := by
  induction input using rfcEncode.induct with
  | case1 a b rest ih =>
    rw [rfcEncode, List.length_append, ih, group, List.length_map, length_fixedDigits]
    simp only [encodedLength, List.length_cons]
    omega
  | case2 a =>
    rw [rfcEncode, group, List.length_map, length_fixedDigits, List.length_singleton]
    rfl
  | case3 => rfl

/-- The encoding can be decoded. -/
theorem rfcDecode_rfcEncode (input : List UInt8) : rfcDecode (rfcEncode input) = some input := by
  induction input using rfcEncode.induct with
  | case1 a b rest ih =>
    have ha := a.toNat_lt
    have hb := b.toNat_lt
    obtain ⟨n, hn⟩ : ∃ n, n = a.toNat * 256 + b.toNat := ⟨_, rfl⟩
    have hgroup : group 3 n = [character (n % 45), character (n / 45 % 45),
        character (n / 45 / 45 % 45)] := rfl
    have hvalue : n % 45 + 45 * (n / 45 % 45) + 45 ^ 2 * (n / 45 / 45 % 45) = n := by omega
    rw [rfcEncode, ← hn, hgroup]
    simp only [List.cons_append, List.nil_append, rfcDecode,
      digitValue_character (Nat.mod_lt _ (show 0 < 45 by decide)), Option.bind_eq_bind,
      Option.bind_some, hvalue, ih]
    have hfirst : (a.toNat * 256 + b.toNat) / 256 = a.toNat := by omega
    have hsecond : (a.toNat * 256 + b.toNat) % 256 = b.toNat := by omega
    rw [guard, if_pos (by omega), hn, hfirst, hsecond, UInt8.ofNat_toNat, UInt8.ofNat_toNat]
    rfl
  | case2 a =>
    have ha := a.toNat_lt
    obtain ⟨n, hn⟩ : ∃ n, n = a.toNat := ⟨_, rfl⟩
    have hgroup : group 2 n = [character (n % 45), character (n / 45 % 45)] := rfl
    have hvalue : n % 45 + 45 * (n / 45 % 45) = n := by omega
    rw [rfcEncode, ← hn, hgroup]
    simp only [rfcDecode, digitValue_character (Nat.mod_lt _ (show 0 < 45 by decide)),
      Option.bind_eq_bind, Option.bind_some, hvalue]
    rw [guard, if_pos (by omega), hn, UInt8.ofNat_toNat]
    rfl
  | case3 => rfl

end Decode

section Length
variable {destLength : ℕ} {input : List UInt8}

theorem requiredLength_of_lt {length : ℕ} (h : encodedLength length < 2 ^ 31) :
    requiredLength length = encodedLength length + 1 := by
  unfold requiredLength
  unfold encodedLength at h ⊢
  omega

theorem requiredLength_le (length : ℕ) : requiredLength length ≤ encodedLength length + 1 :=
  Nat.mod_le _ _

theorem base45Encode_eq (hdest : requiredLength input.length ≤ destLength) :
    base45Encode destLength input =
      (Framebuffer.int32 (((requiredLength input.length : ℤ) - 1) % 2 ^ 64),
        (rfcEncode input).zipIdx) := by
  unfold base45Encode
  rw [if_neg (not_lt.mpr hdest), encodeLoop_eq]

/-- A destination that is long enough gets the encoding, if the length is an int. -/
theorem correct_of_lt (hlength : encodedLength input.length < 2 ^ 31)
    (hdest : requiredLength input.length ≤ destLength) : Correct destLength input := by
  have hrequired := requiredLength_of_lt hlength
  have hreturned : Framebuffer.int32 (((requiredLength input.length : ℤ) - 1) % 2 ^ 64) =
      encodedLength input.length := by
    rw [hrequired, show ((encodedLength input.length + 1 : ℕ) - 1 : ℤ) % 2 ^ 64 =
      encodedLength input.length by omega]
    exact Framebuffer.int32_of_between (by omega) (by omega)
  unfold Correct
  rw [if_pos (by omega), base45Encode_eq hdest, hreturned, length_rfcEncode]
  refine ⟨rfl, rfl, rfcDecode_rfcEncode input, fun c hc => rfcEncode_mem input hc, ?_⟩
  intro w hw
  have hindex := List.snd_lt_of_mem_zipIdx hw
  rw [length_rfcEncode] at hindex
  omega

/-- The number of characters is not the int that is returned. -/
theorem not_correct_of_le (hlength : 2 ^ 31 ≤ encodedLength input.length)
    (hdest : requiredLength input.length ≤ destLength) : ¬ Correct destLength input := by
  intro hcorrect
  unfold Correct at hcorrect
  rw [base45Encode_eq hdest] at hcorrect
  split_ifs at hcorrect with hfits
  · obtain ⟨-, hreturned, -⟩ := hcorrect
    have hint := Framebuffer.int32_lt (((requiredLength input.length : ℤ) - 1) % 2 ^ 64)
    dsimp only at hreturned
    rw [hreturned, length_rfcEncode] at hint
    omega
  · -- the required length has wrapped around, and the characters are written
    obtain ⟨-, hwrites⟩ := hcorrect
    have hnil := congrArg List.length hwrites
    rw [List.length_zipIdx, length_rfcEncode, List.length_nil] at hnil
    omega

theorem correct_of_refused (hdest : destLength < requiredLength input.length) :
    Correct destLength input := by
  have hle := requiredLength_le input.length
  have hresult : base45Encode destLength input = (-memoryError, []) := if_pos hdest
  have hnegative : -memoryError < 0 := by decide
  unfold Correct
  rw [if_neg (by omega), hresult]
  exact ⟨hnegative, rfl⟩

end Length

/-- Base45_encode writes the encoding and returns its length, or writes nothing and returns a
negative value, when it refuses the destination or the number of characters is an int. -/
theorem base45Encode_correct_iff (destLength : ℕ) (input : List UInt8) :
    Correct destLength input ↔
      destLength < requiredLength input.length ∨ encodedLength input.length < 2 ^ 31 := by
  rcases Nat.lt_or_ge destLength (requiredLength input.length) with hrefused | hdest
  · exact iff_of_true (correct_of_refused hrefused) (Or.inl hrefused)
  · rcases Nat.lt_or_ge (encodedLength input.length) (2 ^ 31) with hlength | hlength
    · exact iff_of_true (correct_of_lt hlength hdest) (Or.inr hlength)
    · exact iff_of_false (not_correct_of_le hlength hdest) (by omega)

/-- So many bytes have 2^31 + 1 characters. -/
def longInput : List UInt8 := List.replicate 1431655766 0

theorem long_input_miscounted : ¬ Correct 2147483651 longInput := by
  have hlength : longInput.length = 1431655766 := List.length_replicate
  refine not_correct_of_le ?_ ?_
  · rw [hlength]
    decide
  · rw [hlength]
    decide

end Enkel.Base45
