import Enkel.Base45
import Enkel.Outcome

/-!
The dumps that are shown as a QR code. The data is compressed into 10000 bytes and encoded into
10000 characters, half as many again as there are bytes. The encoder refuses more than 6666
bytes with a negative number, and the NUL is then stored below the characters.

zlib is a parameter: what deflateInit returns, and what deflate returns and puts out for an
input and the space that there is.
-/
namespace Enkel.QrDump

open Outcome Base45

inductive Fault
  | deflateInit
  | deflate
deriving DecidableEq, Repr

abbrev zOk : ℤ := 0
abbrev zStreamEnd : ℤ := 1

structure Zlib where
  deflateInit : ℤ
  deflate : List UInt8 → ℕ → ℤ × List UInt8

/-- A stream that deflate has brought to its end is not longer than the space for it. -/
def Zlib.Fits (z : Zlib) : Prop :=
  ∀ input availOut, (z.deflate input availOut).1 = zStreamEnd →
    (z.deflate input availOut).2.length ≤ availOut

/-- CompressData: what it puts out, with what OutputSize is set to. -/
def compressData (z : Zlib) (input : List UInt8) (inputSize outputSize : ℕ) :
    Except Fault (List UInt8 × ℕ) := do
  require (z.deflateInit = zOk) .deflateInit
  let (ret, output) := z.deflate (input.take inputSize) outputSize
  require (ret = zStreamEnd) .deflate
  return (output, output.length % 2 ^ 32)

abbrev maxEncodedSize : ℕ := 10000
abbrev outputBufferSize : ℕ := 10000

/-- The characters by their index in Encoded, and those around it. -/
abbrev Cells := ℤ → UInt8

def store (cells : Cells) (w : Write) : Cells := Function.update cells w.2 w.1

/-- What the encoder has returned, and the characters when they are shown. -/
structure Dump where
  written : ℤ
  encoded : Cells

/-- The body of both functions. The size of the data is an unsigned int to CompressData. -/
def dump (z : Zlib) (cells : Cells) (data : List UInt8) : Except Fault Dump := do
  let (output, outputSize) ← compressData z data (data.length % 2 ^ 32) outputBufferSize
  let (written, writes) := base45Encode maxEncodedSize (output.take outputSize)
  return ⟨written, Function.update (writes.foldl store cells) written 0⟩

/-- QRDump, by the memory at its string. -/
def qrDump (z : Zlib) (cells : Cells) (data : List UInt8) : Except Fault Dump :=
  dump z cells (data.takeWhile (· ≠ 0))

/-- QRDumpBytes, by the bytes at its data. -/
def qrDumpBytes (z : Zlib) (cells : Cells) (data : List UInt8) : Except Fault Dump :=
  dump z cells data

/-- What deflate puts out for the data. -/
def Zlib.compressed (z : Zlib) (data : List UInt8) : List UInt8 :=
  (z.deflate (data.take (data.length % 2 ^ 32)) outputBufferSize).2

/-- The NUL is stored in Encoded, behind characters of the alphabet that encode the output. -/
def Dump.HoldsEncoding (d : Dump) (output : List UInt8) : Prop :=
  0 ≤ d.written ∧ d.written < maxEncodedSize ∧
    ∃ text : List UInt8, d.written = text.length ∧
      (∀ i (hi : i < text.length), d.encoded i = text[i]) ∧ d.encoded text.length = 0 ∧
      (∀ c ∈ text, c ∈ charset) ∧ rfcDecode text = some output

section Cells
variable {cells : Cells}

/-- Characters that are written one after the other can be read again. -/
theorem foldl_store_zipIdx (text : List UInt8) {offset i : ℕ} (hi : i < text.length) :
    ((text.zipIdx offset).foldl store cells) ((offset + i : ℕ) : ℤ) = text[i] := by
  have hbelow : ∀ (text : List UInt8) (offset k : ℕ) (cells : Cells), k < offset →
      ((text.zipIdx offset).foldl store cells) k = cells k := by
    intro text
    induction text with
    | nil => exact fun _ _ _ _ => rfl
    | cons c text ih =>
      intro offset k cells hk
      rw [List.zipIdx_cons, List.foldl_cons, ih _ _ _ (by omega)]
      exact Function.update_of_ne (by exact_mod_cast hk.ne) _ _
  induction text generalizing offset i cells with
  | nil => exact absurd hi (Nat.not_lt_zero i)
  | cons c text ih =>
    rw [List.zipIdx_cons, List.foldl_cons]
    cases i with
    | zero =>
      rw [hbelow text (offset + 1) (offset + 0) _ (by omega)]
      exact Function.update_self _ _ _
    | succ i =>
      rw [show offset + (i + 1) = offset + 1 + i by omega]
      exact ih (by simpa using hi)

end Cells

section Dumps
variable {z : Zlib} {cells : Cells} {data : List UInt8} {d : Dump}

/-- What a dump holds follows from what deflate has put out. -/
theorem dump_eq_ok (hfits : z.Fits) (hd : dump z cells data = .ok d) :
    (z.compressed data).length ≤ outputBufferSize ∧
      d.written = (base45Encode maxEncodedSize (z.compressed data)).1 ∧
      d.encoded = Function.update
        ((base45Encode maxEncodedSize (z.compressed data)).2.foldl store cells) d.written 0 := by
  unfold dump at hd
  obtain ⟨⟨output, outputSize⟩, hcompressed, hd⟩ := bind_eq_ok.mp hd
  unfold compressData at hcompressed
  obtain ⟨_, -, hcompressed⟩ := bind_eq_ok.mp hcompressed
  obtain ⟨_, hend, hcompressed⟩ := bind_eq_ok.mp hcompressed
  have hlength := hfits _ _ (require_eq_ok.mp hend)
  obtain ⟨rfl, rfl⟩ := Prod.ext_iff.mp (pure_eq_ok.mp hcompressed)
  obtain rfl := pure_eq_ok.mp hd
  dsimp only at *
  rw [Nat.mod_eq_of_lt (hlength.trans_lt (by decide)), List.take_length]
  exact ⟨hlength, rfl, rfl⟩

theorem Dump.holdsEncoding_of_le (hfits : z.Fits) (hd : dump z cells data = .ok d)
    (hle : (z.compressed data).length ≤ 6666) : d.HoldsEncoding (z.compressed data) := by
  obtain ⟨-, hwritten, hencoded⟩ := dump_eq_ok hfits hd
  have hmax : maxEncodedSize = 10000 := rfl
  have hlength : encodedLength (z.compressed data).length < maxEncodedSize := by
    unfold encodedLength
    omega
  have hrequired := @requiredLength_of_lt (z.compressed data).length
    (hlength.trans (by decide))
  have hcorrect := @correct_of_lt maxEncodedSize (z.compressed data)
    (hlength.trans (by decide)) (by omega)
  unfold Correct at hcorrect
  rw [if_pos hlength] at hcorrect
  obtain ⟨hwrites, hreturned, hdecode, hcharset, -⟩ := hcorrect
  rw [hreturned] at hwritten
  have htext := length_rfcEncode (z.compressed data)
  refine ⟨by omega, by omega, rfcEncode (z.compressed data), hwritten, ?_, ?_, hcharset, hdecode⟩
  · intro i hi
    rw [hencoded, hwritten, Function.update_of_ne (by omega), hwrites]
    have hread := @foldl_store_zipIdx cells (rfcEncode (z.compressed data)) 0 i hi
    rwa [zero_add] at hread
  · rw [hencoded, hwritten]
    exact Function.update_self _ _ _

/-- The encoder refuses what does not fit, and the NUL is stored at a negative index. -/
theorem Dump.written_neg (hfits : z.Fits) (hd : dump z cells data = .ok d)
    (hlt : 6666 < (z.compressed data).length) : d.written = -memoryError := by
  obtain ⟨hle, hwritten, -⟩ := dump_eq_ok hfits hd
  have hmax : maxEncodedSize = 10000 := rfl
  have hsize : outputBufferSize = 10000 := rfl
  have hrequired : maxEncodedSize < requiredLength (z.compressed data).length := by
    rw [requiredLength_of_lt]
    · unfold encodedLength
      omega
    · unfold encodedLength
      omega
  rw [hwritten]
  unfold base45Encode
  rw [if_pos hrequired]

theorem dump_holdsEncoding_iff (hfits : z.Fits) (hd : dump z cells data = .ok d) :
    d.HoldsEncoding (z.compressed data) ↔ (z.compressed data).length ≤ 6666 := by
  constructor
  · rintro ⟨hnonneg, -⟩
    by_contra hlt
    rw [Dump.written_neg hfits hd (by omega)] at hnonneg
    exact absurd hnonneg (by decide)
  · exact Dump.holdsEncoding_of_le hfits hd

end Dumps

section Stored

/-- The checksum behind a stream. -/
def adler32 (input : List UInt8) : ℕ × ℕ :=
  input.foldl (fun (a, b) c => ((a + c.toNat) % 65521, (b + (a + c.toNat)) % 65521)) (1, 0)

/-- A number of two bytes. -/
def bytes16 (n : ℕ) : List UInt8 := [UInt8.ofNat (n / 256), UInt8.ofNat n]

/-- The stream of a single block that is stored as it is: what deflate puts out for up to 16000
bytes that do not get shorter. -/
def storedStream (input : List UInt8) : List UInt8 :=
  [0x78, 0xDA, 0x01] ++ (bytes16 input.length).reverse ++
    (bytes16 (2 ^ 16 - 1 - input.length)).reverse ++ input ++
    bytes16 (adler32 input).2 ++ bytes16 (adler32 input).1

/-- A deflate that stores, and fails when there is no space. -/
def stored : Zlib where
  deflateInit := zOk
  deflate input availOut :=
    if (storedStream input).length ≤ availOut then (zStreamEnd, storedStream input) else (0, [])

/-- Bytes of a generator of random numbers, which do not get shorter. -/
def noise : (n x : ℕ) → List UInt8
  | 0, _ => []
  | n + 1, x =>
    let x := (x * 1103515245 + 12345) % 2 ^ 31
    UInt8.ofNat (x / 2 ^ 16) :: noise n x

theorem stored_fits : stored.Fits := by
  intro input availOut hend
  dsimp only [stored] at hend ⊢
  split_ifs with hfits
  · exact hfits
  · exact Nat.zero_le _

theorem length_storedStream (input : List UInt8) :
    (storedStream input).length = input.length + 11 := by
  unfold storedStream bytes16
  simp only [List.length_append, List.length_cons, List.length_nil, List.length_reverse]
  omega

theorem length_noise (n x : ℕ) : (noise n x).length = n := by
  induction n generalizing x with
  | zero => rfl
  | succ n ih => rw [noise, List.length_cons, ih]

/-- The stream of data for which there is space. -/
theorem stored_deflate {data : List UInt8} (hlength : data.length + 11 ≤ outputBufferSize) :
    stored.deflate (data.take (data.length % 2 ^ 32)) outputBufferSize =
      (zStreamEnd, storedStream data) := by
  have hword : data.length < 2 ^ 32 :=
    (Nat.le_of_add_right_le hlength).trans_lt (by decide)
  rw [Nat.mod_eq_of_lt hword, List.take_length]
  apply if_pos
  rw [length_storedStream]
  exact hlength

/-- A dump is made of whatever CompressData puts out. -/
theorem exists_dump {z : Zlib} {cells : Cells} {data : List UInt8} {p : List UInt8 × ℕ}
    (hp : compressData z data (data.length % 2 ^ 32) outputBufferSize = .ok p) :
    ∃ d, dump z cells data = .ok d := by
  unfold dump
  rw [hp, ok_bind]
  dsimp only
  generalize base45Encode maxEncodedSize (p.1.take p.2) = encoded
  exact ⟨_, rfl⟩

theorem stored_dump {cells : Cells} {data : List UInt8}
    (hlength : data.length + 11 ≤ outputBufferSize) : ∃ d, dump stored cells data = .ok d := by
  apply exists_dump (p := (storedStream data, (storedStream data).length % 2 ^ 32))
  unfold compressData
  rw [require_true (c := stored.deflateInit = zOk) rfl, ok_bind, stored_deflate hlength]
  rfl

end Stored

/-- 7000 bytes that do not get shorter take 7011, and the NUL is stored four characters below
Encoded. -/
theorem noise_refused : ∃ d, qrDumpBytes stored (fun _ => 0) (noise 7000 1) = .ok d ∧
    (stored.compressed (noise 7000 1)).length = 7011 ∧ d.written = -4 ∧
    ¬ d.HoldsEncoding (stored.compressed (noise 7000 1)) := by
  have hlength : (noise 7000 1).length + 11 ≤ outputBufferSize := by
    rw [length_noise]
    decide
  have hcompressed : (stored.compressed (noise 7000 1)).length = 7011 := by
    unfold Zlib.compressed
    rw [stored_deflate hlength, length_storedStream, length_noise]
  obtain ⟨d, hd⟩ := @stored_dump (fun _ => 0) _ hlength
  refine ⟨d, hd, hcompressed, ?_, ?_⟩
  · exact Dump.written_neg stored_fits hd (by omega)
  · rw [dump_holdsEncoding_iff stored_fits hd]
    omega

/-- The dumps hold the encoding of what CompressData puts out if these are at most 6666 bytes,
and not if they are more. -/
theorem dumps_hold_iff (z : Zlib) (hfits : z.Fits) (cells : Cells) (data : List UInt8) :
    (∀ d, qrDump z cells data = .ok d →
        (d.HoldsEncoding (z.compressed (data.takeWhile (· ≠ 0))) ↔
          (z.compressed (data.takeWhile (· ≠ 0))).length ≤ 6666)) ∧
      ∀ d, qrDumpBytes z cells data = .ok d →
        (d.HoldsEncoding (z.compressed data) ↔ (z.compressed data).length ≤ 6666) :=
  ⟨fun _ hd => dump_holdsEncoding_iff hfits hd, fun _ hd => dump_holdsEncoding_iff hfits hd⟩

/-- 300 bytes that do not get shorter. -/
theorem dumps_hold_iff_noise :
    (∀ d, qrDump stored (fun _ => 0) (noise 300 1) = .ok d →
        (d.HoldsEncoding (stored.compressed ((noise 300 1).takeWhile (· ≠ 0))) ↔
          (stored.compressed ((noise 300 1).takeWhile (· ≠ 0))).length ≤ 6666)) ∧
      ∀ d, qrDumpBytes stored (fun _ => 0) (noise 300 1) = .ok d →
        (d.HoldsEncoding (stored.compressed (noise 300 1)) ↔
          (stored.compressed (noise 300 1)).length ≤ 6666) :=
  dumps_hold_iff stored stored_fits (fun _ => 0) (noise 300 1)

end Enkel.QrDump
