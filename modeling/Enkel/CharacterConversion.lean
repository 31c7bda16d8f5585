import Mathlib.Data.UInt
import Enkel.ReadTraces
import Enkel.StandardStreams

/-!
ascii_to_wide and wide_to_ascii, with what they read and write. The loop stops at the NUL of the
text or when as many characters are converted as the buffer has elements, and the NUL is stored
where it has stopped. Without a buffer the characters are only counted.
-/
namespace Enkel.CharacterConversion

open Trace Traced
open StandardStreams (widen ofNat_widen widen_ne_zero)

/-- An element of the input is read, or one of the buffer is written. -/
inductive Access
  | read (index : ℕ)
  | write (index : ℕ)
deriving DecidableEq, Repr

abbrev Accesses := Traced Access Empty

section Code
variable {α β : Type} [Zero α] [DecidableEq α] [Zero β]

/-- A store into the buffer, if there is one. -/
def store (bufferOut : Option (ℕ → β)) (index : ℕ) (c : β) : Accesses (Option (ℕ → β)) :=
  match bufferOut with
  | none => pure none
  | some buffer => do
    note (.write index)
    return some (Function.update buffer index c)

/-- The loop of both functions from an index on, with so many places left. The character is read
before the index is compared. -/
def convertLoop (convert : α → β) (bufferIn : ℕ → α) :
    (index left : ℕ) → Option (ℕ → β) → Accesses (ℕ × Option (ℕ → β))
  | index, 0, bufferOut => do
    note (.read index)
    return (index, bufferOut)
  | index, left + 1, bufferOut => do
    note (.read index)
    if bufferIn index ≠ 0 then
      let bufferOut ← store bufferOut index (convert (bufferIn index))
      convertLoop convert bufferIn (index + 1) left bufferOut
    else
      return (index, bufferOut)

/-- Both functions: the index that is returned, and the buffer. -/
def convertText (convert : α → β) (bufferOut : Option (ℕ → β)) (bufferIn : ℕ → α)
    (bufferOutBytes : ℕ) : Accesses (ℕ × Option (ℕ → β)) := do
  let (index, bufferOut) ← convertLoop convert bufferIn 0 bufferOutBytes bufferOut
  let bufferOut ← store bufferOut index 0
  return (index, bufferOut)

end Code

def asciiToWide (bufferOut : Option (ℕ → ℕ)) (bufferIn : ℕ → UInt8) (bufferOutBytes : ℕ) :
    Accesses (ℕ × Option (ℕ → ℕ)) :=
  convertText widen bufferOut bufferIn bufferOutBytes

/-- A wide character is cut to its low byte. -/
def wideToAscii (bufferOut : Option (ℕ → UInt8)) (bufferIn : ℕ → ℕ) (bufferOutBytes : ℕ) :
    Accesses (ℕ × Option (ℕ → UInt8)) :=
  convertText UInt8.ofNat bufferOut bufferIn bufferOutBytes

/-- The text has this length, and its NUL behind it. -/
structure Terminated {α : Type} [Zero α] (bufferIn : ℕ → α) (length : ℕ) : Prop where
  ne_zero : ∀ i < length, bufferIn i ≠ 0
  nul : bufferIn length = 0

/-- Nothing behind the NUL is read, nothing behind the buffer is written. -/
def Access.Within (length n : ℕ) : Access → Prop
  | .read i => i ≤ length
  | .write i => i < n

instance (length n : ℕ) : DecidablePred (Access.Within length n)
  | .read i => inferInstanceAs (Decidable (i ≤ length))
  | .write i => inferInstanceAs (Decidable (i < n))

/-- Calls without a buffer and with one of `n` elements return the same length `k`. The buffer
then holds the first `k` characters of the text and a NUL, and all of the text if it is shorter
than the buffer. Without a buffer nothing is written. -/
structure Converts {α β : Type} [Zero β] (convert : α → β) (bufferIn : ℕ → α) (length n : ℕ)
    (without withBuffer : Accesses (ℕ × Option (ℕ → β))) (k : ℕ) (buffer : ℕ → β) : Prop where
  result_without : without.result = .ok (k, none)
  result_with : withBuffer.result = .ok (k, some buffer)
  le_length : k ≤ length
  lt_size : k < n
  characters : ∀ i < k, buffer i = convert (bufferIn i) ∧ buffer i ≠ 0
  nul : buffer k = 0
  whole : length < n → k = length
  within_without : without.All (Access.Within length 0)
  within_with : withBuffer.All (Access.Within length n)

section Loop
variable {α β : Type} {convert : α → β} {bufferIn : ℕ → α} {bufferOut : Option (ℕ → β)}
  {index left length n : ℕ} {P : Access → Prop}

/-- Where the loop stops. -/
def stop (length index left : ℕ) : ℕ := min length (index + left)

/-- The buffer when the loop has gone from one index to another. -/
def copied (convert : α → β) (bufferIn : ℕ → α) (first last : ℕ) (buffer : ℕ → β) : ℕ → β :=
  fun i => if first ≤ i ∧ i < last then convert (bufferIn i) else buffer i

theorem copied_self : copied convert bufferIn index index = id := by
  funext buffer i
  exact if_neg (by omega)

theorem copied_update {last : ℕ} (hlt : index < last) (buffer : ℕ → β) :
    copied convert bufferIn (index + 1) last
        (Function.update buffer index (convert (bufferIn index))) =
      copied convert bufferIn index last buffer := by
  funext i
  unfold copied
  by_cases hi : i = index
  · subst hi
    rw [if_neg (by omega), if_pos ⟨le_rfl, hlt⟩, Function.update_self]
  · rw [Function.update_of_ne hi]
    exact if_congr (by omega) rfl rfl

theorem store_result {c : β} : (store bufferOut index c).result =
    .ok (bufferOut.map fun buffer => Function.update buffer index c) := by
  cases bufferOut with
  | none => rfl
  | some buffer => rfl

theorem store_all {c : β} :
    (store bufferOut index c).All P ↔ (bufferOut.isSome → P (.write index)) := by
  cases bufferOut with
  | none => simp [store]
  | some buffer =>
    unfold store
    rw [all_unit_bind]
    simp

variable [Zero α] [DecidableEq α]

/-- At the NUL, or with no place left, the loop only reads. -/
theorem convertLoop_last (hlast : left = 0 ∨ bufferIn index = 0) :
    (convertLoop convert bufferIn index left bufferOut).result = .ok (index, bufferOut) ∧
      ((convertLoop convert bufferIn index left bufferOut).All P ↔ P (.read index)) := by
  cases left with
  | zero =>
    unfold convertLoop
    rw [result_bind, all_unit_bind]
    simp
  | succ left =>
    have hnul := hlast.resolve_left (Nat.succ_ne_zero left)
    unfold convertLoop
    rw [if_neg (not_not_intro hnul), result_bind, all_unit_bind]
    simp

theorem convertLoop_turn (hne : bufferIn index ≠ 0) :
    (convertLoop convert bufferIn index (left + 1) bufferOut).result =
        (convertLoop convert bufferIn (index + 1) left
          (bufferOut.map (Function.update · index (convert (bufferIn index))))).result ∧
      ((convertLoop convert bufferIn index (left + 1) bufferOut).All P ↔
        P (.read index) ∧ (bufferOut.isSome → P (.write index)) ∧
          (convertLoop convert bufferIn (index + 1) left
            (bufferOut.map (Function.update · index (convert (bufferIn index))))).All P) := by
  rw [convertLoop, if_pos hne, result_bind, result_note, all_unit_bind, all_note, all_bind,
    store_all]
  simp [store_result]

theorem stop_eq_index (hindex : index ≤ length) (hlast : left = 0 ∨ index = length) :
    stop length index left = index := by
  unfold stop
  omega

theorem stop_succ (left : ℕ) (hindex : index < length) :
    index < stop length index (left + 1) ∧
      stop length (index + 1) left = stop length index (left + 1) := by
  unfold stop
  omega

theorem convertLoop_result (h : Terminated bufferIn length) (hindex : index ≤ length) :
    (convertLoop convert bufferIn index left bufferOut).result =
      .ok (stop length index left,
        bufferOut.map (copied convert bufferIn index (stop length index left))) := by
  induction left generalizing index bufferOut with
  | zero =>
    rw [(convertLoop_last (P := fun _ => True) (Or.inl rfl)).1,
      stop_eq_index hindex (Or.inl rfl), copied_self, Option.map_id_fun, id]
  | succ left ih =>
    rcases hindex.eq_or_lt with rfl | hlt
    · rw [(convertLoop_last (P := fun _ => True) (Or.inr h.nul)).1,
        stop_eq_index le_rfl (Or.inr rfl), copied_self, Option.map_id_fun, id]
    · obtain ⟨hstop, heq⟩ := stop_succ left hlt
      rw [(convertLoop_turn (P := fun _ => True) (h.ne_zero index hlt)).1, ih hlt, heq,
        Option.map_map]
      congr 3
      funext buffer
      exact copied_update hstop buffer

/-- What holds from an index on, up to some bound, at the index itself and behind it. -/
theorem forall_from (index : ℕ) {U R : ℕ → Prop} : (∀ i, index ≤ i → U i → R i) ↔
    (U index → R index) ∧ ∀ i, index + 1 ≤ i → U i → R i := by
  constructor
  · intro hall
    exact ⟨hall index le_rfl, fun i hi => hall i (by omega)⟩
  · intro ⟨hself, hrest⟩ i hi hU
    rcases hi.eq_or_lt with rfl | hlt
    · exact hself hU
    · exact hrest i hlt hU

/-- Nothing but the index itself is read when the loop stops at it. -/
theorem read_iff_of_eq {e : ℕ} {Q : Prop} (he : e = index) : P (.read index) ↔
    (∀ i, index ≤ i → i ≤ e → P (.read i)) ∧ (Q → ∀ i, index ≤ i → i < e → P (.write i)) := by
  subst he
  constructor
  · intro hread
    refine ⟨fun i hi hle => ?_, fun _ i hi hlt => absurd hlt hi.not_gt⟩
    rwa [hle.antisymm hi]
  · intro hall
    exact hall.1 e le_rfl le_rfl

/-- The loop reads up to the index where it stops, and writes before it. -/
theorem convertLoop_all (h : Terminated bufferIn length) (hindex : index ≤ length) :
    (convertLoop convert bufferIn index left bufferOut).All P ↔
      (∀ i, index ≤ i → i ≤ stop length index left → P (.read i)) ∧
        (bufferOut.isSome → ∀ i, index ≤ i → i < stop length index left → P (.write i)) := by
  induction left generalizing index bufferOut with
  | zero =>
    rw [(convertLoop_last (Or.inl rfl)).2]
    exact read_iff_of_eq (stop_eq_index hindex (Or.inl rfl))
  | succ left ih =>
    rcases hindex.eq_or_lt with rfl | hlt
    · rw [(convertLoop_last (Or.inr h.nul)).2]
      exact read_iff_of_eq (stop_eq_index le_rfl (Or.inr rfl))
    · obtain ⟨hstop, heq⟩ := stop_succ left hlt
      rw [(convertLoop_turn (h.ne_zero index hlt)).2, ih hlt, heq, Option.isSome_map,
        forall_from index (U := (· ≤ stop length index (left + 1))),
        forall_from index (U := (· < stop length index (left + 1)))]
      simp only [hstop, hstop.le, true_implies]
      exact ⟨fun ⟨hread, hwrite, hreads, hwrites⟩ =>
          ⟨⟨hread, hreads⟩, fun hsome => ⟨hwrite hsome, hwrites hsome⟩⟩,
        fun ⟨⟨hread, hreads⟩, hsome⟩ =>
          ⟨hread, fun h => (hsome h).1, hreads, fun h => (hsome h).2⟩⟩

end Loop

section Text
variable {α β : Type} [Zero β] {convert : α → β} {bufferIn : ℕ → α} {bufferOut : Option (ℕ → β)}
  {length n : ℕ} {P : Access → Prop}

/-- The first `k` characters, converted, and a NUL. -/
def ended (convert : α → β) (bufferIn : ℕ → α) (k : ℕ) (buffer : ℕ → β) : ℕ → β :=
  Function.update (copied convert bufferIn 0 k buffer) k 0

theorem ended_of_lt {i k : ℕ} {buffer : ℕ → β} (hi : i < k) :
    ended convert bufferIn k buffer i = convert (bufferIn i) :=
  (Function.update_of_ne hi.ne _ _).trans (if_pos ⟨Nat.zero_le i, hi⟩)

theorem ended_self {k : ℕ} {buffer : ℕ → β} : ended convert bufferIn k buffer k = 0 :=
  Function.update_self _ _ _

theorem stop_zero : stop length 0 n = min length n := by
  rw [stop, Nat.zero_add]

variable [Zero α] [DecidableEq α]

theorem convertText_result (h : Terminated bufferIn length) :
    (convertText convert bufferOut bufferIn n).result =
      .ok (min length n, bufferOut.map (ended convert bufferIn (min length n))) := by
  have hloop : (convertLoop convert bufferIn 0 n bufferOut).result = _ :=
    convertLoop_result h (Nat.zero_le length)
  rw [stop_zero] at hloop
  unfold convertText
  simp only [result_bind, hloop, Outcome.ok_bind, store_result, result_pure, Option.map_map]
  rfl

/-- The buffer is written up to the index that is returned. -/
theorem convertText_all (h : Terminated bufferIn length) :
    (convertText convert bufferOut bufferIn n).All P ↔
      (∀ i ≤ min length n, P (.read i)) ∧
        (bufferOut.isSome → ∀ i ≤ min length n, P (.write i)) := by
  have hloop : (convertLoop convert bufferIn 0 n bufferOut).result = _ :=
    convertLoop_result h (Nat.zero_le length)
  have hall : (convertLoop convert bufferIn 0 n bufferOut).All P ↔ _ :=
    convertLoop_all h (Nat.zero_le length)
  rw [stop_zero] at hloop hall
  unfold convertText
  rw [all_bind, hall, hloop]
  simp only [Except.ok.injEq, forall_eq', all_bind, store_all, all_pure, implies_true, and_true,
    Option.isSome_map, Nat.zero_le, true_implies, and_assoc]
  apply and_congr_right
  intro _
  constructor
  · intro hwrites hsome i hi
    rcases hi.eq_or_lt with rfl | hlt
    · exact hwrites.2 hsome
    · exact hwrites.1 hsome i hlt
  · intro hwrites
    exact ⟨fun hsome i hi => hwrites hsome i hi.le, fun hsome => hwrites hsome _ le_rfl⟩

/-- The conversion is as it should be exactly for texts that are shorter than the buffer and have
no character that becomes a NUL. -/
theorem exists_converts_iff (h : Terminated bufferIn length) (old : ℕ → β) :
    (∃ k buffer, Converts convert bufferIn length n (convertText convert none bufferIn n)
        (convertText convert (some old) bufferIn n) k buffer) ↔
      length < n ∧ ∀ i < length, convert (bufferIn i) ≠ 0 := by
  constructor
  · intro ⟨k, buffer, hconverts⟩
    have hwrites := ((convertText_all h).mp hconverts.within_with).2 rfl
    have hlt : min length n < n := hwrites _ le_rfl
    have hfits : length < n := by omega
    obtain rfl := hconverts.whole hfits
    refine ⟨hfits, fun i hi => ?_⟩
    obtain ⟨heq, hne⟩ := hconverts.characters i hi
    exact heq ▸ hne
  · intro ⟨hfits, hne⟩
    have hmin : min length n = length := Nat.min_eq_left hfits.le
    refine ⟨length, ended convert bufferIn length old, ?_⟩
    exact {
      result_without := by rw [convertText_result h, hmin, Option.map_none]
      result_with := by rw [convertText_result h, hmin, Option.map_some]
      le_length := le_rfl
      lt_size := hfits
      characters := fun i hi => ⟨ended_of_lt hi, (ended_of_lt hi).trans_ne (hne i hi)⟩
      nul := ended_self
      whole := fun _ => rfl
      within_without := (convertText_all h).mpr ⟨fun i hi => hi.trans hmin.le, nofun⟩
      within_with := (convertText_all h).mpr
        ⟨fun i hi => hi.trans hmin.le, fun _ i hi => (hi.trans hmin.le).trans_lt hfits⟩ }

end Text

theorem ofNat_ne_zero_iff {c : ℕ} : UInt8.ofNat c ≠ 0 ↔ c % 256 ≠ 0 := by
  rw [ne_eq, ← UInt8.toNat_inj, UInt8.toNat_ofNat']
  exact Iff.rfl

/-- For every NUL-terminated text and every capacity, and whatever the buffer held: ascii_to_wide
does what is asked of it exactly if the text is shorter than the buffer, and wide_to_ascii if
besides no low byte of a character is zero. -/
theorem conversions_convert_iff (ascii : ℕ → UInt8) (wide : ℕ → ℕ) (length n : ℕ)
    (oldWide : ℕ → ℕ) (oldAscii : ℕ → UInt8) :
    (Terminated ascii length →
      ((∃ k buffer, Converts widen ascii length n (asciiToWide none ascii n)
        (asciiToWide (some oldWide) ascii n) k buffer) ↔ length < n)) ∧
    (Terminated wide length →
      ((∃ k buffer, Converts UInt8.ofNat wide length n (wideToAscii none wide n)
        (wideToAscii (some oldAscii) wide n) k buffer) ↔
          length < n ∧ ∀ i < length, wide i % 256 ≠ 0)) := by
  constructor
  · intro h
    refine (exists_converts_iff h oldWide).trans (and_iff_left ?_)
    exact fun i hi => widen_ne_zero (h.ne_zero i hi)
  · intro h
    refine (exists_converts_iff h oldAscii).trans (and_congr_right fun _ => ?_)
    exact forall₂_congr fun i _ => ofNat_ne_zero_iff

/-- The letters a and b. -/
def letters : ℕ → ℕ
  | 0 => 97
  | 1 => 98
  | _ => 0

theorem letters_terminated : Terminated letters 2 :=
  ⟨by decide, rfl⟩

theorem letters_terminated_ascii : Terminated (fun i => UInt8.ofNat (letters i)) 2 :=
  ⟨by decide, rfl⟩

/-- Two letters fit in three elements. -/
theorem conversions_convert_iff_letters :
    (∃ k buffer, Converts widen (fun i => UInt8.ofNat (letters i)) 2 3
      (asciiToWide none (fun i => UInt8.ofNat (letters i)) 3)
      (asciiToWide (some fun _ => 0) (fun i => UInt8.ofNat (letters i)) 3) k buffer) ∧
    ∃ k buffer, Converts UInt8.ofNat letters 2 3 (wideToAscii none letters 3)
      (wideToAscii (some fun _ => 0) letters 3) k buffer := by
  obtain ⟨hascii, hwide⟩ := conversions_convert_iff (fun i => UInt8.ofNat (letters i)) letters 2 3
    (fun _ => 0) (fun _ => 0)
  exact ⟨(hascii letters_terminated_ascii).mpr (by decide),
    (hwide letters_terminated).mpr (by decide)⟩

/-- With two elements the NUL behind the two letters is written behind the buffer. -/
theorem two_letters_overrun :
    (Terminated (fun i => UInt8.ofNat (letters i)) 2 ∧
      ¬ ∃ k buffer, Converts widen (fun i => UInt8.ofNat (letters i)) 2 2
        (asciiToWide none (fun i => UInt8.ofNat (letters i)) 2)
        (asciiToWide (some fun _ => 0) (fun i => UInt8.ofNat (letters i)) 2) k buffer) ∧
    Terminated letters 2 ∧
      ¬ ∃ k buffer, Converts UInt8.ofNat letters 2 2 (wideToAscii none letters 2)
        (wideToAscii (some fun _ => 0) letters 2) k buffer := by
  have hascii : ¬ (asciiToWide (some fun _ => 0) (fun i => UInt8.ofNat (letters i)) 2).All
      (Access.Within 2 2) := by decide
  have hwide : ¬ (wideToAscii (some fun _ => 0) letters 2).All (Access.Within 2 2) := by decide
  refine ⟨⟨letters_terminated_ascii, fun hconverts => ?_⟩, letters_terminated, fun hconverts => ?_⟩
  · obtain ⟨_, _, h⟩ := hconverts
    exact hascii h.within_with
  · obtain ⟨_, _, h⟩ := hconverts
    exact hwide h.within_with

/-- A text in a buffer with room for it comes back from wide_to_ascii as it was. -/
theorem wideToAscii_asciiToWide {bufferIn : ℕ → UInt8} {length n m : ℕ}
    (h : Terminated bufferIn length) (hn : length < n) (hm : length < m) (old : ℕ → ℕ)
    (old' : ℕ → UInt8) : ∃ wide ascii,
      (asciiToWide (some old) bufferIn n).result = .ok (length, some wide) ∧
      (wideToAscii (some old') wide m).result = .ok (length, some ascii) ∧
      ∀ i ≤ length, ascii i = bufferIn i := by
  have hwide : ∀ i < length, ended widen bufferIn length old i = widen (bufferIn i) :=
    fun i hi => ended_of_lt hi
  have hterminated : Terminated (ended widen bufferIn length old) length :=
    ⟨fun i hi => (hwide i hi).trans_ne (widen_ne_zero (h.ne_zero i hi)), ended_self⟩
  refine ⟨ended widen bufferIn length old,
    ended UInt8.ofNat (ended widen bufferIn length old) length old', ?_, ?_, fun i hi => ?_⟩
  · rw [asciiToWide, convertText_result h, Nat.min_eq_left hn.le, Option.map_some]
  · rw [wideToAscii, convertText_result hterminated, Nat.min_eq_left hm.le, Option.map_some]
  · rcases hi.eq_or_lt with rfl | hlt
    · rw [ended_self, h.nul]
    · rw [ended_of_lt hlt, hwide i hlt, ofNat_widen]

section Characters
variable {bufferIn : ℕ → UInt8} {index left length n : ℕ}

theorem asciiLoop_eq_range (h : Terminated bufferIn length) (hindex : index ≤ length) :
    StandardStreams.asciiLoop bufferIn index left =
      (List.range' index (stop length index left - index)).map fun i => widen (bufferIn i) := by
  induction left generalizing index with
  | zero =>
    rw [stop_eq_index hindex (Or.inl rfl), Nat.sub_self]
    rfl
  | succ left ih =>
    unfold StandardStreams.asciiLoop
    rcases hindex.eq_or_lt with rfl | hlt
    · rw [if_pos h.nul, stop_eq_index le_rfl (Or.inr rfl), Nat.sub_self]
      rfl
    · obtain ⟨hstop, heq⟩ := stop_succ left hlt
      have hsub : stop length index (left + 1) - index =
          stop length index (left + 1) - (index + 1) + 1 := by omega
      rw [if_neg (h.ne_zero index hlt), ih hlt, heq, hsub, List.range'_succ, List.map_cons]

/-- The characters before the NUL are those that the model of the string has. -/
theorem asciiToWide_characters (h : Terminated bufferIn length) (old : ℕ → ℕ) : ∃ k buffer,
    (asciiToWide (some old) bufferIn n).result = .ok (k, some buffer) ∧
      StandardStreams.asciiToWide bufferIn n = (List.range k).map buffer := by
  refine ⟨min length n, ended widen bufferIn (min length n) old, ?_, ?_⟩
  · rw [asciiToWide, convertText_result h, Option.map_some]
  · unfold StandardStreams.asciiToWide
    rw [asciiLoop_eq_range h (Nat.zero_le length), stop_zero, Nat.sub_zero, ← List.range_eq_range']
    apply List.map_congr_left
    intro i hi
    exact (ended_of_lt (List.mem_range.mp hi)).symm

end Characters

end Enkel.CharacterConversion
