import Enkel.ProcessStack

/-!
The strings on the stack. Each string is narrowed and written below the last one, and
the vector receives their addresses. Nothing else changes.
-/
namespace Enkel.ProcessStack

open ByteMemory Elf ThreadLocal Rounding

/-- The bytes of a narrowed string. -/
def narrow (s : List ℕ) : List UInt8 := s.map UInt8.ofNat

/-- The bytes of a narrowed string with the zero behind it. -/
def narrowByte (s : List ℕ) (i : ℕ) : UInt8 := (narrow s).getD i 0

section Ascii
variable {s : List ℕ} {limit : ℤ} {index p : ℕ} {b : ℕ → UInt8} {m : Memory}

theorem asciiLoop_none (h : (index + s.length : ℤ) ≤ limit) :
    asciiLoop none limit s index b = (index + s.length, b) := by
  induction s generalizing index with
  | nil => rfl
  | cons c s ih =>
    have hlt : (index : ℤ) < limit := by
      rw [List.length_cons] at h
      omega
    unfold asciiLoop
    rw [if_pos hlt]
    dsimp only
    rw [ih (by rw [List.length_cons] at h; push_cast at h ⊢; omega), List.length_cons]
    congr 1
    omega

/-- After `index` turns the loop has written the first characters. -/
theorem asciiLoop_some {f : ℕ → UInt8} (h : (index + s.length : ℤ) ≤ limit)
    (hf : ∀ i (hi : i < s.length), f (index + i) = UInt8.ofNat s[i]) :
    asciiLoop (some p) limit s index (writeBytes p f index b) =
      (index + s.length, writeBytes p f (index + s.length) b) := by
  induction s generalizing index with
  | nil => rfl
  | cons c s ih =>
    have hlt : (index : ℤ) < limit := by
      rw [List.length_cons] at h
      omega
    have hc : f index = UInt8.ofNat c := hf 0 (Nat.succ_pos _)
    have hnext : Function.update (writeBytes p f index b) ((p + index) % 2 ^ 64) (UInt8.ofNat c) =
        writeBytes p f (index + 1) b := by
      rw [← hc]
      rfl
    have hlen : index + (c :: s).length = index + 1 + s.length := by
      rw [List.length_cons]
      omega
    unfold asciiLoop
    rw [if_pos hlt]
    dsimp only
    rw [hnext, hlen]
    apply ih
    · rw [List.length_cons] at h
      push_cast at h ⊢
      omega
    · intro i hi
      rw [Nat.add_assoc, Nat.add_comm 1 i]
      exact hf (i + 1) (Nat.succ_lt_succ hi)

/-- The loop sees no more characters than the limit allows. -/
theorem asciiLoop_take (out : Option ℕ) :
    asciiLoop out limit s index b =
      asciiLoop out limit (s.take (limit - index).toNat) index b := by
  induction s generalizing index b with
  | nil => rw [List.take_nil]
  | cons c s ih =>
    by_cases hlt : (index : ℤ) < limit
    · have hnext : (limit - index).toNat = (limit - (index + 1 : ℕ)).toNat + 1 := by omega
      rw [hnext, List.take_succ_cons]
      unfold asciiLoop
      simp only [if_pos hlt]
      cases out with
      | none => exact ih
      | some p => exact ih
    · have hzero : (limit - index).toNat = 0 := by omega
      rw [hzero, List.take_zero]
      unfold asciiLoop
      exact if_neg hlt

theorem wideToAscii_take (out : Option ℕ) :
    wideToAscii out s limit m = wideToAscii out (s.take limit.toNat) limit m := by
  have hloop : asciiLoop out limit s 0 m.bytes =
      asciiLoop out limit (s.take limit.toNat) 0 m.bytes := by
    rw [asciiLoop_take, Nat.cast_zero, sub_zero]
  unfold wideToAscii
  rw [hloop]

/-- The second pass writes what the limit leaves of the strings. -/
theorem writeStrings_take (strings : List (List ℕ)) (vector index p : ℕ) (m : Memory) :
    writeStrings limit vector strings index p m =
      writeStrings limit vector (strings.map (List.take limit.toNat)) index p m := by
  induction strings generalizing index p m with
  | nil => rfl
  | cons s rest ih =>
    rw [List.map_cons, writeStrings, writeStrings]
    simp only [← wideToAscii_take]
    exact ih _ _ _

theorem wideToAscii_none (h : (s.length : ℤ) ≤ limit) :
    wideToAscii none s limit m = (s.length, m) := by
  unfold wideToAscii
  dsimp only
  rw [asciiLoop_none (by simpa using h), Nat.zero_add]

theorem narrowByte_lt (i : ℕ) (hi : i < s.length) : narrowByte s i = UInt8.ofNat s[i] := by
  unfold narrowByte narrow
  rw [List.getD_eq_getElem _ _ (by simpa using hi), List.getElem_map]

theorem narrowByte_length : narrowByte s s.length = 0 := by
  unfold narrowByte narrow
  rw [List.getD_eq_default _ _ (by simp)]

/-- The whole string is written, with the zero behind it. -/
theorem wideToAscii_some (h : (s.length : ℤ) ≤ limit) :
    (wideToAscii (some p) s limit m).1 = s.length ∧
    (wideToAscii (some p) s limit m).2.bytes =
      writeBytes p (narrowByte s) (s.length + 1) m.bytes ∧
    (wideToAscii (some p) s limit m).2.log =
      m.log ++ [(p, s.length), (add64 p s.length, 1)] := by
  have hloop : asciiLoop (some p) limit s 0 m.bytes =
      (0 + s.length, writeBytes p (narrowByte s) (0 + s.length) m.bytes) :=
    asciiLoop_some (by simpa using h) fun i hi => by rw [Nat.zero_add, narrowByte_lt i hi]
  rw [Nat.zero_add] at hloop
  unfold wideToAscii
  rw [hloop]
  refine ⟨rfl, ?_, ?_⟩
  · show Function.update (writeBytes p (narrowByte s) s.length m.bytes)
      ((add64 p s.length + 0) % 2 ^ 64) 0 = _
    rw [Nat.add_zero, add64, Nat.mod_mod, ← narrowByte_length]
    rfl
  · show m.log ++ [_] ++ [_] = _
    rw [List.append_assoc]
    rfl

end Ascii

/-- The bytes that the strings take, with their final zeros. -/
def total (strings : List (List ℕ)) : ℕ := (strings.map fun s => s.length + 1).sum

/-- The addresses of strings that are written one below the other. -/
def pointers (p : ℕ) : List (List ℕ) → List ℕ
  | [] => []
  | s :: rest => (p - (s.length + 1)) :: pointers (p - (s.length + 1)) rest

theorem total_cons (s : List ℕ) (rest : List (List ℕ)) :
    total (s :: rest) = s.length + 1 + total rest := by
  unfold total
  rw [List.map_cons, List.sum_cons]

theorem pointers_length (p : ℕ) (strings : List (List ℕ)) :
    (pointers p strings).length = strings.length := by
  induction strings generalizing p with
  | nil => rfl
  | cons s rest ih => rw [pointers, List.length_cons, List.length_cons, ih]

/-- The characters that a narrowed string keeps. -/
def Narrowable (s : List ℕ) : Prop := ∀ c ∈ s, 1 ≤ c ∧ c ≤ 255

/-- No character of the string is narrowed to a zero, which would end it. -/
def NoZero (s : List ℕ) : Prop := ∀ c ∈ s, c % 256 ≠ 0

theorem Narrowable.noZero {s : List ℕ} (hs : Narrowable s) : NoZero s := by
  intro c hc
  have := hs c hc
  omega

theorem NoZero.take {s : List ℕ} (hs : NoZero s) (n : ℕ) : NoZero (s.take n) :=
  fun c hc => hs c (List.mem_of_mem_take hc)

section Strings
variable {s : List ℕ} {rest strings : List (List ℕ)} {limit : ℤ} {vector index p : ℕ} {m : Memory}

theorem narrow_length : (narrow s).length = s.length := List.length_map _

/-- A written string is read back. -/
theorem stringAt_writeBytes {q : ℕ} {b : ℕ → UInt8} (hend : q + (s.length + 1) ≤ 2 ^ 64)
    (hs : NoZero s) :
    StringAt (writeBytes q (narrowByte s) (s.length + 1) b) q (narrow s) := by
  refine ⟨fun i hi => ?_, ?_⟩
  · have hlt : i < s.length := hi.trans_eq narrow_length
    have hc := hs s[i] (List.getElem_mem hlt)
    have hbyte : (narrow s)[i] = UInt8.ofNat s[i] := List.getElem_map _
    rw [hbyte, writeBytes_at hend (by omega), narrowByte_lt i hlt]
    refine ⟨rfl, fun hzero => ?_⟩
    have hnat := congrArg UInt8.toNat hzero
    rw [UInt8.toNat_ofNat'] at hnat
    exact hc hnat
  · rw [narrow_length, writeBytes_at hend (by omega), narrowByte_length]

/-- The final zero is written a second time. -/
theorem zero_again {q : ℕ} {b : ℕ → UInt8} :
    writeBytes (q + s.length) (fun _ => 0) 1 (writeBytes q (narrowByte s) (s.length + 1) b) =
      writeBytes q (narrowByte s) (s.length + 1) b := by
  have hbyte : ∀ (b : ℕ → UInt8), writeBytes (q + s.length) (fun _ => 0) 1 b =
      Function.update b ((q + s.length) % 2 ^ 64) (narrowByte s s.length) := fun b => by
    rw [narrowByte_length]
    rfl
  rw [hbyte]
  exact Function.update_idem _ _ _

/-- One turn of the second pass. -/
theorem writeStrings_cons (rest : List (List ℕ)) (m : Memory) (hlimit : (s.length : ℤ) ≤ limit)
    (hp : p ≤ 2 ^ 64)
    (hroom : s.length + 1 ≤ p) (hvector : vector + 8 * index < 2 ^ 64) :
    ∃ m', writeStrings limit vector (s :: rest) index p m =
        writeStrings limit vector rest (index + 1) (p - (s.length + 1)) m' ∧
      m'.bytes = writeBytes (vector + 8 * index) (digit (p - (s.length + 1))) 8
        (writeBytes (p - (s.length + 1)) (narrowByte s) (s.length + 1) m.bytes) ∧
      m'.log = m.log ++ [(p - (s.length + 1), s.length),
        (p - (s.length + 1) + s.length, 1), (p - (s.length + 1) + s.length, 1),
        (vector + 8 * index, 8)] := by
  have hsub : sub64 p (s.length + 1) = p - (s.length + 1) := by
    unfold sub64
    omega
  have hend : add64 (p - (s.length + 1)) s.length = p - (s.length + 1) + s.length :=
    add64_of_lt (by omega)
  have hslot : add64 vector (8 * index) = vector + 8 * index := add64_of_lt hvector
  obtain ⟨hlen, hbytes, hlog⟩ := wideToAscii_some (p := p - (s.length + 1)) (m := m) hlimit
  rw [hend] at hlog
  rw [writeStrings, wideToAscii_none hlimit]
  dsimp only
  rw [hsub, hlen, hend, hslot]
  refine ⟨_, rfl, ?_, ?_⟩
  · unfold storeWord store
    dsimp only
    rw [hbytes]
    congr 1
    exact zero_again
  · unfold storeWord store
    dsimp only
    rw [hlog]
    simp

/-- What the second pass leaves for a list of strings below `p`, with a vector that
lies below all of them. -/
structure Written (vector index p : ℕ) (strings : List (List ℕ)) (m m' : Memory) : Prop where
  agree : ∀ lo hi, hi ≤ 2 ^ 64 →
    hi ≤ vector + 8 * index ∨ vector + 8 * (index + strings.length) ≤ lo →
    hi ≤ p - total strings ∨ p ≤ lo → AgreeOn lo hi m.bytes m'.bytes
  pointersAt : WordsAt m'.bytes (vector + 8 * index) (pointers p strings)
  stringsAt : List.Forall₂ (StringAt m'.bytes) (pointers p strings) (strings.map narrow)
  inside : ∀ w ∈ m'.log, w ∈ m.log ∨ Within (vector + 8 * index) p w

theorem writeStrings_written (vector index p : ℕ) (m : Memory)
    (hlimit : ∀ s ∈ strings, (s.length : ℤ) ≤ limit)
    (hs : ∀ s ∈ strings, NoZero s) (hp : p ≤ 2 ^ 64)
    (hroom : vector + 8 * (index + strings.length) + total strings ≤ p) :
    (writeStrings limit vector strings index p m).1 = p - total strings ∧
      Written vector index p strings m (writeStrings limit vector strings index p m).2 := by
  induction strings generalizing index p m with
  | nil =>
    refine ⟨rfl, ?_, ?_, ?_, ?_⟩
    · intro lo hi _ _ _
      exact AgreeOn.refl lo hi _
    · exact WordsAt.nil
    · exact List.Forall₂.nil
    · intro w hw
      exact Or.inl hw
  | cons s rest ih =>
    rw [total_cons, List.length_cons] at hroom
    obtain ⟨m', heq, hbytes, hlog⟩ := writeStrings_cons rest m
      (hlimit s List.mem_cons_self) hp (by omega) (show vector + 8 * index < 2 ^ 64 by omega)
    have hrest := ih (index + 1) (p - (s.length + 1)) m'
      (fun t ht => hlimit t (List.mem_cons_of_mem s ht))
      (fun t ht => hs t (List.mem_cons_of_mem s ht)) (by omega) (by omega)
    rw [← heq] at hrest
    obtain ⟨hptr, hagree, hvector, hstrings, hinside⟩ := hrest
    have hq : p - (s.length + 1) + (s.length + 1) = p := by omega
    have hslot : vector + 8 * (index + 1) = vector + 8 * index + 8 := by omega
    -- this turn changes the string and its slot only
    have hturn : ∀ lo hi, hi ≤ 2 ^ 64 →
        hi ≤ vector + 8 * index ∨ vector + 8 * index + 8 ≤ lo →
        hi ≤ p - (s.length + 1) ∨ p ≤ lo → AgreeOn lo hi m.bytes m'.bytes := by
      intro lo hi hhi hv hstr
      rw [hbytes]
      exact (writeBytes_agree (by omega) hhi (by omega)).trans
        (writeBytes_agree (by omega) hhi (by omega))
    refine ⟨?_, ?_, ?_, ?_, ?_⟩
    · rw [hptr, total_cons]
      omega
    · intro lo hi hhi hv hstr
      rw [List.length_cons] at hv
      rw [total_cons] at hstr
      exact (hturn lo hi hhi (by omega) (by omega)).trans
        (hagree lo hi hhi (by omega) (by omega))
    · rw [hslot] at hvector
      refine WordsAt.cons ?_ hvector
      rw [readWord_of_agree (b := m'.bytes) (by omega)
        (hagree _ _ (by omega) (by omega) (by omega)), hbytes]
      exact (readWord_writeWord (by omega)).trans (Nat.mod_eq_of_lt (by omega))
    · refine List.Forall₂.cons ?_ hstrings
      have hwritten : StringAt m'.bytes (p - (s.length + 1)) (narrow s) := by
        rw [hbytes]
        apply (stringAt_writeBytes (by omega) (hs s List.mem_cons_self)).of_agree
        rw [narrow_length]
        exact writeBytes_agree (by omega) (by omega) (by omega)
      apply hwritten.of_agree
      rw [narrow_length]
      exact hagree _ _ (by omega) (by omega) (by omega)
    · intro w hw
      rcases hinside w hw with hmem | hin
      · rw [hlog, List.mem_append] at hmem
        refine hmem.imp id fun hmem => ?_
        simp only [List.mem_cons, List.not_mem_nil, or_false] at hmem
        rcases hmem with rfl | rfl | rfl | rfl
        all_goals
          constructor
          · dsimp only
            omega
          · dsimp only
            omega
      · exact Or.inr (hin.mono (by omega) (by omega))

end Strings

end Enkel.ProcessStack
