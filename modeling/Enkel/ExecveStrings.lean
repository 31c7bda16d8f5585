import Enkel.StandardStreams
import Enkel.StackCompleteness

/-!
The strings that sys_execve passes on. They are measured, widened one behind the
other into one block, and addressed through a second block with the two vectors.
RunProgram gets the vectors, and CreateProcess narrows the strings again onto the
stack of the new process.
-/
namespace Enkel.Execve

open ByteMemory Elf ThreadLocal ProcessStack
open StandardStreams (widen ofNat_widen widen_ne_zero)

def maxLength : ℤ := 2 ^ 30

/-- A character of two bytes. -/
def storeChar (address c : ℕ) (m : Memory) : Memory := store address (digit c) 2 m

/-- The loop of ascii_to_wide. A string is the list of its bytes, without the final
zero. -/
def wideLoop (bufferOut : Option ℕ) (bufferOutBytes : ℤ) :
    (bufferIn : List UInt8) → (index : ℕ) → Memory → ℕ × Memory
  | [], index, m => (index, m)
  | c :: rest, index, m =>
    if (index : ℤ) < bufferOutBytes then
      match bufferOut with
      | some p =>
        wideLoop bufferOut bufferOutBytes rest (index + 1)
          (storeChar (add64 p (2 * index)) (widen c) m)
      | none => wideLoop bufferOut bufferOutBytes rest (index + 1) m
    else
      (index, m)

/-- ascii_to_wide: the number of characters, and the memory. -/
def asciiToWide (bufferOut : Option ℕ) (bufferIn : List UInt8) (bufferOutBytes : ℤ) (m : Memory) :
    ℕ × Memory :=
  let r := wideLoop bufferOut bufferOutBytes bufferIn 0 m
  match bufferOut with
  | some p => (r.1, storeChar (add64 p (2 * r.1)) 0 r.2)
  | none => r

/-- The first pass over a list of strings, with the final zeros. -/
def measureWide (m : Memory) (strings : List (List UInt8)) (stringBlockBytes : ℕ) : ℕ :=
  strings.foldl (fun bytes s => add64 bytes ((asciiToWide none s maxLength m).1 + 1))
    stringBlockBytes

/-- One string of the second pass, which writes its final zero a second time; the
result is where the next one goes. -/
def writeWideString (memoryBlockStringsPtr : ℕ) (s : List UInt8) (m : Memory) : ℕ × Memory :=
  let r := asciiToWide (some memoryBlockStringsPtr) s maxLength m
  (add64 memoryBlockStringsPtr (2 * (r.1 + 1)),
    storeChar (add64 memoryBlockStringsPtr (2 * r.1)) 0 r.2)

/-- The loop of the second pass over one vector: the slots, the strings and the
memory. -/
def writeWideStrings : (strings : List (List UInt8)) →
    (memoryBlockPointersCurrent memoryBlockStringsPtr : ℕ) → Memory → ℕ × ℕ × Memory
  | [], memoryBlockPointersCurrent, memoryBlockStringsPtr, m =>
    (memoryBlockPointersCurrent, memoryBlockStringsPtr, m)
  | s :: rest, memoryBlockPointersCurrent, memoryBlockStringsPtr, m =>
    let m := storeWord memoryBlockPointersCurrent memoryBlockStringsPtr m
    let r := writeWideString memoryBlockStringsPtr s m
    writeWideStrings rest (add64 memoryBlockPointersCurrent 8) r.1 r.2

/-- One vector, with its null pointer: where that is, where the next string goes, and
the memory. -/
def writeVector (strings : List (List UInt8))
    (memoryBlockPointersCurrent memoryBlockStringsPtr : ℕ) (m : Memory) : ℕ × ℕ × Memory :=
  let r := writeWideStrings strings memoryBlockPointersCurrent memoryBlockStringsPtr m
  (r.1, r.2.1, storeWord r.1 0 r.2.2)

/-- The arguments of RunProgram, and the memory. -/
structure Call where
  programName : ℕ
  argv : ℕ
  envp : ℕ
  memory : Memory

section Execve
variable (filename : List UInt8) (argv envp : List (List UInt8))

/-- The file name without a dot in front. -/
def skipDot : List UInt8 :=
  match filename with
  | 0x2E :: rest => rest
  | _ => filename

/-- The size of the block of pointers. -/
def pointerBlockSize : ℕ := (envp.length + argv.length + 2) * 8

/-- The size of the block of strings, two bytes for each character. -/
def stringBlockSize (m : Memory) : ℕ :=
  let stringBlockBytes := add64 0 ((asciiToWide none (skipDot filename) maxLength m).1 + 1)
  measureWide m argv (measureWide m envp stringBlockBytes) * 2 % 2 ^ 64

/-- sys_execve up to the call of RunProgram, with the two blocks that rpmalloc returned
for these sizes. -/
def sysExecve (memoryBlockPointers memoryBlockStrings : ℕ) (m : Memory) : Call :=
  let name := writeWideString memoryBlockStrings (skipDot filename) m
  let env := writeVector envp memoryBlockPointers name.1 name.2
  let wideArg := add64 env.1 8
  let arg := writeVector argv wideArg env.2.1 env.2.2
  { programName := memoryBlockStrings
    argv := wideArg
    envp := memoryBlockPointers
    memory := arg.2.2 }

end Execve

/-- The characters of a widened string. -/
def wide (s : List UInt8) : List ℕ := s.map widen

theorem wide_length (s : List UInt8) : (wide s).length = s.length := List.length_map _

/-- Narrowing gives a widened string back. -/
theorem narrow_wide (s : List UInt8) : narrow (wide s) = s := by
  have hid : UInt8.ofNat ∘ widen = id := funext ofNat_widen
  unfold narrow wide
  rw [List.map_map, hid, List.map_id]

theorem map_narrow_wide (strings : List (List UInt8)) :
    (strings.map wide).map narrow = strings := by
  have hid : narrow ∘ wide = id := funext narrow_wide
  rw [List.map_map, hid, List.map_id]

theorem widen_lt (c : UInt8) : widen c < 2 ^ 16 := by
  have hc := c.toNat_lt
  unfold widen
  split_ifs <;> omega

section Strings
variable {s : List UInt8} {rest strings : List (List UInt8)} {limit : ℤ} {index p current : ℕ}
  {m : Memory}

theorem wideLoop_none (index : ℕ) (m : Memory) (h : (index + s.length : ℤ) ≤ limit) :
    wideLoop none limit s index m = (index + s.length, m) := by
  induction s generalizing index with
  | nil => rfl
  | cons c s ih =>
    rw [List.length_cons] at h ⊢
    unfold wideLoop
    rw [if_pos (by omega)]
    dsimp only
    rw [ih (index + 1) (by push_cast at h ⊢; omega)]
    congr 1
    omega

theorem readWord_storeChar {c : ℕ} (hc : c < 2 ^ 16) :
    readWord (storeChar p c m).bytes p 2 = c :=
  (readWord_writeWord (by omega)).trans (Nat.mod_eq_of_lt hc)

/-- From an index on the loop writes one character after the other. -/
theorem wideLoop_some (p index : ℕ) (m : Memory) (hlimit : (index + s.length : ℤ) ≤ limit)
    (hend : p + 2 * (index + s.length) ≤ 2 ^ 64) :
    (wideLoop (some p) limit s index m).1 = index + s.length ∧
      Changes (Within (p + 2 * index) (p + 2 * (index + s.length))) m
        (wideLoop (some p) limit s index m).2 ∧
      ∀ i (h : i < s.length),
        readWord (wideLoop (some p) limit s index m).2.bytes (p + 2 * (index + i)) 2 =
          widen s[i] := by
  induction s generalizing index m with
  | nil => exact ⟨rfl, Changes.refl _ m, fun i h => absurd h (Nat.not_lt_zero i)⟩
  | cons c s ih =>
    have hlength : (c :: s).length = s.length + 1 := List.length_cons
    rw [hlength] at hlimit hend
    obtain ⟨hlen, hchanges, hchars⟩ := ih (index + 1)
      (storeChar (p + 2 * index) (widen c) m) (by push_cast at hlimit ⊢; omega) (by omega)
    have hturn : wideLoop (some p) limit (c :: s) index m =
        wideLoop (some p) limit s (index + 1) (storeChar (p + 2 * index) (widen c) m) := by
      rw [wideLoop, if_pos (by omega), add64_of_lt (by omega)]
    rw [hturn]
    refine ⟨by omega, ?_, fun i hi => ?_⟩
    · refine (store_changes (by omega) ?_).trans (hchanges.mono fun w hw => ?_)
      · exact ⟨by dsimp only; omega, by dsimp only; omega⟩
      · exact hw.mono (by omega) (by omega)
    · cases i with
      | zero =>
        -- the rest of the loop writes behind this character
        rw [Nat.add_zero, List.getElem_cons_zero,
          readWord_of_agree (b := (storeChar (p + 2 * index) (widen c) m).bytes) (by omega)]
        · exact readWord_storeChar (widen_lt c)
        · exact hchanges.agreeOn (by omega) (by omega) (by omega)
      | succ i =>
        rw [List.getElem_cons_succ, ← hchars i (Nat.lt_of_succ_lt_succ hi)]
        congr 1
        omega

/-- A string is written with its final zero, and with nothing else. -/
theorem writeWideString_written (hs : ∀ c ∈ s, c ≠ 0) (hlimit : (s.length : ℤ) ≤ maxLength)
    (hend : p + 2 * (s.length + 1) < 2 ^ 64) :
    (writeWideString p s m).1 = p + 2 * (s.length + 1) ∧
      Changes (Within p (p + 2 * (s.length + 1))) m (writeWideString p s m).2 ∧
      TerminatedAt 2 (writeWideString p s m).2.bytes p (wide s) := by
  obtain ⟨hlen, hchanges, hchars⟩ := wideLoop_some p 0 m
    (show ((0 : ℕ) + s.length : ℤ) ≤ maxLength by simpa using hlimit) (by omega)
  obtain ⟨r, hr⟩ : ∃ r, wideLoop (some p) maxLength s 0 m = r := ⟨_, rfl⟩
  rw [hr] at hlen hchanges hchars
  rw [Nat.zero_add] at hlen hchanges
  rw [Nat.mul_zero, Nat.add_zero] at hchanges
  have hwrite : writeWideString p s m = (p + 2 * (s.length + 1),
      storeChar (p + 2 * s.length) 0 (storeChar (p + 2 * s.length) 0 r.2)) := by
    unfold writeWideString asciiToWide
    rw [hr]
    dsimp only
    rw [hlen, add64_of_lt (by omega), add64_of_lt (by omega)]
  have hzero : ∀ m, Changes (Within (p + 2 * s.length) (p + 2 * (s.length + 1))) m
      (storeChar (p + 2 * s.length) 0 m) := fun m =>
    store_changes (by omega) ⟨le_rfl, by dsimp only; omega⟩
  have hzeros := (hzero r.2).trans (hzero (storeChar (p + 2 * s.length) 0 r.2))
  rw [hwrite]
  refine ⟨rfl, ?_, fun i hi => ?_, ?_⟩
  · refine (hchanges.mono fun w hw => hw.mono le_rfl (by omega)).trans
      (hzeros.mono fun w hw => hw.mono (by omega) le_rfl)
  · have hlt : i < s.length := hi.trans_eq (wide_length s)
    have hc : (wide s)[i] = widen s[i] := List.getElem_map _
    refine ⟨?_, ?_⟩
    · rw [hc, ← hchars i hlt, Nat.zero_add]
      apply readWord_of_agree (by omega)
      exact hzeros.agreeOn (by omega) (by omega) (by omega)
    · rw [hc]
      exact widen_ne_zero (hs _ (List.getElem_mem hlt))
  · rw [wide_length]
    exact readWord_storeChar (by decide)

/-- The addresses of strings that are widened one behind the other. -/
def widePointers (p : ℕ) : List (List UInt8) → List ℕ
  | [] => []
  | s :: rest => p :: widePointers (p + 2 * (s.length + 1)) rest

theorem widePointers_length (p : ℕ) (strings : List (List UInt8)) :
    (widePointers p strings).length = strings.length := by
  induction strings generalizing p with
  | nil => rfl
  | cons s rest ih => rw [widePointers, List.length_cons, List.length_cons, ih]

theorem widePointers_ge (p : ℕ) (strings : List (List UInt8)) :
    ∀ q ∈ widePointers p strings, p ≤ q := by
  induction strings generalizing p with
  | nil =>
    intro q hq
    cases hq
  | cons s rest ih =>
    intro q hq
    rw [widePointers, List.mem_cons] at hq
    rcases hq with rfl | hq
    · exact le_rfl
    · have := ih _ q hq
      omega

theorem total_wide_cons (s : List UInt8) (rest : List (List UInt8)) :
    total ((s :: rest).map wide) = s.length + 1 + total (rest.map wide) := by
  rw [List.map_cons, total_cons, wide_length]

theorem wideStrings_of_agree {b b' : ℕ → UInt8}
    (hend : p + 2 * total (strings.map wide) ≤ 2 ^ 64)
    (h : List.Forall₂ (TerminatedAt 2 b) (widePointers p strings) (strings.map wide))
    (hagree : AgreeOn p (p + 2 * total (strings.map wide)) b b') :
    List.Forall₂ (TerminatedAt 2 b') (widePointers p strings) (strings.map wide) := by
  induction strings generalizing p with
  | nil => exact List.Forall₂.nil
  | cons s rest ih =>
    rw [total_wide_cons] at hend hagree
    rw [widePointers, List.map_cons, List.forall₂_cons] at h ⊢
    refine ⟨h.1.of_agree ?_ ?_, ih (by omega) h.2 (hagree.mono (by omega) (by omega))⟩
    · rw [wide_length]
      omega
    · rw [wide_length]
      exact hagree.mono le_rfl (by omega)

/-- What the second pass leaves for one vector: the strings behind `p`, and their
addresses in the slots. -/
structure Widened (current p : ℕ) (strings : List (List UInt8)) (m : Memory)
    (r : ℕ × ℕ × Memory) : Prop where
  slots : r.1 = current + 8 * strings.length
  next : r.2.1 = p + 2 * total (strings.map wide)
  changes : Changes (fun w => Within current (current + 8 * strings.length) w ∨
    Within p (p + 2 * total (strings.map wide)) w) m r.2.2
  pointersAt : WordsAt r.2.2.bytes current (widePointers p strings)
  stringsAt : List.Forall₂ (TerminatedAt 2 r.2.2.bytes) (widePointers p strings)
    (strings.map wide)

theorem writeWideStrings_widened (current p : ℕ) (m : Memory)
    (hs : ∀ s ∈ strings, ∀ c ∈ s, c ≠ 0)
    (hlimit : ∀ s ∈ strings, (s.length : ℤ) ≤ maxLength)
    (hslots : current + 8 * strings.length < 2 ^ 64)
    (hend : p + 2 * total (strings.map wide) < 2 ^ 64)
    (hsep : current + 8 * strings.length ≤ p ∨ p + 2 * total (strings.map wide) ≤ current) :
    Widened current p strings m (writeWideStrings strings current p m) := by
  induction strings generalizing current p m with
  | nil =>
    exact ⟨rfl, rfl, Changes.refl _ m, WordsAt.nil, List.Forall₂.nil⟩
  | cons s rest ih =>
    rw [List.length_cons] at hslots hsep
    rw [total_wide_cons] at hend hsep
    obtain ⟨hnext, hstring, hwide⟩ := writeWideString_written (p := p)
      (m := storeWord current p m) (hs s List.mem_cons_self) (hlimit s List.mem_cons_self)
      (by omega)
    obtain ⟨m₁, hm₁⟩ : ∃ m₁, (writeWideString p s (storeWord current p m)).2 = m₁ := ⟨_, rfl⟩
    have hturn : writeWideStrings (s :: rest) current p m =
        writeWideStrings rest (current + 8) (p + 2 * (s.length + 1)) m₁ := by
      rw [writeWideStrings, hnext, hm₁, add64_of_lt (by omega)]
    rw [hm₁] at hstring hwide
    have hrest := ih (current + 8) (p + 2 * (s.length + 1)) m₁
      (fun t ht => hs t (List.mem_cons_of_mem s ht))
      (fun t ht => hlimit t (List.mem_cons_of_mem s ht)) (by omega) (by omega) (by omega)
    rw [← hturn] at hrest
    obtain ⟨hslots', hnext', hchanges, hpointers, hstrings⟩ := hrest
    -- the rest writes beside this slot and this string
    have hagree : ∀ lo hi, hi ≤ 2 ^ 64 →
        hi ≤ current + 8 ∨ current + 8 * (rest.length + 1) ≤ lo →
        hi ≤ p + 2 * (s.length + 1) ∨ p + 2 * (s.length + 1 + total (rest.map wide)) ≤ lo →
        AgreeOn lo hi m₁.bytes (writeWideStrings (s :: rest) current p m).2.2.bytes := by
      intro lo hi hhi hslot hstr
      exact hchanges.agreeOn_two hhi (by omega) (by omega) (by omega) (by omega)
    refine ⟨?_, ?_, ?_, WordsAt.cons ?_ hpointers, List.Forall₂.cons ?_ hstrings⟩
    · rw [hslots', List.length_cons]
      omega
    · rw [hnext', total_wide_cons]
      omega
    · rw [List.length_cons, total_wide_cons]
      refine ((store_changes (by omega) ?_).trans (hstring.mono fun w hw => ?_)).trans
        (hchanges.mono fun w hw => ?_)
      · exact Or.inl ⟨le_rfl, by dsimp only; omega⟩
      · exact Or.inr (hw.mono le_rfl (by omega))
      · exact hw.imp (fun hw => hw.mono (by omega) (by omega))
          fun hw => hw.mono (by omega) (by omega)
    · rw [readWord_of_agree (b := m₁.bytes) (by omega)
        (hagree _ _ (by omega) (by omega) (by omega)),
        readWord_of_agree (b := (storeWord current p m).bytes) (by omega) ?_]
      · exact (readWord_writeWord (by omega)).trans (Nat.mod_eq_of_lt (by omega))
      · exact hstring.agreeOn (by omega) (by omega) (by omega)
    · apply hwide.of_agree
      · rw [wide_length]
        omega
      · rw [wide_length]
        exact hagree _ _ (by omega) (by omega) (by omega)

/-- A vector that addresses the strings behind `p` and ends with a null pointer. -/
structure VectorFilled (b : ℕ → UInt8) (current p : ℕ) (strings : List (List UInt8)) : Prop where
  words : WordsAt b current (widePointers p strings ++ [0])
  stringsAt : List.Forall₂ (TerminatedAt 2 b) (widePointers p strings) (strings.map wide)

theorem VectorFilled.of_agree {b b' : ℕ → UInt8} (h : VectorFilled b current p strings)
    (hslots : current + 8 * (strings.length + 1) ≤ 2 ^ 64)
    (hend : p + 2 * total (strings.map wide) ≤ 2 ^ 64)
    (hvector : AgreeOn current (current + 8 * (strings.length + 1)) b b')
    (hstrings : AgreeOn p (p + 2 * total (strings.map wide)) b b') :
    VectorFilled b' current p strings := by
  have hlength : (widePointers p strings ++ [0]).length = strings.length + 1 := by
    rw [List.length_append, widePointers_length]
    rfl
  refine ⟨h.words.of_agree ?_ ?_, wideStrings_of_agree hend h.stringsAt hstrings⟩
  · rwa [hlength]
  · rwa [hlength]

/-- One vector of the second pass. -/
theorem writeVector_filled (current p : ℕ) (m : Memory) (hs : ∀ s ∈ strings, ∀ c ∈ s, c ≠ 0)
    (hlimit : ∀ s ∈ strings, (s.length : ℤ) ≤ maxLength)
    (hslots : current + 8 * (strings.length + 1) < 2 ^ 64)
    (hend : p + 2 * total (strings.map wide) < 2 ^ 64)
    (hsep : current + 8 * (strings.length + 1) ≤ p ∨
      p + 2 * total (strings.map wide) ≤ current) :
    ∃ m', writeVector strings current p m =
        (current + 8 * strings.length, p + 2 * total (strings.map wide), m') ∧
      Changes (fun w => Within current (current + 8 * (strings.length + 1)) w ∨
        Within p (p + 2 * total (strings.map wide)) w) m m' ∧
      VectorFilled m'.bytes current p strings := by
  obtain ⟨hcurrent, hnext, hchanges, hpointers, hstrings⟩ :=
    writeWideStrings_widened current p m hs hlimit (by omega) hend (by omega)
  obtain ⟨r, hr⟩ : ∃ r, writeWideStrings strings current p m = r := ⟨_, rfl⟩
  rw [hr] at hcurrent hnext hchanges hpointers hstrings
  have hnull : ∀ lo hi, hi ≤ 2 ^ 64 →
      hi ≤ current + 8 * strings.length ∨ current + 8 * strings.length + 8 ≤ lo →
      AgreeOn lo hi r.2.2.bytes (storeWord (current + 8 * strings.length) 0 r.2.2).bytes := by
    intro lo hi hhi hbeside
    apply storeWord_agree
    · omega
    · exact hhi
    · exact hbeside
  refine ⟨storeWord (current + 8 * strings.length) 0 r.2.2, ?_, ?_, ?_, ?_⟩
  · unfold writeVector
    rw [hr]
    dsimp only
    rw [hcurrent, hnext]
  · refine (hchanges.mono fun w hw => ?_).trans (store_changes (by omega) ?_)
    · exact hw.imp (fun hw => hw.mono le_rfl (by omega)) id
    · exact Or.inl ⟨by dsimp only; omega, by dsimp only; omega⟩
  · apply WordsAt.append
    · apply hpointers.of_agree
      · rw [widePointers_length]
        omega
      · rw [widePointers_length]
        exact hnull _ _ (by omega) (by omega)
    · rw [widePointers_length]
      refine WordsAt.cons ?_ WordsAt.nil
      rw [readWord_storeWord, Nat.zero_mod]
  · exact wideStrings_of_agree hend.le hstrings (hnull _ _ hend.le (by omega))

theorem measureWide_eq {bytes : ℕ} (hlimit : ∀ s ∈ strings, (s.length : ℤ) ≤ maxLength)
    (hsum : bytes + total (strings.map wide) < 2 ^ 64) :
    measureWide m strings bytes = bytes + total (strings.map wide) := by
  induction strings generalizing bytes with
  | nil => rfl
  | cons s rest ih =>
    rw [total_wide_cons] at hsum ⊢
    have hlength : (asciiToWide none s maxLength m).1 = s.length := by
      have hloop := wideLoop_none 0 m
        (show ((0 : ℕ) + s.length : ℤ) ≤ maxLength by simpa using hlimit s List.mem_cons_self)
      rw [Nat.zero_add] at hloop
      exact congrArg Prod.fst hloop
    rw [measureWide, List.foldl_cons, hlength, add64_of_lt (by omega)]
    exact (ih (fun t ht => hlimit t (List.mem_cons_of_mem s ht)) (by omega)).trans (by omega)

theorem total_wide_le (h : ∀ s ∈ strings, s.length < 2 ^ 30) :
    total (strings.map wide) ≤ 2 ^ 30 * strings.length := by
  induction strings with
  | nil => exact Nat.zero_le _
  | cons s rest ih =>
    rw [total_wide_cons, List.length_cons]
    have hs := h s List.mem_cons_self
    have hrest := ih fun t ht => h t (List.mem_cons_of_mem s ht)
    omega

end Strings

end Enkel.Execve
