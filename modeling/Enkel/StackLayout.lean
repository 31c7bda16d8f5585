import Mathlib.Algebra.Order.BigOperators.Group.List
import Mathlib.Algebra.Order.Ring.Nat
import Enkel.StackStrings

/-!
The steps that prepare the stack, on a stack that is large enough: the auxiliary
vector lies below the strings, and the two vectors of pointers below it. The dry run
and the pass that measures the strings give the places where the later steps write.
-/
namespace Enkel.ProcessStack

open ByteMemory Elf ThreadLocal Rounding

section Word
variable {address value lo hi : ℕ} {m : Memory}

theorem storeWord_agree (hend : address + 8 ≤ 2 ^ 64) (hhi : hi ≤ 2 ^ 64)
    (hsep : hi ≤ address ∨ address + 8 ≤ lo) :
    AgreeOn lo hi m.bytes (storeWord address value m).bytes :=
  writeBytes_agree hend hhi hsep

theorem readWord_storeWord :
    readWord (storeWord address value m).bytes address 8 = value % 2 ^ 64 :=
  (readWord_writeWord (by omega)).trans (by norm_num)

theorem mem_storeWord_log {w : ℕ × ℕ} (h : w ∈ (storeWord address value m).log) :
    w ∈ m.log ∨ w = (address, 8) := by
  unfold storeWord store at h
  simpa using h

end Word

section Aux
variable {entries : List (AuxType × ℕ)} {p : ℕ} {m : Memory}

/-- The words of the auxiliary vector, from the last entry that is written to the first. -/
def auxWords (entries : List (AuxType × ℕ)) : List ℕ :=
  entries.reverse.flatMap fun e => [e.1.code, e.2 % 2 ^ 64]

theorem auxWords_cons (e : AuxType × ℕ) (entries : List (AuxType × ℕ)) :
    auxWords (e :: entries) = auxWords entries ++ [e.1.code, e.2 % 2 ^ 64] := by
  unfold auxWords
  rw [List.reverse_cons, List.flatMap_append, List.flatMap_singleton]

theorem auxWords_length : (auxWords entries).length = 2 * entries.length := by
  induction entries with
  | nil => rfl
  | cons e entries ih =>
    rw [auxWords_cons, List.length_append, ih, List.length_cons]
    simp only [List.length_cons, List.length_nil]
    omega

/-- The dry run moves the stack pointer only. -/
theorem foldl_writeAuxEntry_dry (hsp : p < 2 ^ 64)
    (hroom : 16 * entries.length ≤ p) :
    entries.foldl (writeAuxEntry true) (p, m) =
      (p - 16 * entries.length, m) := by
  induction entries generalizing p with
  | nil => rfl
  | cons e entries ih =>
    rw [List.length_cons] at hroom ⊢
    have hsub : writeAuxEntry true (p, m) e = (p - 16, m) := by
      show (sub64 p 16, m) = _
      rw [sub64_of_le (by omega) hsp]
    rw [List.foldl_cons, hsub, ih (by omega) (by omega)]
    congr 1
    omega

theorem code_lt (t : AuxType) : t.code < 2 ^ 64 := by
  cases t <;> decide

/-- What writing the entries below `p` leaves. -/
theorem foldl_writeAuxEntry (hsp : p < 2 ^ 64)
    (hroom : 16 * entries.length ≤ p) :
    let r := entries.foldl (writeAuxEntry false) (p, m)
    (∀ lo hi, hi ≤ 2 ^ 64 → hi ≤ p - 16 * entries.length ∨ p ≤ lo →
        AgreeOn lo hi m.bytes r.2.bytes) ∧
      WordsAt r.2.bytes (p - 16 * entries.length) (auxWords entries) ∧
      ∀ w ∈ r.2.log, w ∈ m.log ∨
        Within (p - 16 * entries.length) p w := by
  induction entries generalizing p m with
  | nil =>
    exact ⟨fun lo hi _ _ => AgreeOn.refl lo hi _, WordsAt.nil, fun w hw => Or.inl hw⟩
  | cons e entries ih =>
    rw [List.length_cons] at hroom ⊢
    have hturn : writeAuxEntry false (p, m) e = (p - 16,
        storeWord (p - 16 + 8) e.2 (storeWord (p - 16) e.1.code m)) := by
      show (sub64 p 16, _) = _
      rw [sub64_of_le (by omega) hsp, add64_of_lt (by omega)]
    rw [List.foldl_cons, hturn]
    obtain ⟨hagree, hwords, hlog⟩ := ih (p := p - 16)
      (m := storeWord (p - 16 + 8) e.2 (storeWord (p - 16) e.1.code m))
      (by omega) (by omega)
    have hend : p - 16 - 16 * entries.length = p - 16 * (entries.length + 1) := by omega
    rw [hend] at hagree hwords hlog
    refine ⟨?_, ?_, ?_⟩
    · intro lo hi hhi hsep
      refine AgreeOn.trans ?_ (hagree lo hi hhi (by omega))
      exact (storeWord_agree (by omega) hhi (by omega)).trans
        (storeWord_agree (by omega) hhi (by omega))
    · rw [auxWords_cons]
      refine hwords.append ?_
      rw [auxWords_length, show p - 16 * (entries.length + 1) + 8 * (2 * entries.length) = p - 16 by
        omega]
      have hpair : WordsAt (storeWord (p - 16 + 8) e.2 (storeWord (p - 16) e.1.code m)).bytes
          (p - 16) [e.1.code, e.2 % 2 ^ 64] := by
        refine WordsAt.cons ?_ (WordsAt.cons readWord_storeWord WordsAt.nil)
        rw [readWord_of_agree (by omega) (storeWord_agree (by omega) (by omega) (by omega)),
          readWord_storeWord, Nat.mod_eq_of_lt (code_lt _)]
      apply hpair.of_agree
      · simp only [List.length_cons, List.length_nil]
        omega
      · apply hagree
        · simp only [List.length_cons, List.length_nil]
          omega
        · omega
    · intro w hw
      rcases hlog w hw with hmem | hin
      · rcases mem_storeWord_log hmem with hmem | rfl
        · rcases mem_storeWord_log hmem with hmem | rfl
          · exact Or.inl hmem
          · exact Or.inr ⟨by dsimp only; omega, by dsimp only; omega⟩
        · exact Or.inr ⟨by dsimp only; omega, by dsimp only; omega⟩
      · exact Or.inr (hin.mono le_rfl (by omega))

end Aux

section Measure
variable {limit : ℤ} {strings : List (List ℕ)} {start words : ℕ} {m : Memory}

theorem measure_eq (hlimit : ∀ s ∈ strings, (s.length : ℤ) ≤ limit)
    (hsum : start + total strings < 2 ^ 64) :
    measure limit m strings start = start + total strings := by
  induction strings generalizing start with
  | nil => rfl
  | cons s rest ih =>
    rw [total_cons] at hsum ⊢
    have hnext : add64 start ((wideToAscii none s limit m).1 + 1) = start + (s.length + 1) := by
      rw [wideToAscii_none (hlimit s List.mem_cons_self), add64_of_lt (by omega)]
    show measure limit m rest (add64 start ((wideToAscii none s limit m).1 + 1)) = _
    rw [hnext, ih (fun t ht => hlimit t (List.mem_cons_of_mem s ht)) (by omega)]
    omega

theorem stackLeft_eq (h : words ≤ 131072) : stackLeft words = 131072 - words := by
  unfold stackLeft defaultThreadStackSize
  apply Int.bmod_eq_of_le
  · omega
  · omega

end Measure

/-- The characters of a list of strings. -/
def characters (strings : List (List ℕ)) : ℕ := (strings.map List.length).sum

theorem length_le_characters {s : List ℕ} {strings : List (List ℕ)} (hs : s ∈ strings) :
    s.length ≤ characters strings :=
  List.single_le_sum (fun _ _ => Nat.zero_le _) _ (List.mem_map_of_mem hs)

theorem total_eq (strings : List (List ℕ)) :
    total strings = characters strings + strings.length := by
  induction strings with
  | nil => rfl
  | cons s rest ih =>
    unfold characters at ih ⊢
    rw [total_cons, ih, List.map_cons, List.sum_cons, List.length_cons]
    omega

/-- The size of everything below the end of the stack, with `n` auxiliary entries. -/
def stackBytes (n : ℕ) (argv envp : List (List ℕ)) : ℕ :=
  8 + roundUp (total envp + total argv) 16 + 16 * n + 8 * (argv.length + envp.length + 3)

section Prepare
variable {base n strings after stackPointer : ℕ} {binary : ElfBinary} {subBinary : Option ElfBinary}
  {stackCookie : ℕ} {argv envp : List (List ℕ)} {m : Memory}

/-- The stack pointers of CreateProcess, from the end of the stack down: below the
marker, below the strings, below the auxiliary vector and below the two vectors. -/
structure Pointers (base n : ℕ) (argv envp : List (List ℕ)) (top strings after start : ℕ) :
    Prop where
  top_eq : top + 8 = base + defaultThreadStackSize
  strings_eq : strings + roundUp (total envp + total argv) 16 = top
  after_eq : after + 16 * n = strings
  start_eq : start + 8 * (argv.length + envp.length + 3) = after
  base_le : base ≤ start

/-- The same pointers for strings that need no more room than was measured. -/
structure Room (base n : ℕ) (argv envp : List (List ℕ)) (top strings after start : ℕ) :
    Prop where
  top_eq : top + 8 = base + defaultThreadStackSize
  strings_le : strings + (total envp + total argv) ≤ top
  after_eq : after + 16 * n = strings
  start_eq : start + 8 * (argv.length + envp.length + 3) = after
  base_le : base ≤ start

theorem total_take_le (limit : ℕ) (strings : List (List ℕ)) :
    total (strings.map (List.take limit)) ≤ total strings := by
  induction strings with
  | nil => exact le_rfl
  | cons s rest ih =>
    rw [List.map_cons, total_cons, total_cons, List.length_take]
    omega

/-- Strings of which some are cut off keep the room. -/
theorem Pointers.room {top strings after start : ℕ}
    (hptr : Pointers base n argv envp top strings after start) (limit limit' : ℕ) :
    Room base n (argv.map (List.take limit)) (envp.map (List.take limit')) top strings after
      start := by
  obtain ⟨htop, hstrings, hafter, hstart, hle⟩ := hptr
  have hround := le_roundUp (n := total envp + total argv) (a := 16) (by omega)
  have hargv := total_take_le limit argv
  have henvp := total_take_le limit' envp
  refine ⟨htop, by omega, hafter, ?_, hle⟩
  rw [List.length_map, List.length_map]
  exact hstart

/-- STACK_LEFT when the strings of the environment are written. -/
def envpLeft (n : ℕ) (argv envp : List (List ℕ)) : ℕ :=
  131072 - (8 + roundUp (total envp + total argv) 16 + 16 * n) / 8

/-- STACK_LEFT when the strings of the arguments are written. -/
def argvLeft (n : ℕ) (argv envp : List (List ℕ)) : ℕ := 131072 - stackBytes n argv envp / 8

theorem Pointers.left_eq {top strings after start : ℕ}
    (hptr : Pointers base n argv envp top strings after start) :
    stackLeft ((base + defaultThreadStackSize - after) / 8) = envpLeft n argv envp ∧
      stackLeft ((base + defaultThreadStackSize - start) / 8) = argvLeft n argv envp := by
  obtain ⟨htop, hstrings, hafter, hstart, hle⟩ := hptr
  unfold envpLeft argvLeft stackBytes
  unfold defaultThreadStackSize at *
  constructor
  · rw [stackLeft_eq (by omega)]
    omega
  · rw [stackLeft_eq (by omega)]
    omega

/-- The size of the strings is measured without cutting any of them off. -/
theorem stringBlockBytes_eq {top strings after start : ℕ}
    (hptr : Pointers base n argv envp top strings after start)
    (hbase : base + defaultThreadStackSize < 2 ^ 64) (m : Memory) :
    stringBlockBytes argv envp m = roundUp (total envp + total argv) 16 := by
  obtain ⟨htop, hstrings, hafter, hstart, hle⟩ := hptr
  have hround := le_roundUp (n := total envp + total argv) (a := 16) (by omega)
  have hargv := total_eq argv
  have henvp := total_eq envp
  unfold defaultThreadStackSize at *
  have hleft : stackLeft 1 = 131071 := stackLeft_eq (by omega)
  have halign := alignSize_two_pow (k := 4) (n := total envp + total argv) (by omega) (by omega)
  rw [if_pos (by omega)] at halign
  have henv : measure 131071 m envp 0 = total envp := by
    rw [measure_eq (fun s hs => by have := length_le_characters hs; omega) (by omega),
      Nat.zero_add]
  unfold stringBlockBytes
  rw [hleft, henv, measure_eq (fun s hs => by have := length_le_characters hs; omega) (by omega)]
  exact halign

/-- The memory when the strings of the environment are written, and the address of
the last one. -/
def afterEnvp (base top strings after start : ℕ) (argv envp : List (List ℕ)) (m : Memory) :
    ℕ × Memory :=
  writeStrings (stackLeft ((base + defaultThreadStackSize - after) / 8))
    (start + 8 * (argv.length + 2)) envp 0 top
    (storeWord (start + 8 * (argv.length + envp.length + 2)) 0
      (storeWord strings 0 (storeWord top 0 m)))

/-- The memory when the strings of the arguments are written. -/
def afterArgv (base start : ℕ) (argv : List (List ℕ)) (r : ℕ × Memory) : Memory :=
  (writeStrings (stackLeft ((base + defaultThreadStackSize - start) / 8)) (start + 8) argv 0 r.1
    (storeWord (start + 8 * (argv.length + 1)) 0 r.2)).2

/-- The steps that prepare a stack that is large enough, with their addresses. -/
theorem prepareStack_eq {top strings after start : ℕ}
    (hn : (auxEntries binary subBinary stackCookie).length = n)
    (hptr : Pointers base n argv envp top strings after start)
    (hbase : base + defaultThreadStackSize < 2 ^ 64) :
    prepareStack base binary subBinary stackCookie argv envp m =
      { defaultThreadStackStart := start
        argv := start + 8
        envp := start + 8 * (argv.length + 2)
        memory := (writeProcessAuxVectors binary subBinary stackCookie strings false
          (storeWord start argv.length (afterArgv base start argv
            (afterEnvp base top strings after start argv envp m)))).2 } := by
  have hblock := stringBlockBytes_eq hptr hbase
  obtain ⟨htop, hstrings, hafter, hstart, hle⟩ := hptr
  have hround := le_roundUp (n := total envp + total argv) (a := 16) (by omega)
  unfold defaultThreadStackSize at hbase htop
  have hdry : ∀ m, (writeProcessAuxVectors binary subBinary stackCookie strings true m).1 =
      after := fun m => by
    unfold writeProcessAuxVectors
    rw [foldl_writeAuxEntry_dry (by omega) (by omega), hn]
    dsimp only
    omega
  have hsub : ∀ a b c, c + b = a → a < 2 ^ 64 → sub64 a b = c := fun a b c h hlt => by
    rw [sub64_of_le (by omega) hlt]
    omega
  have htop64 : add64 base (128 * 1024) = base + 128 * 1024 := add64_of_lt (by omega)
  have hmarker : sub64 (base + 128 * 1024) 8 = top := hsub _ _ _ htop (by omega)
  have hauxv : sub64 top (roundUp (total envp + total argv) 16) = strings :=
    hsub _ _ _ hstrings (by omega)
  have henvpStart : sub64 after (8 * (envp.length + 1)) = start + 8 * (argv.length + 2) :=
    hsub _ _ _ (by omega) (by omega)
  have henvpEnd : add64 (start + 8 * (argv.length + 2)) (8 * envp.length) =
      start + 8 * (argv.length + envp.length + 2) := by
    rw [add64_of_lt (by omega)]
    omega
  have hargvStart : sub64 after (8 * (envp.length + argv.length + 2)) = start + 8 :=
    hsub _ _ _ (by omega) (by omega)
  have hargvEnd : add64 (start + 8) (8 * argv.length) = start + 8 * (argv.length + 1) := by
    rw [add64_of_lt (by omega)]
    omega
  have hargc : sub64 (start + 8) 8 = start := hsub _ _ _ rfl (by omega)
  have habove : sub64 (base + 128 * 1024) after = base + 128 * 1024 - after :=
    sub64_of_le (by omega) (by omega)
  have habove' : sub64 (base + 128 * 1024) start = base + 128 * 1024 - start :=
    sub64_of_le (by omega) (by omega)
  unfold prepareStack afterArgv afterEnvp defaultThreadStackSize
  simp only [htop64, hmarker, hblock, hauxv, hdry, henvpStart, henvpEnd, hargvStart, hargvEnd,
    hargc, habove, habove']

/-- What the strings leave, as far as they are not cut off. -/
theorem afterStrings_written {top strings after start : ℕ}
    (hptr : Pointers base n argv envp top strings after start)
    (hbase : base + defaultThreadStackSize < 2 ^ 64)
    (hargv : ∀ s ∈ argv, NoZero s) (henvp : ∀ s ∈ envp, NoZero s) (m : Memory) :
    Written (start + 8 * (argv.length + 2)) 0 top (envp.map (List.take (envpLeft n argv envp)))
        (storeWord (start + 8 * (argv.length + envp.length + 2)) 0
          (storeWord strings 0 (storeWord top 0 m)))
        (afterEnvp base top strings after start argv envp m).2 ∧
      Written (start + 8) 0 (top - total (envp.map (List.take (envpLeft n argv envp))))
        (argv.map (List.take (argvLeft n argv envp)))
        (storeWord (start + 8 * (argv.length + 1)) 0
          (afterEnvp base top strings after start argv envp m).2)
        (afterArgv base start argv (afterEnvp base top strings after start argv envp m)) := by
  obtain ⟨henvpLeft, hargvLeft⟩ := hptr.left_eq
  obtain ⟨htop, hroom, hafter, hstart, hle⟩ := hptr.room (argvLeft n argv envp) (envpLeft n argv envp)
  have hlimit : ∀ (limit : ℕ) (strings : List (List ℕ)), ∀ s ∈ strings.map (List.take limit),
      (s.length : ℤ) ≤ limit := by
    intro limit strings s hs
    obtain ⟨t, -, rfl⟩ := List.mem_map.mp hs
    rw [List.length_take]
    omega
  have hzero : ∀ (limit : ℕ) {strings : List (List ℕ)}, (∀ s ∈ strings, NoZero s) →
      ∀ s ∈ strings.map (List.take limit), NoZero s := by
    intro limit strings h s hs
    obtain ⟨t, ht, rfl⟩ := List.mem_map.mp hs
    exact (h t ht).take limit
  rw [List.length_map, List.length_map] at hstart
  unfold defaultThreadStackSize at hbase htop
  obtain ⟨hptr₁, hwritten₁⟩ := writeStrings_written (start + 8 * (argv.length + 2)) 0 top
    (storeWord (start + 8 * (argv.length + envp.length + 2)) 0
      (storeWord strings 0 (storeWord top 0 m))) (hlimit (envpLeft n argv envp) envp)
    (hzero _ henvp) (by omega) (by rw [List.length_map]; omega)
  obtain ⟨-, hwritten₂⟩ := writeStrings_written (start + 8) 0
    (top - total (envp.map (List.take (envpLeft n argv envp))))
    (storeWord (start + 8 * (argv.length + 1)) 0
      (afterEnvp base top strings after start argv envp m).2) (hlimit (argvLeft n argv envp) argv)
    (hzero _ hargv) (by omega) (by rw [List.length_map]; omega)
  have hfst : afterEnvp base top strings after start argv envp m = writeStrings
      (envpLeft n argv envp) (start + 8 * (argv.length + 2))
      (envp.map (List.take (envpLeft n argv envp))) 0 top
      (storeWord (start + 8 * (argv.length + envp.length + 2)) 0
        (storeWord strings 0 (storeWord top 0 m))) := by
    unfold afterEnvp
    rw [henvpLeft]
    exact writeStrings_take envp _ _ _ _
  unfold afterArgv
  rw [hargvLeft, writeStrings_take argv]
  rw [hfst] at hwritten₂ ⊢
  rw [hptr₁]
  exact ⟨hwritten₁, hwritten₂⟩

end Prepare

end Enkel.ProcessStack
