import Mathlib.Data.List.Forall2
import Enkel.StackWrites

/-!
Which strings the stack of a new process holds whole. CreateProcess measures them
with one limit and writes them with another: STACK_LEFT takes the words that lie
above the stack pointer for bytes, and the stack pointer has moved in between. A
string that fits in the stack can therefore be cut off when it is written, and
what does not fit is written below the stack without a failure.
-/
namespace Enkel.ProcessStack

open ByteMemory Elf ThreadLocal Rounding

section Decode
variable {b : ℕ → UInt8} {base size start : ℕ} {args args' envs envs' : List (List UInt8)}
  {argv argv' envp envp' : List ℕ} {aux aux' : List (ℕ × ℕ)}

theorem forall₂_stringAt_unique {pointers : List ℕ} {strings strings' : List (List UInt8)}
    (h : List.Forall₂ (StringAt b) pointers strings)
    (h' : List.Forall₂ (StringAt b) pointers strings') : strings = strings' :=
  Relator.RightUnique.forall₂ (fun _ _ _ hs ht => hs.unique ht) h h'

/-- The vectors of pointers of a process stack. -/
theorem IsProcessStack.vectors (h : IsProcessStack b base size start args envs argv envp aux) :
    WordsAt b (start + 8) argv ∧ WordsAt b (start + 8 * (argv.length + 2)) envp := by
  have hrest := h.words.tail
  refine ⟨hrest.left, ?_⟩
  have henvp := hrest.right.tail.left
  rwa [show start + 8 + 8 * argv.length + 8 = start + 8 * (argv.length + 2) by omega] at henvp

/-- The stack pointer lies in the block. -/
theorem IsProcessStack.start_within
    (h : IsProcessStack b base size start args envs argv envp aux) :
    Within base (base + size) (start, 8) := by
  apply h.inside
  simp [allRanges, tableRanges]

/-- A process stack holds one list of arguments and one environment of given lengths. -/
theorem IsProcessStack.unique (h : IsProcessStack b base size start args envs argv envp aux)
    (h' : IsProcessStack b base size start args' envs' argv' envp' aux')
    (hargs : args.length = args'.length) (henvs : envs.length = envs'.length) :
    args = args' ∧ envs = envs' := by
  obtain ⟨hargv, henvp⟩ := h.vectors
  obtain ⟨hargv', henvp'⟩ := h'.vectors
  have hargc := h.argStrings.length_eq
  have hargc' := h'.argStrings.length_eq
  have henvc := h.envStrings.length_eq
  have henvc' := h'.envStrings.length_eq
  obtain rfl : argv = argv' := hargv.unique hargv' (by omega)
  obtain rfl : envp = envp' := henvp.unique henvp' (by omega)
  exact ⟨forall₂_stringAt_unique h.argStrings h'.argStrings,
    forall₂_stringAt_unique h.envStrings h'.envStrings⟩

end Decode

section Claim
variable {base n : ℕ} {binary : ElfBinary} {subBinary : Option ElfBinary} {stackCookie : ℕ}
  {argv envp : List (List ℕ)} {b : ℕ → UInt8}

/-- The stack that CreateProcess leaves: when everything fits, every string is there with the
length that was counted for it, and in no case anything is written outside of the stack. -/
structure Builds (base : ℕ) (binary : ElfBinary) (subBinary : Option ElfBinary) (stackCookie : ℕ)
    (argv envp : List (List ℕ)) (b : ℕ → UInt8) : Prop where
  complete : stackBytes (auxEntries binary subBinary stackCookie).length argv envp ≤
      defaultThreadStackSize →
    ∃ args envs, IsProcessStack
      (prepareStack base binary subBinary stackCookie argv envp ⟨b, []⟩).memory.bytes base
      defaultThreadStackSize
      (prepareStack base binary subBinary stackCookie argv envp ⟨b, []⟩).defaultThreadStackStart
      (argv.map narrow) (envp.map narrow) args envs (auxVector binary subBinary stackCookie)
  counted : stackBytes (auxEntries binary subBinary stackCookie).length argv envp ≤
      defaultThreadStackSize →
    ∀ s ∈ argv ++ envp, ∀ m, (wideToAscii none s (stackLeft 1) m).1 = (narrow s).length
  inside : ∀ w ∈ (prepareStack base binary subBinary stackCookie argv envp ⟨b, []⟩).memory.log,
    Inside base defaultThreadStackSize w

/-- Everything fits in the stack, no string is longer than STACK_LEFT when it is written, and no
character is narrowed to a zero. -/
structure LeftRoom (n : ℕ) (argv envp : List (List ℕ)) : Prop where
  fits : stackBytes n argv envp ≤ defaultThreadStackSize
  argv_le : ∀ s ∈ argv, s.length ≤ argvLeft n argv envp
  envp_le : ∀ s ∈ envp, s.length ≤ envpLeft n argv envp
  noZero : ∀ s ∈ argv ++ envp, NoZero s

/-- A string that narrows to the bytes of a string has no zero in it. -/
theorem noZero_of_stringAt {s : List ℕ} {p : ℕ} (h : StringAt b p (narrow s)) : NoZero s := by
  intro c hc hzero
  obtain ⟨i, hi, rfl⟩ := List.getElem_of_mem hc
  have hlt : i < (narrow s).length := hi.trans_eq narrow_length.symm
  have hbyte := (h.1 i hlt).2
  have hnarrow : (narrow s)[i] = UInt8.ofNat s[i] := List.getElem_map _
  apply hbyte
  rw [hnarrow]
  apply UInt8.toNat_inj.mp
  rw [UInt8.toNat_ofNat']
  exact hzero

theorem noZero_of_forall₂ {pointers : List ℕ} {strings : List (List ℕ)}
    (h : List.Forall₂ (StringAt b) pointers (strings.map narrow)) : ∀ s ∈ strings, NoZero s := by
  induction strings generalizing pointers with
  | nil => simp
  | cons s rest ih =>
    obtain ⟨p, pointers, hs, hrest, rfl⟩ := List.forall₂_cons_right_iff.mp h
    rw [List.forall_mem_cons]
    exact ⟨noZero_of_stringAt hs, ih hrest⟩

/-- Strings that are not cut off by a limit are not longer than it. -/
theorem length_le_of_map_take {limit : ℕ} {strings : List (List ℕ)}
    (h : (strings.map (List.take limit)).map narrow = strings.map narrow) :
    ∀ s ∈ strings, s.length ≤ limit := by
  rw [List.map_map] at h
  intro s hs
  have hlength := congrArg List.length (List.map_inj_left.mp h s hs)
  rw [Function.comp_apply, narrow_length, narrow_length, List.length_take] at hlength
  omega

/-- A stack that holds every string has no string that STACK_LEFT cuts off. -/
theorem IsProcessStack.leftRoom {args envs : List ℕ} {aux : List (ℕ × ℕ)}
    (hbase : base + defaultThreadStackSize < 2 ^ 64)
    (hfit : stackBytes (auxEntries binary subBinary stackCookie).length argv envp ≤
      defaultThreadStackSize)
    (h : IsProcessStack
      (prepareStack base binary subBinary stackCookie argv envp ⟨b, []⟩).memory.bytes base
      defaultThreadStackSize
      (prepareStack base binary subBinary stackCookie argv envp ⟨b, []⟩).defaultThreadStackStart
      (argv.map narrow) (envp.map narrow) args envs aux) :
    LeftRoom (auxEntries binary subBinary stackCookie).length argv envp := by
  have hargv := noZero_of_forall₂ h.argStrings
  have henvp := noZero_of_forall₂ h.envStrings
  obtain ⟨args', envs', htruncated⟩ := prepareStack_truncates ⟨b, []⟩ hbase hargv henvp rfl hfit
  obtain ⟨hargs, henvs⟩ := htruncated.unique h (by simp) (by simp)
  refine ⟨hfit, length_le_of_map_take hargs, length_le_of_map_take henvs, fun s hs => ?_⟩
  rcases List.mem_append.mp hs with hs | hs
  · exact hargv s hs
  · exact henvp s hs

/-- Nothing is cut off when there is room for every string. -/
theorem LeftRoom.complete (hbase : base + defaultThreadStackSize < 2 ^ 64)
    (h : LeftRoom (auxEntries binary subBinary stackCookie).length argv envp) :
    ∃ args envs, IsProcessStack
      (prepareStack base binary subBinary stackCookie argv envp ⟨b, []⟩).memory.bytes base
      defaultThreadStackSize
      (prepareStack base binary subBinary stackCookie argv envp ⟨b, []⟩).defaultThreadStackStart
      (argv.map narrow) (envp.map narrow) args envs (auxVector binary subBinary stackCookie) := by
  have hdecodes := prepareStack_truncates ⟨b, []⟩ hbase
    (fun s hs => h.noZero s (List.mem_append_left _ hs))
    (fun s hs => h.noZero s (List.mem_append_right _ hs)) rfl h.fits
  rwa [map_take_eq_self h.argv_le, map_take_eq_self h.envp_le] at hdecodes

/-- The limit of the measuring pass is larger than every string that is written whole. -/
theorem LeftRoom.counted {n : ℕ} (h : LeftRoom n argv envp) (s : List ℕ)
    (hs : s ∈ argv ++ envp) (m : Memory) :
    (wideToAscii none s (stackLeft 1) m).1 = (narrow s).length := by
  have hlimit : stackLeft 1 = 131071 := by decide
  have hlength : s.length ≤ 131071 := by
    rcases List.mem_append.mp hs with hs | hs
    · have := h.argv_le s hs
      unfold argvLeft stackBytes at this
      omega
    · have := h.envp_le s hs
      unfold envpLeft at this
      omega
  rw [wideToAscii_none (by omega), narrow_length]

/-- CreateProcess builds a complete stack inside of its block exactly if everything fits, no
string is longer than what STACK_LEFT allows when it is written, and no character is narrowed
to a zero. -/
theorem builds_iff_leftRoom (hbase : base + defaultThreadStackSize ≤ 2 ^ 48)
    (hcount : argv.length + envp.length < 2 ^ 31) :
    Builds base binary subBinary stackCookie argv envp b ↔
      LeftRoom (auxEntries binary subBinary stackCookie).length argv envp := by
  have hend : base + defaultThreadStackSize < 2 ^ 64 := hbase.trans_lt (by decide)
  constructor
  · intro h
    have hfit := (prepareStack_inside_iff b hbase hcount).mp h.inside
    obtain ⟨args, envs, hstack⟩ := h.complete hfit
    exact hstack.leftRoom hend hfit
  · intro h
    refine ⟨fun _ => h.complete hend, fun _ => h.counted, ?_⟩
    exact (prepareStack_inside_iff b hbase hcount).mpr h.fits

end Claim

/-- Two arguments and one string of the environment have room. -/
theorem builds_iff_leftRoom_two :
    Builds 0x50000000 emptyBinary none 0x60000028 [[97], [98, 99]] [[65, 61]] (fun _ => 0xFF) ↔
      LeftRoom (auxEntries emptyBinary none 0x60000028).length [[97], [98, 99]] [[65, 61]] :=
  builds_iff_leftRoom (by decide) (by decide)

/-- One argument of 120000 characters fits in the stack and is cut off when it is written. -/
theorem long_argument_cut_off :
    stackBytes (auxEntries emptyBinary none 0x60000028).length [List.replicate 120000 97] [] ≤
      defaultThreadStackSize ∧
    ¬Builds 0x50000000 emptyBinary none 0x60000028 [List.replicate 120000 97] []
      (fun _ => 0xFF) := by
  have haux : (auxEntries emptyBinary none 0x60000028).length = 9 := rfl
  have htotal : total [List.replicate 120000 97] = 120001 := by
    rw [total_cons, List.length_replicate]
    rfl
  have hbytes : stackBytes (auxEntries emptyBinary none 0x60000028).length
      [List.replicate 120000 97] [] = 120200 := by
    rw [haux, stackBytes, htotal]
    rfl
  have hfit : stackBytes (auxEntries emptyBinary none 0x60000028).length
      [List.replicate 120000 97] [] ≤ defaultThreadStackSize := by
    rw [hbytes]
    decide
  refine ⟨hfit, fun h => ?_⟩
  obtain ⟨args, envs, hstack⟩ := h.complete hfit
  have hlength := (hstack.leftRoom (by decide) hfit).argv_le _ (List.mem_singleton_self _)
  rw [List.length_replicate, argvLeft, hbytes] at hlength
  omega

end Enkel.ProcessStack
