import Enkel.StackLayout

/-!
The finished stack decodes. Every part is written into a range of its own, so what
one step writes is still there at the end: the number of arguments, the two vectors
of pointers to strings and the auxiliary vector, as the System V ABI lays them out.
-/
namespace Enkel.ProcessStack

open ByteMemory Elf ThreadLocal Rounding

/-- The ranges of the strings at the given addresses. -/
def stringRanges (pointers : List ℕ) (strings : List (List UInt8)) : List (ℕ × ℕ) :=
  List.zipWith (fun p s => (p, s.length + 1)) pointers strings

/-- The ranges of the number of arguments and of the three vectors. -/
def tableRanges (start argc envc auxc : ℕ) : List (ℕ × ℕ) :=
  [(start, 8), (start + 8, 8 * (argc + 1)), (start + 8 * (argc + 2), 8 * (envc + 1)),
    (start + 8 * (argc + envc + 3), 16 * auxc)]

def allRanges (start : ℕ) (args envs : List (List UInt8)) (argv envp : List ℕ)
    (aux : List (ℕ × ℕ)) : List (ℕ × ℕ) :=
  tableRanges start args.length envs.length aux.length ++ stringRanges argv args ++
    stringRanges envp envs

/-- The memory at `start` is a process stack with the given strings, at the given
addresses, and auxiliary vector, in the block of the given size. -/
structure IsProcessStack (b : ℕ → UInt8) (base size start : ℕ) (args envs : List (List UInt8))
    (argv envp : List ℕ) (aux : List (ℕ × ℕ)) : Prop where
  words : WordsAt b start
    (args.length :: (argv ++ 0 :: (envp ++ 0 :: aux.flatMap fun e => [e.1, e.2])))
  argStrings : List.Forall₂ (StringAt b) argv args
  envStrings : List.Forall₂ (StringAt b) envp envs
  notNull : ∀ p ∈ argv ++ envp, p ≠ 0
  lastNull : ∃ rest value, aux = rest ++ [(0, value)] ∧ ∀ e ∈ rest, e.1 ≠ 0
  separate : (allRanges start args envs argv envp aux).Pairwise Separate
  inside : ∀ r ∈ allRanges start args envs argv envp aux, Within base (base + size) r

section Ranges
variable {strings : List (List ℕ)} {p : ℕ} {b b' : ℕ → UInt8}

theorem forall₂_of_agree (hp : total strings ≤ p)
    (h : List.Forall₂ (StringAt b) (pointers p strings) (strings.map narrow))
    (hagree : AgreeOn (p - total strings) p b b') :
    List.Forall₂ (StringAt b') (pointers p strings) (strings.map narrow) := by
  induction strings generalizing p with
  | nil => exact List.Forall₂.nil
  | cons s rest ih =>
    rw [total_cons] at hp hagree
    rw [pointers, List.map_cons, List.forall₂_cons] at h ⊢
    refine ⟨h.1.of_agree ?_, ih (by omega) h.2 (hagree.mono (by omega) (by omega))⟩
    rw [narrow_length]
    exact hagree.mono (by omega) (by omega)

theorem stringRanges_within (hp : total strings ≤ p) :
    ∀ r ∈ stringRanges (pointers p strings) (strings.map narrow),
      Within (p - total strings) p r := by
  induction strings generalizing p with
  | nil =>
    intro r hr
    cases hr
  | cons s rest ih =>
    rw [total_cons] at hp ⊢
    intro r hr
    rw [pointers, List.map_cons, stringRanges, List.zipWith_cons_cons, List.mem_cons] at hr
    rcases hr with rfl | hr
    · rw [narrow_length]
      exact ⟨by dsimp only; omega, by dsimp only; omega⟩
    · exact (ih (by omega) r hr).mono (by omega) (by omega)

theorem stringRanges_pairwise (hp : total strings ≤ p) :
    (stringRanges (pointers p strings) (strings.map narrow)).Pairwise Separate := by
  induction strings generalizing p with
  | nil => exact List.Pairwise.nil
  | cons s rest ih =>
    rw [total_cons] at hp
    rw [pointers, List.map_cons, stringRanges, List.zipWith_cons_cons, List.pairwise_cons]
    refine ⟨fun r hr => ?_, ih (by omega)⟩
    right
    exact (stringRanges_within (by omega) r hr).2

theorem pointers_ge (hp : total strings ≤ p) : ∀ q ∈ pointers p strings, p - total strings ≤ q := by
  induction strings generalizing p with
  | nil =>
    intro q hq
    cases hq
  | cons s rest ih =>
    rw [total_cons] at hp ⊢
    intro q hq
    rw [pointers, List.mem_cons] at hq
    rcases hq with rfl | hq
    · omega
    · have := ih (by omega) q hq
      omega

end Ranges

section Prepare
variable {base n top strings after start : ℕ} {binary : ElfBinary}
  {subBinary : Option ElfBinary} {stackCookie : ℕ} {argv envp : List (List ℕ)} {m m₁ m₂ : Memory}

/-- The auxiliary vector in the order of the addresses. -/
def auxVector (binary : ElfBinary) (subBinary : Option ElfBinary) (stackCookie : ℕ) :
    List (ℕ × ℕ) :=
  (auxEntries binary subBinary stackCookie).reverse.map fun e => (e.1.code, e.2 % 2 ^ 64)

theorem auxVector_words : (auxVector binary subBinary stackCookie).flatMap (fun e => [e.1, e.2]) =
    auxWords (auxEntries binary subBinary stackCookie) := by
  unfold auxVector auxWords
  rw [List.flatMap_map]

theorem auxVector_lastNull : ∃ rest value,
    auxVector binary subBinary stackCookie = rest ++ [(0, value)] ∧ ∀ e ∈ rest, e.1 ≠ 0 := by
  have hhead : auxEntries binary subBinary stackCookie =
      (.null, 0) :: (auxEntries binary subBinary stackCookie).tail := rfl
  have htail : ∀ e ∈ (auxEntries binary subBinary stackCookie).tail, e.1.code ≠ 0 := by
    cases subBinary <;> simp [auxEntries, AuxType.code]
  unfold auxVector
  rw [hhead, List.reverse_cons, List.map_append]
  refine ⟨_, _, rfl, fun e he => ?_⟩
  obtain ⟨entry, hmem, rfl⟩ := List.mem_map.mp he
  exact htail entry (List.mem_reverse.mp hmem)

/-- The auxiliary vector is written between the strings and the vectors. -/
theorem aux_written (hn : (auxEntries binary subBinary stackCookie).length = n)
    (hafter : after + 16 * n = strings) (hend : strings < 2 ^ 64) :
    (∀ lo hi, hi ≤ 2 ^ 64 → hi ≤ after ∨ strings ≤ lo → AgreeOn lo hi m.bytes
        (writeProcessAuxVectors binary subBinary stackCookie strings false m).2.bytes) ∧
      WordsAt (writeProcessAuxVectors binary subBinary stackCookie strings false m).2.bytes after
        (auxWords (auxEntries binary subBinary stackCookie)) ∧
      ∀ w ∈ (writeProcessAuxVectors binary subBinary stackCookie strings false m).2.log,
        w ∈ m.log ∨ Within after strings w := by
  have hroom : 16 * (auxEntries binary subBinary stackCookie).length ≤ strings := by omega
  have hfold := foldl_writeAuxEntry (m := m) hend hroom
  rw [hn, show strings - 16 * n = after by omega] at hfold
  exact hfold

/-- The last steps, the number of arguments and the auxiliary vector, leave the
vectors and the strings. -/
theorem last_agree (m₂ : Memory) (hn : (auxEntries binary subBinary stackCookie).length = n)
    (hptr : Room base n argv envp top strings after start)
    (hbase : base + defaultThreadStackSize < 2 ^ 64) (lo hi : ℕ) (hhi : hi ≤ 2 ^ 64)
    (hargc : hi ≤ start ∨ start + 8 ≤ lo) (haux : hi ≤ after ∨ strings ≤ lo) :
    AgreeOn lo hi m₂.bytes (writeProcessAuxVectors binary subBinary stackCookie strings false
      (storeWord start argv.length m₂)).2.bytes := by
  obtain ⟨htop, hstrings, hafter, hstart, hle⟩ := hptr
  unfold defaultThreadStackSize at htop hbase
  obtain ⟨hagree, -, -⟩ := aux_written (m := storeWord start argv.length m₂) hn hafter (by omega)
  exact (storeWord_agree (by omega) hhi (by omega)).trans (hagree lo hi hhi haux)

/-- The strings of the arguments and their vector are written beside everything that
was there before. -/
theorem args_agree (hptr : Room base n argv envp top strings after start)
    (hbase : base + defaultThreadStackSize < 2 ^ 64)
    (hw : Written (start + 8) 0 (top - total envp) argv
      (storeWord (start + 8 * (argv.length + 1)) 0 m₁) m₂) (lo hi : ℕ) (hhi : hi ≤ 2 ^ 64)
    (hvector : hi ≤ start + 8 ∨ start + 8 * (argv.length + 2) ≤ lo)
    (hstr : hi ≤ strings ∨ top - total envp ≤ lo) :
    AgreeOn lo hi m₁.bytes m₂.bytes := by
  obtain ⟨htop, hstrings, hafter, hstart, hle⟩ := hptr
  unfold defaultThreadStackSize at htop hbase
  exact (storeWord_agree (by omega) hhi (by omega)).trans
    (hw.agree lo hi hhi (by omega) (by omega))

/-- The words above the stack pointer. -/
theorem prepared_words (hn : (auxEntries binary subBinary stackCookie).length = n)
    (hptr : Room base n argv envp top strings after start)
    (hbase : base + defaultThreadStackSize < 2 ^ 64)
    (hw₁ : Written (start + 8 * (argv.length + 2)) 0 top envp
      (storeWord (start + 8 * (argv.length + envp.length + 2)) 0 m) m₁)
    (hw₂ : Written (start + 8) 0 (top - total envp) argv
      (storeWord (start + 8 * (argv.length + 1)) 0 m₁) m₂) :
    WordsAt (writeProcessAuxVectors binary subBinary stackCookie strings false
        (storeWord start argv.length m₂)).2.bytes start
      (argv.length :: (pointers (top - total envp) argv ++ 0 :: (pointers top envp ++ 0 ::
        (auxVector binary subBinary stackCookie).flatMap fun e => [e.1, e.2]))) := by
  have hlast := last_agree m₂ hn hptr hbase
  have hargs := args_agree hptr hbase hw₂
  obtain ⟨htop, hstrings, hafter, hstart, hle⟩ := hptr
  unfold defaultThreadStackSize at htop hbase
  obtain ⟨hagree, haux, -⟩ := aux_written (m := storeWord start argv.length m₂) hn hafter (by omega)
  refine WordsAt.cons ?_ (WordsAt.append ?_ (WordsAt.cons ?_ (WordsAt.append ?_
    (WordsAt.cons ?_ ?_))))
  · rw [readWord_of_agree (by omega) (hagree _ _ (by omega) (by omega)), readWord_storeWord]
    exact Nat.mod_eq_of_lt (by omega)
  · apply hw₂.pointersAt.of_agree
    · rw [pointers_length]
      omega
    · rw [pointers_length]
      exact hlast _ _ (by omega) (by omega) (by omega)
  · rw [pointers_length, show start + 8 + 8 * argv.length = start + 8 * (argv.length + 1) by omega,
      readWord_of_agree (by omega) (hlast _ _ (by omega) (by omega) (by omega)),
      readWord_of_agree (by omega) (hw₂.agree _ _ (by omega) (by omega) (by omega)),
      readWord_storeWord, Nat.zero_mod]
  · rw [pointers_length, show start + 8 + 8 * argv.length + 8 = start + 8 * (argv.length + 2) by
      omega]
    apply hw₁.pointersAt.of_agree
    · rw [pointers_length]
      omega
    · rw [pointers_length]
      exact (hargs _ _ (by omega) (by omega) (by omega)).trans
        (hlast _ _ (by omega) (by omega) (by omega))
  · rw [pointers_length, pointers_length, show start + 8 + 8 * argv.length + 8 + 8 * envp.length =
        start + 8 * (argv.length + envp.length + 2) by omega,
      readWord_of_agree (by omega) (hlast _ _ (by omega) (by omega) (by omega)),
      readWord_of_agree (by omega) (hargs _ _ (by omega) (by omega) (by omega)),
      readWord_of_agree (by omega) (hw₁.agree _ _ (by omega) (by omega) (by omega)),
      readWord_storeWord, Nat.zero_mod]
  · rw [pointers_length, pointers_length, auxVector_words,
      show start + 8 + 8 * argv.length + 8 + 8 * envp.length + 8 = after by omega]
    exact haux

/-- The strings of the arguments and those of the environment. -/
theorem prepared_strings (hn : (auxEntries binary subBinary stackCookie).length = n)
    (hptr : Room base n argv envp top strings after start)
    (hbase : base + defaultThreadStackSize < 2 ^ 64)
    (hw₁ : Written (start + 8 * (argv.length + 2)) 0 top envp
      (storeWord (start + 8 * (argv.length + envp.length + 2)) 0 m) m₁)
    (hw₂ : Written (start + 8) 0 (top - total envp) argv
      (storeWord (start + 8 * (argv.length + 1)) 0 m₁) m₂) :
    List.Forall₂ (StringAt (writeProcessAuxVectors binary subBinary stackCookie strings false
        (storeWord start argv.length m₂)).2.bytes) (pointers (top - total envp) argv)
        (argv.map narrow) ∧
      List.Forall₂ (StringAt (writeProcessAuxVectors binary subBinary stackCookie strings false
        (storeWord start argv.length m₂)).2.bytes) (pointers top envp) (envp.map narrow) := by
  have hlast := last_agree m₂ hn hptr hbase
  have hargs := args_agree hptr hbase hw₂
  obtain ⟨htop, hstrings, hafter, hstart, hle⟩ := hptr
  unfold defaultThreadStackSize at htop hbase
  constructor
  · apply forall₂_of_agree (by omega) hw₂.stringsAt
    exact hlast _ _ (by omega) (by omega) (by omega)
  · apply forall₂_of_agree (by omega) hw₁.stringsAt
    exact (hargs _ _ (by omega) (by omega) (by omega)).trans
      (hlast _ _ (by omega) (by omega) (by omega))

/-- The ranges lie one above the other, the strings from the end of the stack down. -/
theorem prepared_ranges (hn : (auxEntries binary subBinary stackCookie).length = n)
    (hptr : Room base n argv envp top strings after start) :
    (allRanges start (argv.map narrow) (envp.map narrow) (pointers (top - total envp) argv)
        (pointers top envp) (auxVector binary subBinary stackCookie)).Pairwise Separate ∧
      ∀ r ∈ allRanges start (argv.map narrow) (envp.map narrow) (pointers (top - total envp) argv)
        (pointers top envp) (auxVector binary subBinary stackCookie),
        Within base (base + defaultThreadStackSize) r := by
  obtain ⟨htop, hstrings, hafter, hstart, hle⟩ := hptr
  have hlen : (auxVector binary subBinary stackCookie).length = n := by
    rw [auxVector, List.length_map, List.length_reverse, hn]
  have htables : ∀ r ∈ tableRanges start argv.length envp.length n, Within start strings r := by
    unfold tableRanges Within
    simp only [List.forall_mem_cons, List.not_mem_nil, false_imp_iff, implies_true,
      and_true]
    omega
  have hargs := stringRanges_within (show total argv ≤ top - total envp by omega)
  have henvs := stringRanges_within (show total envp ≤ top by omega)
  unfold allRanges
  rw [List.length_map, List.length_map, hlen]
  constructor
  · rw [List.pairwise_append, List.pairwise_append]
    refine ⟨⟨?_, stringRanges_pairwise (by omega), ?_⟩, stringRanges_pairwise (by omega), ?_⟩
    · unfold tableRanges Separate
      simp only [List.pairwise_cons, List.forall_mem_cons, List.not_mem_nil, false_imp_iff,
        implies_true, List.Pairwise.nil, and_true]
      omega
    · intro r hr r' hr'
      exact separate_of_within (htables r hr) (hargs r' hr') (by omega)
    · intro r hr r' hr'
      rcases List.mem_append.mp hr with hr | hr
      · exact separate_of_within (htables r hr) (henvs r' hr') (by omega)
      · exact separate_of_within (hargs r hr) (henvs r' hr') (by omega)
  · intro r hr
    rw [List.mem_append, List.mem_append] at hr
    rcases hr with (hr | hr) | hr
    · exact (htables r hr).mono (by omega) (by omega)
    · exact (hargs r hr).mono (by omega) (by omega)
    · exact (henvs r hr).mono (by omega) (by omega)

/-- A stack that is large enough has the pointers. -/
theorem exists_pointers (base : ℕ) (hfit : stackBytes n argv envp ≤ defaultThreadStackSize) :
    ∃ top strings after start, Pointers base n argv envp top strings after start := by
  unfold stackBytes at hfit
  refine ⟨base + defaultThreadStackSize - 8,
    base + defaultThreadStackSize - 8 - roundUp (total envp + total argv) 16,
    base + defaultThreadStackSize - 8 - roundUp (total envp + total argv) 16 - 16 * n,
    base + defaultThreadStackSize - stackBytes n argv envp, ?_, ?_, ?_, ?_, ?_⟩
  · omega
  · omega
  · omega
  · unfold stackBytes
    omega
  · unfold stackBytes
    omega

/-- The stack of a new process decodes as the System V ABI lays it out, with the strings
as far as STACK_LEFT lets them be written. -/
theorem prepareStack_truncates (m : Memory) (hbase : base + defaultThreadStackSize < 2 ^ 64)
    (hargv : ∀ s ∈ argv, NoZero s) (henvp : ∀ s ∈ envp, NoZero s)
    (hn : (auxEntries binary subBinary stackCookie).length = n)
    (hfit : stackBytes n argv envp ≤ defaultThreadStackSize) :
    ∃ args envs, IsProcessStack
      (prepareStack base binary subBinary stackCookie argv envp m).memory.bytes base
      defaultThreadStackSize
      (prepareStack base binary subBinary stackCookie argv envp m).defaultThreadStackStart
      ((argv.map (List.take (argvLeft n argv envp))).map narrow)
      ((envp.map (List.take (envpLeft n argv envp))).map narrow) args envs
      (auxVector binary subBinary stackCookie) := by
  obtain ⟨top, strings, after, start, hptr⟩ := exists_pointers base hfit
  obtain ⟨hw₁, hw₂⟩ := afterStrings_written hptr hbase hargv henvp m
  have hroom := hptr.room (argvLeft n argv envp) (envpLeft n argv envp)
  rw [prepareStack_eq hn hptr hbase]
  obtain ⟨args, hargs⟩ : ∃ args, argv.map (List.take (argvLeft n argv envp)) = args := ⟨_, rfl⟩
  obtain ⟨envs, henvs⟩ : ∃ envs, envp.map (List.take (envpLeft n argv envp)) = envs := ⟨_, rfl⟩
  have hargc : argv.length = args.length := by rw [← hargs, List.length_map]
  have henvc : envp.length = envs.length := by rw [← henvs, List.length_map]
  rw [hargs, henvs] at hroom hw₂
  rw [henvs] at hw₁
  rw [hargs, henvs]
  rw [hargc, henvc] at hw₁
  rw [hargc] at hw₂ ⊢
  obtain ⟨hargStrings, henvStrings⟩ := prepared_strings hn hroom hbase hw₁ hw₂
  obtain ⟨hseparate, hinside⟩ := prepared_ranges hn hroom
  refine ⟨pointers (top - total envs) args, pointers top envs, ?_⟩
  refine ⟨?_, hargStrings, henvStrings, ?_, auxVector_lastNull, hseparate, hinside⟩
  · rw [List.length_map]
    exact prepared_words hn hroom hbase hw₁ hw₂
  · obtain ⟨htop, hstrings, hafter, hstart, hle⟩ := hroom
    intro p hp
    rcases List.mem_append.mp hp with hp | hp
    · have := pointers_ge (by omega) p hp
      omega
    · have := pointers_ge (by omega) p hp
      omega

theorem map_take_eq_self {limit : ℕ} {strings : List (List ℕ)}
    (h : ∀ s ∈ strings, s.length ≤ limit) : strings.map (List.take limit) = strings := by
  rw [List.map_congr_left fun s hs => List.take_of_length_le (h s hs), List.map_id']

/-- The stack of a new process decodes as the System V ABI lays it out, whatever the
memory held before. -/
theorem prepareStack_isProcessStack (hbase : base + defaultThreadStackSize < 2 ^ 64)
    (hargv : ∀ s ∈ argv, Narrowable s) (henvp : ∀ s ∈ envp, Narrowable s)
    (hsize : characters argv + characters envp ≤ 64 * 1024)
    (hfit : stackBytes (auxEntries binary subBinary stackCookie).length argv envp ≤
      defaultThreadStackSize) :
    ∃ args envs, IsProcessStack
      (prepareStack base binary subBinary stackCookie argv envp m).memory.bytes base
      defaultThreadStackSize
      (prepareStack base binary subBinary stackCookie argv envp m).defaultThreadStackStart
      (argv.map narrow) (envp.map narrow) args envs
      (auxVector binary subBinary stackCookie) := by
  have hdecodes := prepareStack_truncates m hbase
    (fun s hs => (hargv s hs).noZero) (fun s hs => (henvp s hs).noZero) rfl hfit
  unfold defaultThreadStackSize at hfit
  rw [map_take_eq_self, map_take_eq_self] at hdecodes
  · exact hdecodes
  · intro s hs
    have := length_le_characters hs
    unfold stackBytes at hfit
    unfold envpLeft
    omega
  · intro s hs
    have := length_le_characters hs
    unfold argvLeft
    omega

end Prepare

/-- A binary without anything in it. -/
def emptyBinary : ElfBinary :=
  { name := []
    baseAddress := 0x40000000
    allocatedSize := 0x4000000
    textSection := 0x40000000
    entry := 0x40000100
    refCount := 1
    tlsData := 0
    tlsDataSize := 0
    tbssSize := 0
    tlsAlign := 0
    programHeaders := 0x40000040
    programHeaderCount := 0
    programHeaderEntrySize := 56
    programBreakLow := 0x40000000
    programBreakHigh := 0x44000000 }

/-- Two arguments and one string of the environment. -/
theorem prepareStack_isProcessStack_two :
    ∃ args envs, IsProcessStack
      (prepareStack 0x50000000 emptyBinary none 0x60000028 [[97], [98, 99]] [[65, 61]]
        ⟨fun _ => 0xFF, []⟩).memory.bytes 0x50000000 defaultThreadStackSize
      (prepareStack 0x50000000 emptyBinary none 0x60000028 [[97], [98, 99]] [[65, 61]]
        ⟨fun _ => 0xFF, []⟩).defaultThreadStackStart
      [[97], [98, 99]] [[65, 61]] args envs (auxVector emptyBinary none 0x60000028) :=
  prepareStack_isProcessStack (by decide) (by simp [Narrowable]) (by simp [Narrowable])
    (by decide) (by decide)

end Enkel.ProcessStack
