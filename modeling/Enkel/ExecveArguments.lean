import Enkel.ExecveStrings

/-!
The arguments on their way into a process. sys_execve fills its two blocks and writes
nothing else, the vectors in them are those that CreateProcess reads, and narrowing
undoes widening. The strings arrive unless CreateProcess cuts them off.
-/
namespace Enkel.Execve

open ByteMemory Elf ThreadLocal ProcessStack

/-- Strings of bytes before their zero. -/
structure IsStrings (strings : List (List UInt8)) : Prop where
  ne_zero : ∀ s ∈ strings, ∀ c ∈ s, c ≠ 0
  length_lt : ∀ s ∈ strings, s.length < 2 ^ 30

theorem IsStrings.le_maxLength {strings : List (List UInt8)} (h : IsStrings strings) :
    ∀ s ∈ strings, (s.length : ℤ) ≤ maxLength := by
  intro s hs
  have := h.length_lt s hs
  unfold maxLength
  omega

section Blocks
variable {filename : List UInt8} {argv envp : List (List UInt8)}
  {memoryBlockPointers memoryBlockStrings : ℕ} {m : Memory}

/-- The two blocks of rpmalloc, of the sizes that were asked for. -/
structure Blocks (filename : List UInt8) (argv envp : List (List UInt8))
    (memoryBlockPointers memoryBlockStrings : ℕ) (m : Memory) : Prop where
  pointers_end : memoryBlockPointers + pointerBlockSize argv envp < 2 ^ 64
  strings_end : memoryBlockStrings + stringBlockSize filename argv envp m < 2 ^ 64
  strings_pos : 0 < memoryBlockStrings
  separate : Separate (memoryBlockPointers, pointerBlockSize argv envp)
    (memoryBlockStrings, stringBlockSize filename argv envp m)

/-- A write inside of one of the two blocks. -/
def InBlocks (filename : List UInt8) (argv envp : List (List UInt8))
    (memoryBlockPointers memoryBlockStrings : ℕ) (m : Memory) (w : ℕ × ℕ) : Prop :=
  Within memoryBlockPointers (memoryBlockPointers + pointerBlockSize argv envp) w ∨
    Within memoryBlockStrings (memoryBlockStrings + stringBlockSize filename argv envp m) w

theorem skipDot_length_le (filename : List UInt8) :
    (skipDot filename).length ≤ filename.length := by
  unfold skipDot
  split
  · exact Nat.le_succ _
  · exact le_rfl

theorem skipDot_subset {c : UInt8} (h : c ∈ skipDot filename) : c ∈ filename := by
  unfold skipDot at h
  split at h
  · exact List.mem_cons_of_mem _ h
  · exact h

theorem stringBlockSize_eq (hname : filename.length < 2 ^ 30) (hargv : IsStrings argv)
    (henvp : IsStrings envp) (hcount : argv.length + envp.length < 2 ^ 31) :
    stringBlockSize filename argv envp m =
      2 * ((skipDot filename).length + 1 + total (envp.map wide) + total (argv.map wide)) := by
  have hskip := skipDot_length_le filename
  have hargs := total_wide_le hargv.length_lt
  have henvs := total_wide_le henvp.length_lt
  have hlength : (asciiToWide none (skipDot filename) maxLength m).1 =
      (skipDot filename).length := by
    have hloop := wideLoop_none 0 m
      (show ((0 : ℕ) + (skipDot filename).length : ℤ) ≤ maxLength by unfold maxLength; omega)
    rw [Nat.zero_add] at hloop
    exact congrArg Prod.fst hloop
  unfold stringBlockSize
  rw [hlength, add64_of_lt (by omega), Nat.zero_add]
  dsimp only
  rw [measureWide_eq henvp.le_maxLength (by omega), measureWide_eq hargv.le_maxLength (by omega)]
  omega

/-- The ends of the two blocks, and that they do not meet. -/
theorem Blocks.bounds (hlength : filename.length < 2 ^ 30) (hargv : IsStrings argv)
    (henvp : IsStrings envp) (hcount : argv.length + envp.length < 2 ^ 31)
    (h : Blocks filename argv envp memoryBlockPointers memoryBlockStrings m) :
    memoryBlockPointers + 8 * (envp.length + argv.length + 2) < 2 ^ 64 ∧
      memoryBlockStrings + 2 * ((skipDot filename).length + 1 + total (envp.map wide) +
        total (argv.map wide)) < 2 ^ 64 ∧
      (memoryBlockPointers + 8 * (envp.length + argv.length + 2) ≤ memoryBlockStrings ∨
        memoryBlockStrings + 2 * ((skipDot filename).length + 1 + total (envp.map wide) +
          total (argv.map wide)) ≤ memoryBlockPointers) := by
  obtain ⟨hpointersEnd, hstringsEnd, -, hseparate⟩ := h
  unfold Separate at hseparate
  rw [stringBlockSize_eq hlength hargv henvp hcount] at hstringsEnd hseparate
  unfold pointerBlockSize at hpointersEnd hseparate
  dsimp only at hseparate
  omega

/-- What sys_execve leaves in its two blocks: the file name, the strings of the
environment and those of the arguments, and the two vectors in this order. -/
structure Filled (filename : List UInt8) (argv envp : List (List UInt8))
    (memoryBlockPointers memoryBlockStrings : ℕ) (m : Memory) (r : Call) : Prop where
  argv_eq : r.argv = memoryBlockPointers + 8 * (envp.length + 1)
  envp_eq : r.envp = memoryBlockPointers
  changes : Changes (InBlocks filename argv envp memoryBlockPointers memoryBlockStrings m) m
    r.memory
  env : VectorFilled r.memory.bytes memoryBlockPointers
    (memoryBlockStrings + 2 * ((skipDot filename).length + 1)) envp
  arg : VectorFilled r.memory.bytes (memoryBlockPointers + 8 * (envp.length + 1))
    (memoryBlockStrings + 2 * ((skipDot filename).length + 1 + total (envp.map wide))) argv

theorem sysExecve_filled (hname : ∀ c ∈ filename, c ≠ 0) (hlength : filename.length < 2 ^ 30)
    (hargv : IsStrings argv) (henvp : IsStrings envp)
    (hcount : argv.length + envp.length < 2 ^ 31)
    (hblocks : Blocks filename argv envp memoryBlockPointers memoryBlockStrings m) :
    Filled filename argv envp memoryBlockPointers memoryBlockStrings m
      (sysExecve filename argv envp memoryBlockPointers memoryBlockStrings m) := by
  obtain ⟨hpointersEnd, hstringsEnd, hsep⟩ := hblocks.bounds hlength hargv henvp hcount
  have hsize := stringBlockSize_eq (m := m) hlength hargv henvp hcount
  have hskip := skipDot_length_le filename
  obtain ⟨hnext, hnameChanges, -⟩ := writeWideString_written (p := memoryBlockStrings) (m := m)
    (fun c hc => hname c (skipDot_subset hc)) (by unfold maxLength; omega)
    (show memoryBlockStrings + 2 * ((skipDot filename).length + 1) < 2 ^ 64 by omega)
  obtain ⟨name, hnameEq⟩ : ∃ name,
      writeWideString memoryBlockStrings (skipDot filename) m = name := ⟨_, rfl⟩
  rw [hnameEq] at hnext hnameChanges
  obtain ⟨m₁, henvEq, henvChanges, henv⟩ := writeVector_filled memoryBlockPointers
    (memoryBlockStrings + 2 * ((skipDot filename).length + 1)) name.2 henvp.ne_zero
    henvp.le_maxLength (by omega) (by omega) (by omega)
  obtain ⟨m₂, hargEq, hargChanges, harg⟩ := writeVector_filled
    (memoryBlockPointers + 8 * (envp.length + 1))
    (memoryBlockStrings + 2 * ((skipDot filename).length + 1 + total (envp.map wide))) m₁
    hargv.ne_zero hargv.le_maxLength (by omega) (by omega) (by omega)
  have hcall : sysExecve filename argv envp memoryBlockPointers memoryBlockStrings m =
      { programName := memoryBlockStrings
        argv := memoryBlockPointers + 8 * (envp.length + 1)
        envp := memoryBlockPointers
        memory := m₂ } := by
    have hslot : add64 (memoryBlockPointers + 8 * envp.length) 8 =
        memoryBlockPointers + 8 * (envp.length + 1) := by
      rw [add64_of_lt (by omega)]
      omega
    have hptr : memoryBlockStrings + 2 * ((skipDot filename).length + 1) +
        2 * total (envp.map wide) = memoryBlockStrings +
          2 * ((skipDot filename).length + 1 + total (envp.map wide)) := by omega
    unfold sysExecve
    rw [hnameEq]
    dsimp only
    rw [hnext, henvEq]
    dsimp only
    rw [hslot, hptr, hargEq]
  rw [hcall]
  refine ⟨rfl, rfl, ?_, ?_, harg⟩
  · unfold InBlocks pointerBlockSize
    rw [hsize]
    refine ((hnameChanges.mono fun w hw => ?_).trans (henvChanges.mono fun w hw => ?_)).trans
      (hargChanges.mono fun w hw => ?_)
    · exact Or.inr (hw.mono le_rfl (by omega))
    · exact hw.imp (fun hw => hw.mono (by omega) (by omega))
        fun hw => hw.mono (by omega) (by omega)
    · exact hw.imp (fun hw => hw.mono (by omega) (by omega))
        fun hw => hw.mono (by omega) (by omega)
  · -- the arguments go behind the environment in both blocks
    have hbeside : ∀ lo hi, hi ≤ 2 ^ 64 →
        hi ≤ memoryBlockPointers + 8 * (envp.length + 1) ∨
          memoryBlockPointers + 8 * (envp.length + argv.length + 2) ≤ lo →
        hi ≤ memoryBlockStrings +
            2 * ((skipDot filename).length + 1 + total (envp.map wide)) ∨
          memoryBlockStrings + 2 * ((skipDot filename).length + 1 + total (envp.map wide) +
            total (argv.map wide)) ≤ lo →
        AgreeOn lo hi m₁.bytes m₂.bytes := by
      intro lo hi hhi hslot hstr
      exact hargChanges.agreeOn_two hhi (by omega) (by omega) (by omega) (by omega)
    apply henv.of_agree (by omega) (by omega)
    · exact hbeside _ _ (by omega) (by omega) (by omega)
    · exact hbeside _ _ (by omega) (by omega) (by omega)

/-- A vector of pointers, up to the null pointer, to strings. -/
def VectorAt (b : ℕ → UInt8) (address : ℕ) (strings : List (List ℕ)) : Prop :=
  ∃ pointers, TerminatedAt 8 b address pointers ∧ List.Forall₂ (TerminatedAt 2 b) pointers strings

theorem VectorAt.unique {b : ℕ → UInt8} {address : ℕ} {strings strings' : List (List ℕ)}
    (h : VectorAt b address strings) (h' : VectorAt b address strings') :
    strings = strings' := by
  obtain ⟨pointers, hpointers, hstrings⟩ := h
  obtain ⟨pointers', hpointers', hstrings'⟩ := h'
  obtain rfl := hpointers.unique hpointers'
  exact Relator.RightUnique.forall₂ (fun _ _ _ hs ht => hs.unique ht) hstrings hstrings'

theorem VectorFilled.vectorAt {b : ℕ → UInt8} {current p : ℕ} {strings : List (List UInt8)}
    (h : VectorFilled b current p strings) (hp : 0 < p) :
    VectorAt b current (strings.map wide) := by
  refine ⟨widePointers p strings, ⟨fun i hi => ⟨h.words.left i hi, ?_⟩, ?_⟩, h.stringsAt⟩
  · have := widePointers_ge p strings _ (List.getElem_mem hi)
    omega
  · exact h.words.right 0 (Nat.succ_pos 0)

/-- CreateProcess finds the widened strings in the blocks of sys_execve. -/
theorem sysExecve_vectors {b : ℕ → UInt8} (hname : ∀ c ∈ filename, c ≠ 0)
    (hlength : filename.length < 2 ^ 30) (hargv : IsStrings argv) (henvp : IsStrings envp)
    (hcount : argv.length + envp.length < 2 ^ 31)
    (hblocks : Blocks filename argv envp memoryBlockPointers memoryBlockStrings m)
    (hpointers : AgreeOn memoryBlockPointers
      (memoryBlockPointers + pointerBlockSize argv envp)
      (sysExecve filename argv envp memoryBlockPointers memoryBlockStrings m).memory.bytes b)
    (hstrings : AgreeOn memoryBlockStrings
      (memoryBlockStrings + stringBlockSize filename argv envp m)
      (sysExecve filename argv envp memoryBlockPointers memoryBlockStrings m).memory.bytes b) :
    VectorAt b (sysExecve filename argv envp memoryBlockPointers memoryBlockStrings m).argv
        (argv.map wide) ∧
      VectorAt b (sysExecve filename argv envp memoryBlockPointers memoryBlockStrings m).envp
        (envp.map wide) := by
  obtain ⟨hargvEq, henvpEq, -, henv, harg⟩ :=
    sysExecve_filled hname hlength hargv henvp hcount hblocks
  obtain ⟨hpointersEnd, hstringsEnd, -⟩ := hblocks.bounds hlength hargv henvp hcount
  rw [stringBlockSize_eq hlength hargv henvp hcount] at hstrings
  unfold pointerBlockSize at hpointers
  rw [hargvEq, henvpEq]
  constructor
  · refine (harg.of_agree (by omega) (by omega) ?_ ?_).vectorAt (by omega)
    · exact hpointers.mono (by omega) (by omega)
    · exact hstrings.mono (by omega) (by omega)
  · refine (henv.of_agree (by omega) (by omega) ?_ ?_).vectorAt (by omega)
    · exact hpointers.mono (by omega) (by omega)
    · exact hstrings.mono (by omega) (by omega)

end Blocks

section Claim
variable {base : ℕ} {binary : ElfBinary} {subBinary : Option ElfBinary} {stackCookie : ℕ}
  {filename : List UInt8} {argv envp : List (List UInt8)}
  {memoryBlockPointers memoryBlockStrings : ℕ} {m : Memory} {b : ℕ → UInt8}

/-- The process of a call gets its strings. CreateProcess reads the vectors of the call in its
own memory, and the stack that it builds from them holds the strings that were given. -/
def Delivers (base : ℕ) (binary : ElfBinary) (subBinary : Option ElfBinary) (stackCookie : ℕ)
    (argv envp : List (List UInt8)) (r : Call) (b : ℕ → UInt8) : Prop :=
  ∃ wideArg wideEnv args envs, VectorAt b r.argv wideArg ∧ VectorAt b r.envp wideEnv ∧
    IsProcessStack
      (prepareStack base binary subBinary stackCookie wideArg wideEnv ⟨b, []⟩).memory.bytes base
      defaultThreadStackSize
      (prepareStack base binary subBinary stackCookie wideArg wideEnv
        ⟨b, []⟩).defaultThreadStackStart
      argv envp args envs (auxVector binary subBinary stackCookie)

/-- sys_execve writes inside of its two blocks only, and the process gets its strings. -/
structure PassesStrings (base : ℕ) (binary : ElfBinary) (subBinary : Option ElfBinary)
    (stackCookie : ℕ) (filename : List UInt8) (argv envp : List (List UInt8))
    (memoryBlockPointers memoryBlockStrings : ℕ) (m : Memory) (b : ℕ → UInt8) : Prop where
  inside : Changes (InBlocks filename argv envp memoryBlockPointers memoryBlockStrings m) m
    (sysExecve filename argv envp memoryBlockPointers memoryBlockStrings m).memory
  delivers : Delivers base binary subBinary stackCookie argv envp
    (sysExecve filename argv envp memoryBlockPointers memoryBlockStrings m) b

/-- The strings that arrive are not cut off. -/
theorem Delivers.leftRoom {r : Call} (hbase : base + defaultThreadStackSize ≤ 2 ^ 48)
    (hcount : argv.length + envp.length < 2 ^ 31)
    (hargv : VectorAt b r.argv (argv.map wide)) (henvp : VectorAt b r.envp (envp.map wide))
    (h : Delivers base binary subBinary stackCookie argv envp r b) :
    LeftRoom (auxEntries binary subBinary stackCookie).length (argv.map wide)
      (envp.map wide) := by
  obtain ⟨wideArg, wideEnv, args, envs, hwideArg, hwideEnv, hstack⟩ := h
  have hargEq := hwideArg.unique hargv
  have henvEq := hwideEnv.unique henvp
  have hargs : wideArg.map narrow = argv := by rw [hargEq, map_narrow_wide]
  have henvs : wideEnv.map narrow = envp := by rw [henvEq, map_narrow_wide]
  have hcount' : wideArg.length + wideEnv.length < 2 ^ 31 := by
    rwa [hargEq, henvEq, List.length_map, List.length_map]
  have hfit := fits_of_start_inside hbase hcount'
    (inside_of_within (hbase.trans (by decide)) hstack.start_within)
  rw [← hargs, ← henvs] at hstack
  rw [← hargEq, ← henvEq]
  exact hstack.leftRoom (hbase.trans_lt (by decide)) hfit

theorem delivers_of_leftRoom {r : Call} (hbase : base + defaultThreadStackSize ≤ 2 ^ 48)
    (hargv : VectorAt b r.argv (argv.map wide)) (henvp : VectorAt b r.envp (envp.map wide))
    (h : LeftRoom (auxEntries binary subBinary stackCookie).length (argv.map wide)
      (envp.map wide)) :
    Delivers base binary subBinary stackCookie argv envp r b := by
  obtain ⟨args, envs, hstack⟩ := h.complete (b := b) (hbase.trans_lt (by decide))
  rw [map_narrow_wide, map_narrow_wide] at hstack
  exact ⟨_, _, args, envs, hargv, henvp, hstack⟩

/-- The strings given to sys_execve arrive in the process, byte for byte, exactly if they fit in
its stack and none is longer than what STACK_LEFT allows when it is written. -/
theorem passesStrings_iff (hbase : base + defaultThreadStackSize ≤ 2 ^ 48)
    (hname : ∀ c ∈ filename, c ≠ 0) (hlength : filename.length < 2 ^ 30)
    (hargv : IsStrings argv) (henvp : IsStrings envp)
    (hcount : argv.length + envp.length < 2 ^ 31)
    (hblocks : Blocks filename argv envp memoryBlockPointers memoryBlockStrings m)
    (hpointers : AgreeOn memoryBlockPointers
      (memoryBlockPointers + pointerBlockSize argv envp)
      (sysExecve filename argv envp memoryBlockPointers memoryBlockStrings m).memory.bytes b)
    (hstrings : AgreeOn memoryBlockStrings
      (memoryBlockStrings + stringBlockSize filename argv envp m)
      (sysExecve filename argv envp memoryBlockPointers memoryBlockStrings m).memory.bytes b) :
    PassesStrings base binary subBinary stackCookie filename argv envp memoryBlockPointers
        memoryBlockStrings m b ↔
      LeftRoom (auxEntries binary subBinary stackCookie).length (argv.map wide)
        (envp.map wide) := by
  obtain ⟨harg, henv⟩ :=
    sysExecve_vectors hname hlength hargv henvp hcount hblocks hpointers hstrings
  constructor
  · intro h
    exact h.delivers.leftRoom hbase hcount harg henv
  · intro h
    refine ⟨(sysExecve_filled hname hlength hargv henvp hcount hblocks).changes, ?_⟩
    exact delivers_of_leftRoom hbase harg henv h

end Claim

/-- A file name with a dot in front, two arguments and one string of the environment. -/
theorem passesStrings_iff_two :
    PassesStrings 0x50000000 emptyBinary none 0x60000028 [0x2E, 0x2F, 0x61] [[0xC3], [98, 99]]
        [[65, 61]] 0x10000 0x20000 ⟨fun _ => 0xFF, []⟩
        (sysExecve [0x2E, 0x2F, 0x61] [[0xC3], [98, 99]] [[65, 61]] 0x10000 0x20000
          ⟨fun _ => 0xFF, []⟩).memory.bytes ↔
      LeftRoom (auxEntries emptyBinary none 0x60000028).length
        ([[0xC3], [98, 99]].map wide) ([[65, 61]].map wide) :=
  passesStrings_iff (by decide) (by simp) (by decide) ⟨by simp, by decide⟩
    ⟨by simp, by decide⟩ (by decide) ⟨by decide, by decide, by decide, Or.inl (by decide)⟩
    (AgreeOn.refl _ _ _) (AgreeOn.refl _ _ _)

/-- One argument of 120000 characters fits in the stack, and it does not arrive. -/
theorem long_argument_lost :
    stackBytes (auxEntries emptyBinary none 0x60000028).length
        ([List.replicate 120000 97].map wide) [] ≤ defaultThreadStackSize ∧
    ¬PassesStrings 0x50000000 emptyBinary none 0x60000028 [0x2F] [List.replicate 120000 97] []
      0x10000 0x20000 ⟨fun _ => 0xFF, []⟩
      (sysExecve [0x2F] [List.replicate 120000 97] [] 0x10000 0x20000
        ⟨fun _ => 0xFF, []⟩).memory.bytes := by
  have htotal : total ([List.replicate 120000 97].map wide) = 120001 := by
    rw [total_wide_cons, List.length_replicate]
    rfl
  have hbytes : stackBytes (auxEntries emptyBinary none 0x60000028).length
      ([List.replicate 120000 97].map wide) [] = 120200 := by
    have haux : (auxEntries emptyBinary none 0x60000028).length = 9 := rfl
    rw [haux, stackBytes, htotal]
    rfl
  have hargv : IsStrings [List.replicate 120000 (97 : UInt8)] := by
    refine ⟨fun s hs c hc => ?_, fun s hs => ?_⟩
    · rw [List.mem_singleton.mp hs] at hc
      rw [List.eq_of_mem_replicate hc]
      decide
    · rw [List.mem_singleton.mp hs, List.length_replicate]
      decide
  have hsize : stringBlockSize [0x2F] [List.replicate 120000 97] [] ⟨fun _ => 0xFF, []⟩ =
      240006 := by
    rw [stringBlockSize_eq (by decide) hargv ⟨by simp, by decide⟩ (by decide), htotal]
    rfl
  have hblocks : Blocks [0x2F] [List.replicate 120000 97] [] 0x10000 0x20000
      ⟨fun _ => 0xFF, []⟩ := by
    refine ⟨by decide, ?_, by decide, ?_⟩
    · rw [hsize]
      decide
    · rw [hsize]
      exact Or.inl (by decide)
  obtain ⟨harg, henv⟩ := sysExecve_vectors (by simp) (by decide) hargv ⟨by simp, by decide⟩
    (by decide) hblocks (AgreeOn.refl _ _ _) (AgreeOn.refl _ _ _)
  refine ⟨?_, fun h => ?_⟩
  · rw [hbytes]
    decide
  · have hroom := h.delivers.leftRoom (by decide) (by decide) harg henv
    have hlength := hroom.argv_le _ List.mem_cons_self
    rw [wide_length, List.length_replicate, argvLeft] at hlength
    rw [List.map_nil, hbytes] at hlength
    omega

end Enkel.Execve
