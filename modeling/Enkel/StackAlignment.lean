import Enkel.StackDecoding

/-!
The alignment of the initial stack pointer. The strings are padded to 16 bytes and
the auxiliary entries have 16 bytes, but the vectors of pointers have any number of
words, so the stack pointer is a multiple of 16 exactly if the number of arguments
and that of environment strings are both even or both odd.
-/
namespace Enkel.ProcessStack

open ByteMemory Elf ThreadLocal

section Alignment
variable {base : ℕ} {binary : ElfBinary} {subBinary : Option ElfBinary} {stackCookie : ℕ}
  {argv envp : List (List ℕ)} {m : Memory}

theorem sub64_mod {a b : ℕ} (h : b ≤ 2 ^ 64) : sub64 a b % 16 = (a + (16 - b % 16)) % 16 := by
  unfold sub64
  omega

theorem stringBlockBytes_mod : stringBlockBytes argv envp m % 16 = 0 := by
  have hspan := Words.and_span (add64 (measure (stackLeft 1) m argv (measure (stackLeft 1) m envp 0))
    15) (show 4 ≤ 64 by omega)
  have hblock : stringBlockBytes argv envp m = _ := hspan
  omega

theorem stringBlockBytes_lt : stringBlockBytes argv envp m < 2 ^ 64 := alignSize_lt_two_pow

/-- Every auxiliary entry takes 16 bytes. -/
theorem foldl_writeAuxEntry_mod {entries : List (AuxType × ℕ)} {p : ℕ} :
    (entries.foldl (writeAuxEntry true) (p, m)).1 % 16 = p % 16 := by
  induction entries generalizing p with
  | nil => rfl
  | cons e entries ih =>
    have hturn : writeAuxEntry true (p, m) e = (sub64 p 16, m) := rfl
    rw [List.foldl_cons, hturn, ih, sub64_mod (by omega)]
    omega

/-- The initial stack pointer is a multiple of 16 exactly if the number of strings is
even. -/
theorem prepareStack_aligned_iff (hbase : Aligned base)
    (hvectors : 8 * (argv.length + envp.length + 3) ≤ defaultThreadStackSize) :
    (prepareStack base binary subBinary stackCookie argv envp m).defaultThreadStackStart % 16 = 0 ↔
      (argv.length + envp.length) % 2 = 0 := by
  unfold Aligned at hbase
  unfold defaultThreadStackSize at hvectors
  have htop : add64 base (128 * 1024) % 16 = 0 := by
    unfold add64
    omega
  obtain ⟨p, hp⟩ : ∃ p, sub64 (add64 base (128 * 1024)) 8 = p := ⟨_, rfl⟩
  have hmarker : p % 16 = 8 := by
    rw [← hp, sub64_mod (by omega)]
    omega
  have hstrings : ∀ m, sub64 p (stringBlockBytes argv envp m) % 16 = 8 := by
    intro m
    rw [sub64_mod stringBlockBytes_lt.le, stringBlockBytes_mod]
    omega
  have hafter : ∀ m m', ((auxEntries binary subBinary stackCookie).foldl (writeAuxEntry true)
      (sub64 p (stringBlockBytes argv envp m), m')).1 % 16 = 8 := by
    intro m m'
    rw [foldl_writeAuxEntry_mod, hstrings]
  unfold prepareStack writeProcessAuxVectors defaultThreadStackSize
  dsimp only
  rw [hp, sub64_mod (by omega), Nat.add_mod, sub64_mod (by omega)]
  have := hafter (storeWord p 0 m) (storeWord (sub64 p (stringBlockBytes argv envp
    (storeWord p 0 m))) 0 (storeWord p 0 m))
  omega

end Alignment

/-- One argument and one string of the environment. -/
theorem prepareStack_aligned_two :
    (prepareStack 0x50000000 emptyBinary none 0x60000028 [[97]] [[65, 61]]
      ⟨fun _ => 0, []⟩).defaultThreadStackStart % 16 = 0 :=
  (prepareStack_aligned_iff (by decide) (by decide)).mpr (by decide)

/-- One argument and no environment: the stack pointer is 8 above a multiple of 16. -/
theorem prepareStack_misaligned :
    Aligned 0x50000000 ∧ stackBytes (auxEntries emptyBinary none 0x60000028).length [[97]] [] ≤
      defaultThreadStackSize ∧
    (prepareStack 0x50000000 emptyBinary none 0x60000028 [[97]] []
      ⟨fun _ => 0, []⟩).defaultThreadStackStart % 16 = 8 := by
  refine ⟨by decide, by decide, by decide⟩

end Enkel.ProcessStack
