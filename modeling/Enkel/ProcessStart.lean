import Enkel.StackWrites

/-!
The control block of the thread-local memory when the process starts. After
CreateTLS, CreateProcess fills as many bytes as the thread-local block has with a
pattern, but from the FS base on, which is the start of the control block. LoadFS
then reads the pattern instead of the FS base, unless the block has less than one
word.
-/
namespace Enkel.ProcessStack

open ByteMemory Elf ThreadLocal Rounding

/-- What CreateProcess has made when it schedules the process. The writes for the
thread-local memory and those for the stack are kept apart. -/
structure Created where
  tls : TlsAllocation
  tlsWrites : List (ℕ × ℕ)
  prepared : Prepared

/-- CreateProcess, once the binary is loaded. -/
def createProcess (defaultThreadStackBase : ℕ) (virtualAlloc : ℕ → ℕ) (binary : ElfBinary)
    (subBinary : Option ElfBinary) (argv envp : List (List ℕ)) (b : ℕ → UInt8) : Created :=
  let r := createTLS virtualAlloc binary.tlsDataSize binary.tbssSize binary.tlsData
    binary.tlsAlign ⟨b, []⟩
  let m := fillUnique r.1.fsBase 0x7150000000000000
    (add64 binary.tlsDataSize binary.tbssSize) r.2.2
  let stackCookie := add64 r.1.memory 40
  { tls := r.1
    tlsWrites := m.log
    prepared :=
      prepareStack defaultThreadStackBase binary subBinary stackCookie argv envp ⟨m.bytes, []⟩ }

/-- The FS base points to itself, and everything was written where it belongs. -/
structure Created.Intact (defaultThreadStackBase : ℕ) (c : Created) : Prop where
  self : readWord c.prepared.memory.bytes c.tls.fsBase 8 = c.tls.fsBase
  tlsInside : ∀ w ∈ c.tlsWrites, Inside c.tls.memory c.tls.size w
  stackInside : ∀ w ∈ c.prepared.memory.log,
    Inside defaultThreadStackBase defaultThreadStackSize w

section FillUnique
variable {address baseValue byteCount : ℕ} {m : Memory}

/-- Less than a word is not filled at all. -/
theorem fillUnique_of_lt (h : byteCount < 8) :
    fillUnique address baseValue byteCount m = ⟨m.bytes, m.log ++ [(address, 0)]⟩ := by
  unfold fillUnique
  rw [Nat.div_eq_of_lt h]
  rfl

/-- The first word of the pattern. -/
theorem readWord_fillUnique (h : 8 ≤ byteCount) (hcount : byteCount ≤ 2 ^ 64)
    (hvalue : baseValue < 2 ^ 64) :
    readWord (fillUnique address baseValue byteCount m).bytes address 8 = baseValue := by
  have hdigits : ∀ i < 8, (fillUnique address baseValue byteCount m).bytes
      ((address + i) % 2 ^ 64) = digit baseValue i := by
    intro i hi
    show writeBytes address _ _ m.bytes _ = _
    rw [writeBytes_eq (by omega) (Nat.mod_lt _ (Nat.two_pow_pos 64)), offset_add (by omega),
      if_pos (by omega), Nat.div_eq_of_lt hi, Nat.mod_eq_of_lt hi, add64_of_lt (by omega)]
    rfl
  rw [readWord_of_digits hdigits]
  exact Nat.mod_eq_of_lt (by omega)

end FillUnique

section Claim
variable {stackBase tls size : ℕ} {virtualAlloc : ℕ → ℕ} {binary : ElfBinary}
  {subBinary : Option ElfBinary} {argv envp : List (List ℕ)} {b : ℕ → UInt8}

/-- The sizes do not wrap around exactly if the sum of the rounded ones leaves room for
two pages. -/
theorem laid_iff_sizes {tdataSize tbssSize tlsAlign : ℕ} :
    (tlsSizes tdataSize tbssSize tlsAlign).Laid ↔
      alignSize tdataSize tlsAlign + alignSize tbssSize tlsAlign + 8192 ≤ 2 ^ 64 := by
  rw [(tlsSizes_computed rfl).laid_iff]
  have htdata : (tlsSizes tdataSize tbssSize tlsAlign).tdataSize = alignSize tdataSize tlsAlign :=
    rfl
  have htbss : (tlsSizes tdataSize tbssSize tlsAlign).tbssSize =
      if alignSize tbssSize tlsAlign = 0 ∧ alignSize tdataSize tlsAlign = 0 then 4096
      else alignSize tbssSize tlsAlign := rfl
  rw [htdata, htbss]
  split_ifs with hzero
  · omega
  · rfl

/-- What the stack does not reach stays as the thread-local memory left it. -/
theorem readWord_prepareStack {stackCookie address : ℕ}
    (hstack : ∀ w ∈ (prepareStack stackBase binary subBinary stackCookie argv envp
      ⟨b, []⟩).memory.log, Inside stackBase defaultThreadStackSize w)
    (hbase : stackBase + defaultThreadStackSize ≤ 2 ^ 48)
    (hcount : argv.length + envp.length < 2 ^ 31) (hend : address + 8 ≤ 2 ^ 64)
    (hsep : address + 8 ≤ stackBase ∨ stackBase + defaultThreadStackSize ≤ address) :
    readWord (prepareStack stackBase binary subBinary stackCookie argv envp
      ⟨b, []⟩).memory.bytes address 8 = readWord b address 8 := by
  have hfit := (prepareStack_inside_iff b hbase hcount).mp hstack
  have hbase' : stackBase + defaultThreadStackSize < 2 ^ 64 := by omega
  apply readWord_of_agree hend
  intro a hle hlt
  exact (prepareStack_changes hbase' hfit).outside (by omega) (by omega)

theorem auxEntries_length (stackCookie : ℕ) :
    (auxEntries binary subBinary stackCookie).length = (auxEntries binary subBinary 0).length := by
  unfold auxEntries
  cases subBinary <;> rfl

/-- The control block is intact when the process starts exactly if the thread-local
block has less than one word, its sizes do not wrap around and the strings and
vectors fit in the stack. -/
theorem createProcess_intact_iff
    (hsize : (tlsSizes binary.tlsDataSize binary.tbssSize binary.tlsAlign).tlsAllocationSize = size)
    (htls : virtualAlloc size = tls) (hblock : tls + size ≤ 2 ^ 48)
    (hbase : stackBase + defaultThreadStackSize ≤ 2 ^ 48)
    (hsep : tls + size ≤ stackBase ∨ stackBase + defaultThreadStackSize ≤ tls)
    (hcount : argv.length + envp.length < 2 ^ 31) :
    (createProcess stackBase virtualAlloc binary subBinary argv envp b).Intact stackBase ↔
      add64 binary.tlsDataSize binary.tbssSize < 8 ∧
      alignSize binary.tlsDataSize binary.tlsAlign + alignSize binary.tbssSize binary.tlsAlign +
        8192 ≤ 2 ^ 64 ∧
      stackBytes (auxEntries binary subBinary 0).length argv envp ≤ defaultThreadStackSize := by
  rw [← laid_iff_sizes]
  obtain ⟨z, hz⟩ : ∃ z, tlsSizes binary.tlsDataSize binary.tbssSize binary.tlsAlign = z := ⟨_, rfl⟩
  rw [hz] at hsize ⊢
  subst hsize
  have hinside := inside_iff_laid virtualAlloc binary.tlsData b hz (by rw [htls]; omega)
  rw [htls] at hinside
  have hself : z.Laid → readWord (createTLS virtualAlloc binary.tlsDataSize binary.tbssSize
      binary.tlsData binary.tlsAlign ⟨b, []⟩).2.2.bytes _ 8 = _ :=
    fun hlaid => createTLS_self b hz hlaid htls (by omega)
  have hbase_eq : (createTLS virtualAlloc binary.tlsDataSize binary.tbssSize binary.tlsData
      binary.tlsAlign ⟨b, []⟩).1 =
      { memory := tls
        size := z.tlsAllocationSize
        fsBase := add64 tls z.alignedSize } := by
    unfold createTLS
    rw [hz]
    dsimp only
    rw [htls]
  obtain ⟨r, hr⟩ : ∃ r, createTLS virtualAlloc binary.tlsDataSize binary.tbssSize binary.tlsData
    binary.tlsAlign ⟨b, []⟩ = r := ⟨_, rfl⟩
  rw [hr] at hinside hself hbase_eq
  have hcreated : createProcess stackBase virtualAlloc binary subBinary argv envp b =
      { tls := r.1
        tlsWrites := (fillUnique r.1.fsBase 0x7150000000000000
          (add64 binary.tlsDataSize binary.tbssSize) r.2.2).log
        prepared := prepareStack stackBase binary subBinary (add64 r.1.memory 40) argv envp
          ⟨(fillUnique r.1.fsBase 0x7150000000000000
            (add64 binary.tlsDataSize binary.tbssSize) r.2.2).bytes, []⟩ } := by
    unfold createProcess
    rw [hr]
  have hsum : add64 binary.tlsDataSize binary.tbssSize < 2 ^ 64 :=
    Nat.mod_lt _ (Nat.two_pow_pos 64)
  rw [hcreated]
  constructor
  · rintro ⟨hword, hwrites, hstack⟩
    dsimp only at hword hwrites hstack
    have hlaid : z.Laid := by
      apply hinside.mp
      intro w hw
      have hin := hwrites w (List.mem_append_left _ hw)
      rwa [hbase_eq] at hin
    have hfit := (prepareStack_inside_iff _ hbase hcount).mp hstack
    rw [auxEntries_length] at hfit
    refine ⟨?_, hlaid, hfit⟩
    by_contra hlarge
    -- the word at the FS base is the first one of the pattern
    have halloc := hlaid.size
    have hfs : r.1.fsBase = tls + z.alignedSize := by
      rw [hbase_eq]
      exact add64_of_lt (by omega)
    rw [readWord_prepareStack hstack hbase hcount (by omega) (by omega),
      readWord_fillUnique (by omega) hsum.le (by decide), hfs] at hword
    omega
  · rintro ⟨hsmall, hlaid, hfit⟩
    rw [← auxEntries_length (add64 r.1.memory 40)] at hfit
    have hstack := (prepareStack_inside_iff (fillUnique r.1.fsBase 0x7150000000000000
      (add64 binary.tlsDataSize binary.tbssSize) r.2.2).bytes hbase hcount).mpr hfit
    have halloc := hlaid.size
    have hfs : r.1.fsBase = tls + z.alignedSize := by
      rw [hbase_eq]
      exact add64_of_lt (by omega)
    constructor
    · dsimp only
      rw [readWord_prepareStack hstack hbase hcount (by omega) (by omega),
        fillUnique_of_lt hsmall, hfs]
      exact hself hlaid
    · dsimp only
      rw [fillUnique_of_lt hsmall]
      intro w hw
      rcases List.mem_append.mp hw with hw | hw
      · rw [hbase_eq]
        exact hinside.mpr hlaid w hw
      · rw [List.mem_singleton.mp hw]
        intro k hk
        exact absurd hk (Nat.not_lt_zero k)
    · exact hstack

end Claim

/-- A program without thread-local variables. -/
theorem createProcess_intact_empty :
    (createProcess 0x50000000 (fun _ => 0x60000000) emptyBinary none [[97]] []
      fun _ => 0xFF).Intact 0x50000000 :=
  (createProcess_intact_iff (show _ = 8192 by decide) rfl (by decide) (by decide) (by decide)
    (by decide)).mpr (by decide)

/-- A program with one variable of 8 bytes. -/
def variableBinary : ElfBinary :=
  { emptyBinary with
    tlsData := 0x40000200
    tlsDataSize := 8
    tlsAlign := 8 }

/-- LoadFS reads the pattern for the FS base of this program. -/
theorem createProcess_overwritten :
    readWord (createProcess 0x50000000 (fun _ => 0x60000000) variableBinary none [[97]] []
      fun _ => 0xFF).prepared.memory.bytes 0x60001000 8 = 0x7150000000000000 ∧
    ¬ (createProcess 0x50000000 (fun _ => 0x60000000) variableBinary none [[97]] []
      fun _ => 0xFF).Intact 0x50000000 := by
  have hbase : (createProcess 0x50000000 (fun _ => 0x60000000) variableBinary none [[97]] []
      fun _ => 0xFF).tls.fsBase = 0x60001000 := by decide
  have hword : readWord (createProcess 0x50000000 (fun _ => 0x60000000) variableBinary none [[97]] []
      fun _ => 0xFF).prepared.memory.bytes 0x60001000 8 = 0x7150000000000000 := by
    unfold createProcess
    dsimp only
    rw [readWord_prepareStack ((prepareStack_inside_iff _ (by decide) (by decide)).mpr (by decide))
      (by decide) (by decide) (by decide) (by decide)]
    exact readWord_fillUnique (by decide) (by decide) (by decide)
  refine ⟨hword, fun h => ?_⟩
  have hself := h.self
  rw [hbase, hword] at hself
  exact absurd hself (by decide)

end Enkel.ProcessStack
