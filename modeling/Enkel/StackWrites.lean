import Enkel.StackDecoding
import Enkel.WriteLog

/-!
Where the stack is written. Strings that are too long are cut off, but the place of
the stack pointer comes from their measured size: everything is written inside the
stack exactly if what is written fits in it.
-/
namespace Enkel.ProcessStack

open ByteMemory Elf ThreadLocal Rounding

section Ascii
variable {s : List ℕ} {limit : ℤ} {index p : ℕ} {b : ℕ → UInt8} {m : Memory}
  {R : ℕ × ℕ → Prop}

theorem asciiLoop_fst (out : Option ℕ) :
    (asciiLoop out limit s index b).1 = index + min s.length (limit - index).toNat := by
  induction s generalizing index b with
  | nil => simp [asciiLoop]
  | cons c s ih =>
    unfold asciiLoop
    split_ifs with hlt
    · have hlen : index + 1 + min s.length (limit - (index + 1 : ℕ)).toNat =
          index + min (c :: s).length (limit - index).toNat := by
        rw [List.length_cons]
        omega
      cases out with
      | none => exact ih.trans hlen
      | some p => exact ih.trans hlen
    · dsimp only
      omega

theorem wideToAscii_fst (out : Option ℕ) :
    (wideToAscii out s limit m).1 = min s.length limit.toNat := by
  have hloop : (asciiLoop out limit s 0 m.bytes).1 = _ := asciiLoop_fst out
  rw [Nat.zero_add] at hloop
  unfold wideToAscii
  cases out with
  | none => simpa using hloop
  | some p => simpa using hloop

/-- The loop writes no byte but those of the characters. -/
theorem asciiLoop_bytes {a : ℕ}
    (hout : ∀ i, index ≤ i → i < (asciiLoop (some p) limit s index b).1 → a ≠ (p + i) % 2 ^ 64) :
    (asciiLoop (some p) limit s index b).2 a = b a := by
  induction s generalizing index b with
  | nil => rfl
  | cons c s ih =>
    unfold asciiLoop at hout ⊢
    split_ifs at hout ⊢ with hlt
    · have hfirst := hout index le_rfl (by rw [asciiLoop_fst]; omega)
      refine (ih fun i hle hi => hout i (by omega) hi).trans ?_
      exact Function.update_of_ne hfirst _ _
    · rfl

theorem wideToAscii_changes (hlen : s.length < 2 ^ 64)
    (hstring : R (p, min s.length limit.toNat))
    (hzero : R (add64 p (min s.length limit.toNat), 1)) :
    Changes R m (wideToAscii (some p) s limit m).2 := by
  have hfst : (asciiLoop (some p) limit s 0 m.bytes).1 = _ := asciiLoop_fst (some p)
  rw [Nat.zero_add, Nat.cast_zero, sub_zero] at hfst
  have hloop : Changes R m ⟨(asciiLoop (some p) limit s 0 m.bytes).2,
      m.log ++ [(p, (asciiLoop (some p) limit s 0 m.bytes).1)]⟩ := by
    refine ⟨_, rfl, by simpa [hfst] using hstring, fun a ha hout => ?_⟩
    apply asciiLoop_bytes
    intro i _ hi heq
    apply hout _ List.mem_cons_self
    rwa [(offset_eq_iff ha (by omega)).mpr heq]
  refine hloop.trans (store_changes (by omega) ?_)
  rw [hfst]
  exact hzero

end Ascii

section Strings
variable {R : ℕ × ℕ → Prop}

/-- Each string is written below the last one, and its address into the vector. -/
theorem writeStrings_changes (strings : List (List ℕ)) (limit : ℤ) (vector index p lo : ℕ)
    (m : Memory) (hp : p < 2 ^ 64) (hlo : lo + total strings ≤ p)
    (hvector : vector + 8 * (index + strings.length) ≤ 2 ^ 64)
    (hstring : ∀ w, Within lo p w → R w)
    (hslot : ∀ w, Within (vector + 8 * index) (vector + 8 * (index + strings.length)) w → R w) :
    (p - total strings ≤ (writeStrings limit vector strings index p m).1 ∧
      (writeStrings limit vector strings index p m).1 ≤ p) ∧
    Changes R m (writeStrings limit vector strings index p m).2 := by
  induction strings generalizing index p m with
  | nil => exact ⟨⟨le_rfl, le_rfl⟩, Changes.refl R m⟩
  | cons s rest ih =>
    rw [total_cons] at hlo ⊢
    rw [List.length_cons] at hvector hslot
    obtain ⟨w, hw⟩ : ∃ w, min s.length limit.toNat = w := ⟨_, rfl⟩
    have hwle : w ≤ s.length := hw ▸ Nat.min_le_left _ _
    have hsub : sub64 p (w + 1) = p - (w + 1) := sub64_of_le (by omega) hp
    have hend : add64 (p - (w + 1)) w = p - (w + 1) + w := add64_of_lt (by omega)
    have hat : add64 vector (8 * index) = vector + 8 * index := add64_of_lt (by omega)
    have hzero : R (p - (w + 1) + w, 1) := hstring _ ⟨by dsimp only; omega, by dsimp only; omega⟩
    rw [writeStrings]
    simp only [wideToAscii_fst, hw, hsub, hend, hat]
    have hturn : Changes R m (storeWord (vector + 8 * index) (p - (w + 1))
        (store (p - (w + 1) + w) (fun _ => 0) 1
          (wideToAscii (some (p - (w + 1))) s limit m).2)) := by
      refine ((wideToAscii_changes (by omega) ?_ ?_).trans
        (store_changes (by omega) hzero)).trans (store_changes (by omega) ?_)
      · rw [hw]
        exact hstring _ ⟨by dsimp only; omega, by dsimp only; omega⟩
      · rwa [hw, hend]
      · exact hslot _ ⟨by dsimp only; omega, by dsimp only; omega⟩
    obtain ⟨⟨hge, hle⟩, hrest⟩ := ih (index + 1) (p - (w + 1))
      (storeWord (vector + 8 * index) (p - (w + 1))
        (store (p - (w + 1) + w) (fun _ => 0) 1
          (wideToAscii (some (p - (w + 1))) s limit m).2)) (by omega) (by omega) (by omega)
      (fun v hv => hstring v (hv.mono le_rfl (by omega)))
      (fun v hv => hslot v (hv.mono (by omega) (by omega)))
    exact ⟨⟨by omega, by omega⟩, hturn.trans hrest⟩

end Strings

section Aux
variable {entries : List (AuxType × ℕ)} {p : ℕ} {m : Memory} {R : ℕ × ℕ → Prop}

theorem foldl_writeAuxEntry_changes (hp : p < 2 ^ 64) (hroom : 16 * entries.length ≤ p)
    (hR : ∀ w, Within (p - 16 * entries.length) p w → R w) :
    Changes R m (entries.foldl (writeAuxEntry false) (p, m)).2 := by
  induction entries generalizing p m with
  | nil => exact Changes.refl R m
  | cons e entries ih =>
    rw [List.length_cons] at hroom hR
    have hturn : writeAuxEntry false (p, m) e = (p - 16,
        storeWord (p - 16 + 8) e.2 (storeWord (p - 16) e.1.code m)) := by
      show (sub64 p 16, _) = _
      rw [sub64_of_le (by omega) hp, add64_of_lt (by omega)]
    rw [List.foldl_cons, hturn]
    refine Changes.trans ((store_changes (by omega) ?_).trans (store_changes (by omega) ?_))
      (ih (by omega) (by omega) ?_)
    · exact hR _ ⟨by dsimp only; omega, by dsimp only; omega⟩
    · exact hR _ ⟨by dsimp only; omega, by dsimp only; omega⟩
    · intro w hw
      exact hR w (hw.mono (by omega) (by omega))

end Aux

section Prepare
variable {base n : ℕ} {binary : ElfBinary} {subBinary : Option ElfBinary} {stackCookie : ℕ}
  {argv envp : List (List ℕ)} {m : Memory}

theorem inside_of_within {size : ℕ} {w : ℕ × ℕ} (hend : base + size ≤ 2 ^ 64)
    (h : Within base (base + size) w) : Inside base size w := by
  obtain ⟨hlo, hhi⟩ := h
  intro k hk
  rw [Nat.mod_eq_of_lt (by omega)]
  omega

/-- What fits in the stack is written inside it. -/
theorem prepareStack_changes (hbase : base + defaultThreadStackSize < 2 ^ 64)
    (hfit : stackBytes (auxEntries binary subBinary stackCookie).length argv envp ≤
      defaultThreadStackSize) :
    Changes (Inside base defaultThreadStackSize) m
      (prepareStack base binary subBinary stackCookie argv envp m).memory := by
  obtain ⟨top, strings, after, start, hptr⟩ := exists_pointers base hfit
  rw [prepareStack_eq rfl hptr hbase]
  obtain ⟨htop, hstrings, hafter, hstart, hle⟩ := hptr
  have hround := le_roundUp (n := total envp + total argv) (a := 16) (by omega)
  have hin : ∀ w, Within start (base + defaultThreadStackSize) w →
      Inside base defaultThreadStackSize w := fun w hw =>
    inside_of_within hbase.le (hw.mono hle le_rfl)
  unfold defaultThreadStackSize at htop hbase hin ⊢
  have hword : ∀ x, start ≤ x → x + 8 ≤ base + 128 * 1024 → Inside base (128 * 1024) (x, 8) :=
    fun x hx hend => hin _ ⟨hx, hend⟩
  obtain ⟨⟨hge, hle'⟩, henvp⟩ := writeStrings_changes envp
    (stackLeft ((base + 128 * 1024 - after) / 8)) (start + 8 * (argv.length + 2)) 0 top strings
    (storeWord (start + 8 * (argv.length + envp.length + 2)) 0
      (storeWord strings 0 (storeWord top 0 m))) (by omega) (by omega) (by omega)
    (fun w hw => hin w (hw.mono (by omega) (by omega)))
    (fun w hw => hin w (hw.mono (by omega) (by omega)))
  obtain ⟨r, hr⟩ : ∃ r, afterEnvp base top strings after start argv envp m = r := ⟨_, rfl⟩
  have hr' : writeStrings (stackLeft ((base + 128 * 1024 - after) / 8))
      (start + 8 * (argv.length + 2)) envp 0 top
      (storeWord (start + 8 * (argv.length + envp.length + 2)) 0
        (storeWord strings 0 (storeWord top 0 m))) = r := hr
  rw [hr'] at hge hle' henvp
  obtain ⟨-, hargv⟩ := writeStrings_changes argv
    (stackLeft ((base + 128 * 1024 - start) / 8)) (start + 8) 0 r.1 strings
    (storeWord (start + 8 * (argv.length + 1)) 0 r.2) (by omega) (by omega) (by omega)
    (fun w hw => hin w (hw.mono (by omega) (by omega)))
    (fun w hw => hin w (hw.mono (by omega) (by omega)))
  rw [hr]
  have hmarkers : Changes (Inside base (128 * 1024)) m
      (storeWord (start + 8 * (argv.length + envp.length + 2)) 0
        (storeWord strings 0 (storeWord top 0 m))) :=
    ((store_changes (by omega) (hword _ (by omega) (by omega))).trans
      (store_changes (by omega) (hword _ (by omega) (by omega)))).trans
      (store_changes (by omega) (hword _ (by omega) (by omega)))
  have hnull : Changes (Inside base (128 * 1024)) r.2
      (storeWord (start + 8 * (argv.length + 1)) 0 r.2) :=
    store_changes (by omega) (hword _ (by omega) (by omega))
  have hargc : Changes (Inside base (128 * 1024)) (afterArgv base start argv r)
      (storeWord start argv.length (afterArgv base start argv r)) :=
    store_changes (by omega) (hword _ (by omega) (by omega))
  refine (((hmarkers.trans henvp).trans hnull).trans (hargv.trans hargc)).trans ?_
  exact foldl_writeAuxEntry_changes (by omega) (by omega)
    fun w hw => hin w (hw.mono (by omega) (by omega))

/-- The bytes that the first pass counts: no string counts more than STACK_LEFT. -/
def measured (strings : List (List ℕ)) : ℕ :=
  (strings.map fun s => min s.length 131071 + 1).sum

theorem measured_cons (s : List ℕ) (rest : List (List ℕ)) :
    measured (s :: rest) = min s.length 131071 + 1 + measured rest := by
  unfold measured
  rw [List.map_cons, List.sum_cons]

theorem measured_le (strings : List (List ℕ)) : measured strings ≤ 131072 * strings.length := by
  induction strings with
  | nil => exact Nat.zero_le _
  | cons s rest ih =>
    rw [measured_cons, List.length_cons]
    omega

/-- A string that is cut off counts more than the whole stack. -/
theorem measured_eq_or (strings : List (List ℕ)) :
    measured strings = total strings ∨ 131072 ≤ measured strings := by
  induction strings with
  | nil => exact Or.inl rfl
  | cons s rest ih =>
    rw [measured_cons, total_cons]
    omega

theorem measure_eq_measured {strings : List (List ℕ)} {start : ℕ}
    (hsum : start + measured strings < 2 ^ 64) :
    measure 131071 m strings start = start + measured strings := by
  induction strings generalizing start with
  | nil => rfl
  | cons s rest ih =>
    rw [measured_cons] at hsum ⊢
    have hnext : add64 start ((wideToAscii none s 131071 m).1 + 1) =
        start + (min s.length 131071 + 1) := by
      have hfst : (wideToAscii none s 131071 m).1 = _ := wideToAscii_fst none
      have hlimit : (131071 : ℤ).toNat = 131071 := rfl
      rw [hfst, hlimit, add64_of_lt (by omega)]
    show measure 131071 m rest (add64 start ((wideToAscii none s 131071 m).1 + 1)) = _
    rw [hnext, ih (by omega)]
    omega

theorem sub64_lt {a b : ℕ} : sub64 a b < 2 ^ 64 := Nat.mod_lt _ (Nat.two_pow_pos 64)

theorem sub64_sub64 {a b c : ℕ} (h : b + c ≤ 2 ^ 64) : sub64 (sub64 a b) c = sub64 a (b + c) := by
  unfold sub64
  omega

theorem foldl_writeAuxEntry_fst {entries : List (AuxType × ℕ)} {p : ℕ}
    (hroom : 16 * entries.length < 2 ^ 64) (hp : p < 2 ^ 64) :
    (entries.foldl (writeAuxEntry true) (p, m)).1 = sub64 p (16 * entries.length) := by
  induction entries generalizing p with
  | nil =>
    show p = sub64 p 0
    unfold sub64
    omega
  | cons e entries ih =>
    rw [List.length_cons] at hroom ⊢
    have hturn : writeAuxEntry true (p, m) e = (sub64 p 16, m) := rfl
    rw [List.foldl_cons, hturn, ih (by omega) sub64_lt,
      sub64_sub64 (by omega)]
    congr 1
    omega

theorem mem_foldl_log {entries : List (AuxType × ℕ)} {p : ℕ} {w : ℕ × ℕ} (hw : w ∈ m.log) :
    w ∈ (entries.foldl (writeAuxEntry false) (p, m)).2.log := by
  induction entries generalizing p m with
  | nil => exact hw
  | cons e entries ih =>
    rw [List.foldl_cons]
    exact ih (List.mem_append_left _ (List.mem_append_left _ hw))

/-- The initial stack pointer, also when the stack is too small. -/
theorem prepareStack_start {size : ℕ}
    (hsize : stringBlockBytes argv envp
      (storeWord (sub64 (add64 base defaultThreadStackSize) 8) 0 m) = size)
    (hroom : 8 + size + 16 * n + 8 * (argv.length + envp.length + 3) ≤ 2 ^ 64)
    (hn : (auxEntries binary subBinary stackCookie).length = n) :
    (prepareStack base binary subBinary stackCookie argv envp m).defaultThreadStackStart =
      sub64 (add64 base defaultThreadStackSize)
        (8 + size + 16 * n + 8 * (argv.length + envp.length + 3)) := by
  unfold prepareStack writeProcessAuxVectors
  dsimp only
  rw [hsize, foldl_writeAuxEntry_fst (by omega) sub64_lt, hn, sub64_sub64 (by omega),
    sub64_sub64 (by omega), sub64_sub64 (by omega), sub64_sub64 (by omega)]
  congr 1
  omega

/-- The number of arguments is written at the initial stack pointer. -/
theorem start_mem_log : ((prepareStack base binary subBinary stackCookie argv envp
    m).defaultThreadStackStart, 8) ∈
      (prepareStack base binary subBinary stackCookie argv envp m).memory.log := by
  unfold prepareStack
  exact mem_foldl_log (List.mem_append_right _ (List.mem_singleton.mpr rfl))

/-- The stack pointer lies inside the stack only if everything fits. -/
theorem fits_of_start_inside (hbase : base + defaultThreadStackSize ≤ 2 ^ 48)
    (hcount : argv.length + envp.length < 2 ^ 31)
    (h : Inside base defaultThreadStackSize
      ((prepareStack base binary subBinary stackCookie argv envp m).defaultThreadStackStart, 8)) :
    stackBytes (auxEntries binary subBinary stackCookie).length argv envp ≤
      defaultThreadStackSize := by
  unfold defaultThreadStackSize at hbase h ⊢
  obtain ⟨n, hn⟩ : ∃ n, (auxEntries binary subBinary stackCookie).length = n := ⟨_, rfl⟩
  have hn_le : n ≤ 9 := by
    rw [← hn]
    unfold auxEntries
    cases subBinary <;> simp
  by_contra hlarge
  have hargv := measured_le argv
  have henvp := measured_le envp
  have hblock : ∀ m, stringBlockBytes argv envp m =
      roundUp (measured envp + measured argv) 16 := fun m => by
    have halign := alignSize_two_pow (k := 4) (n := measured envp + measured argv) (by omega)
      (by omega)
    rw [if_pos (by omega)] at halign
    have hleft : stackLeft 1 = 131071 := stackLeft_eq (by omega)
    unfold stringBlockBytes
    rw [hleft, measure_eq_measured (show 0 + measured envp < 2 ^ 64 by omega), Nat.zero_add,
      measure_eq_measured (by omega)]
    exact halign
  have hle := le_roundUp (n := measured envp + measured argv) (a := 16) (by omega)
  have hlt := roundUp_lt (n := measured envp + measured argv) (a := 16) (by omega)
  have hstart : (prepareStack base binary subBinary stackCookie argv envp
      m).defaultThreadStackStart = _ := prepareStack_start (hblock _) (by omega) hn
  rw [defaultThreadStackSize, add64_of_lt (by omega)] at hstart
  have hlarge' : 131072 < 8 + roundUp (measured envp + measured argv) 16 + 16 * n +
      8 * (argv.length + envp.length + 3) := by
    unfold stackBytes at hlarge
    rcases measured_eq_or envp with heq | hge
    · rcases measured_eq_or argv with heq' | hge'
      · rw [heq, heq', ← hn]
        omega
      · omega
    · omega
  -- the stack pointer lies below the stack, or the address wraps around
  have hargc := h 0 (by dsimp only; omega)
  rw [hstart] at hargc
  unfold sub64 at hargc
  omega

/-- The stack is written inside its block exactly if it fits. -/
theorem prepareStack_inside_iff (b : ℕ → UInt8) (hbase : base + defaultThreadStackSize ≤ 2 ^ 48)
    (hcount : argv.length + envp.length < 2 ^ 31) :
    (∀ w ∈ (prepareStack base binary subBinary stackCookie argv envp ⟨b, []⟩).memory.log,
      Inside base defaultThreadStackSize w) ↔
    stackBytes (auxEntries binary subBinary stackCookie).length argv envp ≤
      defaultThreadStackSize := by
  constructor
  · intro h
    -- the number of arguments is written at the stack pointer
    exact fits_of_start_inside hbase hcount (h _ start_mem_log)
  · intro hfit
    exact (prepareStack_changes (hbase.trans_lt (by decide)) hfit).log_all rfl

end Prepare

end Enkel.ProcessStack
