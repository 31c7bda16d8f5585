import Enkel.MemoryLayout
import Enkel.ThreadLocal

/-!
The log of a memory is complete. A step that extends the log by ranges with some
property leaves every byte outside these ranges as it was, and the steps compose.
-/
namespace Enkel.Elf

open ByteMemory ThreadLocal

/-- The step extends the log by ranges with the property, and changes nothing else. -/
def Changes (R : ℕ × ℕ → Prop) (m m' : Memory) : Prop :=
  ∃ l, m'.log = m.log ++ l ∧ (∀ w ∈ l, R w) ∧
    ∀ a < 2 ^ 64, (∀ w ∈ l, ¬ offset w.1 a < w.2) → m'.bytes a = m.bytes a

variable {R : ℕ × ℕ → Prop} {m m' m'' : Memory} {dest src n start size a : ℕ}

theorem Changes.refl (R : ℕ × ℕ → Prop) (m : Memory) : Changes R m m :=
  ⟨[], (List.append_nil _).symm, fun _ h => absurd h List.not_mem_nil, fun _ _ _ => rfl⟩

theorem Changes.trans (h : Changes R m m') (h' : Changes R m' m'') : Changes R m m'' := by
  obtain ⟨l, hlog, hl, hbytes⟩ := h
  obtain ⟨l', hlog', hl', hbytes'⟩ := h'
  refine ⟨l ++ l', by rw [hlog', hlog, List.append_assoc], ?_, ?_⟩
  · rw [List.forall_mem_append]
    exact ⟨hl, hl'⟩
  · intro a ha hout
    rw [List.forall_mem_append] at hout
    rw [hbytes' a ha hout.2, hbytes a ha hout.1]

theorem store_changes {f : ℕ → UInt8} (hn : n ≤ 2 ^ 64) (h : R (dest, n)) :
    Changes R m (store dest f n m) := by
  refine ⟨[(dest, n)], rfl, by simpa using h, fun a ha hout => ?_⟩
  show writeBytes dest f n m.bytes a = _
  rw [writeBytes_eq hn ha, if_neg (hout _ List.mem_cons_self)]

/-- When the ranges lie in a block, the bytes outside the block are unchanged. -/
theorem Changes.outside (h : Changes (Inside start size) m m') (ha : a < 2 ^ 64)
    (hout : a < start ∨ start + size ≤ a) : m'.bytes a = m.bytes a := by
  obtain ⟨l, -, hl, hbytes⟩ := h
  refine hbytes a ha fun w hw hlt => ?_
  have hin := hl w hw _ hlt
  rw [← (offset_eq_iff ha (offset_lt _ _)).mp rfl] at hin
  omega

theorem Changes.mono {R' : ℕ × ℕ → Prop} (h : Changes R m m') (hR : ∀ w, R w → R' w) :
    Changes R' m m' := by
  obtain ⟨l, hlog, hl, hbytes⟩ := h
  exact ⟨l, hlog, fun w hw => hR w (hl w hw), hbytes⟩

/-- A step that writes into two ranges leaves what lies beside both. -/
theorem Changes.agreeOn_two {lo hi start₁ end₁ start₂ end₂ : ℕ}
    (h : Changes (fun w => Within start₁ end₁ w ∨ Within start₂ end₂ w) m m')
    (hhi : hi ≤ 2 ^ 64) (hend₁ : end₁ ≤ 2 ^ 64) (hend₂ : end₂ ≤ 2 ^ 64)
    (hbeside₁ : hi ≤ start₁ ∨ end₁ ≤ lo) (hbeside₂ : hi ≤ start₂ ∨ end₂ ≤ lo) :
    AgreeOn lo hi m.bytes m'.bytes := by
  obtain ⟨l, -, hl, hbytes⟩ := h
  intro a hle hlt
  refine hbytes a (by omega) fun w hw hin => ?_
  have hend : w.1 + w.2 ≤ 2 ^ 64 := by
    rcases hl w hw with hw | hw
    · exact hw.2.trans hend₁
    · exact hw.2.trans hend₂
  rw [offset_lt_iff hend (by omega)] at hin
  rcases hl w hw with ⟨hstart, hstop⟩ | ⟨hstart, hstop⟩
  · omega
  · omega

/-- A step that writes into one range leaves what lies beside it. -/
theorem Changes.agreeOn {lo hi start stop : ℕ} (h : Changes (Within start stop) m m')
    (hhi : hi ≤ 2 ^ 64) (hstop : stop ≤ 2 ^ 64) (hbeside : hi ≤ start ∨ stop ≤ lo) :
    AgreeOn lo hi m.bytes m'.bytes :=
  (h.mono fun _ hw => Or.inl hw).agreeOn_two hhi hstop hstop hbeside hbeside

/-- The log of a step that starts with an empty one. -/
theorem Changes.log_all (h : Changes R m m') (hm : m.log = []) : ∀ w ∈ m'.log, R w := by
  obtain ⟨l, hlog, hl, -⟩ := h
  rw [hlog, hm, List.nil_append]
  exact hl

end Enkel.Elf
