import Mathlib.Data.List.Basic
import Mathlib.Data.List.Infix

/-!
Tables whose entries may point to further tables, as in a radix tree with
explicit storage. A path of indices is followed from a root. The tables are
separate up to a depth when no table is reached by two paths within it; that
is what makes a write to one table invisible to every other path. Linking a
cleared, unreachable table under an entry keeps the tables separate.
-/
namespace Enkel.RadixTable

variable {P I : Type*} {next next' : P → I → Option P} {root : P} {depth : ℕ}

/-- Follow the entries named by a path. -/
def walk (next : P → I → Option P) (t : P) : List I → Option P
  | [] => some t
  | i :: path => (next t i).bind fun t' => walk next t' path

/-- No table is reached by two paths of at most `depth` entries. -/
def Separate (next : P → I → Option P) (root : P) (depth : ℕ) : Prop :=
  ∀ p q t, p.length ≤ depth → q.length ≤ depth →
    walk next root p = some t → walk next root q = some t → p = q

@[simp] theorem walk_nil (t : P) : walk next t [] = some t := rfl

theorem walk_append (t : P) (p q : List I) :
    walk next t (p ++ q) = (walk next t p).bind fun t' => walk next t' q := by
  induction p generalizing t with
  | nil => rfl
  | cons i p ih =>
    cases h : next t i with
    | none => simp [walk, h]
    | some t' => simp [walk, h, ih]

theorem walk_snoc (t : P) (p : List I) (i : I) :
    walk next t (p ++ [i]) = (walk next t p).bind fun t' => next t' i := by
  rw [walk_append]
  congr 1
  funext t'
  cases h : next t' i <;> simp [walk, h]

theorem walk_none_of_initial {p q : List I} (h : walk next root p = none)
    (hpq : p <+: q) : walk next root q = none := by
  obtain ⟨r, rfl⟩ := hpq
  rw [walk_append, h]
  rfl

/-- A walk reads only the tables it meets before its last entry. -/
theorem walk_congr (h : ∀ q t, q.length < depth → walk next root q = some t →
    ∀ i, next' t i = next t i) (p : List I) (hp : p.length ≤ depth) :
    walk next' root p = walk next root p := by
  induction p using List.reverseRecOn with
  | nil => rfl
  | append_singleton p i ih =>
    rw [List.length_append, List.length_singleton] at hp
    rw [walk_snoc, walk_snoc, ih (by omega)]
    cases hw : walk next root p with
    | none => rfl
    | some t => exact h p t (by omega) hw i

section Link
variable [DecidableEq P] [DecidableEq I]

/-- Clear the table `f` and make entry `i` of `t` point to it. -/
def link (next : P → I → Option P) (t : P) (i : I) (f : P) : P → I → Option P :=
  fun t' i' => if t' = t ∧ i' = i then some f else if t' = f then none else next t' i'

variable {p : List I} {t f : P} {i : I}

/-- After a link the new table is reached by its own path only, nothing is
reached through it, and every other path leads where it led before. -/
theorem walk_link (hsep : Separate next root depth) (hp : p.length < depth)
    (hwalk : walk next root p = some t)
    (hfresh : ∀ q, q.length ≤ depth → walk next root q ≠ some f)
    (q : List I) (hq : q.length ≤ depth) :
    walk (link next t i f) root q =
      if p ++ [i] <+: q then (if q = p ++ [i] then some f else none)
      else walk next root q := by
  classical
  have htf : t ≠ f := fun h => hfresh p (by omega) (h ▸ hwalk)
  induction q using List.reverseRecOn with
  | nil => simp
  | append_singleton r j ih =>
    rw [List.length_append, List.length_singleton] at hq
    rw [walk_snoc, walk_snoc, ih (by omega)]
    by_cases hr : p ++ [i] <+: r
    · have hne : r ++ [j] ≠ p ++ [i] := by
        intro h
        have hlen := hr.length_le
        rw [← h, List.length_append, List.length_singleton] at hlen
        omega
      rw [if_pos hr, if_pos (hr.trans (List.prefix_append r [j])), if_neg hne]
      by_cases hrp : r = p ++ [i]
      · simp [hrp, link, htf.symm]
      · simp [hrp]
    · have hiff : p ++ [i] <+: r ++ [j] ↔ r = p ∧ j = i := by
        rw [List.prefix_concat_iff]
        constructor
        · rintro (h | h)
          · obtain ⟨h1, h2⟩ := List.append_inj' h rfl
            exact ⟨h1.symm, by simpa using h2.symm⟩
          · exact absurd h hr
        · rintro ⟨rfl, rfl⟩
          exact Or.inl rfl
      rw [if_neg hr]
      cases hw : walk next root r with
      | none =>
        have hnot : ¬ (r = p ∧ j = i) := by
          rintro ⟨rfl, -⟩
          simp [hw] at hwalk
        rw [if_neg (fun h => hnot (hiff.mp h))]
        rfl
      | some t' =>
        by_cases hji : r = p ∧ j = i
        · obtain ⟨rfl, rfl⟩ := hji
          have ht : t' = t := by simpa [hw] using hwalk
          simp [link, ht]
        · have hentry : ¬ (t' = t ∧ j = i) := by
            rintro ⟨rfl, hj⟩
            exact hji ⟨hsep r p t' (by omega) (by omega) hw hwalk, hj⟩
          have htf' : t' ≠ f := fun h => hfresh r (by omega) (h ▸ hw)
          rw [if_neg (fun h => hji (hiff.mp h))]
          simp [link, hentry, htf']

theorem separate_link (hsep : Separate next root depth) (hp : p.length < depth)
    (hwalk : walk next root p = some t)
    (hfresh : ∀ q, q.length ≤ depth → walk next root q ≠ some f) :
    Separate (link next t i f) root depth := by
  classical
  intro a b u ha hb hwa hwb
  rw [walk_link hsep hp hwalk hfresh a ha] at hwa
  rw [walk_link hsep hp hwalk hfresh b hb] at hwb
  split_ifs at hwa hwb with h1 h2 h3 h4 h5 h6
  · exact h2.trans h4.symm
  · cases hwa
    exact absurd hwb (hfresh b hb)
  · cases hwb
    exact absurd hwa (hfresh a ha)
  · exact hsep a b u ha hb hwa hwb

end Link

end Enkel.RadixTable
