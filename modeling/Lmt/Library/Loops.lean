import Mathlib.Data.List.Basic
import Mathlib.Tactic

/-!
# Loops over a variable

A loop tests a variable, uses its value and changes it. When the test bounds a
measure that decreases, the loop ends, and the values it uses are a list.
-/

namespace Loops

variable {α : Type*}

/-- The values that a loop uses in at most so many rounds. -/
def rounds (test : α → Bool) (next : α → α) : ℕ → α → List α
  | 0, _ => []
  | n + 1, a => if test a then a :: rounds test next n (next a) else []

/-- The values that a loop uses, where a measure bounds the rounds. -/
def whileValues (test : α → Bool) (next : α → α) (measure : α → ℕ) (a : α) : List α :=
  rounds test next (measure a + 1) a

section

variable {test : α → Bool} {next : α → α} {measure : α → ℕ} {inv : α → Prop}
variable (h : ∀ a, inv a → test a = true → inv (next a) ∧ measure (next a) < measure a)

include h

theorem rounds_eq_rounds {n m : ℕ} {a : α} (hinv : inv a) (hn : measure a < n)
    (hm : measure a < m) : rounds test next n a = rounds test next m a := by
  induction n generalizing m a with
  | zero => omega
  | succ n ih =>
    cases m with
    | zero => omega
    | succ m =>
      rw [rounds, rounds]
      split_ifs with ha
      · obtain ⟨hinv', hlt⟩ := h a hinv ha
        rw [ih (m := m) hinv' (by omega) (by omega)]
      · rfl

theorem whileValues_of_test {a : α} (hinv : inv a) (ha : test a = true) :
    whileValues test next measure a = a :: whileValues test next measure (next a) := by
  obtain ⟨hinv', hlt⟩ := h a hinv ha
  rw [whileValues, rounds, if_pos ha, whileValues,
    rounds_eq_rounds h hinv' hlt (Nat.lt_succ_self _)]

omit h in
theorem whileValues_of_not_test {a : α} (ha : test a = false) :
    whileValues test next measure a = [] := by
  rw [whileValues, rounds, ha]
  rfl

theorem induction_on {motive : α → Prop} {a : α} (hinv : inv a)
    (stop : ∀ a, inv a → test a = false → motive a)
    (round : ∀ a, inv a → test a = true → motive (next a) → motive a) : motive a := by
  induction hm : measure a using Nat.strong_induction_on generalizing a with
  | _ m ih =>
    cases ha : test a with
    | false => exact stop a hinv ha
    | true =>
      obtain ⟨hinv', hlt⟩ := h a hinv ha
      exact round a hinv ha (ih _ (hm ▸ hlt) hinv' rfl)

end

end Loops
