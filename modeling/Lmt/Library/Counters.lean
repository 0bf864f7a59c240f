import Mathlib.Data.List.Basic
import Mathlib.Tactic

/-!
# Counters that can be reset

A counter grows, but can start again from 0. Its increments count everything
that is seen of it. The readings of a time-ordered list up to a bound are a first
part of the list.
-/

namespace Counters

/-- What was counted since the previous reading. -/
def increment (prev cur : ℕ) : ℕ := if cur < prev then cur else cur - prev

def increments : ℕ → List ℕ → List ℕ
  | _, [] => []
  | prev, c :: cs => increment prev c :: increments c cs

@[simp] theorem increment_self (c : ℕ) : increment c c = 0 := by simp [increment]

@[simp] theorem increment_zero (c : ℕ) : increment 0 c = c := by simp [increment]

/-- Nothing was counted if the counter stands still, or is at 0. -/
theorem increment_eq_zero {prev cur : ℕ} : increment prev cur = 0 ↔ cur = prev ∨ cur = 0 := by
  rw [increment]
  split_ifs <;> omega

/-- All that was counted: the first reading, and the increments after it. -/
def total : List ℕ → ℕ
  | [] => 0
  | c :: cs => c + (increments c cs).sum

theorem total_eq (cs : List ℕ) : total cs = (increments 0 cs).sum := by
  cases cs with
  | nil => rfl
  | cons c cs => rw [total, increments, List.sum_cons, increment_zero]

/-- The last reading, or the previous one without a reading. -/
theorem increments_append (prev : ℕ) (as bs : List ℕ) :
    increments prev (as ++ bs) = increments prev as ++ increments (as.getLast?.getD prev) bs := by
  induction as generalizing prev with
  | nil => rfl
  | cons a as ih =>
    rw [List.cons_append, increments, ih, increments, List.cons_append, List.getLast?_cons,
      Option.getD_some]

/-- A reading that is seen again counts nothing. -/
theorem sum_increments_again (c : ℕ) (cs : List ℕ) :
    (increments c (c :: cs)).sum = (increments c cs).sum := by
  rw [increments, increment_self, List.sum_cons, zero_add]

theorem sum_map_ite {α : Type*} (p : α → Bool) (as : List α) :
    (as.map fun a => if p a then 1 else 0).sum = as.countP p := by
  induction as with
  | nil => rfl
  | cons a as ih =>
    rw [List.map_cons, List.sum_cons, List.countP_cons, ih]
    omega

theorem sum_countP_comm {α β : Type*} (p : α → β → Bool) (as : List α) (bs : List β) :
    (bs.map fun b => as.countP fun a => p a b).sum = (as.map fun a => bs.countP (p a)).sum := by
  induction as with
  | nil => simp
  | cons a as ih =>
    simp only [List.countP_cons, List.map_cons, List.sum_cons]
    rw [List.sum_map_add, ih, sum_map_ite, Nat.add_comm]

/-- A sum over what meets `q`, with what meets `p` first. -/
theorem sum_filter_split {α M : Type*} [AddCommMonoid M] (p q : α → Prop) [DecidablePred p]
    [DecidablePred q] (f : α → M) (as : List α) :
    ((as.filter q).map f).sum =
      ((as.filter fun a => p a ∧ q a).map f).sum +
        ((as.filter fun a => ¬p a ∧ q a).map f).sum := by
  induction as with
  | nil => simp
  | cons a as ih =>
    by_cases hq : q a <;> by_cases hp : p a <;> simp [hp, hq, ih] <;> abel

section

variable {α : Type*} {r : α → α → Prop} {l : List α} (hl : l.Pairwise r) (p q : α → Prop)
variable [DecidablePred p] [DecidablePred q]

include hl

/-- Where `p` holds of a first part of the list, what meets `q` in this part comes
before the rest of what meets `q`. -/
theorem filter_split (hp : ∀ a b, r a b → p b → p a) :
    l.filter q = (l.filter fun a => p a ∧ q a) ++ l.filter fun a => ¬p a ∧ q a := by
  induction l with
  | nil => rfl
  | cons a l ih =>
    rw [List.pairwise_cons] at hl
    by_cases ha : p a
    · have ih := ih hl.2
      by_cases hq : q a <;> simpa [List.filter_cons, ha, hq] using ih
    · have hnot : ∀ b ∈ a :: l, ¬p b := by
        intro b hb hpb
        rcases List.mem_cons.mp hb with rfl | hb
        · exact ha hpb
        · exact ha (hp a b (hl.1 b hb) hpb)
      have hnone : (a :: l).filter (fun a => p a ∧ q a) = [] :=
        List.filter_eq_nil_iff.mpr fun b hb => by simp [hnot b hb]
      rw [hnone, List.nil_append]
      exact List.filter_congr fun b hb => by simp [hnot b hb]

omit [DecidablePred q] in
/-- Where `p` holds of a last part, the last element tells whether there is one. -/
theorem getLast?_filter (hp : ∀ a b, r a b → p a → p b) :
    (l.filter p).getLast? = l.getLast?.filter p := by
  rcases List.eq_nil_or_concat' l with rfl | ⟨init, a, rfl⟩
  · rfl
  · rw [List.pairwise_append] at hl
    rw [List.filter_append, List.getLast?_concat, Option.filter_some]
    by_cases ha : p a
    · simp [ha]
    · have hnone : init.filter p = [] := List.filter_eq_nil_iff.mpr fun b hb hpb =>
        ha (hp b a (hl.2.2 b hb a List.mem_cons_self) (by simpa using hpb))
      simp [ha, hnone]

end

end Counters
