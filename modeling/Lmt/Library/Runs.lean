import Mathlib.Data.List.Basic
import Mathlib.Tactic

/-!
# Runs of a state machine

A run applies a list of actions to a state, one after the other. An invariant
is proved for one step, possibly under a condition on that step, and holds after
every run whose steps all meet the condition. Two machines that agree step by
step through a map or a relation agree on whole runs.
-/

namespace Runs

variable {σ τ α β : Type*}

def run (step : σ → α → σ) (s : σ) (as : List α) : σ := as.foldl step s

@[simp] theorem run_nil (step : σ → α → σ) (s : σ) : run step s [] = s := rfl

@[simp] theorem run_cons (step : σ → α → σ) (s : σ) (a : α) (as : List α) :
    run step s (a :: as) = run step (step s a) as := rfl

theorem run_append (step : σ → α → σ) (s : σ) (as bs : List α) :
    run step s (as ++ bs) = run step (run step s as) bs := List.foldl_append

theorem run_concat (step : σ → α → σ) (s : σ) (as : List α) (a : α) :
    run step s (as ++ [a]) = step (run step s as) a := by
  rw [run_append, run_cons, run_nil]

/-- Two machines that do the same with the actions of a run do the same in the run. -/
theorem run_congr {step step' : σ → α → σ} {as : List α} (h : ∀ a ∈ as, ∀ s, step s a = step' s a)
    (s : σ) : run step s as = run step' s as := by
  induction as generalizing s with
  | nil => rfl
  | cons a as ih =>
    rw [run_cons, run_cons, h a List.mem_cons_self]
    exact ih (fun b hb => h b (List.mem_cons_of_mem _ hb)) _

/-- Every step of the run meets the condition in the state it starts from. -/
def StepsMeet (step : σ → α → σ) (cond : σ → α → Prop) : σ → List α → Prop
  | _, [] => True
  | s, a :: as => cond s a ∧ StepsMeet step cond (step s a) as

instance (step : σ → α → σ) (cond : σ → α → Prop) [∀ s a, Decidable (cond s a)] :
    ∀ (s : σ) (as : List α), Decidable (StepsMeet step cond s as)
  | _, [] => inferInstanceAs (Decidable True)
  | s, a :: as =>
    have := instDecidableStepsMeet step cond (step s a) as
    inferInstanceAs (Decidable (cond s a ∧ StepsMeet step cond (step s a) as))

section

variable {step : σ → α → σ} {cond : σ → α → Prop} {inv : σ → Prop}

theorem StepsMeet.append {s : σ} {as bs : List α} :
    StepsMeet step cond s (as ++ bs) ↔
      StepsMeet step cond s as ∧ StepsMeet step cond (run step s as) bs := by
  induction as generalizing s with
  | nil => simp [StepsMeet]
  | cons a as ih => simp [StepsMeet, ih, and_assoc]

theorem StepsMeet.and_forall {s : σ} {as : List α} {valid : α → Prop}
    (h : StepsMeet step cond s as) (hv : ∀ a ∈ as, valid a) :
    StepsMeet step (fun s a => cond s a ∧ valid a) s as := by
  induction as generalizing s with
  | nil => trivial
  | cons a as ih => exact ⟨⟨h.1, hv a (by simp)⟩, ih h.2 fun b hb => hv b (by simp [hb])⟩

theorem invariant_of_stepsMeet (hstep : ∀ s a, inv s → cond s a → inv (step s a)) {s : σ}
    (hs : inv s) {as : List α} (h : StepsMeet step cond s as) : inv (run step s as) := by
  induction as generalizing s with
  | nil => exact hs
  | cons a as ih => exact ih (hstep s a hs h.1) h.2

/-- Where a condition says exactly when a step keeps the invariant, it says so for
every state that a run reaches. -/
theorem forall_reached_iff (hstep : ∀ s a, inv s → (inv (step s a) ↔ cond s a)) {s : σ}
    (hs : inv s) (as : List α) :
    (∀ bs, bs <+: as → inv (run step s bs)) ↔ StepsMeet step cond s as := by
  constructor
  · intro h
    induction as generalizing s with
    | nil => trivial
    | cons a as ih =>
      have hfirst : inv (step s a) := h [a] (List.prefix_append [a] as)
      refine ⟨(hstep s a hs).mp hfirst, ih hfirst fun bs hbs => ?_⟩
      exact h (a :: bs) ((List.prefix_cons_inj a).mpr hbs)
  · rintro h bs ⟨cs, rfl⟩
    exact invariant_of_stepsMeet (fun s a hs ha => (hstep s a hs).mpr ha) hs
      (StepsMeet.append.mp h).1

/-- Under the invariant, a condition may be replaced by another one that follows
from it in every step. -/
theorem StepsMeet.imp_of_invariant {cond' : σ → α → Prop}
    (hstep : ∀ s a, inv s → cond s a → inv (step s a))
    (himp : ∀ s a, inv s → cond s a → cond' s a) {s : σ} (hs : inv s) {as : List α}
    (h : StepsMeet step cond s as) : StepsMeet step cond' s as := by
  induction as generalizing s with
  | nil => trivial
  | cons a as ih => exact ⟨himp s a hs h.1, ih (hstep s a hs h.1) h.2⟩

/-- The invariant rule for all runs over actions of a kind. -/
theorem invariant_run {valid : α → Prop} (hstep : ∀ s a, inv s → valid a → inv (step s a))
    {s : σ} (hs : inv s) {as : List α} (h : ∀ a ∈ as, valid a) : inv (run step s as) := by
  induction as generalizing s with
  | nil => exact hs
  | cons a as ih => exact ih (hstep s a hs (h a (by simp))) fun b hb => h b (by simp [hb])

end

theorem run_map {step : σ → α → σ} {step' : τ → β → τ} (f : σ → τ) (g : α → β)
    (h : ∀ s a, f (step s a) = step' (f s) (g a)) (s : σ) (as : List α) :
    f (run step s as) = run step' (f s) (as.map g) := by
  induction as generalizing s with
  | nil => rfl
  | cons a as ih => rw [run_cons, ih, h, List.map_cons, run_cons]

/-- Conditions on the mapped run are conditions on the run. -/
theorem stepsMeet_map {step : σ → α → σ} {step' : τ → β → τ} (f : σ → τ) (g : α → β)
    (h : ∀ s a, f (step s a) = step' (f s) (g a)) (cond : τ → β → Prop) (s : σ) (as : List α) :
    StepsMeet step' cond (f s) (as.map g) ↔ StepsMeet step (fun s a => cond (f s) (g a)) s as := by
  induction as generalizing s with
  | nil => rfl
  | cons a as ih => rw [List.map_cons, StepsMeet, StepsMeet, ← h, ih]

/-- Where each action changes the part of its own key, a part depends on the actions
for it. -/
theorem run_update_apply {κ : Type*} [DecidableEq κ] (key : α → κ) (step : σ → α → σ) (s : κ → σ)
    (as : List α) (k : κ) :
    run (fun s a => Function.update s (key a) (step (s (key a)) a)) s as k =
      run step (s k) (as.filter fun a => key a = k) := by
  induction as generalizing s with
  | nil => rfl
  | cons a as ih =>
    rw [run_cons, ih, List.filter_cons]
    by_cases h : key a = k
    · simp [h]
    · simp [h, Function.update_of_ne (Ne.symm h)]

/-- A run of actions that write the same value under a key, if they write any. -/
theorem view_run {κ : Type*} {step : σ → α → σ} (view : σ → κ → β) {writes : α → κ → Prop}
    {value : κ → β} [∀ a k, Decidable (writes a k)]
    (h : ∀ s a k, view (step s a) k = if writes a k then value k else view s k)
    (s : σ) (as : List α) (k : κ) :
    view (run step s as) k = if ∃ a ∈ as, writes a k then value k else view s k := by
  induction as generalizing s with
  | nil => simp
  | cons a as ih =>
    rw [run_cons, ih, h]
    by_cases hrest : ∃ b ∈ as, writes b k
    · obtain ⟨b, hb, hk⟩ := hrest
      rw [if_pos ⟨b, hb, hk⟩, if_pos ⟨b, List.mem_cons_of_mem _ hb, hk⟩]
    · by_cases ha : writes a k
      · rw [if_neg hrest, if_pos ha, if_pos ⟨a, List.mem_cons_self, ha⟩]
      · have hnone : ¬∃ b ∈ a :: as, writes b k := by
          simpa [ha] using hrest
        rw [if_neg hrest, if_neg ha, if_neg hnone]

section

variable {ρ : Type*}

/-- The replies to a list of requests and the state after them, if none fails. -/
def replies (step : σ → α → Option (ρ × σ)) : σ → List α → Option (List ρ × σ)
  | s, [] => some ([], s)
  | s, a :: as =>
    (step s a).bind fun r => (replies step r.2 as).map fun rs => (r.1 :: rs.1, rs.2)

def RequestsMeet (step : σ → α → Option (ρ × σ)) (cond : σ → α → Prop) : σ → List α → Prop
  | _, [] => True
  | s, a :: as => cond s a ∧ ∀ r ∈ step s a, RequestsMeet step cond r.2 as

variable {step : σ → α → Option (ρ × σ)} {spec : τ → α → Option (ρ × τ)}
variable {cond : σ → α → Prop} {rel : σ → τ → Prop}

/-- The simulation rule: a machine that replies to every request as another one does and
stays in relation with it replies to all of them as that one. -/
theorem exists_replies_of_simulates
    (h : ∀ s t a r, rel s t → cond s a → spec t a = some r →
      ∃ s', step s a = some (r.1, s') ∧ rel s' r.2)
    {s : σ} {t : τ} (hrel : rel s t) {as : List α} (hcond : RequestsMeet step cond s as)
    {rs : List ρ × τ} (hrs : replies spec t as = some rs) :
    ∃ s', replies step s as = some (rs.1, s') ∧ rel s' rs.2 := by
  induction as generalizing s t rs with
  | nil =>
    cases hrs
    exact ⟨s, rfl, hrel⟩
  | cons a as ih =>
    unfold replies at hrs
    obtain ⟨r, hr, hrest⟩ := Option.bind_eq_some_iff.mp hrs
    obtain ⟨rs', hrs', rfl⟩ := Option.map_eq_some_iff.mp hrest
    obtain ⟨s₁, hstep, hrel₁⟩ := h s t a r hrel hcond.1 hr
    obtain ⟨s', hreplies, hrel'⟩ := ih hrel₁ (hcond.2 _ hstep) hrs'
    refine ⟨s', ?_, hrel'⟩
    unfold replies
    simp [hstep, hreplies]

/-- A condition on the requests to a part of a machine follows from one on the requests to the
machine. -/
theorem requestsMeet_view {β : Type*} {part : τ → β → Option (ρ × τ)} {partCond : τ → β → Prop}
    {inv : σ → Prop} {f : α → β} (view : σ → τ)
    (h : ∀ s a, inv s → cond s a → partCond (view s) (f a) ∧
      ∀ r ∈ part (view s) (f a), ∃ t ∈ step s a, view t.2 = r.2 ∧ inv t.2)
    {s : σ} (hs : inv s) {as : List α} (hcond : RequestsMeet step cond s as) :
    RequestsMeet part partCond (view s) (as.map f) := by
  induction as generalizing s with
  | nil => trivial
  | cons a as ih =>
    obtain ⟨hfirst, hrest⟩ := h s a hs hcond.1
    refine ⟨hfirst, fun r hr => ?_⟩
    obtain ⟨t, ht, hview, hinv⟩ := hrest r hr
    rw [← hview]
    exact ih hinv (hcond.2 t ht)

/-- A quantity that each step keeps, up to what its request and its reply account for, is kept by
all requests together. -/
theorem balance_of_replies {ι : Type*} [AddCommMonoid ι] {inv : σ → Prop} (size : σ → ι)
    (put take : α → ρ → ι)
    (h : ∀ s a r s', inv s → step s a = some (r, s') →
      inv s' ∧ size s + put a r = size s' + take a r)
    {s : σ} (hs : inv s) {as : List α} {rs : List ρ × σ} (hrs : replies step s as = some rs) :
    inv rs.2 ∧ size s + ((as.zip rs.1).map fun e => put e.1 e.2).sum =
      size rs.2 + ((as.zip rs.1).map fun e => take e.1 e.2).sum := by
  induction as generalizing s rs with
  | nil =>
    cases hrs
    exact ⟨hs, by simp⟩
  | cons a as ih =>
    unfold replies at hrs
    obtain ⟨⟨r, s₁⟩, hr, hrest⟩ := Option.bind_eq_some_iff.mp hrs
    obtain ⟨rs', hrs', rfl⟩ := Option.map_eq_some_iff.mp hrest
    obtain ⟨hs₁, hfirst⟩ := h s a r s₁ hs hr
    obtain ⟨hs', hothers⟩ := ih hs₁ hrs'
    refine ⟨hs', ?_⟩
    simp only [List.zip_cons_cons, List.map_cons, List.sum_cons]
    calc size s + (put a r + ((as.zip rs'.1).map fun e => put e.1 e.2).sum)
        = size s₁ + ((as.zip rs'.1).map fun e => put e.1 e.2).sum + take a r := by
          rw [← add_assoc, hfirst, add_right_comm]
      _ = size rs'.2 + (take a r + ((as.zip rs'.1).map fun e => take e.1 e.2).sum) := by
          rw [hothers, add_assoc, add_comm (take a r)]

end

end Runs
