import Mathlib.Order.Defs.Unbundled
import Mathlib.Tactic

/-!
# Computations that can fail

An attempt over a state returns a value or fails, and what it did to the state
before it failed stays done. A preorder that every primitive step respects
relates the states before and after every attempt that is built from them.
-/

namespace Attempts

variable {σ τ α β : Type}

abbrev Attempt (σ α : Type) := OptionT (StateM σ) α

/-- The result, if there is one, and the state that is left. -/
def exec (x : Attempt σ α) (s : σ) : Option α × σ := x.run.run s

@[simp] theorem exec_pure (a : α) (s : σ) : exec (pure a) s = (some a, s) := rfl

@[simp] theorem exec_failure (s : σ) : exec (failure : Attempt σ α) s = (none, s) := rfl

@[simp] theorem exec_get (s : σ) : exec (get : Attempt σ σ) s = (some s, s) := rfl

@[simp] theorem exec_set (t s : σ) : exec (set t : Attempt σ PUnit) s = (some ⟨⟩, t) := rfl

@[simp] theorem exec_modify (f : σ → σ) (s : σ) :
    exec (modify f : Attempt σ PUnit) s = (some ⟨⟩, f s) := rfl

theorem exec_bind (x : Attempt σ α) (f : α → Attempt σ β) (s : σ) :
    exec (x >>= f) s =
      match exec x s with
      | (some a, t) => exec (f a) t
      | (none, t) => (none, t) := by
  simp only [exec, OptionT.run_bind, Option.elimM, StateT.run_bind]
  rcases x.run.run s with ⟨_ | a, t⟩ <;> rfl

theorem exec_bind_some {x : Attempt σ α} {s t : σ} {a : α} (h : exec x s = (some a, t))
    (f : α → Attempt σ β) : exec (x >>= f) s = exec (f a) t := by
  rw [exec_bind, h]

theorem exec_bind_none {x : Attempt σ α} {s t : σ} (h : exec x s = (none, t))
    (f : α → Attempt σ β) : exec (x >>= f) s = (none, t) := by
  rw [exec_bind, h]

/-- A sequence succeeds when both parts do. -/
theorem exec_bind_eq_some {x : Attempt σ α} {f : α → Attempt σ β} {s u : σ} {b : β} :
    exec (x >>= f) s = (some b, u) ↔
      ∃ a t, exec x s = (some a, t) ∧ exec (f a) t = (some b, u) := by
  rw [exec_bind]
  rcases exec x s with ⟨_ | a, t⟩
  · simp
  · simp

@[simp] theorem exec_map (g : α → β) (x : Attempt σ α) (s : σ) :
    exec (g <$> x) s = ((exec x s).1.map g, (exec x s).2) := by
  rw [map_eq_pure_bind, exec_bind]
  rcases exec x s with ⟨_ | a, t⟩ <;> rfl

/-- The state an attempt leaves, whether it succeeds or not. -/
def final (x : Attempt σ α) (s : σ) : σ := (exec x s).2

def ofOption : Option α → Attempt σ α
  | none => failure
  | some a => pure a

@[simp] theorem ofOption_none : (ofOption none : Attempt σ α) = failure := rfl

@[simp] theorem ofOption_some (a : α) : (ofOption (some a) : Attempt σ α) = pure a := rfl

def attempt (x : Attempt σ α) : Attempt σ (Option α) :=
  OptionT.mk fun s => (some (exec x s).1, (exec x s).2)

@[simp] theorem exec_attempt (x : Attempt σ α) (s : σ) :
    exec (attempt x) s = (some (exec x s).1, (exec x s).2) := rfl

/-- Change the state when the attempt fails, and fail. -/
def onFailure (x : Attempt σ α) (f : σ → σ) : Attempt σ α :=
  OptionT.mk fun s =>
    match exec x s with
    | (some a, t) => (some a, t)
    | (none, t) => (none, f t)

theorem exec_onFailure (x : Attempt σ α) (f : σ → σ) (s : σ) :
    exec (onFailure x f) s =
      match exec x s with
      | (some a, t) => (some a, t)
      | (none, t) => (none, f t) := rfl

def zoom (view : τ → σ) (update : τ → σ → τ) (x : Attempt σ α) : Attempt τ α :=
  OptionT.mk fun t => ((exec x (view t)).1, update t (exec x (view t)).2)

@[simp] theorem exec_zoom (view : τ → σ) (update : τ → σ → τ) (x : Attempt σ α) (t : τ) :
    exec (zoom view update x) t = ((exec x (view t)).1, update t (exec x (view t)).2) := rfl

def each (f : β → Attempt σ Unit) : List β → Attempt σ Unit
  | [] => pure ()
  | b :: bs => f b >>= fun _ => each f bs

/-- The results of one attempt for each element; it fails with the first that fails. -/
def collect (f : β → Attempt σ α) : List β → Attempt σ (List α)
  | [] => pure []
  | b :: bs => do
    let a ← f b
    let as ← collect f bs
    pure (a :: as)

/-- The attempt succeeds, and its result and the state it leaves satisfy `Q`. -/
def wp (x : Attempt σ α) (Q : α → σ → Prop) (s : σ) : Prop :=
  match exec x s with
  | (some a, t) => Q a t
  | (none, _) => False

section

variable {Q R : α → σ → Prop} {s : σ}

theorem wp_iff {x : Attempt σ α} : wp x Q s ↔ ∃ a t, exec x s = (some a, t) ∧ Q a t := by
  unfold wp
  rcases exec x s with ⟨_ | a, t⟩
  · simp
  · simp

theorem wp_of_exec {x : Attempt σ α} {a : α} {t : σ} (h : exec x s = (some a, t)) :
    wp x Q s ↔ Q a t := by
  unfold wp
  rw [h]

theorem exec_of_wp {x : Attempt σ α} {a : α} {t : σ} (h : wp x (fun b u => b = a ∧ u = t) s) :
    exec x s = (some a, t) := by
  obtain ⟨b, u, hexec, rfl, rfl⟩ := wp_iff.mp h
  exact hexec

@[simp] theorem wp_pure (a : α) : wp (pure a) Q s ↔ Q a s := Iff.rfl

@[simp] theorem wp_failure : wp (failure : Attempt σ α) Q s ↔ False := Iff.rfl

@[simp] theorem wp_get {Q : σ → σ → Prop} : wp (get : Attempt σ σ) Q s ↔ Q s s := Iff.rfl

@[simp] theorem wp_set {Q : PUnit → σ → Prop} (t : σ) :
    wp (set t : Attempt σ PUnit) Q s ↔ Q ⟨⟩ t := Iff.rfl

@[simp] theorem wp_bind (x : Attempt σ α) (f : α → Attempt σ β) (Q : β → σ → Prop) :
    wp (x >>= f) Q s ↔ wp x (fun a t => wp (f a) Q t) s := by
  unfold wp
  rw [exec_bind]
  rcases exec x s with ⟨_ | a, t⟩ <;> rfl

@[simp] theorem wp_map (g : α → β) (x : Attempt σ α) (Q : β → σ → Prop) :
    wp (g <$> x) Q s ↔ wp x (fun a t => Q (g a) t) s := by
  unfold wp
  rw [exec_map]
  rcases exec x s with ⟨_ | a, t⟩ <;> rfl

theorem wp_ite {p : Prop} [Decidable p] (x y : Attempt σ α) :
    wp (if p then x else y) Q s ↔ if p then wp x Q s else wp y Q s := by
  split_ifs <;> rfl

theorem wp_congr {x : Attempt σ α} (h : ∀ a t, Q a t ↔ R a t) : wp x Q s ↔ wp x R s := by
  rw [wp_iff, wp_iff]
  simp only [h]

end

/-- The attempt moves every state along the relation, whether it succeeds or not. -/
def Moves (r : σ → σ → Prop) (x : Attempt σ α) : Prop := ∀ s, r s (exec x s).2

section

variable {r : σ → σ → Prop}

theorem Moves.of_exec {x : Attempt σ α} (hx : Moves r x) {s t : σ} {o : Option α}
    (h : exec x s = (o, t)) : r s t := by
  have := hx s
  rwa [h] at this

theorem moves_modify {f : σ → σ} (h : ∀ s, r s (f s)) :
    Moves r (modify f : Attempt σ PUnit) := h

theorem Moves.map {x : Attempt σ α} (hx : Moves r x) (g : α → β) : Moves r (g <$> x) := by
  intro s
  rw [exec_map]
  exact hx s

theorem moves_ite {p : Prop} [Decidable p] {x y : Attempt σ α} (hx : Moves r x)
    (hy : Moves r y) : Moves r (if p then x else y) := by
  split_ifs
  · exact hx
  · exact hy

theorem Moves.attempt {x : Attempt σ α} (hx : Moves r x) : Moves r (attempt x) := hx

theorem Moves.zoom {q : τ → τ → Prop} {view : τ → σ} {update : τ → σ → τ} {x : Attempt σ α}
    (hx : Moves r x) (h : ∀ t s, r (view t) s → q t (update t s)) :
    Moves q (zoom view update x) :=
  fun t => h t _ (hx (view t))

variable [IsPreorder σ r]

theorem moves_pure (a : α) : Moves r (pure a : Attempt σ α) := fun s => refl_of r s

theorem moves_failure : Moves r (failure : Attempt σ α) := fun s => refl_of r s

theorem moves_get : Moves r (get : Attempt σ σ) := fun s => refl_of r s

theorem moves_ofOption (o : Option α) : Moves r (ofOption o : Attempt σ α) := by
  cases o with
  | none => exact moves_failure
  | some a => exact moves_pure a

theorem Moves.bind {x : Attempt σ α} {f : α → Attempt σ β} (hx : Moves r x)
    (hf : ∀ a, Moves r (f a)) : Moves r (x >>= f) := by
  intro s
  rw [exec_bind]
  rcases h : exec x s with ⟨_ | a, t⟩
  · exact hx.of_exec h
  · exact trans_of r (hx.of_exec h) (hf a t)

theorem Moves.onFailure {x : Attempt σ α} {f : σ → σ} (hx : Moves r x) (hf : ∀ s, r s (f s)) :
    Moves r (onFailure x f) := by
  intro s
  rw [exec_onFailure]
  rcases h : exec x s with ⟨_ | a, t⟩
  · exact trans_of r (hx.of_exec h) (hf t)
  · exact hx.of_exec h

theorem moves_each {f : β → Attempt σ Unit} (hf : ∀ b, Moves r (f b)) :
    ∀ bs : List β, Moves r (each f bs)
  | [] => moves_pure ()
  | b :: bs => (hf b).bind fun _ => moves_each hf bs

theorem moves_collect {f : β → Attempt σ α} (hf : ∀ b, Moves r (f b)) :
    ∀ bs : List β, Moves r (collect f bs)
  | [] => moves_pure []
  | b :: bs => (hf b).bind fun a => (moves_collect hf bs).bind fun as => moves_pure (a :: as)

end

/-- A property of the state stays true. -/
def Preserves (inv : σ → Prop) (s t : σ) : Prop := inv s → inv t

instance (inv : σ → Prop) : IsPreorder σ (Preserves inv) where
  refl _ := id
  trans _ _ _ hst htu hs := htu (hst hs)

end Attempts
