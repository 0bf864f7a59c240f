import Mathlib.Data.List.Nodup
import Mathlib.Order.Lattice
import Mathlib.Tactic

/-!
# Records of a history

A history lists values under keys, the newest first. An entry is a record when
it exceeds every earlier value of its key. Who keeps only the latest value of
every key can tell the records, and the records of one key never repeat a value.
-/

namespace Records

variable {κ V : Type*} [DecidableEq κ] [LinearOrder V]

/-- The greatest value of a key so far, at least `bot`. -/
def latest (bot : V) : List (κ × V) → κ → V
  | [], _ => bot
  | e :: log, k => if e.1 = k then max e.2 (latest bot log k) else latest bot log k

/-- The entries that exceed the latest value of their key, the newest first. -/
def records (bot : V) : List (κ × V) → List (κ × V)
  | [] => []
  | e :: log => if latest bot log e.1 < e.2 then e :: records bot log else records bot log

/-- An entry that exceeds `bot` and every earlier value of its key. -/
def IsRecord (bot : V) (log : List (κ × V)) (e : κ × V) : Prop :=
  ∃ newer older, log = newer ++ e :: older ∧ bot < e.2 ∧ ∀ f ∈ older, f.1 = e.1 → f.2 < e.2

variable {bot : V} {log : List (κ × V)}

@[simp] theorem latest_nil (k : κ) : latest bot ([] : List (κ × V)) k = bot := rfl

theorem latest_cons_self (k : κ) (v : V) :
    latest bot ((k, v) :: log) k = max v (latest bot log k) := by
  simp [latest]

theorem latest_lt_iff {k : κ} {v : V} :
    latest bot log k < v ↔ bot < v ∧ ∀ f ∈ log, f.1 = k → f.2 < v := by
  induction log with
  | nil => simp
  | cons e log ih =>
    rw [latest]
    split_ifs with he
    · simp only [max_lt_iff, ih, List.forall_mem_cons, he, forall_true_left]
      exact and_left_comm
    · simp only [ih, List.forall_mem_cons, he, false_implies, true_and]

/-- A key that does not occur has no value yet. -/
theorem latest_eq_bot {k : κ} (h : ∀ e ∈ log, e.1 ≠ k) : latest bot log k = bot := by
  induction log with
  | nil => rfl
  | cons e log ih =>
    rw [latest, if_neg (h e (by simp)), ih fun f hf => h f (by simp [hf])]

theorem latest_append {new : List (κ × V)} {k : κ} (h : ∀ e ∈ new, e.1 ≠ k) :
    latest bot (new ++ log) k = latest bot log k := by
  induction new with
  | nil => rfl
  | cons e new ih =>
    rw [List.cons_append, latest, if_neg (h e (by simp)), ih fun f hf => h f (by simp [hf])]

theorem isRecord_cons {e f : κ × V} :
    IsRecord bot (f :: log) e ↔ (e = f ∧ latest bot log f.1 < f.2) ∨ IsRecord bot log e := by
  constructor
  · rintro ⟨newer, older, heq, hbot, hlt⟩
    cases newer with
    | nil =>
      obtain ⟨rfl, rfl⟩ := List.cons_eq_cons.mp heq
      exact Or.inl ⟨rfl, latest_lt_iff.mpr ⟨hbot, hlt⟩⟩
    | cons g newer =>
      obtain ⟨rfl, rfl⟩ := List.cons_eq_cons.mp heq
      exact Or.inr ⟨newer, older, rfl, hbot, hlt⟩
  · rintro (⟨rfl, hlt⟩ | ⟨newer, older, rfl, h⟩)
    · exact ⟨[], log, rfl, latest_lt_iff.mp hlt⟩
    · exact ⟨f :: newer, older, rfl, h⟩

theorem mem_records {e : κ × V} : e ∈ records bot log ↔ IsRecord bot log e := by
  induction log with
  | nil => simp [records, IsRecord]
  | cons f log ih =>
    rw [isRecord_cons, records]
    split_ifs with h
    · simp [h, ih]
    · simp [h, ih]

theorem le_latest_of_mem_records {e : κ × V} (h : e ∈ records bot log) :
    e.2 ≤ latest bot log e.1 := by
  obtain ⟨newer, older, rfl, -⟩ := mem_records.mp h
  by_contra hlt
  exact lt_irrefl _ ((latest_lt_iff.mp (not_le.mp hlt)).2 e (by simp) rfl)

theorem nodup_records : (records bot log).Nodup := by
  induction log with
  | nil => exact List.nodup_nil
  | cons e log ih =>
    rw [records]
    split_ifs with h
    · exact List.nodup_cons.mpr ⟨fun hmem => (le_latest_of_mem_records hmem).not_gt h, ih⟩
    · exact ih

/-- The values of some records repeat only when two keys share one. -/
theorem nodup_values_iff (p : κ × V → Bool) :
    (((records bot log).filter p).map Prod.snd).Nodup ↔
      ∀ a b, IsRecord bot log a → IsRecord bot log b → p a → p b → a.2 = b.2 → a.1 = b.1 := by
  rw [List.nodup_map_iff_inj_on (nodup_records.filter p)]
  simp only [List.mem_filter, mem_records, and_imp]
  constructor
  · intro h a b ha hb hpa hpb hv
    rw [h a ha hpa b hb hpb hv]
  · intro h a ha hpa b hb hpb hv
    exact Prod.ext (h a b ha hb hpa hpb hv) hv

end Records
