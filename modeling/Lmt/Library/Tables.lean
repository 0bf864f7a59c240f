import Lmt.Library.Runs
import Mathlib.Data.List.Nodup

/-!
# Tables with automatic ids and tables with unique keys

The rows of an automatic table are numbered when they are inserted, and no
number is given twice. A keyed table refuses a second row with the same key.
Both carry these facts, so that every table there is has them.
-/

structure AutoTable (α : Type*) where
  rows : List (ℕ × α)
  next : ℕ
  next_pos : 0 < next
  id_lt_next : ∀ r ∈ rows, r.1 < next
  nodup_ids : (rows.map Prod.fst).Nodup

namespace AutoTable

variable {α : Type*}

def empty : AutoTable α := ⟨[], 1, by simp, by simp, by simp⟩

instance : Inhabited (AutoTable α) := ⟨empty⟩

def insert (t : AutoTable α) (a : α) : AutoTable α where
  rows := t.rows ++ [(t.next, a)]
  next := t.next + 1
  next_pos := by omega
  id_lt_next r hr := by
    rcases List.mem_append.mp hr with hr | hr
    · have := t.id_lt_next r hr
      omega
    · rw [List.mem_singleton.mp hr]
      omega
  nodup_ids := by
    rw [List.map_append, List.nodup_append]
    refine ⟨t.nodup_ids, by simp, ?_⟩
    rintro i hi j hj rfl
    obtain ⟨r, hr, rfl⟩ := List.mem_map.mp hi
    have := t.id_lt_next r hr
    simp at hj
    omega

@[simp] theorem rows_empty : (empty : AutoTable α).rows = [] := rfl

@[simp] theorem rows_insert (t : AutoTable α) (a : α) :
    (t.insert a).rows = t.rows ++ [(t.next, a)] := rfl

@[simp] theorem next_insert (t : AutoTable α) (a : α) : (t.insert a).next = t.next + 1 := rfl

theorem eq_of_mem {t : AutoTable α} {i : ℕ} {a b : α} (ha : (i, a) ∈ t.rows)
    (hb : (i, b) ∈ t.rows) : a = b :=
  congrArg Prod.snd (List.inj_on_of_nodup_map t.nodup_ids ha hb rfl)

end AutoTable

structure KeyedTable (κ ρ : Type*) where
  rows : List (κ × ρ)
  nodup_keys : (rows.map Prod.fst).Nodup

namespace KeyedTable

variable {κ ρ : Type*}

def empty : KeyedTable κ ρ := ⟨[], by simp⟩

instance : Inhabited (KeyedTable κ ρ) := ⟨empty⟩

def keys (t : KeyedTable κ ρ) : List κ := t.rows.map Prod.fst

@[simp] theorem rows_empty : (empty : KeyedTable κ ρ).rows = [] := rfl

@[simp] theorem keys_empty : (empty : KeyedTable κ ρ).keys = [] := rfl

variable [DecidableEq κ]

def insert? (t : KeyedTable κ ρ) (k : κ) (v : ρ) : Option (KeyedTable κ ρ) :=
  if h : k ∈ t.keys then none
  else
    some ⟨t.rows ++ [(k, v)], by
      rw [List.map_append]
      refine List.nodup_append.mpr ⟨t.nodup_keys, by simp, fun i hi j hj hij => h ?_⟩
      rw [hij, List.mem_singleton.mp hj] at hi
      exact hi⟩

def find? (t : KeyedTable κ ρ) (k : κ) : Option ρ := t.rows.lookup k

@[simp] theorem find?_empty (k : κ) : (empty : KeyedTable κ ρ).find? k = none := rfl

theorem insert?_eq_none {t : KeyedTable κ ρ} {k : κ} {v : ρ} :
    t.insert? k v = none ↔ k ∈ t.keys := by
  simp [insert?]

theorem insert?_eq_some {t u : KeyedTable κ ρ} {k : κ} {v : ρ} :
    t.insert? k v = some u ↔ k ∉ t.keys ∧ u.rows = t.rows ++ [(k, v)] := by
  rw [insert?]
  split_ifs with h
  · simp [h]
  · cases u
    simp [h, eq_comm]

theorem find?_eq_some {t : KeyedTable κ ρ} {k : κ} {v : ρ} :
    t.find? k = some v ↔ (k, v) ∈ t.rows := by
  obtain ⟨rows, hnodup⟩ := t
  simp only [find?]
  induction rows with
  | nil => simp
  | cons r rows ih =>
    obtain ⟨i, w⟩ := r
    rw [List.map_cons, List.nodup_cons] at hnodup
    have ih := ih hnodup.2
    by_cases hk : k = i
    · subst hk
      have hnot : (k, v) ∉ rows := fun h => hnodup.1 (List.mem_map.mpr ⟨_, h, rfl⟩)
      simp [hnot, eq_comm]
    · have hbeq : (k == i) = false := by simpa using hk
      rw [List.lookup_cons, hbeq]
      simpa [hk] using ih

theorem find?_eq_none {t : KeyedTable κ ρ} {k : κ} : t.find? k = none ↔ k ∉ t.keys := by
  constructor
  · intro h hk
    obtain ⟨⟨_, v⟩, hr, rfl⟩ := List.mem_map.mp hk
    rw [find?_eq_some.mpr hr] at h
    cases h
  · intro h
    cases hf : t.find? k with
    | none => rfl
    | some v => exact absurd (List.mem_map.mpr ⟨_, find?_eq_some.mp hf, rfl⟩) h

theorem find?_of_insert? {t u : KeyedTable κ ρ} {k : κ} {v : ρ} (h : t.insert? k v = some u)
    (i : κ) : u.find? i = if i = k then some v else t.find? i := by
  obtain ⟨hk, hu⟩ := insert?_eq_some.mp h
  have hmem (w : ρ) : u.find? i = some w ↔ (if i = k then some v else t.find? i) = some w := by
    rw [find?_eq_some, hu, List.mem_append, List.mem_singleton, Prod.mk.injEq]
    split_ifs with hi
    · subst hi
      have hnot : (i, w) ∉ t.rows := fun hm => hk (List.mem_map.mpr ⟨_, hm, rfl⟩)
      simp [hnot, eq_comm]
    · simp [hi, find?_eq_some]
  exact Option.ext hmem

/-- Delete the row of a key, if there is one, and insert a new row. -/
def replace (t : KeyedTable κ ρ) (k : κ) (v : ρ) : KeyedTable κ ρ where
  rows := t.rows.filter (·.1 ≠ k) ++ [(k, v)]
  nodup_keys := by
    rw [List.map_append, List.nodup_append]
    refine ⟨t.nodup_keys.sublist (List.filter_sublist.map _), by simp, fun i hi j hj hij => ?_⟩
    obtain ⟨r, hr, rfl⟩ := List.mem_map.mp hi
    have hne : r.1 ≠ k := by simpa using (List.mem_filter.mp hr).2
    simp at hj
    exact hne (hij.trans hj)

def replaceAll (t : KeyedTable κ ρ) (l : List (κ × ρ)) : KeyedTable κ ρ :=
  l.foldl (fun t r => t.replace r.1 r.2) t

theorem find?_replace (t : KeyedTable κ ρ) (k : κ) (v : ρ) (i : κ) :
    (t.replace k v).find? i = if i = k then some v else t.find? i := by
  have hmem (w : ρ) :
      (t.replace k v).find? i = some w ↔ (if i = k then some v else t.find? i) = some w := by
    rw [find?_eq_some, replace, List.mem_append, List.mem_filter, List.mem_singleton, Prod.mk.injEq]
    split_ifs with hi
    · simp [hi, eq_comm]
    · simp [hi, find?_eq_some]
  exact Option.ext hmem

theorem replaceAll_append (t : KeyedTable κ ρ) (l m : List (κ × ρ)) :
    t.replaceAll (l ++ m) = (t.replaceAll l).replaceAll m := List.foldl_append

/-- With different keys, each new row is found, and the rows of other keys stay. -/
theorem find?_replaceAll {l : List (κ × ρ)} (hl : (l.map Prod.fst).Nodup) (t : KeyedTable κ ρ)
    (i : κ) : (t.replaceAll l).find? i = (l.lookup i).or (t.find? i) := by
  induction l generalizing t with
  | nil => rfl
  | cons r l ih =>
    obtain ⟨k, v⟩ := r
    rw [List.map_cons, List.nodup_cons] at hl
    rw [replaceAll, List.foldl_cons]
    change ((t.replace k v).replaceAll l).find? i = _
    rw [ih hl.2, find?_replace, List.lookup_cons]
    by_cases hi : i = k
    · subst hi
      have hnone : l.lookup i = none := by
        rw [List.lookup_eq_none_iff]
        intro r hr
        have hne : i ≠ r.1 := fun h => hl.1 (List.mem_map.mpr ⟨r, hr, h.symm⟩)
        simpa using hne
      simp [hnone]
    · have hbeq : (i == k) = false := by simpa using hi
      rw [if_neg hi, hbeq]

theorem rows_replaceAll {l : List (κ × ρ)} (hl : (l.map Prod.fst).Nodup) {t : KeyedTable κ ρ}
    (h : ∀ r ∈ l, r.1 ∉ t.keys) : (t.replaceAll l).rows = t.rows ++ l := by
  induction l generalizing t with
  | nil => simp [replaceAll]
  | cons r l ih =>
    rw [List.map_cons, List.nodup_cons] at hl
    have hfilter : t.rows.filter (·.1 ≠ r.1) = t.rows := by
      refine List.filter_eq_self.mpr fun s hs => ?_
      have hne : s.1 ≠ r.1 := fun heq =>
        h r List.mem_cons_self (heq ▸ List.mem_map.mpr ⟨s, hs, rfl⟩)
      simpa using hne
    have hrows : (t.replace r.1 r.2).rows = t.rows ++ [r] := congrArg (· ++ [r]) hfilter
    have hnew : ∀ s ∈ l, s.1 ∉ (t.replace r.1 r.2).keys := by
      intro s hs hmem
      rw [keys, hrows, List.map_append, List.mem_append] at hmem
      rcases hmem with hmem | hmem
      · exact h s (List.mem_cons_of_mem _ hs) hmem
      · rw [List.map_singleton, List.mem_singleton] at hmem
        exact hl.1 (List.mem_map.mpr ⟨s, hs, hmem⟩)
    change ((t.replace r.1 r.2).replaceAll l).rows = _
    rw [ih hl.2 hnew, hrows, List.append_assoc]
    rfl

theorem mem_keys_iff {t : KeyedTable κ ρ} {k : κ} : k ∈ t.keys ↔ (t.find? k).isSome := by
  rw [Option.isSome_iff_ne_none, ne_eq, find?_eq_none, not_not]

theorem filter_key (t : KeyedTable κ ρ) (k : κ) :
    t.rows.filter (·.1 = k) = ((t.find? k).map (Prod.mk k)).toList := by
  have hnodup : (t.rows.filter (·.1 = k)).Nodup := (List.Nodup.of_map _ t.nodup_keys).filter _
  have hmem (r : κ × ρ) : r ∈ t.rows.filter (·.1 = k) ↔ r.1 = k ∧ t.find? k = some r.2 := by
    rw [List.mem_filter, decide_eq_true_iff, find?_eq_some, and_comm]
    exact and_congr_right fun h => by rw [← h]
  cases hfind : t.find? k with
  | none =>
    refine List.eq_nil_iff_forall_not_mem.mpr fun r hr => ?_
    rw [hmem, hfind] at hr
    cases hr.2
  | some v =>
    refine List.perm_singleton.mp ((List.perm_ext_iff_of_nodup hnodup (List.nodup_singleton _)).mpr
      fun r => ?_)
    rw [hmem, hfind, Option.some_inj, List.mem_singleton, Prod.ext_iff, eq_comm (a := v)]

/-- A run of steps that write the same row under a key, if they write any. -/
theorem find?_run {α : Type*} {step : KeyedTable κ ρ → α → KeyedTable κ ρ} {writes : α → κ → Prop}
    {row : κ → ρ} [∀ a k, Decidable (writes a k)]
    (h : ∀ t a k, (step t a).find? k = if writes a k then some (row k) else t.find? k)
    (t : KeyedTable κ ρ) (as : List α) (k : κ) :
    (Runs.run step t as).find? k = if ∃ a ∈ as, writes a k then some (row k) else t.find? k :=
  Runs.view_run (fun (t : KeyedTable κ ρ) k => t.find? k) h t as k

def deleteWhere (t : KeyedTable κ ρ) (p : κ → Bool) : KeyedTable κ ρ where
  rows := t.rows.filter fun r => !p r.1
  nodup_keys := t.nodup_keys.sublist (List.filter_sublist.map _)

theorem exists_insert?_deleteWhere (t : KeyedTable κ ρ) {p : κ → Bool} {k : κ} (hk : p k = true)
    (v : ρ) : ∃ u, (t.deleteWhere p).insert? k v = some u ∧
      u.rows = t.rows.filter (fun r => !p r.1) ++ [(k, v)] := by
  have hnew : k ∉ (t.deleteWhere p).keys := by
    intro hmem
    obtain ⟨r, hr, rfl⟩ := List.mem_map.mp hmem
    have := (List.mem_filter.mp hr).2
    simp [hk] at this
  obtain ⟨u, hu⟩ := Option.ne_none_iff_exists'.mp (mt (insert?_eq_none (v := v)).mp hnew)
  exact ⟨u, hu, (insert?_eq_some.mp hu).2⟩

end KeyedTable
