import Mathlib.Data.List.Perm.Basic
import Mathlib.Data.List.Dedup
import Mathlib.Tactic

/-!
# Grouping a list by a key in one pass

The pass keeps one record for every key it has met. The first element with a key
starts its record and every later one is merged into it, so that the record of a
key is a fold over the elements with that key.
-/

namespace Grouping

variable {α β γ κ : Type*}

/-- Merge into the first record that matches, or append a new one. -/
def mergeOrAppend (p : β → Bool) (merge : β → β) (new : β) : List β → List β
  | [] => [new]
  | b :: l => if p b then merge b :: l else b :: mergeOrAppend p merge new l

/-- What the first element of a group and the merges of the others amount to. -/
def record (new : α → β) (merge : α → β → β) : List α → Option β
  | [] => none
  | a :: as => some (as.foldl (fun b a => merge a b) (new a))

section

variable [DecidableEq κ] (key : α → κ) (label : β → κ) (new : α → β) (merge : α → β → β)

def groupStep (l : List β) (a : α) : List β :=
  mergeOrAppend (fun b => label b = key a) (merge a) (new a) l

/-- The records of all groups, in the order of their first elements. -/
def group (as : List α) : List β := as.foldl (groupStep key label new merge) []

end

section

variable [DecidableEq κ] {label : β → κ} {f : β → β} {b : β} {k : κ}

theorem mem_map_mergeOrAppend (hf : ∀ b, label (f b) = label b) (hb : label b = k) (l : List β)
    (k' : κ) :
    k' ∈ (mergeOrAppend (fun b => label b = k) f b l).map label ↔ k' = k ∨ k' ∈ l.map label := by
  induction l with
  | nil => simp [mergeOrAppend, hb]
  | cons c l ih =>
    rw [mergeOrAppend]
    by_cases hc : label c = k
    · simp only [hc, decide_true, if_true, List.map_cons, hf, List.mem_cons]
      tauto
    · simp only [hc, decide_false, Bool.false_eq_true, if_false, List.map_cons, List.mem_cons, ih]
      tauto

theorem nodup_map_mergeOrAppend (hf : ∀ b, label (f b) = label b) (hb : label b = k) {l : List β}
    (h : (l.map label).Nodup) :
    ((mergeOrAppend (fun b => label b = k) f b l).map label).Nodup := by
  induction l with
  | nil => simp [mergeOrAppend]
  | cons c l ih =>
    rw [List.map_cons, List.nodup_cons] at h
    rw [mergeOrAppend]
    by_cases hc : label c = k
    · simp only [hc, decide_true, if_true, List.map_cons, hf, List.nodup_cons]
      exact ⟨hc ▸ h.1, h.2⟩
    · simp only [hc, decide_false, Bool.false_eq_true, if_false, List.map_cons, List.nodup_cons]
      refine ⟨?_, ih h.2⟩
      rw [mem_map_mergeOrAppend hf hb]
      rintro (hk | hk)
      · exact hc hk
      · exact h.1 hk

theorem find?_mergeOrAppend (hf : ∀ b, label (f b) = label b) (hb : label b = k) (l : List β)
    (k' : κ) :
    (mergeOrAppend (fun b => label b = k) f b l).find? (label · = k') =
      if k' = k then some (((l.find? (label · = k)).map f).getD b)
      else l.find? (label · = k') := by
  induction l with
  | nil =>
    by_cases hk : k' = k
    · simp [mergeOrAppend, hb, hk]
    · have hk' : ¬k = k' := fun h => hk h.symm
      simp [mergeOrAppend, hb, hk, hk']
  | cons c l ih =>
    rw [mergeOrAppend]
    by_cases hc : label c = k
    · by_cases hk : k' = k
      · simp [hc, hk, hf]
      · have hk' : ¬k = k' := fun h => hk h.symm
        simp [hc, hk, hk', hf]
    · simp only [hc, decide_false, Bool.false_eq_true, if_false, List.find?_cons, ih]
      by_cases hk : k' = k
      · simp [hc, hk]
      · by_cases hck : label c = k' <;> simp [hk, hck]

/-- What a map that respects the labels sees of one element. -/
theorem map_mergeOrAppend {p : β → Bool} {q : γ → Bool} {f : β → β} {f' : γ → γ} {new : β}
    (g : β → γ) {l : List β} (hp : ∀ b ∈ l, q (g b) = p b)
    (hf : ∀ b ∈ l, p b → g (f b) = f' (g b)) :
    (mergeOrAppend p f new l).map g = mergeOrAppend q f' (g new) (l.map g) := by
  induction l with
  | nil => rfl
  | cons b l ih =>
    simp only [mergeOrAppend, List.map_cons, hp b List.mem_cons_self]
    by_cases hb : p b
    · simp [hb, hf b List.mem_cons_self hb]
    · simp only [hb, Bool.false_eq_true, if_false, List.map_cons]
      rw [ih (fun c hc => hp c (List.mem_cons_of_mem _ hc))
        fun c hc => hf c (List.mem_cons_of_mem _ hc)]

theorem mem_mergeOrAppend {p : β → Bool} {f : β → β} {new c : β} {l : List β}
    (h : c ∈ mergeOrAppend p f new l) :
    c ∈ l ∨ (∃ b ∈ l, p b ∧ c = f b) ∨ c = new := by
  induction l with
  | nil => exact .inr (.inr (by simpa [mergeOrAppend] using h))
  | cons b l ih =>
    rw [mergeOrAppend] at h
    split_ifs at h with hp
    · rcases List.mem_cons.mp h with rfl | h
      · exact .inr (.inl ⟨b, List.mem_cons_self, hp, rfl⟩)
      · exact .inl (List.mem_cons_of_mem _ h)
    · rcases List.mem_cons.mp h with rfl | h
      · exact .inl List.mem_cons_self
      · rcases ih h with h | ⟨d, hd, hpd, rfl⟩ | rfl
        · exact .inl (List.mem_cons_of_mem _ h)
        · exact .inr (.inl ⟨d, List.mem_cons_of_mem _ hd, hpd, rfl⟩)
        · exact .inr (.inr rfl)

end

section

variable {new : α → β} {merge : α → β → β}

theorem record_concat (as : List α) (a : α) :
    record new merge (as ++ [a]) =
      some (((record new merge as).map (merge a)).getD (new a)) := by
  cases as with
  | nil => rfl
  | cons b as => simp [record]

theorem record_eq_none {as : List α} : record new merge as = none ↔ as = [] := by
  cases as <;> simp [record]

theorem field_foldl {part : β → γ} {op : γ → α → γ} (h : ∀ a b, part (merge a b) = op (part b) a)
    (as : List α) (b : β) : part (as.foldl (fun b a => merge a b) b) = as.foldl op (part b) := by
  induction as generalizing b with
  | nil => rfl
  | cons a as ih => rw [List.foldl_cons, List.foldl_cons, ih, h]

end

section

variable [DecidableEq κ] {key : α → κ} {label : β → κ} {new : α → β} {merge : α → β → β}

theorem group_concat (as : List α) (a : α) :
    group key label new merge (as ++ [a]) =
      groupStep key label new merge (group key label new merge as) a := by
  rw [group, List.foldl_append]
  rfl

/-- What starting and merging a record keep holds of every record. -/
theorem forall_mem_group {P : β → Prop} {as : List α} (hnew : ∀ a ∈ as, P (new a))
    (hmerge : ∀ a b, P b → P (merge a b)) : ∀ b ∈ group key label new merge as, P b := by
  induction as using List.reverseRecOn with
  | nil => exact List.forall_mem_nil _
  | append_singleton as a ih =>
    intro b hb
    have ih := ih fun a ha => hnew a (List.mem_append_left _ ha)
    rw [group_concat, groupStep] at hb
    rcases mem_mergeOrAppend hb with hb | ⟨c, hc, -, rfl⟩ | rfl
    · exact ih b hb
    · exact hmerge a c (ih c hc)
    · exact hnew a (by simp)

variable (hnew : ∀ a, label (new a) = key a) (hmerge : ∀ a b, label (merge a b) = label b)

include hnew hmerge

theorem nodup_group (as : List α) : ((group key label new merge as).map label).Nodup := by
  induction as using List.reverseRecOn with
  | nil => exact List.nodup_nil
  | append_singleton as a ih =>
    rw [group_concat]
    exact nodup_map_mergeOrAppend (hmerge a) (hnew a) ih

theorem find?_group (as : List α) (k : κ) :
    (group key label new merge as).find? (label · = k) =
      record new merge (as.filter (key · = k)) := by
  induction as using List.reverseRecOn with
  | nil => rfl
  | append_singleton as a ih =>
    rw [group_concat, groupStep, find?_mergeOrAppend (hmerge a) (hnew a), List.filter_append]
    by_cases hk : k = key a
    · subst hk
      have hfilter : [a].filter (key · = key a) = [a] := by simp
      rw [ih, if_pos rfl, hfilter, record_concat]
    · have hk' : ¬key a = k := fun h => hk h.symm
      have hfilter : [a].filter (key · = k) = [] := by simp [hk']
      rw [if_neg hk, ih, hfilter, List.append_nil]

theorem mem_map_group (as : List α) (k : κ) :
    k ∈ (group key label new merge as).map label ↔ k ∈ as.map key := by
  induction as using List.reverseRecOn with
  | nil => rfl
  | append_singleton as a ih =>
    rw [group_concat, groupStep, mem_map_mergeOrAppend (hmerge a) (hnew a), ih]
    simp only [List.map_append, List.map_singleton, List.mem_append, List.mem_singleton]
    tauto

theorem length_group (as : List α) :
    (group key label new merge as).length = (as.map key).dedup.length := by
  have hperm : ((group key label new merge as).map label).Perm (as.map key).dedup := by
    rw [List.perm_ext_iff_of_nodup (nodup_group hnew hmerge as) (List.nodup_dedup _)]
    intro k
    rw [mem_map_group hnew hmerge, List.mem_dedup]
  rw [← hperm.length_eq, List.length_map]

end

/-- With distinct labels a record is found wherever it stands. -/
theorem find?_eq_some_iff [DecidableEq κ] {label : β → κ} {l : List β} (h : (l.map label).Nodup)
    {k : κ} {b : β} : l.find? (label · = k) = some b ↔ b ∈ l ∧ label b = k := by
  constructor
  · intro hb
    exact ⟨List.mem_of_find?_eq_some hb, by simpa using List.find?_some hb⟩
  · rintro ⟨hb, rfl⟩
    obtain ⟨c, hc⟩ : ∃ c, l.find? (label · = label b) = some c :=
      Option.isSome_iff_exists.mp (List.find?_isSome.mpr ⟨b, hb, by simp⟩)
    have hlabel : label c = label b := by simpa using List.find?_some hc
    rw [hc, List.inj_on_of_nodup_map h (List.mem_of_find?_eq_some hc) hb hlabel]

theorem find?_perm [DecidableEq κ] {label : β → κ} {l l' : List β} (h : l.Perm l')
    (hnodup : (l.map label).Nodup) (k : κ) :
    l.find? (label · = k) = l'.find? (label · = k) := by
  ext b
  rw [find?_eq_some_iff hnodup, find?_eq_some_iff ((h.map label).nodup_iff.mp hnodup), h.mem_iff]

/-- A commutative and associative merge of a group does not depend on which
element of the group comes first. -/
theorem foldl_perm [DecidableEq α] {op : α → α → α} (hcomm : ∀ a b, op a b = op b a)
    (hassoc : ∀ a b c, op (op a b) c = op a (op b c)) {a b : α} {as bs : List α}
    (h : (a :: as).Perm (b :: bs)) : as.foldl op a = bs.foldl op b := by
  have : Std.Commutative op := ⟨hcomm⟩
  have : Std.Associative op := ⟨hassoc⟩
  by_cases hab : a = b
  · subst hab
    exact (List.perm_cons a).mp h |>.foldl_op_eq
  have hmem : b ∈ as := by
    have hb : b ∈ a :: as := h.mem_iff.mpr List.mem_cons_self
    rcases List.mem_cons.mp hb with rfl | hb
    · exact absurd rfl hab
    · exact hb
  have has : as.Perm (b :: as.erase b) := List.perm_cons_erase hmem
  have hbs : bs.Perm (a :: as.erase b) := by
    have hswap : (b :: bs).Perm (b :: a :: as.erase b) :=
      h.symm.trans ((has.cons a).trans (List.Perm.swap b a _))
    exact (List.perm_cons b).mp hswap
  calc as.foldl op a = (b :: as.erase b).foldl op a := has.foldl_op_eq
    _ = (a :: as.erase b).foldl op b := by rw [List.foldl_cons, List.foldl_cons, hcomm]
    _ = bs.foldl op b := hbs.foldl_op_eq.symm

end Grouping
