import Mathlib.Data.List.Basic
import Mathlib.Tactic

/-!
# Texts made of separated fields

A record is a list of fields, each a nonempty text without the separator. It is
written either with the separator after every field or with the separator
between the fields. Cutting such a text at an arbitrary place keeps a whole
number of fields and a part of the next one, which is what a reader of a
truncated record sees.
-/

namespace SeparatedFields

variable {α : Type*}

/-- A nonempty text without the separator. -/
def IsField (sep : α) (f : List α) : Prop := f ≠ [] ∧ sep ∉ f

theorem IsField.ne_nil {sep : α} {f : List α} (h : IsField sep f) : f ≠ [] := h.1

theorem IsField.sep_notMem {sep : α} {f : List α} (h : IsField sep f) : sep ∉ f := h.2

def terminate (sep : α) (fs : List (List α)) : List α := fs.flatMap fun f => f ++ [sep]

def joined (sep : α) : List (List α) → List α
  | [] => []
  | [f] => f
  | f :: g :: fs => f ++ sep :: joined sep (g :: fs)

@[simp] theorem terminate_nil (sep : α) : terminate sep [] = [] := rfl

@[simp] theorem terminate_cons (sep : α) (f : List α) (fs : List (List α)) :
    terminate sep (f :: fs) = f ++ sep :: terminate sep fs := by
  simp [terminate]

@[simp] theorem terminate_append (sep : α) (fs gs : List (List α)) :
    terminate sep (fs ++ gs) = terminate sep fs ++ terminate sep gs := by
  simp [terminate]

theorem joined_concat (sep : α) (fs : List (List α)) (f : List α) :
    joined sep (fs ++ [f]) = terminate sep fs ++ f := by
  induction fs with
  | nil => rfl
  | cons g gs ih =>
    cases gs with
    | nil => simp [joined]
    | cons h hs => simpa [joined] using ih

theorem terminate_eq_joined (sep : α) {fs : List (List α)} (h : fs ≠ []) :
    terminate sep fs = joined sep fs ++ [sep] := by
  obtain ⟨gs, g, rfl⟩ := List.eq_nil_or_concat fs |>.resolve_left h
  simp [List.concat_eq_append, joined_concat]

theorem joined_append (sep : α) (fs : List (List α)) {gs : List (List α)} (h : gs ≠ []) :
    joined sep (fs ++ gs) = terminate sep fs ++ joined sep gs := by
  obtain ⟨hs, g, rfl⟩ := List.eq_nil_or_concat gs |>.resolve_left h
  simp only [List.concat_eq_append]
  rw [← List.append_assoc, joined_concat, joined_concat, terminate_append, List.append_assoc]

theorem terminate_flatten (sep : α) (recs : List (List (List α))) :
    terminate sep recs.flatten = recs.flatMap (terminate sep) := by
  induction recs with
  | nil => rfl
  | cons r recs ih => rw [List.flatten_cons, terminate_append, ih, List.flatMap_cons]

theorem terminate_ne_nil (sep : α) {fs : List (List α)} (h : fs ≠ []) :
    terminate sep fs ≠ [] := by
  rw [terminate_eq_joined sep h]
  simp

theorem count_terminate [DecidableEq α] (sep : α) {fs : List (List α)}
    (h : ∀ f ∈ fs, sep ∉ f) : (terminate sep fs).count sep = fs.length := by
  induction fs with
  | nil => rfl
  | cons f fs ih =>
    have hf : f.count sep = 0 := List.count_eq_zero.mpr (h f (by simp))
    have ih := ih fun g hg => h g (by simp [hg])
    simp [List.count_append, hf, ih]

theorem count_joined [DecidableEq α] (sep : α) {fs : List (List α)} (hne : fs ≠ [])
    (h : ∀ f ∈ fs, sep ∉ f) : (joined sep fs).count sep + 1 = fs.length := by
  have hc := count_terminate sep h
  rwa [terminate_eq_joined sep hne, List.count_append, List.count_singleton_self] at hc

section

variable [DecidableEq α]

/-- The fields of a text, which may be empty; a separator at the end does not open
another one. -/
def fieldsOf (sep : α) (s : List α) : List (List α) :=
  if (s.splitOn sep).getLast? = some [] then (s.splitOn sep).dropLast else s.splitOn sep

def lastField (q : List α) : List (List α) := if q = [] then [] else [q]

theorem splitOn_terminate {sep : α} {fs : List (List α)} {q : List α} (h : ∀ f ∈ fs, sep ∉ f)
    (hq : sep ∉ q) : (terminate sep fs ++ q).splitOn sep = fs ++ [q] := by
  induction fs with
  | nil => exact List.splitOn_eq_singleton hq
  | cons f fs ih =>
    rw [terminate_cons, List.append_assoc, List.cons_append,
      List.splitOn_append_cons_self_of_not_mem (h f List.mem_cons_self),
      ih fun g hg => h g (List.mem_cons_of_mem _ hg)]
    rfl

theorem fieldsOf_terminate {sep : α} {fs : List (List α)} {q : List α} (h : ∀ f ∈ fs, sep ∉ f)
    (hq : sep ∉ q) : fieldsOf sep (terminate sep fs ++ q) = fs ++ lastField q := by
  unfold fieldsOf lastField
  rw [splitOn_terminate h hq, List.getLast?_concat]
  by_cases hnil : q = []
  · rw [hnil, if_pos rfl, if_pos rfl, List.dropLast_concat, List.append_nil]
  · rw [if_neg (by simpa using hnil), if_neg hnil]

theorem notMem_of_mem_fieldsOf {sep : α} {fs : List (List α)} {q f : List α}
    (h : ∀ f ∈ fs, sep ∉ f) (hq : sep ∉ q) (hf : f ∈ fieldsOf sep (terminate sep fs ++ q)) :
    sep ∉ f := by
  rw [fieldsOf_terminate h hq, List.mem_append, lastField] at hf
  rcases hf with hf | hf
  · exact h f hf
  · split_ifs at hf
    · simp at hf
    · rwa [List.mem_singleton.mp hf]

/-- Every text is some terminated fields and what comes after the last separator. -/
theorem exists_eq_terminate (sep : α) (s : List α) :
    ∃ fs q, s = terminate sep fs ++ q ∧ (∀ f ∈ fs, sep ∉ f) ∧ sep ∉ q := by
  induction s with
  | nil => exact ⟨[], [], rfl, by simp, by simp⟩
  | cons c s ih =>
    obtain ⟨fs, q, rfl, hfs, hq⟩ := ih
    by_cases hc : c = sep
    · refine ⟨[] :: fs, q, ?_, ?_, hq⟩
      · rw [hc, terminate_cons]
        rfl
      · exact List.forall_mem_cons.mpr ⟨List.not_mem_nil, hfs⟩
    · have hne : ¬sep = c := fun h => hc h.symm
      cases fs with
      | nil =>
        refine ⟨[], c :: q, rfl, by simp, ?_⟩
        rw [List.mem_cons, not_or]
        exact ⟨hne, hq⟩
      | cons f fs =>
        refine ⟨(c :: f) :: fs, q, ?_, ?_, hq⟩
        · rw [terminate_cons, terminate_cons]
          rfl
        · rw [List.forall_mem_cons] at hfs ⊢
          rw [List.mem_cons, not_or]
          exact ⟨⟨hne, hfs.1⟩, hfs.2⟩

end

/-- A prefix of an append either stops inside the first part or contains it. -/
theorem prefix_append_inside_or_past {p a b : List α} (h : p <+: a ++ b) :
    p <+: a ∨ ∃ q, p = a ++ q ∧ q <+: b := by
  rcases le_total p.length a.length with hl | hl
  · exact Or.inl (List.prefix_of_prefix_length_le h (List.prefix_append a b) hl)
  · obtain ⟨q, rfl⟩ := List.prefix_of_prefix_length_le (List.prefix_append a b) h hl
    exact Or.inr ⟨q, rfl, (List.prefix_append_right_inj a).mp h⟩

/-- A prefix of a terminated record keeps some whole fields and a prefix of the
next one, or it is the whole record. -/
theorem prefix_terminate {sep : α} {fs : List (List α)} {p : List α}
    (h : p <+: terminate sep fs) :
    p = terminate sep fs ∨
      ∃ gs f hs q, fs = gs ++ f :: hs ∧ p = terminate sep gs ++ q ∧ q <+: f := by
  induction fs generalizing p with
  | nil => exact Or.inl (List.prefix_nil.mp h)
  | cons f fs ih =>
    rw [terminate_cons] at h
    rcases prefix_append_inside_or_past h with hp | ⟨q, rfl, hq⟩
    · exact Or.inr ⟨[], f, fs, p, rfl, rfl, hp⟩
    · rcases List.prefix_cons_iff.mp hq with rfl | ⟨t, rfl, ht⟩
      · exact Or.inr ⟨[], f, fs, f, rfl, by simp, List.prefix_rfl⟩
      · rcases ih ht with rfl | ⟨gs, g, hs, q, rfl, rfl, hg⟩
        · exact Or.inl (by simp)
        · exact Or.inr ⟨f :: gs, g, hs, q, by simp, by simp, hg⟩

end SeparatedFields
