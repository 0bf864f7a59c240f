import Mathlib.Data.List.TakeWhile
import Lmt.Library.SeparatedFields
import Lmt.Library.FormattedText

/-!
# Field grouping of `util.c`

`strskip` and `strskipcpy` walk over a text of separated fields. A pointer into
the text is the part of the text it points to, and `NULL` is `none`. The loop
that calls `strskipcpy` until it returns `NULL` occurs in every decoder; it is
run on fuel and `strskipcpyAll_cons` shows that the length of the text suffices.
-/

namespace Lmt

open FormattedText SeparatedFields

def strchr (s : Text) (c : Char) : Option Text :=
  match s.dropWhile (· != c) with
  | [] => none
  | d :: t => some (d :: t)

/-- The text just past `n` fields; `none` when there are fewer. -/
def strskip : Text → ℕ → Char → Option Text
  | s, 0, _ => some s
  | [], _ + 1, _ => none
  | c :: s, n + 1, sep =>
    match strchr (c :: s) sep with
    | some p => strskip (p.drop 1) n sep
    | none => strskip [] n sep

/-- How far `strskip` goes; 0 when it fails. -/
def skippedLength (s : Text) (n : ℕ) (sep : Char) : ℕ :=
  match strskip s n sep with
  | some p => s.length - p.length
  | none => 0

/-- A copy of the next `n` fields without their trailing separator, and the
text after them. -/
def strskipcpy (s : Text) (n : ℕ) (sep : Char) : Option (Text × Text) :=
  let len := skippedLength s n sep
  if 0 < len then
    some (if s[len - 1]? = some sep then s.take (len - 1) else s.take len, s.drop len)
  else none

def strappendfield (s1 s2 : Text) (sep : Char) : Text := s1 ++ sep :: s2

/-- `while ((cpy = strskipcpy (&s, n, sep))) list_append (l, cpy);` -/
def strskipcpyLoop (n : ℕ) (sep : Char) : ℕ → Text → List Text × Text
  | 0, s => ([], s)
  | fuel + 1, s =>
    match strskipcpy s n sep with
    | none => ([], s)
    | some (cpy, rest) =>
      let r := strskipcpyLoop n sep fuel rest
      (cpy :: r.1, r.2)

/-- All groups of `n` fields, and the text that is left. -/
def strskipcpyAll (n : ℕ) (sep : Char) (s : Text) : List Text × Text :=
  strskipcpyLoop n sep s.length s

theorem strchr_append {f : Text} {sep : Char} (h : sep ∉ f) (rest : Text) :
    strchr (f ++ sep :: rest) sep = some (sep :: rest) := by
  have hf : ∀ c ∈ f, (c != sep) = true := fun c hc => by
    simpa using fun he : c = sep => h (he ▸ hc)
  rw [strchr, dropWhile_append_stop hf (by simp)]

theorem strchr_eq_none {f : Text} {sep : Char} (h : sep ∉ f) : strchr f sep = none := by
  have hf : ∀ c ∈ f, (c != sep) = true := fun c hc => by
    simpa using fun he : c = sep => h (he ▸ hc)
  simp [strchr, List.dropWhile_eq_nil_iff.mpr hf]

@[simp] theorem strskip_zero (s : Text) (sep : Char) : strskip s 0 sep = some s := by
  cases s <;> rfl

@[simp] theorem strskip_nil (n : ℕ) (sep : Char) : strskip [] (n + 1) sep = none := rfl

theorem strskip_field {f : Text} {sep : Char} (h : sep ∉ f) (rest : Text) (n : ℕ) :
    strskip (f ++ sep :: rest) (n + 1) sep = strskip rest n sep := by
  obtain ⟨c, t, hct⟩ : ∃ c t, f ++ sep :: rest = c :: t := by
    cases f <;> simp
  rw [hct, strskip, ← hct, strchr_append h]
  rfl

/-- The last field may lack its separator, but it may not be empty. -/
theorem strskip_last {f : Text} {sep : Char} (hne : f ≠ []) (h : sep ∉ f) (n : ℕ) :
    strskip f (n + 1) sep = strskip [] n sep := by
  obtain ⟨c, t, rfl⟩ := List.exists_cons_of_ne_nil hne
  rw [strskip, strchr_eq_none h]

theorem strskip_terminate {sep : Char} {fs : List Text} (h : ∀ f ∈ fs, sep ∉ f) (rest : Text)
    (n : ℕ) : strskip (terminate sep fs ++ rest) (fs.length + n) sep = strskip rest n sep := by
  induction fs with
  | nil => simp
  | cons f fs ih =>
    have hf := h f (by simp)
    rw [terminate_cons, List.append_assoc, List.cons_append, List.length_cons,
      show fs.length + 1 + n = fs.length + n + 1 by omega, strskip_field hf]
    exact ih fun g hg => h g (by simp [hg])

/-- What `strskipcpy` returns once `strskip` is known to stop at `rest`. -/
theorem strskipcpy_of_strskip {g rest : Text} {n : ℕ} {sep : Char} (hg : g ≠ [])
    (h : strskip (g ++ rest) n sep = some rest) :
    strskipcpy (g ++ rest) n sep =
      some (if g.getLast? = some sep then g.dropLast else g, rest) := by
  have hpos : 0 < g.length := List.length_pos_iff.mpr hg
  have hlen : skippedLength (g ++ rest) n sep = g.length := by simp [skippedLength, h]
  have hlast : (g ++ rest)[g.length - 1]? = g.getLast? := by
    rw [List.getElem?_append_left (by omega), List.getLast?_eq_getElem?]
  have htake : (g ++ rest).take (g.length - 1) = g.dropLast := by
    rw [List.take_append_of_le_length (by omega), List.dropLast_eq_take]
  simp [strskipcpy, hlen, hpos, hlast, htake]

theorem strskipcpy_none {s : Text} {n : ℕ} {sep : Char} (h : strskip s n sep = none) :
    strskipcpy s n sep = none := by
  simp [strskipcpy, skippedLength, h]

theorem strskipcpy_record {sep : Char} {fs : List Text} (hne : fs ≠ [])
    (h : ∀ f ∈ fs, sep ∉ f) (rest : Text) :
    strskipcpy (terminate sep fs ++ rest) fs.length sep = some (joined sep fs, rest) := by
  have hs : strskip (terminate sep fs ++ rest) fs.length sep = some rest := by
    simpa using strskip_terminate h rest 0
  rw [strskipcpy_of_strskip (terminate_ne_nil sep hne) hs]
  simp [terminate_eq_joined sep hne]

/-- The last group of a text without a trailing separator. -/
theorem strskipcpy_unterminated {sep : Char} {fs : List Text} {f : Text}
    (h : ∀ g ∈ fs, sep ∉ g) (hf : IsField sep f) :
    strskipcpy (terminate sep fs ++ f) (fs.length + 1) sep = some (terminate sep fs ++ f, []) := by
  have hs : strskip (terminate sep fs ++ f ++ []) (fs.length + 1) sep = some [] := by
    rw [List.append_nil, strskip_terminate h, strskip_last hf.ne_nil hf.sep_notMem, strskip_zero]
  have hlast : (terminate sep fs ++ f).getLast? ≠ some sep := by
    rw [List.getLast?_append_of_ne_nil _ hf.ne_nil]
    exact fun hl => hf.sep_notMem (List.mem_of_getLast? hl)
  have hne : terminate sep fs ++ f ≠ [] := by simp [hf.ne_nil]
  have hcpy := strskipcpy_of_strskip hne hs
  rwa [if_neg hlast, List.append_nil] at hcpy

/-- Too few fields, whatever the last one is. -/
theorem strskipcpy_short {sep : Char} {fs : List Text} {q : Text} {n : ℕ}
    (h : ∀ f ∈ fs, sep ∉ f) (hq : sep ∉ q)
    (hn : fs.length + (if q = [] then 0 else 1) < n) :
    strskipcpy (terminate sep fs ++ q) n sep = none := by
  apply strskipcpy_none
  obtain ⟨k, rfl⟩ : ∃ k, n = fs.length + k := ⟨n - fs.length, by split at hn <;> omega⟩
  rw [strskip_terminate h]
  split at hn
  · next hnil =>
    obtain ⟨k, rfl⟩ : ∃ j, k = j + 1 := ⟨k - 1, by omega⟩
    rw [hnil, strskip_nil]
  · next hne =>
    obtain ⟨k, rfl⟩ : ∃ j, k = j + 2 := ⟨k - 2, by omega⟩
    rw [strskip_last hne hq, strskip_nil]

theorem strskipcpy_length_lt {s cpy rest : Text} {n : ℕ} {sep : Char}
    (h : strskipcpy s n sep = some (cpy, rest)) : rest.length < s.length := by
  have hle : skippedLength s n sep ≤ s.length := by
    unfold skippedLength
    split <;> omega
  simp only [strskipcpy] at h
  split_ifs at h with hpos
  all_goals
    obtain ⟨-, rfl⟩ := Prod.mk.inj (Option.some.inj h)
    rw [List.length_drop]
    omega

/-- More fuel than the length of the text changes nothing. -/
theorem strskipcpyLoop_stable (n : ℕ) (sep : Char) : ∀ (j k : ℕ) (s : Text),
    s.length ≤ j → s.length ≤ k → strskipcpyLoop n sep j s = strskipcpyLoop n sep k s
  | 0, 0, s, _, _ => rfl
  | 0, k + 1, s, hj, _ => by
    have hs : strskipcpy s n sep = none := by
      by_contra hne
      obtain ⟨r, hr⟩ := Option.ne_none_iff_exists'.mp hne
      have := strskipcpy_length_lt hr
      omega
    simp [strskipcpyLoop, hs]
  | j + 1, 0, s, hj, hk => (strskipcpyLoop_stable n sep 0 (j + 1) s hk hj).symm
  | j + 1, k + 1, s, hj, hk => by
    cases hs : strskipcpy s n sep with
    | none => simp [strskipcpyLoop, hs]
    | some r =>
      have := strskipcpy_length_lt hs
      simp [strskipcpyLoop, hs, strskipcpyLoop_stable n sep j k r.2 (by omega) (by omega)]
termination_by j k => (j + k, j)

theorem strskipcpyAll_none {s : Text} {n : ℕ} {sep : Char} (h : strskipcpy s n sep = none) :
    strskipcpyAll n sep s = ([], s) := by
  rw [strskipcpyAll, strskipcpyLoop_stable n sep s.length (s.length + 1) s le_rfl (by omega)]
  simp [strskipcpyLoop, h]

theorem strskipcpyAll_cons {s cpy rest : Text} {n : ℕ} {sep : Char}
    (h : strskipcpy s n sep = some (cpy, rest)) :
    strskipcpyAll n sep s =
      (cpy :: (strskipcpyAll n sep rest).1, (strskipcpyAll n sep rest).2) := by
  have := strskipcpy_length_lt h
  rw [strskipcpyAll, strskipcpyLoop_stable n sep s.length (s.length + 1) s le_rfl (by omega)]
  simp [strskipcpyLoop, h, strskipcpyAll,
    strskipcpyLoop_stable n sep s.length rest.length rest (by omega) le_rfl]

@[simp] theorem strskipcpyAll_nil (n : ℕ) (sep : Char) : strskipcpyAll n sep [] = ([], []) := rfl

/-- Records of `n` fields each are cut into their groups, whatever follows. -/
theorem strskipcpyAll_records {n : ℕ} {sep : Char} {recs : List (List Text)} (hn : 0 < n)
    (hlen : ∀ r ∈ recs, r.length = n) (h : ∀ r ∈ recs, ∀ f ∈ r, sep ∉ f) (rest : Text) :
    strskipcpyAll n sep (recs.flatMap (terminate sep) ++ rest) =
      (recs.map (joined sep) ++ (strskipcpyAll n sep rest).1, (strskipcpyAll n sep rest).2) := by
  induction recs with
  | nil => simp
  | cons r recs ih =>
    have hr : r ≠ [] := by
      rintro rfl
      simp [← hlen [] (by simp)] at hn
    have hcpy := strskipcpy_record hr (h r (by simp)) (recs.flatMap (terminate sep) ++ rest)
    rw [hlen r (by simp)] at hcpy
    rw [List.flatMap_cons, List.append_assoc, strskipcpyAll_cons hcpy,
      ih (fun r hr => hlen r (by simp [hr])) fun r hr => h r (by simp [hr])]
    rfl

theorem strskipcpyAll_last {n : ℕ} {sep : Char} {fs : List Text} (hn : 0 < n)
    (hlen : fs.length = n) (h : ∀ f ∈ fs, IsField sep f) :
    strskipcpyAll n sep (joined sep fs) = ([joined sep fs], []) := by
  obtain ⟨gs, g, rfl⟩ := (List.eq_nil_or_concat fs).resolve_left
    (by rintro rfl; exact hn.ne hlen)
  rw [List.concat_eq_append] at h hlen ⊢
  have hgs : ∀ f ∈ gs, sep ∉ f := fun f hf => (h f (by simp [hf])).sep_notMem
  have hcpy := strskipcpy_unterminated hgs (h g (by simp))
  rw [show gs.length + 1 = n by simpa using hlen] at hcpy
  rw [joined_concat, strskipcpyAll_cons hcpy, strskipcpyAll_nil]

/-- The same without the separator after the very last field. -/
theorem strskipcpyAll_unterminated {n : ℕ} {sep : Char} {recs : List (List Text)} (hn : 0 < n)
    (hlen : ∀ r ∈ recs, r.length = n) (h : ∀ r ∈ recs, ∀ f ∈ r, IsField sep f) :
    strskipcpyAll n sep (joined sep recs.flatten) = (recs.map (joined sep), []) := by
  rcases List.eq_nil_or_concat recs with rfl | ⟨init, last, rfl⟩
  · rfl
  rw [List.concat_eq_append] at *
  have hlast : last.length = n := hlen last (by simp)
  have hne : last ≠ [] := by
    rintro rfl
    exact hn.ne hlast
  rw [List.flatten_append, List.flatten_singleton, joined_append sep _ hne, terminate_flatten,
    strskipcpyAll_records hn (fun r hr => hlen r (by simp [hr]))
      (fun r hr f hf => (h r (by simp [hr]) f hf).sep_notMem),
    strskipcpyAll_last hn hlast (h last (by simp))]
  simp

structure GroupsOf (n : ℕ) (sep : Char) (s : Text) (groups : List (List Text))
    (left : List Text) : Prop where
  fields_eq : fieldsOf sep s = groups.flatten ++ left
  length_group : ∀ g ∈ groups, g.length = n
  length_left : left.length < n
  pieces_eq : (strskipcpyAll n sep s).1 = groups.map (joined sep)
  rest_eq_nil : (strskipcpyAll n sep s).2 = [] ↔ left = []
  rejoined : s = terminate sep (strskipcpyAll n sep s).1 ++ (strskipcpyAll n sep s).2 ∨
    (strskipcpyAll n sep s).2 = [] ∧ s = joined sep (strskipcpyAll n sep s).1
  ended : strskipcpy (strskipcpyAll n sep s).2 n sep = none

section

variable {n : ℕ} {sep : Char} {fs : List Text} {q : Text}

theorem strskipcpy_nil (hn : 0 < n) (sep : Char) : strskipcpy [] n sep = none := by
  obtain ⟨k, rfl⟩ := Nat.exists_eq_add_of_lt hn
  rw [zero_add]
  exact strskipcpy_none (strskip_nil k sep)

theorem groupsOf_short (hfs : ∀ f ∈ fs, sep ∉ f) (hq : sep ∉ q)
    (hn : (fs ++ lastField q).length < n) :
    GroupsOf n sep (terminate sep fs ++ q) [] (fs ++ lastField q) := by
  have hshort : fs.length + (if q = [] then 0 else 1) < n := by
    rw [List.length_append, lastField] at hn
    split_ifs at hn ⊢ <;> exact hn
  have hnone := strskipcpy_short hfs hq hshort
  have hall := strskipcpyAll_none hnone
  constructor
  · rw [fieldsOf_terminate hfs hq]
    rfl
  · simp
  · exact hn
  · rw [hall]
    rfl
  · rw [hall, List.append_eq_nil_iff, List.append_eq_nil_iff, lastField]
    refine and_congr ?_ ?_
    · refine ⟨fun h => ?_, fun h => by rw [h]; rfl⟩
      by_contra hne
      exact terminate_ne_nil sep hne h
    · split_ifs with hnil <;> simp [hnil]
  · rw [hall]
    exact .inl rfl
  · rw [hall]
    exact hnone

theorem groupsOf_last (hfs : ∀ f ∈ fs, sep ∉ f) (hq : sep ∉ q) (hne : q ≠ [])
    (hn : (fs ++ [q]).length = n) : GroupsOf n sep (terminate sep fs ++ q) [fs ++ [q]] [] := by
  have hlen : fs.length + 1 = n := by simpa using hn
  have hcpy := strskipcpy_unterminated hfs ⟨hne, hq⟩
  rw [hlen] at hcpy
  have hall := strskipcpyAll_cons hcpy
  rw [strskipcpyAll_nil] at hall
  constructor
  · rw [fieldsOf_terminate hfs hq, lastField, if_neg hne]
    simp
  · simpa using hn
  · rw [List.length_nil]
    omega
  · rw [hall, List.map_singleton, joined_concat]
  · rw [hall]
    exact ⟨fun _ => rfl, fun _ => rfl⟩
  · rw [hall]
    exact .inr ⟨rfl, rfl⟩
  · rw [hall]
    exact strskipcpy_nil (by omega) sep

/-- A group with a separator after it comes before the groups of the rest. -/
theorem GroupsOf.cons {g : List Text} {s : Text} {groups : List (List Text)} {left : List Text}
    (hn : 0 < n) (hlen : g.length = n) (hg : ∀ f ∈ g, sep ∉ f)
    (h : GroupsOf n sep s groups left) :
    GroupsOf n sep (terminate sep g ++ s) (g :: groups) left := by
  obtain ⟨hfields, hgroup, hleft, hpieces, hrest, hjoin, hend⟩ := h
  have hne : g ≠ [] := by
    rintro rfl
    exact hn.ne hlen
  have hcpy := strskipcpy_record hne hg s
  rw [hlen] at hcpy
  have hall := strskipcpyAll_cons hcpy
  constructor
  · obtain ⟨fs, q, rfl, hfs, hq⟩ := exists_eq_terminate sep s
    rw [fieldsOf_terminate hfs hq] at hfields
    have happend : ∀ f ∈ g ++ fs, sep ∉ f := by
      intro f hf
      rcases List.mem_append.mp hf with hf | hf
      · exact hg f hf
      · exact hfs f hf
    rw [← List.append_assoc, ← terminate_append, fieldsOf_terminate happend hq,
      List.append_assoc, hfields, List.flatten_cons, List.append_assoc]
  · exact List.forall_mem_cons.mpr ⟨hlen, hgroup⟩
  · exact hleft
  · rw [hall, hpieces, List.map_cons]
  · rw [hall]
    exact hrest
  · rw [hall, terminate_eq_joined sep hne]
    rcases hjoin with hjoin | ⟨hnil, hjoin⟩
    · left
      conv_lhs => rw [hjoin]
      simp
    · cases hp : (strskipcpyAll n sep s).1 with
      | nil =>
        left
        rw [hp] at hjoin
        obtain rfl : s = [] := hjoin
        simp
      | cons p ps =>
        right
        refine ⟨hnil, ?_⟩
        rw [hp] at hjoin
        conv_lhs => rw [hjoin]
        simp [joined]
  · rw [hall]
    exact hend

theorem exists_groupsOf (hn : 0 < n) (hfs : ∀ f ∈ fs, sep ∉ f) (hq : sep ∉ q) :
    ∃ groups left, GroupsOf n sep (terminate sep fs ++ q) groups left := by
  induction hlen : fs.length using Nat.strong_induction_on generalizing fs with
  | _ k ih =>
    by_cases hgroup : n ≤ fs.length
    · have hdrop : ∀ f ∈ fs.drop n, sep ∉ f := fun f hf => hfs f (List.mem_of_mem_drop hf)
      have htake : ∀ f ∈ fs.take n, sep ∉ f := fun f hf => hfs f (List.mem_of_mem_take hf)
      have hless : (fs.drop n).length < k := by
        rw [List.length_drop]
        omega
      obtain ⟨groups, left, hrest⟩ := ih _ hless hdrop rfl
      have hcons := hrest.cons hn (List.length_take_of_le hgroup) htake
      rw [← List.append_assoc, ← terminate_append, List.take_append_drop] at hcons
      exact ⟨_, _, hcons⟩
    · by_cases hlast : fs.length + 1 = n ∧ q ≠ []
      · exact ⟨_, _, groupsOf_last hfs hq hlast.2 (by simpa using hlast.1)⟩
      · refine ⟨_, _, groupsOf_short hfs hq ?_⟩
        rw [List.length_append, lastField]
        split_ifs with hnil
        · rw [List.length_nil]
          omega
        · rw [List.length_singleton]
          have hne : fs.length + 1 ≠ n := fun h => hlast ⟨h, hnil⟩
          omega

end

/-- The loop ends, loses nothing, and cuts groups of `n` fields; nothing is left
exactly when the number of fields is a multiple of `n`. -/
theorem strskipcpyAll_law (sep : Char) {n : ℕ} (hn : 1 ≤ n) (s : Text) :
    strskipcpy (strskipcpyAll n sep s).2 n sep = none ∧
      (s = terminate sep (strskipcpyAll n sep s).1 ++ (strskipcpyAll n sep s).2 ∨
        (strskipcpyAll n sep s).2 = [] ∧ s = joined sep (strskipcpyAll n sep s).1) ∧
      (∀ piece ∈ (strskipcpyAll n sep s).1, piece.count sep = n - 1) ∧
      ((strskipcpyAll n sep s).2 = [] ↔ n ∣ (fieldsOf sep s).length) ∧
      ((strskipcpyAll n sep s).2 = [] →
        ∃ groups : List (List Text), groups.flatten = fieldsOf sep s ∧
          (∀ g ∈ groups, g.length = n) ∧ (strskipcpyAll n sep s).1 = groups.map (joined sep)) := by
  obtain ⟨fs, q, rfl, hfs, hq⟩ := exists_eq_terminate sep s
  obtain ⟨groups, left, h⟩ := exists_groupsOf hn hfs hq
  refine ⟨h.ended, h.rejoined, ?_, ?_, ?_⟩
  · intro piece hpiece
    rw [h.pieces_eq] at hpiece
    obtain ⟨g, hg, rfl⟩ := List.mem_map.mp hpiece
    have hsep : ∀ f ∈ g, sep ∉ f := by
      intro f hf
      apply notMem_of_mem_fieldsOf hfs hq
      rw [h.fields_eq]
      exact List.mem_append_left _ (List.mem_flatten_of_mem hg hf)
    have hlen := h.length_group g hg
    have hne : g ≠ [] := by
      rintro rfl
      rw [List.length_nil] at hlen
      omega
    have hcount := count_joined sep hne hsep
    omega
  · have hmap : groups.map List.length = List.replicate groups.length n :=
      List.map_eq_replicate_iff.mpr h.length_group
    have hflatten : groups.flatten.length = groups.length * n := by
      rw [List.length_flatten, hmap, List.sum_replicate_nat]
    rw [h.rest_eq_nil, h.fields_eq, List.length_append, hflatten,
      Nat.dvd_add_right (Nat.dvd_mul_left n groups.length)]
    constructor
    · rintro rfl
      exact dvd_zero n
    · intro hdvd
      exact List.length_eq_zero_iff.mp (Nat.eq_zero_of_dvd_of_lt hdvd h.length_left)
  · intro hrest
    have hleft := h.rest_eq_nil.mp hrest
    refine ⟨groups, ?_, h.length_group, h.pieces_eq⟩
    rw [h.fields_eq, hleft, List.append_nil]

/-- Three fields, the second of them empty, in groups of two. -/
theorem strskipcpyAll_law_three :
    (strskipcpyAll 2 ';' "a;;b".toList).2 ≠ [] ∧
      strskipcpyAll 2 ';' "a;;b".toList = (["a;".toList], "b".toList) := by
  have hlaw := strskipcpyAll_law ';' (show 1 ≤ 2 by decide) "a;;b".toList
  have hfields : (fieldsOf ';' "a;;b".toList).length = 3 := by decide
  refine ⟨?_, by decide⟩
  rw [Ne, hlaw.2.2.2.1, hfields]
  decide

end Lmt
