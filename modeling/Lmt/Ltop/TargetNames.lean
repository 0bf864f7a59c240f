import Mathlib.Data.List.Infix
import Lmt.Ltop.Failover

/-!
# Names of targets

A record is made by splitting the name of its target at the first marker `-OST`
or `-MDT`, and found by splitting names at the last hyphen. The two agree unless
the file system has the marker in its own name.
-/

namespace Lmt

open FormattedText

section

variable {s pat : Text}

theorem strstr_cons (c : Char) (s pat : Text) :
    strstr (c :: s) pat =
      if pat.isPrefixOf (c :: s) then some 0 else (strstr s pat).map (· + 1) := rfl

theorem strstr_split {i : ℕ} (h : strstr s pat = some i) :
    s = s.take i ++ pat ++ s.drop (i + pat.length) := by
  induction s generalizing i with
  | nil =>
    simp only [strstr] at h
    split_ifs at h with hnil
    simp [hnil]
  | cons c s ih =>
    rw [strstr_cons] at h
    split_ifs at h with hstart
    · obtain rfl := Option.some_inj.mp h
      rw [List.isPrefixOf_iff_prefix] at hstart
      simpa using (List.prefix_iff_eq_append.mp hstart).symm
    · obtain ⟨j, hj, rfl⟩ := Option.map_eq_some_iff.mp h
      have hindex : j + 1 + pat.length = j + pat.length + 1 := by omega
      rw [hindex, List.take_succ_cons, List.drop_succ_cons, List.cons_append, List.cons_append,
        ← ih hj]

theorem not_infix_take_of_strstr (hpat : pat ≠ []) {i : ℕ} (h : strstr s pat = some i) :
    ¬pat <:+: s.take i := by
  induction s generalizing i with
  | nil => simpa using hpat
  | cons c s ih =>
    rw [strstr_cons] at h
    split_ifs at h with hstart
    · obtain rfl := Option.some_inj.mp h
      simpa using hpat
    · obtain ⟨j, hj, rfl⟩ := Option.map_eq_some_iff.mp h
      rw [List.take_succ_cons, List.infix_cons_iff]
      rintro (hfirst | hlater)
      · apply hstart
        rw [List.isPrefixOf_iff_prefix]
        exact hfirst.trans (List.take_prefix (j + 1) (c :: s))
      · exact ih hj hlater

theorem exists_strstr (h : pat <:+: s) : ∃ i, strstr s pat = some i := by
  induction s with
  | nil =>
    rw [List.infix_nil] at h
    exact ⟨0, by rw [strstr, if_pos h]⟩
  | cons c s ih =>
    rw [strstr_cons]
    split_ifs with hstart
    · exact ⟨0, rfl⟩
    · rw [List.isPrefixOf_iff_prefix] at hstart
      obtain ⟨i, hi⟩ := ih ((List.infix_cons_iff.mp h).resolve_left hstart)
      exact ⟨i + 1, by rw [hi, Option.map_some]⟩

theorem strrchr_eq_none {c : Char} (h : c ∉ s) : strrchr s c = none := by
  induction s with
  | nil => rfl
  | cons d s ih =>
    rw [List.mem_cons, not_or] at h
    have hd : ¬d = c := fun hd => h.1 hd.symm
    rw [strrchr, ih h.2, if_neg hd]

theorem strrchr_append {c : Char} (a : Text) {b : Text} (h : c ∉ b) :
    strrchr (a ++ c :: b) c = some a.length := by
  induction a with
  | nil => rw [List.nil_append, strrchr, strrchr_eq_none h, if_pos rfl, List.length_nil]
  | cons d a ih =>
    rw [List.cons_append, strrchr, ih]
    rfl

end

def IsMarker (marker : Text) : Prop :=
  ∃ kind : Text, marker = '-' :: kind ∧ kind.length = 3 ∧ '-' ∉ kind

theorem isMarker_ost : IsMarker "-OST".toList := ⟨"OST".toList, rfl, rfl, by decide⟩

theorem isMarker_mdt : IsMarker "-MDT".toList := ⟨"MDT".toList, rfl, rfl, by decide⟩

theorem IsMarker.length {marker : Text} (hm : IsMarker marker) : marker.length = 4 := by
  obtain ⟨kind, rfl, hkind, -⟩ := hm
  rw [List.length_cons, hkind]

def isHexDigit (c : Char) : Bool :=
  c.isDigit || ('a' ≤ c && c ≤ 'f') || ('A' ≤ c && c ≤ 'F')

/-- The file system and the number of a target. -/
structure TargetName where
  fs : Text
  number : Text
  fs_length : 1 ≤ fs.length ∧ fs.length ≤ 8
  number_length : number.length = 4
  number_digits : number.all isHexDigit

def TargetName.text (marker : Text) (t : TargetName) : Text := t.fs ++ marker ++ t.number

/-- The part before the last hyphen, which `_fsmatch` compares. -/
def fsPart (name : Text) : Text := name.take ((strrchr name '-').getD name.length)

theorem TargetName.hyphen_notMem_number (t : TargetName) : '-' ∉ t.number := by
  intro h
  exact absurd (List.all_eq_true.mp t.number_digits _ h) (by decide)

section

variable {marker : Text}

/-- A marker can only be found after a text without markers where it begins. -/
theorem strstr_append_marker (hm : IsMarker marker) {a : Text} (h : ¬marker <:+: a) (b : Text) :
    strstr (a ++ marker ++ b) marker = some a.length := by
  obtain ⟨kind, rfl, -, hkind⟩ := hm
  induction a with
  | nil =>
    rw [List.nil_append, List.cons_append, strstr_cons, if_pos]
    · rfl
    · exact List.isPrefixOf_iff_prefix.mpr (List.prefix_append ('-' :: kind) b)
  | cons c a ih =>
    rw [List.infix_cons_iff, not_or] at h
    have hnot : ¬('-' :: kind).isPrefixOf (c :: (a ++ '-' :: kind ++ b)) := by
      rw [List.isPrefixOf_iff_prefix, List.cons_prefix_cons]
      rintro ⟨rfl, hstart⟩
      rw [List.prefix_iff_eq_take, List.append_assoc] at hstart
      by_cases hlength : kind.length ≤ a.length
      · -- the occurrence lies within the text
        rw [List.take_append_of_le_length hlength] at hstart
        apply h.1
        rw [List.cons_prefix_cons, hstart]
        exact ⟨rfl, List.take_prefix _ _⟩
      · -- the hyphen behind the text would be inside of the marker
        apply hkind
        rw [hstart]
        have hle : a.length + 1 ≤ kind.length := by omega
        have hsub : a ++ ['-'] <+: (a ++ ('-' :: kind ++ b)).take kind.length := by
          rw [List.prefix_take_iff]
          refine ⟨?_, by simpa using hle⟩
          exact ⟨kind ++ b, by simp⟩
        exact hsub.subset (by simp)
    have hcons : c :: a ++ '-' :: kind ++ b = c :: (a ++ '-' :: kind ++ b) := rfl
    rw [hcons, strstr_cons, if_neg hnot, ih h.2]
    rfl

theorem TargetName.fsPart_text (hm : IsMarker marker) (t : TargetName) :
    fsPart (t.text marker) = t.fs := by
  obtain ⟨kind, rfl, -, hkind⟩ := hm
  have hnot : '-' ∉ kind ++ t.number := by
    rw [List.mem_append, not_or]
    exact ⟨hkind, t.hyphen_notMem_number⟩
  have htext : t.text ('-' :: kind) = t.fs ++ '-' :: (kind ++ t.number) := by
    simp [TargetName.text]
  rw [fsPart, htext, strrchr_append t.fs hnot, Option.getD_some, List.take_left]

/-- `_fsmatch` compares with the file system of the name. -/
theorem fsmatch_iff (name fs : Text) : fsmatch name fs ↔ fs = fsPart name := by
  have hlength : (strrchr name '-').getD name.length ≤ name.length := by
    have hle : ∀ {s : Text} {i : ℕ}, strrchr s '-' = some i → i < s.length := by
      intro s
      induction s with
      | nil =>
        intro i h
        simp [strrchr] at h
      | cons c s ih =>
        intro i h
        rw [strrchr] at h
        cases hs : strrchr s '-' with
        | some j =>
          rw [hs] at h
          obtain rfl := Option.some_inj.mp h
          simpa using ih hs
        | none =>
          rw [hs] at h
          dsimp only at h
          split_ifs at h
          obtain rfl := Option.some_inj.mp h
          simp
    cases hi : strrchr name '-' with
    | none => rfl
    | some i => exact (hle hi).le
  unfold fsmatch fsPart
  generalize (strrchr name '-').getD name.length = len at hlength ⊢
  simp only [Bool.and_eq_true, decide_eq_true_eq, beq_iff_eq]
  constructor
  · intro h
    exact h.2.symm
  · rintro rfl
    exact ⟨by rw [List.length_take, min_eq_left hlength], rfl⟩

section

variable {V : Type*}

def GenericTarget.target (marker : Text) (g : GenericTarget V) : Text :=
  g.fsname ++ marker ++ g.name

/-- The record was made for a target: its name was split at the first marker. -/
structure GenericTarget.WellNamed (marker : Text) (g : GenericTarget V) : Prop where
  target : ∃ t : TargetName, g.target marker = t.text marker
  first : ¬marker <:+: g.fsname

def PlainName (marker name : Text) : Prop := ¬marker <:+: fsPart name

instance (marker name : Text) : Decidable (PlainName marker name) :=
  inferInstanceAs (Decidable (¬_))

theorem TargetName.marker_infix_text (marker : Text) (t : TargetName) : marker <:+: t.text marker :=
  ⟨t.fs, t.number, rfl⟩

theorem TargetName.length_text (hm : IsMarker marker) (t : TargetName) :
    (t.text marker).length ≤ 16 := by
  have hfs := t.fs_length.2
  have hnumber := t.number_length
  simp only [TargetName.text, List.length_append, hm.length]
  omega

theorem createTarget_split (hm : IsMarker marker) (t : TargetName) {i : ℕ}
    (h : strstr (t.text marker) marker = some i) [Inhabited V] (staleSecs : ℤ) :
    (createTarget marker (t.text marker) staleSecs : GenericTarget V).fsname =
        (t.text marker).take i ∧
      (createTarget marker (t.text marker) staleSecs : GenericTarget V).name =
        (t.text marker).drop (i + 4) := by
  constructor
  · simp only [createTarget, h]
  · have hlength := t.length_text hm
    simp only [createTarget, h]
    apply List.take_of_length_le
    rw [List.length_drop]
    omega

theorem target_createTarget (hm : IsMarker marker) (t : TargetName) [Inhabited V]
    (staleSecs : ℤ) :
    (createTarget marker (t.text marker) staleSecs : GenericTarget V).target marker =
      t.text marker := by
  obtain ⟨i, hi⟩ := exists_strstr (t.marker_infix_text marker)
  obtain ⟨hfsname, hname⟩ := createTarget_split (V := V) hm t hi staleSecs
  rw [GenericTarget.target, hfsname, hname, ← hm.length]
  exact (strstr_split hi).symm

theorem createTarget_wellNamed (hm : IsMarker marker) (t : TargetName) [Inhabited V]
    (staleSecs : ℤ) :
    (createTarget marker (t.text marker) staleSecs : GenericTarget V).WellNamed marker := by
  refine ⟨⟨t, target_createTarget hm t staleSecs⟩, ?_⟩
  obtain ⟨i, hi⟩ := exists_strstr (t.marker_infix_text marker)
  rw [(createTarget_split (V := V) hm t hi staleSecs).1]
  obtain ⟨kind, rfl, -, -⟩ := hm
  exact not_infix_take_of_strstr (List.cons_ne_nil _ _) hi

/-- A name finds the record of its target, and that only when its file system has
no marker in its name. -/
theorem GenericTarget.matches_iff (hm : IsMarker marker) {g : GenericTarget V}
    (hg : g.WellNamed marker) (t : TargetName) :
    g.matches marker (t.text marker) ↔
      PlainName marker (t.text marker) ∧ g.target marker = t.text marker := by
  have hsplit : (t.text marker).drop (t.fs.length + 4) = t.number := by
    rw [TargetName.text, List.append_assoc, ← List.drop_drop, List.drop_left, ← hm.length,
      List.drop_left]
  unfold GenericTarget.matches PlainName
  rw [Bool.and_eq_true, fsmatch_iff, TargetName.fsPart_text hm]
  constructor
  · rintro ⟨hname, hfs⟩
    have hplain : ¬marker <:+: t.fs := hfs ▸ hg.first
    have hfirst : strstr (t.text marker) marker = some t.fs.length :=
      strstr_append_marker hm hplain t.number
    rw [hfirst] at hname
    dsimp only at hname
    rw [hsplit, beq_iff_eq] at hname
    exact ⟨hplain, by rw [GenericTarget.target, hfs, hname]; rfl⟩
  · rintro ⟨hplain, htarget⟩
    have hfirst : strstr (t.text marker) marker = some t.fs.length :=
      strstr_append_marker hm hplain t.number
    have hfirst' : strstr (g.target marker) marker = some g.fsname.length :=
      strstr_append_marker hm hg.first g.name
    have hfs : g.fsname.length = t.fs.length := by
      rw [htarget, hfirst] at hfirst'
      exact (Option.some_inj.mp hfirst').symm
    unfold GenericTarget.target TargetName.text at htarget
    rw [List.append_assoc, List.append_assoc] at htarget
    obtain ⟨hfsname, hrest⟩ := List.append_inj htarget hfs
    rw [hfirst]
    dsimp only
    rw [hsplit, beq_iff_eq]
    exact ⟨List.append_cancel_left hrest, hfsname⟩

end

end

def UpdateCall.target : UpdateCall → Text
  | .osc name .. => name
  | .ost r .. => r.ostname
  | .mdt r .. => r.mdtname

def UpdateCall.marker : UpdateCall → Text
  | .mdt .. => "-MDT".toList
  | _ => "-OST".toList

/-- The call has a name of the form `fs-OSTxxxx` or `fs-MDTxxxx`. -/
def UpdateCall.Named (c : UpdateCall) : Prop := ∃ t : TargetName, c.target = t.text c.marker

/-- The file system of the call's target has no marker in its name. -/
def UpdateCall.Plain (c : UpdateCall) : Prop := PlainName c.marker c.target

instance (c : UpdateCall) : Decidable c.Plain := inferInstanceAs (Decidable (PlainName _ _))

theorem UpdateCall.marker_cases (c : UpdateCall) :
    c.marker = "-OST".toList ∨ c.marker = "-MDT".toList := by
  cases c with
  | mdt => exact .inr rfl
  | _ => exact .inl rfl

end Lmt
