import Lmt.Metrics.Mdt

/-!
# The operations of a decoded MDT

The decoder names each group of three counters after its position in the table.
A group holds exactly two separators, so what follows the third one in the
labelled text is the name from the table, and no operation occurs twice in a
record, whatever the text was.
-/

namespace Lmt

open FormattedText SeparatedFields

theorem strchr_eq_some {s p : Text} {sep : Char} (h : strchr s sep = some p) :
    ∃ f t, sep ∉ f ∧ p = sep :: t ∧ s = f ++ sep :: t := by
  have hsplit := List.takeWhile_append_dropWhile (p := (· != sep)) (l := s)
  have hf : sep ∉ s.takeWhile (· != sep) := fun hmem => by
    simpa using List.mem_takeWhile_imp hmem
  rw [strchr] at h
  cases hd : s.dropWhile (· != sep) with
  | nil => simp [hd] at h
  | cons c t =>
    have hc : c = sep := by
      have := List.head?_dropWhile_not (· != sep) s
      simpa [hd] using this
    rw [hd] at h
    obtain rfl := Option.some.inj h
    rw [hd, hc] at hsplit
    exact ⟨_, t, hf, by rw [hc], hsplit.symm⟩

theorem notMem_of_strchr_eq_none {s : Text} {sep : Char} (h : strchr s sep = none) : sep ∉ s := by
  intro hmem
  rw [strchr] at h
  cases hd : s.dropWhile (· != sep) with
  | nil => exact absurd (List.dropWhile_eq_nil_iff.mp hd sep hmem) (by simp)
  | cons c t => simp [hd] at h

/-- The fields that `strskip` went over: all terminated, or the last one not. -/
theorem strskip_eq_some {s p : Text} {n : ℕ} {sep : Char} (h : strskip s n sep = some p) :
    (∃ fs : List Text, fs.length = n ∧ (∀ f ∈ fs, sep ∉ f) ∧ s = terminate sep fs ++ p) ∨
      ∃ (fs : List Text) (q : Text), fs.length + 1 = n ∧ (∀ f ∈ fs, sep ∉ f) ∧ IsField sep q ∧
        s = terminate sep fs ++ q ∧ p = [] := by
  induction n generalizing s with
  | zero =>
    rw [strskip_zero] at h
    exact Or.inl ⟨[], rfl, by simp, by simpa using h⟩
  | succ n ih =>
    obtain _ | ⟨c, s⟩ := s
    · cases h
    rw [strskip] at h
    cases hp : strchr (c :: s) sep with
    | none =>
      rw [hp] at h
      cases n with
      | zero =>
        have hq : IsField sep (c :: s) := ⟨by simp, notMem_of_strchr_eq_none hp⟩
        exact Or.inr ⟨[], c :: s, rfl, by simp, hq, rfl, by simpa [eq_comm] using h⟩
      | succ n => cases h
    | some r =>
      obtain ⟨f, t, hf, rfl, hs⟩ := strchr_eq_some hp
      rw [hp] at h
      have hcons {fs : List Text} (hfs : ∀ f ∈ fs, sep ∉ f) : ∀ g ∈ f :: fs, sep ∉ g := by
        intro g hg
        rcases List.mem_cons.mp hg with rfl | hg
        · exact hf
        · exact hfs g hg
      rcases ih h with ⟨fs, hlen, hfs, ht⟩ | ⟨fs, q, hlen, hfs, hq, ht, rfl⟩
      · refine Or.inl ⟨f :: fs, by simp [hlen], hcons hfs, ?_⟩
        rw [hs, terminate_cons, List.append_assoc, List.cons_append, ← ht]
        rfl
      · refine Or.inr ⟨f :: fs, q, by simp [hlen], hcons hfs, hq, ?_, rfl⟩
        rw [hs, terminate_cons, List.append_assoc, List.cons_append, ← ht]
        rfl

/-- A copied group has one separator less than fields. -/
theorem count_of_strskipcpy {s cpy rest : Text} {n : ℕ} {sep : Char}
    (h : strskipcpy s n sep = some (cpy, rest)) : cpy.count sep + 1 = n := by
  have hcpy := h
  simp only [strskipcpy] at hcpy
  split_ifs at hcpy with hpos
  all_goals
    rw [skippedLength] at hpos
    cases hp : strskip s n sep with
    | none => simp [hp] at hpos
    | some p =>
      rcases strskip_eq_some hp with ⟨fs, rfl, hfs, rfl⟩ | ⟨fs, q, rfl, hfs, hq, rfl, rfl⟩
      · have hne : fs ≠ [] := by
          rintro rfl
          simp at hpos
        rw [strskipcpy_record hne hfs] at h
        obtain rfl := congrArg Prod.fst (Option.some.inj h)
        exact count_joined sep hne hfs
      · rw [strskipcpy_unterminated hfs hq] at h
        obtain rfl := congrArg Prod.fst (Option.some.inj h)
        simp [List.count_append, count_terminate sep hfs, List.count_eq_zero.mpr hq.sep_notMem]

theorem count_of_mem_strskipcpyAll {s cpy : Text} {n : ℕ} {sep : Char}
    (h : cpy ∈ (strskipcpyAll n sep s).1) : cpy.count sep + 1 = n := by
  rw [strskipcpyAll] at h
  generalize s.length = fuel at h
  induction fuel generalizing s with
  | zero => simp [strskipcpyLoop] at h
  | succ fuel ih =>
    rw [strskipcpyLoop] at h
    cases hs : strskipcpy s n sep with
    | none => simp [hs] at h
    | some r =>
      obtain ⟨cpy', rest⟩ := r
      simp only [hs, List.mem_cons] at h
      rcases h with rfl | h
      · exact count_of_strskipcpy hs
      · exact ih h

/-- What a `%lu` reads ends before the next separator. -/
theorem scanUInt64_eq_some {s rest : Text} {v : UInt64} (h : scanUInt64 s = some (v, rest)) :
    ∃ t, s = t ++ rest ∧ ';' ∉ t := by
  have hskip : ∃ t, s = t ++ skipSpace s ∧ ';' ∉ t := by
    refine ⟨s.takeWhile isSpace, List.takeWhile_append_dropWhile.symm, fun hmem => ?_⟩
    have := List.mem_takeWhile_imp hmem
    revert this
    decide
  have hsign (u : Text) : ∃ t, u = t ++ (scanSign u).2 ∧ ';' ∉ t := by
    obtain _ | ⟨c, u⟩ := u
    · exact ⟨[], rfl, by simp⟩
    · rw [scanSign]
      split_ifs with h₁ h₂
      · exact ⟨[c], rfl, by simp [h₁]⟩
      · exact ⟨[c], rfl, by simp [h₂]⟩
      · exact ⟨[], rfl, by simp⟩
  obtain ⟨t, ht, hnot⟩ := hskip
  obtain ⟨t', ht', hnot'⟩ := hsign (skipSpace s)
  simp only [scanUInt64] at h
  split_ifs at h
  obtain ⟨-, rfl⟩ := Prod.mk.inj (Option.some.inj h)
  refine ⟨t ++ t' ++ (scanSign (skipSpace s)).2.takeWhile Char.isDigit, ?_, ?_⟩
  · rw [List.append_assoc, List.takeWhile_append_dropWhile, List.append_assoc, ← ht', ← ht]
  · simp only [List.mem_append, not_or]
    refine ⟨⟨hnot, hnot'⟩, fun hmem => ?_⟩
    have := List.mem_takeWhile_imp hmem
    revert this
    decide

theorem sscanf_uint64_sep {s : Text} {ds : List Directive} {v w : Scanned} {vs : List Scanned}
    (h : sscanf (.uint64 :: .lit ';' :: ds) s = v :: w :: vs) :
    ∃ t rest, s = t ++ ';' :: rest ∧ ';' ∉ t ∧ sscanf ds rest = w :: vs := by
  cases hread : scanUInt64 s with
  | none =>
    rw [sscanf_cons_none (by simp [Directive.read, hread])] at h
    cases h
  | some r =>
    obtain ⟨n, rest⟩ := r
    have hnum : Directive.uint64.read s = some ([.uint64 n], rest) := by
      simp [Directive.read, hread]
    rw [sscanf_cons hnum, List.singleton_append] at h
    have h := (List.cons.inj h).2
    obtain ⟨t, rfl, ht⟩ := scanUInt64_eq_some hread
    obtain _ | ⟨c, rest⟩ := rest
    · rw [sscanf_cons_none (by simp [Directive.read])] at h
      cases h
    · by_cases hc : c = ';'
      · subst hc
        rw [sscanf_lit] at h
        exact ⟨t, rest, rfl, ht, h⟩
      · rw [sscanf_cons_none (by simp [Directive.read, hc])] at h
        cases h

/-- The name of a decoded operation follows the third separator. -/
theorem lmtMdtDecodeV1Mdops_eq_some {s : Text} {o : MdtOp} (h : lmtMdtDecodeV1Mdops s = some o) :
    ∃ t rest, s = t ++ ';' :: rest ∧ t.count ';' = 2 ∧ o.opname = rest.takeWhile (· != ';') := by
  rw [lmtMdtDecodeV1Mdops] at h
  split at h
  · next samples sum sumsquares opname hscan =>
    obtain rfl := Option.some.inj h
    obtain ⟨t₁, r₁, rfl, ht₁, h₁⟩ := sscanf_uint64_sep hscan
    obtain ⟨t₂, r₂, rfl, ht₂, h₂⟩ := sscanf_uint64_sep h₁
    obtain ⟨t₃, r₃, rfl, ht₃, h₃⟩ := sscanf_uint64_sep h₂
    refine ⟨t₁ ++ ';' :: (t₂ ++ ';' :: t₃), r₃, by simp, ?_, ?_⟩
    · simp [List.count_append, List.count_eq_zero.mpr ht₁, List.count_eq_zero.mpr ht₂,
        List.count_eq_zero.mpr ht₃]
    · rw [upToSemicolon] at h₃
      by_cases hempty : r₃.takeWhile (· != ';') = []
      · rw [sscanf_cons_none (by simp [Directive.read, assignText, hempty])] at h₃
        cases h₃
      · have hread : (Directive.set none (· != ';')).read r₃ =
            some ([.text (r₃.takeWhile (· != ';'))], r₃.dropWhile (· != ';')) := by
          simp [Directive.read, assignText, hempty]
        rw [sscanf_cons hread] at h₃
        simpa [eq_comm] using h₃
  · cases h

/-- The part after a separator is determined by the number of separators before it. -/
theorem append_sep_inj {a b c d : Text} {sep : Char} (h : a ++ sep :: b = c ++ sep :: d)
    (hcount : a.count sep = c.count sep) : b = d := by
  rcases List.append_eq_append_iff.mp h with ⟨t, rfl, ht⟩ | ⟨t, rfl, ht⟩ <;>
    obtain _ | ⟨e, t⟩ := t
  · simpa using ht
  · obtain ⟨rfl, -⟩ := List.cons.inj ht
    simp [List.count_append] at hcount
  · simpa [eq_comm] using ht
  · obtain ⟨rfl, -⟩ := List.cons.inj ht
    simp [List.count_append] at hcount

/-- A labelled group is decoded with its label, if at all. -/
theorem opname_of_label {cpy op : Text} (hcpy : cpy.count ';' = 2) (hop : ';' ∉ op) {o : MdtOp}
    (h : lmtMdtDecodeV1Mdops (strappendfield cpy op ';') = some o) : o.opname = op := by
  obtain ⟨t, rest, hs, ht, hname⟩ := lmtMdtDecodeV1Mdops_eq_some h
  obtain rfl := append_sep_inj hs (hcpy.trans ht.symm)
  rw [hname, List.takeWhile_eq_self_iff]
  exact fun c hc => by simpa using fun he : c = ';' => hop (he ▸ hc)

def opname? (op : Text) : Option Text := (lmtMdtDecodeV1Mdops op).map MdtOp.opname

theorem opnames_sublist {cpys ops labels : List Text} (hcpys : ∀ cpy ∈ cpys, cpy.count ';' = 2)
    (hops : ∀ op ∈ ops, ';' ∉ op) (h : labelMdops cpys ops = some labels) :
    (labels.filterMap opname?).Sublist ops := by
  induction cpys generalizing ops labels with
  | nil =>
    rw [labelMdops] at h
    obtain rfl := Option.some.inj h
    exact List.nil_sublist _
  | cons cpy cpys ih =>
    obtain _ | ⟨op, ops⟩ := ops
    · cases h
    rw [labelMdops, Option.map_eq_some_iff] at h
    obtain ⟨labels, hlabels, rfl⟩ := h
    have ih := ih (fun c hc => hcpys c (by simp [hc])) (fun o ho => hops o (by simp [ho])) hlabels
    rw [List.filterMap_cons]
    cases hname : opname? (strappendfield cpy op ';') with
    | none => exact ih.cons _
    | some name =>
      obtain ⟨o, ho, rfl⟩ := Option.map_eq_some_iff.mp hname
      rw [opname_of_label (hcpys cpy (by simp)) (hops op (by simp)) ho]
      exact ih.cons_cons _

/-- No operation of a decoded MDT occurs twice. -/
theorem nodup_opnames {s : Text} {version : ℕ} {info : MdtInfo}
    (h : lmtMdtDecodeMdtinfoHelper s version = some info) :
    (info.mdops.filterMap opname?).Nodup := by
  rw [lmtMdtDecodeMdtinfoHelper] at h
  split at h
  · simp only [Option.bind_eq_bind, Option.bind_eq_some_iff] at h
    obtain ⟨s₁, -, ⟨recoveryStatus, s₂⟩, -, mdops, hlabel, hinfo⟩ := h
    split_ifs at hinfo
    obtain rfl := Option.some.inj hinfo
    have htable : ∀ ops ∈ [optabMdtV3, optabMdtV1], ops.Nodup ∧ ∀ op ∈ ops, ';' ∉ op := by decide
    obtain ⟨hnodup, hops⟩ := htable (if version = 3 then optabMdtV3 else optabMdtV1)
      (by split_ifs <;> simp)
    have hcpys : ∀ cpy ∈ (strskipcpyAll 3 ';' s₂).1, cpy.count ';' = 2 := fun cpy hcpy =>
      Nat.succ.inj (count_of_mem_strskipcpyAll hcpy)
    exact hnodup.sublist (opnames_sublist hcpys hops hlabel)
  · cases h

end Lmt
