import Lmt.Ltop.Sorting

/-!
# The order of the server names

Two names with a number at the end and the same part before it are compared by
their numbers, and all other pairs as strings. The two rules agree on a third
name exactly when no name outside a series of numbered names stands, as a
string, between two names of the series that are in the other order by number.
-/

namespace Lmt

open FormattedText

/-- The part of a name before its number. -/
def serverPrefix (s : Text) : Text := s.take (s.length - (numericalSuffix s).length)

def serverNumber (s : Text) : ℕ := (strtoul false (numericalSuffix s)).toNat

/-- Both names end in a number and start with the same part. -/
def SameSeries (s1 s2 : Text) : Prop :=
  numericalSuffix s1 ≠ [] ∧ numericalSuffix s2 ≠ [] ∧ serverPrefix s1 = serverPrefix s2

instance (s1 s2 : Text) : Decidable (SameSeries s1 s2) :=
  inferInstanceAs (Decidable (_ ∧ _ ∧ _))

theorem SameSeries.symm {s1 s2 : Text} (h : SameSeries s1 s2) : SameSeries s2 s1 :=
  ⟨h.2.1, h.1, h.2.2.symm⟩

theorem SameSeries.trans {s1 s2 s3 : Text} (h : SameSeries s1 s2) (h' : SameSeries s2 s3) :
    SameSeries s1 s3 := ⟨h.1, h'.2.1, h.2.2.trans h'.2.2⟩

theorem SameSeries.left_self {s1 s2 : Text} (h : SameSeries s1 s2) : SameSeries s1 s1 :=
  h.trans h.symm

theorem strcmp_nonpos {s1 s2 : Text} : strcmp s1 s2 ≤ 0 ↔ s1 ≤ s2 := by
  unfold strcmp
  split_ifs with h1 h2
  · simpa using h1.le
  · simpa using h2
  · simpa using h2

theorem strcmp_neg_comm (s1 s2 : Text) : strcmp s1 s2 = -strcmp s2 s1 := by
  unfold strcmp
  split_ifs with h1 h2
  · exact absurd (h1.trans h2) (lt_irrefl s1)
  · rfl
  · rfl
  · rfl

theorem cmpServerNames_of_series {s1 s2 : Text} (h : SameSeries s1 s2) :
    cmpServerNames s1 s2 =
      if serverNumber s1 < serverNumber s2 then -1
      else if serverNumber s2 < serverNumber s1 then 1 else 0 := by
  simp only [serverNumber, ← UInt64.lt_iff_toNat_lt]
  exact if_pos h

theorem cmpServerNames_of_not_series {s1 s2 : Text} (h : ¬SameSeries s1 s2) :
    cmpServerNames s1 s2 = strcmp s1 s2 := if_neg h

theorem cmpServerNames_nonpos_of_series {s1 s2 : Text} (h : SameSeries s1 s2) :
    cmpServerNames s1 s2 ≤ 0 ↔ serverNumber s1 ≤ serverNumber s2 := by
  rw [cmpServerNames_of_series h]
  split_ifs with h1 h2
  · simpa using h1.le
  · simpa using h2
  · simpa using h2

theorem cmpServerNames_nonpos_of_not_series {s1 s2 : Text} (h : ¬SameSeries s1 s2) :
    cmpServerNames s1 s2 ≤ 0 ↔ s1 ≤ s2 := by
  rw [cmpServerNames_of_not_series h, strcmp_nonpos]

theorem cmpServerNames_neg_comm (s1 s2 : Text) : cmpServerNames s1 s2 = -cmpServerNames s2 s1 := by
  by_cases h : SameSeries s1 s2
  · rw [cmpServerNames_of_series h, cmpServerNames_of_series h.symm]
    split_ifs with h1 h2
    · exact absurd (h1.trans h2) (lt_irrefl _)
    · rfl
    · rfl
    · rfl
  · rw [cmpServerNames_of_not_series h, cmpServerNames_of_not_series fun h' => h h'.symm,
      strcmp_neg_comm]

/-- Of two names in a series the first by string is also the first by number, if
a name outside the series stands between them. -/
def SeriesAgree (names : Set Text) : Prop :=
  ∀ s1 ∈ names, ∀ s2 ∈ names, ∀ s3 ∈ names, SameSeries s1 s2 → ¬SameSeries s1 s3 →
    s1 < s3 → s3 < s2 → serverNumber s1 < serverNumber s2

theorem cmpServerNames_trans {names : Set Text} (h : SeriesAgree names) {s1 s2 s3 : Text}
    (h1 : s1 ∈ names) (h2 : s2 ∈ names) (h3 : s3 ∈ names) (h12 : cmpServerNames s1 s2 ≤ 0)
    (h23 : cmpServerNames s2 s3 ≤ 0) : cmpServerNames s1 s3 ≤ 0 := by
  by_cases hs12 : SameSeries s1 s2
  · rw [cmpServerNames_nonpos_of_series hs12] at h12
    by_cases hs23 : SameSeries s2 s3
    · rw [cmpServerNames_nonpos_of_series hs23] at h23
      rw [cmpServerNames_nonpos_of_series (hs12.trans hs23)]
      exact h12.trans h23
    · -- the third name would stand between the other two
      have hs13 : ¬SameSeries s1 s3 := fun h13 => hs23 (hs12.symm.trans h13)
      rw [cmpServerNames_nonpos_of_not_series hs23] at h23
      rw [cmpServerNames_nonpos_of_not_series hs13]
      by_contra hlt
      have hne : s2 ≠ s3 := fun heq => hs23 (heq ▸ hs12.symm.left_self)
      have hnumber := h s2 h2 s1 h1 s3 h3 hs12.symm hs23 (lt_of_le_of_ne h23 hne) (not_le.mp hlt)
      exact absurd h12 (not_le.mpr hnumber)
  · rw [cmpServerNames_nonpos_of_not_series hs12] at h12
    by_cases hs23 : SameSeries s2 s3
    · have hs13 : ¬SameSeries s1 s3 := fun h13 => hs12 (h13.trans hs23.symm)
      rw [cmpServerNames_nonpos_of_series hs23] at h23
      rw [cmpServerNames_nonpos_of_not_series hs13]
      by_contra hlt
      have hne : s1 ≠ s2 := fun heq => hs12 (heq ▸ hs23.left_self)
      have hnumber := h s3 h3 s2 h2 s1 h1 hs23.symm (fun h31 => hs13 h31.symm) (not_le.mp hlt)
        (lt_of_le_of_ne h12 hne)
      exact absurd h23 (not_le.mpr hnumber)
    · rw [cmpServerNames_nonpos_of_not_series hs23] at h23
      by_cases hs13 : SameSeries s1 s3
      · rw [cmpServerNames_nonpos_of_series hs13]
        have hne12 : s1 ≠ s2 := fun heq => hs12 (heq ▸ hs13.left_self)
        have hne23 : s2 ≠ s3 := fun heq => hs23 (heq ▸ hs13.symm.left_self)
        exact (h s1 h1 s3 h3 s2 h2 hs13 hs12 (lt_of_le_of_ne h12 hne12)
          (lt_of_le_of_ne h23 hne23)).le
      · rw [cmpServerNames_nonpos_of_not_series hs13]
        exact h12.trans h23

/-- On a set of names the comparison is a total preorder, and `list_sort` brings
every list of targets on these servers into its order, if and only if the series
of the set agree. -/
theorem server_order_iff (names : Set Text) :
    ((∀ s1 ∈ names, ∀ s2 ∈ names,
        (cmpServerNames s1 s2).sign = -(cmpServerNames s2 s1).sign) ∧
      (∀ s1 ∈ names, ∀ s2 ∈ names, ∀ s3 ∈ names, cmpServerNames s1 s2 ≤ 0 →
        cmpServerNames s2 s3 ≤ 0 → cmpServerNames s1 s3 ≤ 0) ∧
      ∀ targets : List (GenericTarget ℚ), (∀ t ∈ targets, t.servername ∈ names) →
        (listSort cmpTgtstatByserver targets).Pairwise fun t1 t2 => cmpTgtstatByserver t1 t2 ≤ 0) ↔
      SeriesAgree names := by
  constructor
  · rintro ⟨-, htrans, -⟩ s1 h1 s2 h2 s3 h3 hs12 hs13 h13 h32
    by_contra hle
    have h21 : cmpServerNames s2 s1 ≤ 0 :=
      (cmpServerNames_nonpos_of_series hs12.symm).mpr (not_lt.mp hle)
    have h13' : cmpServerNames s1 s3 ≤ 0 := (cmpServerNames_nonpos_of_not_series hs13).mpr h13.le
    have hs23 : ¬SameSeries s2 s3 := fun h23 => hs13 (hs12.trans h23)
    have h23 := htrans s2 h2 s1 h1 s3 h3 h21 h13'
    rw [cmpServerNames_nonpos_of_not_series hs23] at h23
    exact absurd h32 (not_lt.mpr h23)
  · intro h
    have htotal : ∀ t1 t2 : GenericTarget ℚ, t1.servername ∈ names → t2.servername ∈ names →
        0 ≤ cmpTgtstatByserver t1 t2 → cmpTgtstatByserver t2 t1 ≤ 0 := by
      intro t1 t2 _ _ hle
      unfold cmpTgtstatByserver at *
      rw [cmpServerNames_neg_comm]
      omega
    have htrans : ∀ t1 t2 t3 : GenericTarget ℚ, t1.servername ∈ names → t2.servername ∈ names →
        t3.servername ∈ names → cmpTgtstatByserver t1 t2 ≤ 0 → cmpTgtstatByserver t2 t3 ≤ 0 →
          cmpTgtstatByserver t1 t3 ≤ 0 := fun _ _ _ h1 h2 h3 => cmpServerNames_trans h h1 h2 h3
    refine ⟨?_, ?_, ?_⟩
    · intro s1 _ s2 _
      rw [cmpServerNames_neg_comm, Int.sign_neg]
    · intro s1 h1 s2 h2 s3 h3
      exact cmpServerNames_trans h h1 h2 h3
    · intro targets htargets
      exact pairwise_listSort htotal htrans htargets

/-- `oss10` comes before `oss1a` and that before `oss2`, but `oss2` before `oss10`. -/
theorem server_order_cycle :
    ¬∀ s1 s2 s3 : Text, cmpServerNames s1 s2 ≤ 0 → cmpServerNames s2 s3 ≤ 0 →
      cmpServerNames s1 s3 ≤ 0 := by
  intro h
  have hcycle := h "oss2".toList "oss10".toList "oss1a".toList (by decide) (by decide)
  exact absurd hcycle (by decide)

end Lmt
