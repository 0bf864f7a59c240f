import Lmt.Scripts.OstHours

/-!
# The number of samples of all hours

Both bounds of an hour's query are inclusive, so a record between two hours is
counted in both. Where there is none, each record up to the final timestamp is
counted once, unless the final timestamp is the starting point itself: then no
hour is processed.
-/

namespace Lmt

open Loops Runs Counters

variable (raw : OstHistory)

theorem samples_processHour (s : OstHash × AggTable) {start : DateTime}
    (hnew : start ∉ AggTable.timestamps s.2) (id : ℕ) (v : OstVariable) :
    AggTable.total (processHour raw s start).2 id v.id AggRow.samples =
      AggTable.total s.2 id v.id AggRow.samples + (raw.hourOf start id).length := by
  rw [total_processHour raw s _ hnew, hash_processHour]
  congr 1
  split_ifs with h
  · rw [h]
    rfl
  · rw [AggRow.samples, OstWork.row, count_run_process]
    exact Nat.zero_add _

section

variable {final : DateTime} (hfinal : StoredTime final)

include hfinal

theorem samples_run {a : DateTime} (ha : a.FourDigitYear) (s : OstHash × AggTable)
    (hold : ∀ t ∈ AggTable.timestamps s.2, t < a) (id : ℕ) (v : OstVariable) :
    AggTable.total (run (processHour raw) s (aggHours a final)).2 id v.id AggRow.samples =
      AggTable.total s.2 id v.id AggRow.samples +
        ((aggHours a final).map fun b => (raw.hourOf b id).length).sum := by
  revert s
  apply aggHours_induction hfinal ha
  · intro a ha hle s _
    rw [aggHours_of_le hfinal ha hle]
    simp
  · intro a ha hlt ih s hold
    have hnew : a ∉ AggTable.timestamps s.2 := fun hmem => lt_irrefl a (hold a hmem)
    rw [aggHours_of_lt hfinal ha hlt, run_cons, ih _ (timestamps_lt_addHour raw s hold),
      samples_processHour raw s hnew, List.map_cons, List.sum_cons, Nat.add_assoc]

theorem samples_processHours {a : DateTime} (ha : a.FourDigitYear) {hourly : AggTable}
    (hold : ∀ t ∈ hourly.timestamps, t < a) (id : ℕ) (v : OstVariable) :
    (processHours raw hourly a final).total id v.id AggRow.samples =
      hourly.total id v.id AggRow.samples +
        ((aggHours a final).map fun b => (raw.hourOf b id).length).sum := by
  rw [processHours, hourlyTable_eq]
  exact samples_run raw hfinal ha (initialHash raw a, hourly) hold id v

/-- A time between the starting point and the final timestamp that ends an hour. -/
def EndsHour (start final t : DateTime) : Prop :=
  start < t ∧ t < final ∧ 3600 ∣ t.seconds - start.seconds

instance (start final t : DateTime) : Decidable (EndsHour start final t) :=
  inferInstanceAs (Decidable (_ ∧ _ ∧ _))

theorem hours_of_time {t : DateTime} (ht : t ≤ final) {a : DateTime} (ha : a.FourDigitYear)
    (hlt : a < final) :
    (aggHours a final).countP (fun b => b ≤ t ∧ t ≤ b.addHour) =
      (if a ≤ t then 1 else 0) + if EndsHour a final t then 1 else 0 := by
  revert hlt
  apply aggHours_induction hfinal ha
  · intro a ha hle hlt
    exact absurd hlt hle.not_gt
  · intro a ha hlt ih _
    have hhour := a.seconds_addHour
    rw [aggHours_of_lt hfinal ha hlt, List.countP_cons]
    by_cases hnext : a.addHour < final
    · rw [ih hnext]
      simp only [EndsHour, DateTime.le_def, DateTime.lt_def, hhour, decide_eq_true_eq] at *
      split_ifs <;> omega
    · have hyear : a.addHour.FourDigitYear :=
        (aggHours_round hfinal a ha ((moreHours_iff hfinal ha).mpr hlt)).1
      rw [aggHours_of_le hfinal hyear (not_lt.mp hnext), List.countP_nil]
      simp only [EndsHour, DateTime.le_def, DateTime.lt_def, hhour, decide_eq_true_eq] at *
      split_ifs <;> omega

theorem sum_hourOf (hrange : ∀ r ∈ raw.records, r.timestamp ≤ final) {a : DateTime}
    (ha : a.FourDigitYear) (hlt : a < final) (id : ℕ) :
    ((aggHours a final).map fun b => (raw.hourOf b id).length).sum =
      (raw.of id).countP (fun r => a ≤ r.timestamp) +
        (raw.of id).countP fun r => EndsHour a final r.timestamp := by
  have htimes : ∀ r ∈ raw.of id,
      (aggHours a final).countP (fun b => b ≤ r.timestamp ∧ r.timestamp ≤ b.addHour) =
        (if a ≤ r.timestamp then 1 else 0) + if EndsHour a final r.timestamp then 1 else 0 :=
    fun r hr => hours_of_time hfinal (hrange r (List.mem_of_mem_filter hr)) ha hlt
  calc ((aggHours a final).map fun b => (raw.hourOf b id).length).sum
      = ((aggHours a final).map fun b =>
          (raw.of id).countP fun r => b ≤ r.timestamp ∧ r.timestamp ≤ b.addHour).sum := by
        simp only [OstHistory.hourOf, List.countP_eq_length_filter]
    _ = ((raw.of id).map fun r =>
          (aggHours a final).countP fun b => b ≤ r.timestamp ∧ r.timestamp ≤ b.addHour).sum :=
        sum_countP_comm ..
    _ = ((raw.of id).map fun r => (if a ≤ r.timestamp then 1 else 0) +
          if EndsHour a final r.timestamp then 1 else 0).sum := by
        rw [List.map_congr_left htimes]
    _ = _ := by
        rw [List.sum_map_add, ← sum_map_ite, ← sum_map_ite]
        simp only [decide_eq_true_eq]

end

/-- The records from the starting point of a first run up to the final timestamp. -/
def InRange (raw : OstHistory) (r : OstRecord) : Prop :=
  aggEpoch ≤ r.timestamp ∧ ∀ final ∈ getFinalTimestamp raw.timestamps, r.timestamp ≤ final

instance : DecidablePred (InRange raw) := fun _ => inferInstanceAs (Decidable (_ ∧ _))

/-- The final timestamp is not the starting point, and no record ends an hour
before it. -/
def CountedOnce (raw : OstHistory) : Prop :=
  ∀ final ∈ getFinalTimestamp raw.timestamps,
    final ≠ aggEpoch ∧ ∀ r ∈ raw.records, ¬EndsHour aggEpoch final r.timestamp

variable {raw}

theorem inRange_iff {r : OstRecord} (hr : r ∈ raw.records) :
    InRange raw r ↔ aggEpoch ≤ r.timestamp :=
  and_iff_left fun _ h => le_final h r hr

theorem countP_inRange (id : ℕ) :
    (raw.of id).countP (fun r => InRange raw r) =
      (raw.of id).countP fun r => aggEpoch ≤ r.timestamp := by
  apply List.countP_congr
  intro r hr
  simpa using inRange_iff (List.mem_of_mem_filter hr)

theorem samples_lmtUpdateOstAgg {final : DateTime}
    (h : getFinalTimestamp raw.timestamps = some final) (hlt : aggEpoch < final) (id : ℕ)
    (v : OstVariable) :
    AggTable.total (lmtUpdateOstAgg raw .empty) id v.id AggRow.samples =
      (raw.of id).countP (fun r => InRange raw r) +
        (raw.of id).countP fun r => EndsHour aggEpoch final r.timestamp := by
  have hold : ∀ t ∈ AggTable.timestamps KeyedTable.empty, t < aggEpoch := by
    intro t ht
    cases ht
  rw [lmtUpdateOstAgg_of_le h getFinalTimestamp_empty hlt.le,
    samples_processHours raw (stored_final h) fourDigitYear_aggEpoch hold,
    sum_hourOf raw (stored_final h) (le_final h) fourDigitYear_aggEpoch hlt, countP_inRange,
    total_empty, Nat.zero_add]

/-- Without a record after the starting point no hour is processed. -/
theorem lmtUpdateOstAgg_of_final_le {final : DateTime}
    (h : getFinalTimestamp raw.timestamps = some final) (hle : final ≤ aggEpoch) :
    lmtUpdateOstAgg raw .empty = .empty := by
  rcases hle.lt_or_eq with hlt | rfl
  · apply lmtUpdateOstAgg_of_lt
    intro t ht
    exact ((getFinalTimestamp_eq_some.mp h).2 t ht).trans_lt hlt
  · rw [lmtUpdateOstAgg_of_le h getFinalTimestamp_empty le_rfl,
      processHours_of_le (stored_final h) _ _ fourDigitYear_aggEpoch le_rfl]

/-- The samples of `READ_BYTES` of each OST are its records, if and only if no
record ends an hour before the final timestamp, which is not the starting point. -/
theorem samples_counted_once_iff (raw : OstHistory) :
    (∀ id, AggTable.total (lmtUpdateOstAgg raw .empty) id OstVariable.readBytes.id AggRow.samples =
      (raw.of id).countP fun r => InRange raw r) ↔ CountedOnce raw := by
  rw [CountedOnce]
  cases hfinal : getFinalTimestamp raw.timestamps with
  | none =>
    have hnil : raw.records = [] := List.map_eq_nil_iff.mp (getFinalTimestamp_eq_none.mp hfinal)
    have hof (id : ℕ) : raw.of id = [] := by rw [OstHistory.of, hnil, List.filter_nil]
    have hrun : lmtUpdateOstAgg raw .empty = .empty := by
      apply lmtUpdateOstAgg_of_lt
      rw [getFinalTimestamp_eq_none.mp hfinal]
      simp
    simp [hof, hrun, AggTable.total]
  | some final =>
    simp only [Option.mem_some_iff, forall_eq']
    rcases lt_or_ge aggEpoch final with hlt | hle
    · simp only [samples_lmtUpdateOstAgg hfinal hlt, Nat.add_eq_left, List.countP_eq_zero,
        decide_eq_true_eq]
      constructor
      · intro h
        exact ⟨hlt.ne', fun r hr => h r.ostId r (List.mem_filter.mpr ⟨hr, by simp⟩)⟩
      · intro h id r hr
        exact h.2 r (List.mem_of_mem_filter hr)
    · have hnone : ∀ r ∈ raw.records, ¬EndsHour aggEpoch final r.timestamp :=
        fun r _ hends => (hends.1.trans hends.2.1).not_ge hle
      simp only [lmtUpdateOstAgg_of_final_le hfinal hle, total_empty, countP_inRange]
      constructor
      · intro h
        refine ⟨fun heq => ?_, hnone⟩
        obtain ⟨r, hr, rfl⟩ := List.mem_map.mp (getFinalTimestamp_eq_some.mp hfinal).1
        have hcount := List.countP_eq_zero.mp (h r.ostId).symm r (List.mem_filter.mpr ⟨hr, by simp⟩)
        simp [heq] at hcount
      · rintro ⟨hne, -⟩ id
        refine (List.countP_eq_zero.mpr fun r hr => ?_).symm
        have hlt := (le_final hfinal r (List.mem_of_mem_filter hr)).trans_lt
          (lt_of_le_of_ne hle hne)
        simpa using hlt

def recordsOnTheHour : List OstRecord :=
  [.counters 1 aggEpoch.addHour 5 5, .counters 1 aggEpoch.addHour.addHour 7 6]

theorem recordsOnTheHour_ordered :
    recordsOnTheHour.Pairwise fun a b => a.timestamp ≤ b.timestamp := by decide

theorem recordsOnTheHour_stored : ∀ r ∈ recordsOnTheHour, StoredTime r.timestamp := by
  decide

def historyOnTheHour : OstHistory := ⟨_, recordsOnTheHour_ordered, recordsOnTheHour_stored⟩

/-- The first record is in two hours. -/
theorem record_on_the_hour_counted_twice :
    ¬∀ id, AggTable.total (lmtUpdateOstAgg historyOnTheHour .empty) id OstVariable.readBytes.id
      AggRow.samples = (historyOnTheHour.of id).countP fun r => InRange historyOnTheHour r := by
  intro h
  have htotal :
      AggTable.total (lmtUpdateOstAgg historyOnTheHour .empty) 1 1 AggRow.samples = 3 := by
    decide +kernel
  have hcount : (historyOnTheHour.of 1).countP (fun r => InRange historyOnTheHour r) = 2 := by
    decide
  have := (htotal.symm.trans (h 1)).trans hcount
  omega

end Lmt
