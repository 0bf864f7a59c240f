import Lmt.Scripts.OstRestart
import Lmt.Scripts.OstSamples
import Lmt.Scripts.Rebuild

/-!
# Averages

The average of an hour weighs each record the same. That of a longer period weighs
each hour the same, however many records it has.
-/

namespace Lmt

open Loops Runs

def AggRow.AverageLaw (row : AggRow) : Prop :=
  ∃ average aggregate : ℚ, ∃ numSamples : ℕ, row.average = some average ∧
    row.numSamples = some numSamples ∧ row.aggregate = some aggregate ∧
      average * numSamples = aggregate

/-- The law for `READ_BYTES` and `WRITE_BYTES`. -/
def AggTable.AverageLaw (t : AggTable) : Prop :=
  ∀ (k : AggKey) (c : ByteCounter), k.variableId = c.var.id → ∀ row ∈ t.find? k, row.AverageLaw

theorem averageLaw_row {w : OstWork} (hw : w.count ≠ 0) (c : ByteCounter) :
    (w.row c.var).AverageLaw := by
  have hcount : (w.count : ℚ) ≠ 0 := Nat.cast_ne_zero.mpr hw
  refine ⟨(w.vars c.var).sum / w.count, (w.vars c.var).sum, w.count, rfl, rfl, ?_,
    div_mul_cancel₀ _ hcount⟩
  cases c <;> rfl

theorem averageLaw_processHour (raw : OstHistory) (s : OstHash × AggTable) (start : DateTime)
    (h : AggTable.AverageLaw s.2) : AggTable.AverageLaw (processHour raw s start).2 := by
  intro k c hk row hrow
  by_cases hwritten : Written raw start k
  · obtain ⟨id, t, var⟩ := k
    obtain ⟨rfl, hdata, -⟩ := hwritten
    simp only at hk
    subst hk
    rw [find?_processHour_of_hourOf raw s hdata, Option.mem_some_iff] at hrow
    subst hrow
    apply averageLaw_row
    rw [hash_processHour, count_run_process]
    have := List.length_pos_iff.mpr hdata
    omega
  · rw [find?_processHour_of_not raw s
      fun htime hdata v hv => hwritten ⟨htime, hdata, v, hv⟩] at hrow
    exact h k c hk row hrow

theorem averageLaw_lmtUpdateOstAgg (raw : OstHistory) {hourly : AggTable}
    (h : hourly.AverageLaw) : (lmtUpdateOstAgg raw hourly).AverageLaw := by
  have hstep : ∀ (s : OstHash × AggTable) (start : DateTime), AggTable.AverageLaw s.2 → True →
      AggTable.AverageLaw (processHour raw s start).2 :=
    fun s start hs _ => averageLaw_processHour raw s start hs
  rw [lmtUpdateOstAgg]
  split
  · exact h
  · rw [processHours, hourlyTable_eq]
    exact invariant_run hstep h fun _ _ => trivial

theorem average_run (v : AggSums) (rows : List AggRow) :
    (run OtherAgg.updateVar v rows).average =
      v.average + (rows.map fun row => row.average.getD 0).sum := by
  induction rows generalizing v with
  | nil => simp
  | cons row rows ih =>
    have hrow : (OtherAgg.updateVar v row).average = v.average + row.average.getD 0 := by
      rw [OtherAgg.updateVar]
      cases row.average with
      | none => exact (add_zero _).symm
      | some x => rfl
    rw [run_cons, ih, hrow, List.map_cons, List.sum_cons, add_assoc]

theorem average_periodRow (rows : List AggRow) :
    (periodRow rows).average =
      some ((rows.map fun row => row.average.getD 0).sum / rows.length) := by
  have hsum := average_run OtherAgg.initVar rows
  rw [OtherAgg.initVar, zero_add] at hsum
  rw [← hsum]
  rfl

/-- With the same number of samples in each row, the mean weighs the records the same. -/
theorem averageLaw_periodRow {rows : List AggRow} (hne : rows ≠ [])
    (hlaw : ∀ row ∈ rows, row.AverageLaw) {n : ℕ} (hn : ∀ row ∈ rows, row.numSamples = some n) :
    (periodRow rows).AverageLaw := by
  have hlength : (rows.length : ℚ) ≠ 0 := by
    simpa using hne
  have hsamples : (rows.map AggRow.samples).sum = rows.length * n := by
    have hrow : ∀ row ∈ rows, row.samples = n := by
      intro row hrow
      rw [AggRow.samples, hn row hrow, Option.getD_some]
    rw [List.map_congr_left hrow, List.map_const', List.sum_replicate, smul_eq_mul]
  have hbytes : (rows.map AggRow.bytes).sum = (rows.map fun row => row.average.getD 0).sum * n := by
    have hrow : ∀ row ∈ rows, row.bytes = row.average.getD 0 * n := by
      intro row hrow
      obtain ⟨average, aggregate, numSamples, ha, hs, hb, hmul⟩ := hlaw row hrow
      obtain rfl : numSamples = n := Option.some_inj.mp (hs.symm.trans (hn row hrow))
      rw [AggRow.bytes, ha, hb, Option.getD_some, Option.getD_some, hmul]
    rw [List.map_congr_left hrow, List.sum_map_mul_right]
  have hnum := numSamples_run OtherAgg.initVar rows
  have hagg := aggregate_run OtherAgg.initVar rows
  refine ⟨_, _, _, average_periodRow rows, rfl, rfl, ?_⟩
  rw [hnum, hagg, hsamples, hbytes, OtherAgg.initVar, Nat.zero_add, zero_add, Nat.cast_mul]
  field_simp

/-- A run of `lmt_update_ost_agg` over some records, or of `lmt_update_other_agg`. -/
inductive ScriptRun where
  | ostAgg (raw : OstHistory)
  | otherAgg (replaceAll : Bool)

/-- `OST_AGGREGATE_HOUR`, and the tables of days, weeks, months and years. -/
structure OstTables where
  hourly : AggTable
  longer : Interval → AggTable

def OstTables.empty : OstTables := ⟨.empty, fun _ => .empty⟩

def OstTables.step (s : OstTables) : ScriptRun → OstTables
  | .ostAgg raw => { s with hourly := lmtUpdateOstAgg raw s.hourly }
  | .otherAgg replaceAll => { s with longer := processAggTables replaceAll s.hourly s.longer }

theorem averageLaw_hourly (runs : List ScriptRun) :
    (run OstTables.step .empty runs).hourly.AverageLaw := by
  have hstep : ∀ (s : OstTables) (r : ScriptRun), s.hourly.AverageLaw → True →
      (s.step r).hourly.AverageLaw := by
    intro s r hs _
    cases r with
    | ostAgg raw => exact averageLaw_lmtUpdateOstAgg raw hs
    | otherAgg replaceAll => exact hs
  have hempty : OstTables.empty.hourly.AverageLaw := by
    intro k c _ row hrow
    cases hrow
  exact invariant_run hstep hempty fun _ _ => trivial

theorem find?_processAggTables_cases {replaceAll : Bool} {hourly : AggTable}
    {tables : Interval → AggTable} {interval : Interval} {k : AggKey} {row : AggRow}
    (hrow : row ∈ (processAggTables replaceAll hourly tables interval).find? k) :
    (keyRows hourly interval k ≠ [] ∧ row = periodRow (keyRows hourly interval k)) ∨
      row ∈ (tables interval).find? k := by
  rw [processAggTables] at hrow
  split at hrow
  · rw [find?_updateAggTable] at hrow
    split_ifs at hrow with hwritten
    · exact Or.inl ⟨hwritten.2.2, (Option.some_inj.mp hrow).symm⟩
    · exact Or.inr hrow
  · exact Or.inr hrow

/-- A row of a longer period comes from the hours before the run that wrote it. -/
theorem exists_keyRows (runs : List ScriptRun) {interval : Interval} {k : AggKey} {row : AggRow}
    (hrow : row ∈ ((run OstTables.step .empty runs).longer interval).find? k) :
    ∃ earlier replaceAll later, runs = earlier ++ .otherAgg replaceAll :: later ∧
      keyRows (run OstTables.step .empty earlier).hourly interval k ≠ [] ∧
        row = periodRow (keyRows (run OstTables.step .empty earlier).hourly interval k) := by
  induction runs using List.reverseRecOn with
  | nil => cases hrow
  | append_singleton runs r ih =>
    have hold (hmem : row ∈ ((run OstTables.step .empty runs).longer interval).find? k) :
        ∃ earlier replaceAll later, runs ++ [r] = earlier ++ .otherAgg replaceAll :: later ∧
          keyRows (run OstTables.step .empty earlier).hourly interval k ≠ [] ∧
            row = periodRow (keyRows (run OstTables.step .empty earlier).hourly interval k) := by
      obtain ⟨earlier, replaceAll, later, rfl, hrows⟩ := ih hmem
      exact ⟨earlier, replaceAll, later ++ [r], List.append_assoc .., hrows⟩
    rw [run_concat] at hrow
    cases r with
    | ostAgg raw => exact hold hrow
    | otherAgg replaceAll =>
      rcases find?_processAggTables_cases hrow with hwritten | hmem
      · exact ⟨runs, replaceAll, [], rfl, hwritten⟩
      · exact hold hmem

theorem keyRows_averageLaw {hourly : AggTable} (h : hourly.AverageLaw) {interval : Interval}
    {k : AggKey} {c : ByteCounter} (hk : k.variableId = c.var.id) :
    ∀ row ∈ keyRows hourly interval k, row.AverageLaw := by
  intro row hrow
  obtain ⟨r, hr, rfl⟩ := List.mem_map.mp hrow
  obtain ⟨hmem, hperiod⟩ := List.mem_filter.mp (List.mem_of_mem_filter hr)
  rw [decide_eq_true_iff] at hperiod
  exact h r.1 c (hperiod.2.2.trans hk) r.2 (KeyedTable.find?_eq_some.mpr hmem)

/-- In every row of bytes of an hour the average agrees with the number of samples. In
a row of a longer period it is the mean of the averages of the hours as they were before the run
that wrote the row, and agrees if they have the same number of samples. -/
theorem averages_of_runs (runs : List ScriptRun) (c : ByteCounter) (k : AggKey)
    (hk : k.variableId = c.var.id) :
    (∀ row ∈ (run OstTables.step .empty runs).hourly.find? k, row.AverageLaw) ∧
      ∀ interval, ∀ row ∈ ((run OstTables.step .empty runs).longer interval).find? k,
        ∃ earlier replaceAll later, runs = earlier ++ .otherAgg replaceAll :: later ∧ ∃ rows ≠ [],
          rows = keyRows (run OstTables.step .empty earlier).hourly interval k ∧
            (∀ r ∈ rows, r.AverageLaw) ∧
              row.average = some ((rows.map fun r => r.average.getD 0).sum / rows.length) ∧
                ((∃ n, ∀ r ∈ rows, r.numSamples = some n) → row.AverageLaw) := by
  constructor
  · exact averageLaw_hourly runs k c hk
  · intro interval row hrow
    obtain ⟨earlier, replaceAll, later, hruns, hne, rfl⟩ := exists_keyRows runs hrow
    have hlaw := @keyRows_averageLaw _ (averageLaw_hourly earlier) interval _ _ hk
    refine ⟨earlier, replaceAll, later, hruns, _, hne, rfl, hlaw, average_periodRow _, ?_⟩
    rintro ⟨n, hn⟩
    exact averageLaw_periodRow hne hlaw hn

theorem averages_of_runs_on_the_hour :
    ∃ row ∈ (run OstTables.step .empty [.ostAgg historyOnTheHour]).hourly.find? ⟨1, aggEpoch, 1⟩,
      row.AverageLaw := by
  obtain ⟨row, hrow⟩ : ∃ row, (run OstTables.step .empty [.ostAgg historyOnTheHour]).hourly.find?
      ⟨1, aggEpoch, 1⟩ = some row := Option.isSome_iff_exists.mp (by decide +kernel)
  have hlaws := (averages_of_runs [.ostAgg historyOnTheHour] .read ⟨1, aggEpoch, 1⟩ rfl).1
  exact ⟨row, hrow, hlaws row hrow⟩

/-- A day of one hour with one sample of 5 bytes and one hour with two samples of 2
bytes together. -/
theorem day_average_of_unequal_hours :
    ¬∀ (runs : List ScriptRun) (c : ByteCounter) (k : AggKey), k.variableId = c.var.id →
      (∀ row ∈ (run OstTables.step .empty runs).hourly.find? k, row.AverageLaw) ∧
        ∀ interval, ∀ row ∈ ((run OstTables.step .empty runs).longer interval).find? k,
          row.AverageLaw := by
  intro h
  have hday : ((run OstTables.step .empty [.ostAgg historyOnTheHour, .otherAgg false]).longer
      .day).find? ⟨1, aggEpoch, 1⟩ =
        some ⟨some 7, some 0, some 5, some 3, some 3⟩ := by decide +kernel
  obtain ⟨average, aggregate, numSamples, ha, hn, hs, hmul⟩ :=
    (h _ .read ⟨1, aggEpoch, 1⟩ rfl).2 .day _ hday
  obtain rfl := Option.some_inj.mp ha
  obtain rfl := Option.some_inj.mp hn
  obtain rfl := Option.some_inj.mp hs
  norm_num at hmul

end Lmt
