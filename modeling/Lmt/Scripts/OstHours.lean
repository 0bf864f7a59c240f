import Lmt.Library.Counters
import Lmt.Scripts.OstAgg

/-!
# The hours of `lmt_update_ost_agg`

The OSTs do not affect each other: what is kept of one and its rows depend on its
own records. An hour writes the rows of its own timestamp and keeps the others.
-/

namespace Lmt

open Loops Runs Counters

def OstHistory.of (raw : OstHistory) (id : ℕ) : List OstRecord :=
  raw.records.filter fun r => r.ostId = id

def OstHistory.hourOf (raw : OstHistory) (start : DateTime) (id : ℕ) : List OstRecord :=
  (raw.of id).filter fun r => start ≤ r.timestamp ∧ r.timestamp ≤ start.addHour

theorem run_processRecord_apply (hash : OstHash) (rs : List OstRecord) (id : ℕ) :
    run processRecord hash rs id =
      run OstWork.process (hash id) (rs.filter fun r => r.ostId = id) :=
  run_update_apply OstRecord.ostId OstWork.process hash rs id

theorem vars_process (w : OstWork) (r : OstRecord) (v : OstVariable) :
    (w.process r).vars v = updateVar (if w.count = 0 then initVar else w.vars v) (w.value r v) :=
  rfl

theorem count_run_process (w : OstWork) (rs : List OstRecord) :
    (run OstWork.process w rs).count = w.count + rs.length := by
  induction rs generalizing w with
  | nil => rfl
  | cons r rs ih =>
    have hcount : (w.process r).count = w.count + 1 := rfl
    rw [run_cons, ih, List.length_cons, hcount]
    omega

theorem filter_hourRecords (raw : OstHistory) (start : DateTime) (id : ℕ) :
    (hourRecords raw start).filter (fun r => r.ostId = id) = raw.hourOf start id :=
  List.filter_comm ..

variable (raw : OstHistory) (s : OstHash × AggTable) (start : DateTime)

theorem hash_processHour (id : ℕ) :
    (processHour raw s start).1 id =
      run OstWork.process (clearCounts s.1 id) (raw.hourOf start id) := by
  rw [← filter_hourRecords, ← run_processRecord_apply]
  rfl

theorem mem_hourIds (id : ℕ) :
    id ∈ ((hourRecords raw start).map OstRecord.ostId).dedup ↔ raw.hourOf start id ≠ [] := by
  rw [List.mem_dedup, List.mem_map, ← filter_hourRecords, ← List.length_pos_iff,
    List.length_pos_iff_exists_mem]
  simp [List.mem_filter]

theorem OstVariable.id_injective : Function.Injective OstVariable.id := by
  intro v v'
  cases v <;> cases v' <;> simp [OstVariable.id]

theorem mem_ostVariables (v : OstVariable) : v ∈ ostVariables := by
  cases v <;> decide

theorem nodup_ostVariables : ostVariables.Nodup := by decide

variable {start}

theorem mem_hourRows {hash : OstHash} {ids : List ℕ} {k : AggKey} {row : AggRow} :
    (k, row) ∈ hourRows start hash ids ↔
      k.id ∈ ids ∧ k.timestamp = start ∧ ∃ v : OstVariable, v.id = k.variableId ∧
        (hash k.id).row v = row := by
  simp only [hourRows, List.mem_flatMap, List.mem_map, Prod.mk.injEq]
  constructor
  · rintro ⟨id, hid, v, -, rfl, rfl⟩
    exact ⟨hid, rfl, v, rfl, rfl⟩
  · rintro ⟨hid, rfl, v, hv, rfl⟩
    exact ⟨k.id, hid, v, mem_ostVariables v, by rw [hv], rfl⟩

theorem nodup_hourRows {hash : OstHash} {ids : List ℕ} (hids : ids.Nodup) :
    ((hourRows start hash ids).map Prod.fst).Nodup := by
  have hkeys : (hourRows start hash ids).map Prod.fst =
      ids.flatMap fun id => ostVariables.map fun v => ⟨id, start, v.id⟩ := by
    simp [hourRows, List.map_flatMap, Function.comp_def]
  rw [hkeys, List.nodup_flatMap]
  constructor
  · intro id _
    exact nodup_ostVariables.map fun v v' h => OstVariable.id_injective (AggKey.mk.inj h).2.2
  · refine hids.imp fun {i j} hij k hi hj => hij ?_
    obtain ⟨v, -, rfl⟩ := List.mem_map.mp hi
    obtain ⟨v', -, h⟩ := List.mem_map.mp hj
    exact (AggKey.mk.inj h).1.symm

def newRows (raw : OstHistory) (s : OstHash × AggTable) (start : DateTime) :
    List (AggKey × AggRow) :=
  hourRows start (processHour raw s start).1 ((hourRecords raw start).map OstRecord.ostId).dedup

theorem table_processHour :
    (processHour raw s start).2 = s.2.replaceAll (newRows raw s start) := rfl

theorem nodup_newRows : ((newRows raw s start).map Prod.fst).Nodup :=
  nodup_hourRows (List.nodup_dedup _)

theorem mem_newRows {k : AggKey} {row : AggRow} :
    (k, row) ∈ newRows raw s start ↔ raw.hourOf start k.id ≠ [] ∧ k.timestamp = start ∧
      ∃ v : OstVariable, v.id = k.variableId ∧ ((processHour raw s start).1 k.id).row v = row := by
  rw [newRows, mem_hourRows, mem_hourIds]

theorem find?_processHour_of_hourOf {id : ℕ} (h : raw.hourOf start id ≠ []) (v : OstVariable) :
    (processHour raw s start).2.find? ⟨id, start, v.id⟩ =
      some (((processHour raw s start).1 id).row v) := by
  have hrow : (⟨id, start, v.id⟩, ((processHour raw s start).1 id).row v) ∈ newRows raw s start :=
    (mem_newRows raw s).mpr ⟨h, rfl, v, rfl, rfl⟩
  have hlookup := (KeyedTable.find?_eq_some (t := ⟨_, nodup_newRows raw s⟩)).mpr hrow
  rw [KeyedTable.find?] at hlookup
  rw [table_processHour, KeyedTable.find?_replaceAll (nodup_newRows raw s), hlookup, Option.some_or]

theorem find?_processHour_of_not {k : AggKey}
    (h : k.timestamp = start → raw.hourOf start k.id ≠ [] →
      ∀ v : OstVariable, v.id ≠ k.variableId) :
    (processHour raw s start).2.find? k = s.2.find? k := by
  have hlookup : (newRows raw s start).lookup k = none := by
    refine (KeyedTable.find?_eq_none (t := ⟨_, nodup_newRows raw s⟩)).mpr fun hmem => ?_
    obtain ⟨⟨k', row⟩, hrow, rfl⟩ := List.mem_map.mp hmem
    obtain ⟨hid, htime, v, hv, -⟩ := (mem_newRows raw s).mp hrow
    exact h htime hid v hv
  rw [table_processHour, KeyedTable.find?_replaceAll (nodup_newRows raw s), hlookup, Option.none_or]

theorem filter_newRows (id : ℕ) (v : OstVariable) :
    (newRows raw s start).filter (fun r => r.1.id = id ∧ r.1.variableId = v.id) =
      if raw.hourOf start id = [] then []
      else [(⟨id, start, v.id⟩, ((processHour raw s start).1 id).row v)] := by
  have hnodup : ((newRows raw s start).filter
      (fun r => r.1.id = id ∧ r.1.variableId = v.id)).Nodup :=
    (List.Nodup.of_map _ (nodup_newRows raw s)).filter _
  have hmem (r : AggKey × AggRow) :
      r ∈ (newRows raw s start).filter (fun r => r.1.id = id ∧ r.1.variableId = v.id) ↔
        raw.hourOf start id ≠ [] ∧
          r = (⟨id, start, v.id⟩, ((processHour raw s start).1 id).row v) := by
    obtain ⟨⟨i, t, var⟩, row⟩ := r
    rw [List.mem_filter, mem_newRows]
    simp only [decide_eq_true_eq, Prod.mk.injEq, AggKey.mk.injEq]
    constructor
    · rintro ⟨⟨hne, rfl, v', hv', rfl⟩, rfl, hvar⟩
      obtain rfl := OstVariable.id_injective (hv'.trans hvar)
      exact ⟨hne, ⟨rfl, rfl, hv'.symm⟩, rfl⟩
    · rintro ⟨hne, ⟨rfl, rfl, rfl⟩, rfl⟩
      exact ⟨⟨hne, rfl, v, rfl, rfl⟩, rfl, rfl⟩
  split_ifs with h
  · exact List.eq_nil_iff_forall_not_mem.mpr fun r hr => ((hmem r).mp hr).1 h
  · refine List.perm_singleton.mp ((List.perm_ext_iff_of_nodup hnodup (by simp)).mpr fun r => ?_)
    rw [hmem, List.mem_singleton]
    exact and_iff_right h

theorem total_processHour {M : Type} [AddMonoid M] (f : AggRow → M)
    (hnew : start ∉ AggTable.timestamps s.2) (id : ℕ) (v : OstVariable) :
    AggTable.total (processHour raw s start).2 id v.id f =
      AggTable.total s.2 id v.id f +
        if raw.hourOf start id = [] then 0 else f (((processHour raw s start).1 id).row v) := by
  have hkeys : ∀ r ∈ newRows raw s start, r.1 ∉ s.2.keys := by
    rintro ⟨k, row⟩ hr hmem
    obtain ⟨r', hr', rfl⟩ := List.mem_map.mp hmem
    exact hnew (List.mem_map.mpr ⟨r', hr', ((mem_newRows raw s).mp hr).2.1⟩)
  rw [AggTable.total, table_processHour,
    KeyedTable.rows_replaceAll (nodup_newRows raw s) hkeys, List.filter_append, List.map_append,
    List.sum_append, filter_newRows]
  congr 1
  split_ifs
  · rfl
  · simp

theorem timestamps_processHour {t : DateTime}
    (h : t ∈ AggTable.timestamps (processHour raw s start).2) :
    t ∈ AggTable.timestamps s.2 ∨ t = start := by
  obtain ⟨r, hr, rfl⟩ := List.mem_map.mp h
  by_cases hk : r.1.timestamp = start
  · exact Or.inr hk
  · have hfind := KeyedTable.find?_eq_some.mpr hr
    rw [find?_processHour_of_not raw s fun htime => absurd htime hk,
      KeyedTable.find?_eq_some] at hfind
    exact Or.inl (List.mem_map.mpr ⟨_, hfind, rfl⟩)

/-- The rows stay before the next hour. -/
theorem timestamps_lt_addHour (hold : ∀ t ∈ AggTable.timestamps s.2, t < start) :
    ∀ t ∈ AggTable.timestamps (processHour raw s start).2, t < start.addHour := by
  intro t ht
  rcases timestamps_processHour raw s ht with ht | rfl
  · exact (hold t ht).trans start.lt_addHour
  · exact t.lt_addHour

section

variable {final : DateTime} (hfinal : StoredTime final)

include hfinal

theorem moreHours_iff {a : DateTime} (ha : a.FourDigitYear) :
    moreHours final a = true ↔ a < final := by
  rw [moreHours, decide_eq_true_iff,
    DateTime.compact_lt_compact ha (fourDigitYear_of_stored hfinal)]

theorem aggHours_round (a : DateTime) (ha : a.FourDigitYear) (htest : moreHours final a = true) :
    a.addHour.FourDigitYear ∧ secondsLeft final a.addHour < secondsLeft final a := by
  have hlt := (moreHours_iff hfinal ha).mp htest
  constructor
  · have hyear := DateTime.year_le_of_le hlt.le
    have hmonth := a.month_addHour_le
    have := hfinal.2
    simp only [DateTime.FourDigitYear, DateTime.year] at *
    omega
  · rw [DateTime.lt_def] at hlt
    rw [secondsLeft, secondsLeft, DateTime.seconds_addHour]
    omega

theorem aggHours_of_lt {a : DateTime} (ha : a.FourDigitYear) (h : a < final) :
    aggHours a final = a :: aggHours a.addHour final :=
  whileValues_of_test (aggHours_round hfinal) ha ((moreHours_iff hfinal ha).mpr h)

theorem aggHours_of_le {a : DateTime} (ha : a.FourDigitYear) (h : final ≤ a) :
    aggHours a final = [] := by
  apply whileValues_of_not_test
  rw [← Bool.not_eq_true, moreHours_iff hfinal ha]
  exact h.not_gt

omit hfinal in
theorem hourlyTable_eq (s : OstHash × AggTable) : hourlyTable s = s.2 := rfl

theorem processHours_of_le (raw : OstHistory) (hourly : AggTable) {a : DateTime}
    (ha : a.FourDigitYear) (h : final ≤ a) : processHours raw hourly a final = hourly := by
  rw [processHours, aggHours_of_le hfinal ha h, run_nil, hourlyTable_eq]

theorem aggHours_induction {motive : DateTime → Prop} {a : DateTime} (ha : a.FourDigitYear)
    (stop : ∀ a, a.FourDigitYear → final ≤ a → motive a)
    (round : ∀ a, a.FourDigitYear → a < final → motive a.addHour → motive a) : motive a := by
  apply Loops.induction_on (aggHours_round hfinal) ha
  · intro a ha htest
    refine stop a ha (not_lt.mp fun hlt => ?_)
    rw [(moreHours_iff hfinal ha).mpr hlt] at htest
    cases htest
  · intro a ha htest
    exact round a ha ((moreHours_iff hfinal ha).mp htest)

end

theorem fourDigitYear_aggEpoch : aggEpoch.FourDigitYear := by
  rw [DateTime.FourDigitYear]
  decide

variable {final : DateTime}

theorem stored_final {raw : OstHistory} (h : getFinalTimestamp raw.timestamps = some final) :
    StoredTime final := by
  obtain ⟨r, hr, rfl⟩ := List.mem_map.mp (getFinalTimestamp_eq_some.mp h).1
  exact raw.stored r hr

theorem le_final {raw : OstHistory} (h : getFinalTimestamp raw.timestamps = some final) :
    ∀ r ∈ raw.records, r.timestamp ≤ final :=
  fun _ hr => (getFinalTimestamp_eq_some.mp h).2 _ (List.mem_map_of_mem hr)

theorem getStartAndFinalAggTimestamps_of_le {raw : OstHistory} {hourly : AggTable}
    (h : getFinalTimestamp raw.timestamps = some final)
    (hle : (getFinalTimestamp hourly.timestamps).getD aggEpoch ≤ final) :
    getStartAndFinalAggTimestamps raw hourly =
      some ((getFinalTimestamp hourly.timestamps).getD aggEpoch, final) := by
  have hmem : final ∈ raw.timestamps.filter fun t =>
      ∀ a ∈ some ((getFinalTimestamp hourly.timestamps).getD aggEpoch), a ≤ t :=
    List.mem_filter.mpr ⟨(getFinalTimestamp_eq_some.mp h).1, by simpa using hle⟩
  obtain ⟨first, hfirst⟩ := Option.ne_none_iff_exists'.mp
    (mt List.min?_eq_none_iff.mp (List.ne_nil_of_mem hmem))
  rw [getStartAndFinalAggTimestamps, h, Option.bind_eq_bind, Option.bind_some, getFirstTimestamp,
    hfirst, Option.bind_some, Option.pure_def]

/-- The script dies without such a record. -/
theorem getStartAndFinalAggTimestamps_of_lt {raw : OstHistory} {hourly : AggTable}
    (h : ∀ t ∈ raw.timestamps, t < (getFinalTimestamp hourly.timestamps).getD aggEpoch) :
    getStartAndFinalAggTimestamps raw hourly = none := by
  have hnil : raw.timestamps.filter (fun t =>
      ∀ a ∈ some ((getFinalTimestamp hourly.timestamps).getD aggEpoch), a ≤ t) = [] :=
    List.filter_eq_nil_iff.mpr fun t ht => by simpa using h t ht
  rw [getStartAndFinalAggTimestamps, getFirstTimestamp, hnil]
  simp

theorem lmtUpdateOstAgg_of_le {raw : OstHistory} {hourly : AggTable} {start : DateTime}
    (h : getFinalTimestamp raw.timestamps = some final)
    (hstart : (getFinalTimestamp hourly.timestamps).getD aggEpoch = start) (hle : start ≤ final) :
    lmtUpdateOstAgg raw hourly = processHours raw hourly start final := by
  subst hstart
  rw [lmtUpdateOstAgg, getStartAndFinalAggTimestamps_of_le h hle]

theorem lmtUpdateOstAgg_of_lt {raw : OstHistory} {hourly : AggTable}
    (h : ∀ t ∈ raw.timestamps, t < (getFinalTimestamp hourly.timestamps).getD aggEpoch) :
    lmtUpdateOstAgg raw hourly = hourly := by
  rw [lmtUpdateOstAgg, getStartAndFinalAggTimestamps_of_lt h]

theorem getFinalTimestamp_empty :
    (getFinalTimestamp (AggTable.timestamps KeyedTable.empty)).getD aggEpoch = aggEpoch := rfl

end Lmt
