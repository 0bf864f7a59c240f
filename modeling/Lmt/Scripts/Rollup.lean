import Lmt.Library.Counters
import Lmt.Scripts.OstAgg
import Lmt.Scripts.OtherTables

/-!
# Sums over days, weeks, months and years

The periods partition the hours, except for a final hour that begins a period: the
loop does not come to this period, unless it is the first one.
-/

namespace Lmt

open Loops Runs Counters

structure HourTable where
  table : AggTable
  stored : ∀ t ∈ table.timestamps, StoredTime t

theorem numSamples_run (v : AggSums) (rows : List AggRow) :
    (run OtherAgg.updateVar v rows).numSamples = v.numSamples + (rows.map AggRow.samples).sum := by
  induction rows generalizing v with
  | nil => rfl
  | cons row rows ih =>
    have hrow : (OtherAgg.updateVar v row).numSamples = v.numSamples + row.samples := by
      rw [OtherAgg.updateVar, AggRow.samples]
      cases row.numSamples <;> rfl
    rw [run_cons, ih, hrow, List.map_cons, List.sum_cons, Nat.add_assoc]

theorem aggregate_run (v : AggSums) (rows : List AggRow) :
    (run OtherAgg.updateVar v rows).aggregate = v.aggregate + (rows.map AggRow.bytes).sum := by
  induction rows generalizing v with
  | nil => simp
  | cons row rows ih =>
    have hrow : (OtherAgg.updateVar v row).aggregate = v.aggregate + row.bytes := by
      rw [OtherAgg.updateVar, AggRow.bytes]
      cases row.aggregate with
      | none => exact (add_zero _).symm
      | some x => rfl
    rw [run_cons, ih, hrow, List.map_cons, List.sum_cons, add_assoc]

theorem samples_periodRow (rows : List AggRow) :
    (periodRow rows).samples = (rows.map AggRow.samples).sum := by
  have hsum := numSamples_run OtherAgg.initVar rows
  rw [OtherAgg.initVar, Nat.zero_add] at hsum
  exact hsum

theorem bytes_periodRow (rows : List AggRow) :
    (periodRow rows).bytes = (rows.map AggRow.bytes).sum := by
  have hsum := aggregate_run OtherAgg.initVar rows
  rw [OtherAgg.initVar, zero_add] at hsum
  exact hsum

section

variable {M : Type} [AddCommMonoid M] (f : AggRow → M)

/-- The sum over the rows whose timestamps meet a condition. -/
def sumWhere (rows : List (AggKey × AggRow)) (p : DateTime → Prop) [DecidablePred p] : M :=
  ((rows.filter fun r => p r.1.timestamp).map fun r => f r.2).sum

variable (rows : List (AggKey × AggRow))

theorem sumWhere_split (p q : DateTime → Prop) [DecidablePred p] [DecidablePred q] :
    sumWhere f rows q =
      sumWhere f rows (fun t => p t ∧ q t) + sumWhere f rows fun t => ¬p t ∧ q t :=
  sum_filter_split (fun r : AggKey × AggRow => p r.1.timestamp) (fun r => q r.1.timestamp) _ rows

theorem sumWhere_congr {p q : DateTime → Prop} [DecidablePred p] [DecidablePred q]
    (h : ∀ r ∈ rows, p r.1.timestamp ↔ q r.1.timestamp) :
    sumWhere f rows p = sumWhere f rows q := by
  rw [sumWhere, sumWhere, List.filter_congr fun r hr => decide_eq_decide.mpr (h r hr)]

theorem sumWhere_eq_zero {p : DateTime → Prop} [DecidablePred p]
    (h : ∀ r ∈ rows, ¬p r.1.timestamp) : sumWhere f rows p = 0 := by
  rw [sumWhere, List.filter_eq_nil_iff.mpr fun r hr => by simpa using h r hr]
  rfl

/-- The rows of a period come before those of the later ones. -/
theorem sumWhere_next (interval : Interval) (t : DateTime) :
    sumWhere f rows (t ≤ ·) =
      sumWhere f rows (fun u => t ≤ u ∧ u < interval.next t) +
        sumWhere f rows (interval.next t ≤ ·) := by
  rw [sumWhere_split f rows (· < interval.next t) (t ≤ ·)]
  congr 1
  · exact sumWhere_congr f rows fun _ _ => and_comm
  · refine sumWhere_congr f rows fun r _ => ?_
    rw [not_lt]
    exact and_iff_left_of_imp fun h => (interval.lt_next t).le.trans h

variable {interval : Interval} {final : DateTime} (hfinal : StoredTime final)

include hfinal

open Classical in
/-- The later periods add up all rows, but for those at the final timestamp if this
begins a period. -/
theorem sum_laterPeriods (hrange : ∀ r ∈ rows, r.1.timestamp ≤ final) {t : DateTime}
    (ht : t.FourDigitYear) :
    ((laterPeriods interval t final).map fun b =>
        sumWhere f rows fun u => b ≤ u ∧ u < interval.next b).sum +
      (if ∃ n, interval.next^[n] t = final then sumWhere f rows (· = final) else 0) =
        sumWhere f rows (t ≤ ·) := by
  apply laterPeriods_induction hfinal interval ht
  · intro t ht hle
    rw [laterPeriods_of_le hfinal ht hle, List.map_nil, List.sum_nil, zero_add]
    rcases hle.lt_or_eq with hlt | rfl
    · rw [if_neg, sumWhere_eq_zero]
      · intro r hr hle'
        exact (hlt.trans_le hle').not_ge (hrange r hr)
      · rintro ⟨n, hn⟩
        exact (hn ▸ Interval.le_next_iterate n : t ≤ final).not_gt hlt
    · rw [if_pos ⟨0, rfl⟩]
      exact sumWhere_congr f rows fun r hr => ⟨fun h => h.ge, fun h => (hrange r hr).antisymm h⟩
  · intro t hlt ih
    have hhits : (∃ n, interval.next^[n] t = final) ↔
        ∃ n, interval.next^[n] (interval.next t) = final := by
      constructor
      · rintro ⟨n, hn⟩
        cases n with
        | zero => exact absurd hn hlt.ne
        | succ n => exact ⟨n, hn⟩
      · rintro ⟨n, hn⟩
        exact ⟨n + 1, hn⟩
    rw [laterPeriods_of_lt hfinal hlt, List.map_cons, List.sum_cons, if_congr hhits rfl rfl,
      add_assoc, ih, ← sumWhere_next]

end

def AggTable.rowsOf (t : AggTable) (id varId : ℕ) : List (AggKey × AggRow) :=
  t.rows.filter fun r => r.1.id = id ∧ r.1.variableId = varId

theorem total_eq_zero {M : Type} [AddCommMonoid M] {t : AggTable} {id : ℕ}
    (h : ∀ k ∈ t.keys, k.id ≠ id) (varId : ℕ) (f : AggRow → M) : t.total id varId f = 0 := by
  have hnone : t.rows.filter (fun r => r.1.id = id ∧ r.1.variableId = varId) = [] :=
    List.filter_eq_nil_iff.mpr fun r hr => by
      simpa using fun hid => absurd hid (h _ (List.mem_map_of_mem hr))
  rw [AggTable.total, hnone]
  rfl

section

variable {M : Type} [AddCommMonoid M] {f : AggRow → M} {interval : Interval}
  {start final : DateTime}

theorem sum_keyRows (hourly : AggTable) (id varId : ℕ) (b : DateTime) :
    ((keyRows hourly interval ⟨id, b, varId⟩).map f).sum =
      sumWhere f (hourly.rowsOf id varId) fun u => b ≤ u ∧ u < interval.next b := by
  rw [keyRows, targetRows, periodRows, sumWhere, AggTable.rowsOf, List.filter_filter,
    List.filter_filter, List.map_map]
  have hcond (r : AggKey × AggRow) :
      (decide (r.1.id = id) && decide (b ≤ r.1.timestamp ∧ r.1.timestamp < interval.next b ∧
        r.1.variableId = varId)) =
      (decide (b ≤ r.1.timestamp ∧ r.1.timestamp < interval.next b) &&
        decide (r.1.id = id ∧ r.1.variableId = varId)) := by
    simp only [Bool.decide_and]
    ac_rfl
  simp only [hcond]
  rfl

theorem sumWhere_eq_final (hourly : AggTable) (id varId : ℕ) :
    sumWhere f (hourly.rowsOf id varId) (· = final) =
      (hourly.find? ⟨id, final, varId⟩).elim 0 f := by
  have hkey : (hourly.rowsOf id varId).filter (fun r => r.1.timestamp = final) =
      hourly.rows.filter (·.1 = ⟨id, final, varId⟩) := by
    rw [AggTable.rowsOf, List.filter_filter]
    refine List.filter_congr fun r _ => ?_
    obtain ⟨⟨id', t, varId'⟩, row⟩ := r
    simp only [AggKey.mk.injEq, Bool.decide_and]
    ac_rfl
  rw [sumWhere, hkey, KeyedTable.filter_key]
  cases hourly.find? ⟨id, final, varId⟩ <;> simp

variable (hf : ∀ rows, f (periodRow rows) = (rows.map f).sum) (hfinal : StoredTime final)

include hf hfinal

theorem total_updateAggTable (hourly : AggTable) (hle : start ≤ final) {id : ℕ} (hid : id ≠ 0)
    (varId : ℕ) :
    (updateAggTable hourly interval start final .empty).total id varId f =
      ((periods interval start final).map fun b =>
        sumWhere f (hourly.rowsOf id varId) fun u => b ≤ u ∧ u < interval.next b).sum := by
  have hkeys : ∀ k ∈ (updateAggTable hourly interval start final .empty).keys,
      k.id = id → k.variableId = varId → k.timestamp ∈ periods interval start final := by
    intro k hk _ _
    rw [KeyedTable.mem_keys_iff, find?_updateAggTable] at hk
    by_contra hnot
    rw [if_neg fun hwritten => hnot hwritten.2.1] at hk
    cases hk
  rw [total_eq_sum (nodup_periods hfinal hle) hkeys]
  congr 1
  refine List.map_congr_left fun b hb => ?_
  rw [find?_updateAggTable, ← sum_keyRows]
  split_ifs with hwritten
  · exact hf _
  · have hnil : keyRows hourly interval ⟨id, b, varId⟩ = [] := by
      by_contra hne
      exact hwritten ⟨hid, hb, hne⟩
    rw [hnil]
    rfl

end

theorem getFirstTimestamp_eq_some {timestamps : List DateTime} {t : DateTime} :
    getFirstTimestamp timestamps none = some t ↔ t ∈ timestamps ∧ ∀ u ∈ timestamps, t ≤ u := by
  have hall : timestamps.filter (fun t => ∀ a ∈ (none : Option DateTime), a ≤ t) = timestamps :=
    List.filter_eq_self.mpr (by simp)
  rw [getFirstTimestamp, hall]
  exact List.min?_eq_some_iff

theorem getFirstTimestamp_eq_none {timestamps : List DateTime} :
    getFirstTimestamp timestamps none = none ↔ timestamps = [] := by
  have hall : timestamps.filter (fun t => ∀ a ∈ (none : Option DateTime), a ≤ t) = timestamps :=
    List.filter_eq_self.mpr (by simp)
  rw [getFirstTimestamp, hall]
  exact List.min?_eq_none_iff

theorem exists_final_of_first {timestamps : List DateTime} {first : DateTime}
    (hfirst : getFirstTimestamp timestamps none = some first) :
    ∃ final, getFinalTimestamp timestamps = some final := by
  refine Option.ne_none_iff_exists'.mp fun hnone => ?_
  rw [getFirstTimestamp_eq_none.mpr (getFinalTimestamp_eq_none.mp hnone)] at hfirst
  cases hfirst

section

variable {hourly : HourTable} {first final : DateTime}
variable (hfirst : getFirstTimestamp hourly.table.timestamps none = some first)
variable (hfinal : getFinalTimestamp hourly.table.timestamps = some final)

include hfirst hfinal

theorem first_le_final : first ≤ final :=
  (getFinalTimestamp_eq_some.mp hfinal).2 first (getFirstTimestamp_eq_some.mp hfirst).1

theorem processAggTables_empty (replaceAll : Bool) (interval : Interval) :
    processAggTables replaceAll hourly.table (fun _ => .empty) interval =
      updateAggTable hourly.table interval (interval.roundDown first) final .empty := by
  rw [processAggTables, hfirst, hfinal]
  cases replaceAll <;> rfl

def BeginsLaterPeriod (interval : Interval) (first final : DateTime) : Prop :=
  ∃ n, interval.next^[n] (interval.next (interval.roundDown first)) = final

theorem id_ne_zero_of_mem_keys {replaceAll : Bool} {interval : Interval} {k : AggKey}
    (hk : k ∈ (processAggTables replaceAll hourly.table (fun _ => .empty) interval).keys) :
    k.id ≠ 0 := by
  rw [processAggTables_empty hfirst hfinal, KeyedTable.mem_keys_iff, find?_updateAggTable] at hk
  by_contra hid
  rw [if_neg fun hwritten => hwritten.1 hid] at hk
  cases hk

open Classical in
theorem total_rollup {M : Type} [AddCommMonoid M] {f : AggRow → M}
    (hf : ∀ rows, f (periodRow rows) = (rows.map f).sum) (replaceAll : Bool) (interval : Interval)
    {id : ℕ} (hid : id ≠ 0) (varId : ℕ) :
    (processAggTables replaceAll hourly.table (fun _ => .empty) interval).total id varId f +
        (if BeginsLaterPeriod interval first final then
          (hourly.table.find? ⟨id, final, varId⟩).elim 0 f else 0) =
      hourly.table.total id varId f := by
  have hstored := hourly.stored final (getFinalTimestamp_eq_some.mp hfinal).1
  have hle := (interval.roundDown_le first).trans (first_le_final hfirst hfinal)
  have htime : ∀ r ∈ hourly.table.rowsOf id varId, r.1.timestamp ∈ hourly.table.timestamps :=
    fun r hr => List.mem_map.mpr ⟨r, List.mem_of_mem_filter hr, rfl⟩
  have htotal : hourly.table.total id varId f =
      sumWhere f (hourly.table.rowsOf id varId) (interval.roundDown first ≤ ·) := by
    rw [sumWhere, List.filter_eq_self.mpr fun r hr => ?_]
    · rfl
    · have hlate := (getFirstTimestamp_eq_some.mp hfirst).2 _ (htime r hr)
      simpa using (interval.roundDown_le first).trans hlate
  rw [processAggTables_empty hfirst hfinal, total_updateAggTable hf hstored _ hle hid,
    periods_eq hstored hle, List.map_cons, List.sum_cons, ← sumWhere_eq_final, add_assoc,
    BeginsLaterPeriod, sum_laterPeriods f _ hstored, htotal, ← sumWhere_next]
  · intro r hr
    exact (getFinalTimestamp_eq_some.mp hfinal).2 _ (htime r hr)
  · exact fourDigitYear_next hstored interval (DateTime.year_le_of_le hle)

end

theorem midnight_of_beginsLaterPeriod {interval : Interval} {first final : DateTime}
    (h : BeginsLaterPeriod interval first final) : final.second = 0 ∧ first.midnight < final := by
  obtain ⟨n, rfl⟩ := h
  constructor
  · rw [Interval.second_next_iterate, Interval.second_next, Interval.second_roundDown]
  · calc first.midnight ≤ first := first.midnight_le
      _ < interval.next (interval.roundDown first) := interval.lt_next_roundDown first
      _ ≤ interval.next^[n] (interval.next (interval.roundDown first)) := Interval.le_next_iterate n

theorem beginsLaterPeriod_day {first final : DateTime} (hsecond : final.second = 0)
    (hlt : first.midnight < final) : BeginsLaterPeriod .day first final := by
  obtain ⟨n, rfl⟩ := DateTime.exists_nextDay_iterate rfl hsecond hlt.le
  cases n with
  | zero => exact absurd rfl hlt.ne
  | succ n => exact ⟨n, rfl⟩

/-- The final hour is not a midnight after the first day, or there is nothing in its
rows. -/
def FinalHourRolledUp (hourly : AggTable) : Prop :=
  ∀ first ∈ getFirstTimestamp hourly.timestamps none, ∀ final ∈ getFinalTimestamp hourly.timestamps,
    final.second = 0 → first.midnight < final →
      ∀ id varId, ∀ row ∈ hourly.find? ⟨id, final, varId⟩, row.samples = 0 ∧ row.bytes = 0

/-- All samples and bytes of the hours are in the days, in the weeks, in the months and
in the years, if and only if those of the final hour are. -/
theorem rollup_conserves_iff (hourly : HourTable) (hids : ∀ k ∈ hourly.table.keys, 0 < k.id)
    (replaceAll : Bool) :
    (∀ interval id varId,
      (processAggTables replaceAll hourly.table (fun _ => .empty) interval).total id varId
          AggRow.samples = hourly.table.total id varId AggRow.samples ∧
        (processAggTables replaceAll hourly.table (fun _ => .empty) interval).total id varId
          AggRow.bytes = hourly.table.total id varId AggRow.bytes) ↔
      FinalHourRolledUp hourly.table := by
  classical
  cases hfirst : getFirstTimestamp hourly.table.timestamps none with
  | none =>
    have htimes := getFirstTimestamp_eq_none.mp hfirst
    have htotal {M : Type} [AddCommMonoid M] (id varId : ℕ) (f : AggRow → M) :
        hourly.table.total id varId f = 0 := by
      rw [AggTable.total, List.map_eq_nil_iff.mp htimes]
      rfl
    have hrun (interval : Interval) :
        processAggTables replaceAll hourly.table (fun _ => .empty) interval = .empty := by
      rw [processAggTables, hfirst]
    simp [hrun, htotal, FinalHourRolledUp, hfirst]
  | some first =>
    obtain ⟨final, hfinal⟩ := exists_final_of_first hfirst
    have hsamples := fun interval id (hid : id ≠ 0) =>
      total_rollup hfirst hfinal samples_periodRow replaceAll interval hid
    have hbytes := fun interval id (hid : id ≠ 0) =>
      total_rollup hfirst hfinal bytes_periodRow replaceAll interval hid
    constructor
    · intro h first' hfirst' final' hfinal' hsecond hlt id varId row hrow
      obtain rfl : first = first' := Option.some_inj.mp (hfirst.symm.trans hfirst')
      obtain rfl : final = final' := Option.some_inj.mp (hfinal.symm.trans hfinal')
      have hid : id ≠ 0 := by
        have hkey := KeyedTable.mem_keys_iff.mpr (Option.isSome_of_mem hrow)
        exact (hids _ hkey).ne'
      have hlater := beginsLaterPeriod_day hsecond hlt
      have hs := hsamples .day id hid varId
      have hb := hbytes .day id hid varId
      rw [if_pos hlater, (h .day id varId).1, Option.mem_def.mp hrow] at hs
      rw [if_pos hlater, (h .day id varId).2, Option.mem_def.mp hrow] at hb
      exact ⟨Nat.add_eq_left.mp hs, add_eq_left.mp hb⟩
    · intro h interval id varId
      by_cases hid : id = 0
      · subst hid
        have hzero : ∀ k ∈
            (processAggTables replaceAll hourly.table (fun _ => .empty) interval).keys,
            k.id ≠ 0 := fun k hk => id_ne_zero_of_mem_keys hfirst hfinal hk
        have hzero' : ∀ k ∈ hourly.table.keys, k.id ≠ 0 := fun k hk => (hids k hk).ne'
        simp only [total_eq_zero hzero, total_eq_zero hzero', and_self]
      · rw [← hsamples interval id hid varId, ← hbytes interval id hid varId]
        split_ifs with hlater
        · obtain ⟨hsecond, hlt⟩ := midnight_of_beginsLaterPeriod hlater
          cases hrow : hourly.table.find? ⟨id, final, varId⟩ with
          | none => simp
          | some row =>
            obtain ⟨hs, hb⟩ := h first hfirst final hfinal hsecond hlt id varId row hrow
            simp [hs, hb]
        · simp

def midnightRows : List (AggKey × AggRow) :=
  [(⟨1, aggEpoch, 1⟩, ⟨some 5, some 5, some 5, some 5, some 1⟩),
    (⟨1, aggEpoch.nextDay, 1⟩, ⟨some 7, some 7, some 7, some 7, some 1⟩)]

theorem midnightRows_nodup : (midnightRows.map Prod.fst).Nodup := by decide

def midnightHours : AggTable := ⟨midnightRows, midnightRows_nodup⟩

theorem midnightHours_stored : ∀ t ∈ midnightHours.timestamps, StoredTime t := by decide

def midnightTable : HourTable := ⟨midnightHours, midnightHours_stored⟩

theorem midnightTable_ids : ∀ k ∈ midnightTable.table.keys, 0 < k.id := by decide

theorem rollup_conserves_iff_midnight :
    (∀ interval id varId,
      (processAggTables false midnightTable.table (fun _ => .empty) interval).total id varId
          AggRow.samples = midnightTable.table.total id varId AggRow.samples ∧
        (processAggTables false midnightTable.table (fun _ => .empty) interval).total id varId
          AggRow.bytes = midnightTable.table.total id varId AggRow.bytes) ↔
      FinalHourRolledUp midnightTable.table :=
  rollup_conserves_iff midnightTable midnightTable_ids false

/-- The second day is not written. -/
theorem rollup_loses_final_hour :
    ¬∀ interval id varId,
      (processAggTables false midnightTable.table (fun _ => .empty) interval).total id varId
          AggRow.samples = midnightTable.table.total id varId AggRow.samples ∧
        (processAggTables false midnightTable.table (fun _ => .empty) interval).total id varId
          AggRow.bytes = midnightTable.table.total id varId AggRow.bytes := by
  intro h
  have hday : (processAggTables false midnightTable.table (fun _ => .empty) .day).total 1 1
      AggRow.samples = 1 := by decide
  have hhours : midnightTable.table.total 1 1 AggRow.samples = 2 := by decide
  have := (hday.symm.trans (h .day 1 1).1).trans hhours
  omega

end Lmt
