import Lmt.Scripts.OstSamples
import Mathlib.Data.List.ReduceOption

/-!
# The order of an hourly row

`updateVar` skips a NULL, but the average divides by the number of all records. So
a NULL counts as 0 in the average, and is left out of the minimum and the maximum.
Where a column is never set, as `PCT_CPU` by the monitor module, the row keeps the
values that the minimum and the maximum start with.
-/

namespace Lmt

open Loops Runs

/-- The columns of `OST_DATA` that are not differenced. -/
inductive OstColumn where
  | pctCpu | kbytesFree | kbytesUsed | inodesFree | inodesUsed

def OstColumn.var : OstColumn → OstVariable
  | .pctCpu => .pctCpu
  | .kbytesFree => .kbytesFree
  | .kbytesUsed => .kbytesUsed
  | .inodesFree => .inodesFree
  | .inodesUsed => .inodesUsed

def OstColumn.get : OstColumn → OstRecord → Option ℚ
  | .pctCpu => OstRecord.pctCpu
  | .kbytesFree => OstRecord.kbytesFree
  | .kbytesUsed => OstRecord.kbytesUsed
  | .inodesFree => OstRecord.inodesFree
  | .inodesUsed => OstRecord.inodesUsed

/-- The largest value of a column of type `float`; a `bigint` is smaller. -/
def floatMax : ℚ := 3402823466 * 10 ^ 29

def OstHistory.InColumns (raw : OstHistory) : Prop :=
  ∀ r ∈ raw.records, ∀ c : OstColumn, ∀ x ∈ c.get r, x ≤ floatMax

theorem floatMax_lt_initMinval : floatMax < initMinval := by
  unfold floatMax initMinval
  norm_num

def AggRow.Ordered (row : AggRow) : Prop :=
  ∃ minval average maxval, row.minval = some minval ∧ row.average = some average ∧
    row.maxval = some maxval ∧ minval ≤ average ∧ average ≤ maxval

section

/-- Where values are missing, those that are there make up for them: what the
missing ones take from the least value, the others exceed it by, and in the same
way for the greatest value or -1. -/
def NullsBalanced (vs : List (Option ℚ)) : Prop :=
  none ∈ vs → ∃ lo hi, IsLeast {x | some x ∈ vs} lo ∧ IsGreatest {x | some x ∈ vs} hi ∧
    vs.count none * lo ≤ (vs.reduceOption.map (· - lo)).sum ∧
    (vs.reduceOption.map (· - max initMaxval hi)).sum ≤ vs.count none * max initMaxval hi

theorem length_eq_count_none_add (vs : List (Option ℚ)) :
    vs.length = vs.count none + vs.reduceOption.length := by
  induction vs with
  | nil => rfl
  | cons v vs ih =>
    cases v with
    | none =>
      rw [List.length_cons, List.count_cons_self, List.reduceOption_cons_of_none, ih]
      omega
    | some x =>
      rw [List.length_cons, List.count_cons_of_ne (by simp), List.reduceOption_cons_of_some,
        List.length_cons, ih]
      omega

theorem sum_map_sub_const (xs : List ℚ) (c : ℚ) :
    (xs.map (· - c)).sum = xs.sum - xs.length * c := by
  induction xs with
  | nil => simp
  | cons x xs ih =>
    rw [List.map_cons, List.sum_cons, List.sum_cons, ih, List.length_cons, Nat.cast_add_one]
    ring

variable (a : AggVar) (vs : List (Option ℚ))

theorem sum_run_updateVar : (run updateVar a vs).sum = a.sum + vs.reduceOption.sum := by
  induction vs generalizing a with
  | nil => exact (add_zero _).symm
  | cons v vs ih =>
    rw [run_cons, ih]
    cases v with
    | none => rw [updateVar, List.reduceOption_cons_of_none]
    | some x => rw [updateVar, List.reduceOption_cons_of_some, List.sum_cons, add_assoc]

theorem setOf_mem_concat_some (x : ℚ) :
    {y | some y ∈ vs ++ [some x]} = insert x {y | some y ∈ vs} := by
  ext y
  simp [or_comm]

theorem setOf_mem_concat_none : {y : ℚ | some y ∈ vs ++ [none]} = {y | some y ∈ vs} := by
  ext y
  simp

theorem isLeast_minval_run :
    IsLeast (insert a.minval {x | some x ∈ vs}) (run updateVar a vs).minval := by
  induction vs using List.reverseRecOn with
  | nil => simp
  | append_singleton vs v ih =>
    rw [run_concat]
    cases v with
    | none => rwa [setOf_mem_concat_none]
    | some x =>
      rw [setOf_mem_concat_some, Set.insert_comm, updateVar, min_comm]
      exact ih.insert x

theorem isGreatest_maxval_run :
    IsGreatest (insert a.maxval {x | some x ∈ vs}) (run updateVar a vs).maxval := by
  induction vs using List.reverseRecOn with
  | nil => simp
  | append_singleton vs v ih =>
    rw [run_concat]
    cases v with
    | none => rwa [setOf_mem_concat_none]
    | some x =>
      rw [setOf_mem_concat_some, Set.insert_comm, updateVar, max_comm]
      exact ih.insert x

variable {vs}

theorem mem_reduceOption_iff {x : ℚ} : x ∈ vs.reduceOption ↔ some x ∈ vs :=
  List.reduceOption_mem_iff

theorem sum_run_initVar : (run updateVar initVar vs).sum = vs.reduceOption.sum := by
  rw [sum_run_updateVar]
  exact zero_add _

theorem cast_length_pos (hne : vs ≠ []) : (0 : ℚ) < vs.length := by
  exact_mod_cast List.length_pos_iff.mpr hne

/-- The mean of the hash of a variable is between its minimum and its maximum. -/
def MeanBetween (vs : List (Option ℚ)) : Prop :=
  (run updateVar initVar vs).minval ≤ (run updateVar initVar vs).sum / vs.length ∧
    (run updateVar initVar vs).sum / vs.length ≤ (run updateVar initVar vs).maxval

theorem meanBetween_def (hne : vs ≠ []) :
    MeanBetween vs ↔ (run updateVar initVar vs).minval * vs.length ≤ vs.reduceOption.sum ∧
      vs.reduceOption.sum ≤ (run updateVar initVar vs).maxval * vs.length := by
  have hpos := cast_length_pos hne
  unfold MeanBetween
  rw [sum_run_initVar, le_div_iff₀ hpos, div_le_iff₀ hpos]

/-- Without a missing value there is nothing to make up for. -/
theorem meanBetween_of_not_mem (hne : vs ≠ []) (hall : none ∉ vs) : MeanBetween vs := by
  have hlength : vs.reduceOption.length = vs.length := by
    rw [length_eq_count_none_add vs, List.count_eq_zero_of_not_mem hall, Nat.zero_add]
  have hmin := isLeast_minval_run initVar vs
  have hmax := isGreatest_maxval_run initVar vs
  rw [meanBetween_def hne, ← hlength, mul_comm, ← nsmul_eq_mul, mul_comm _ (Nat.cast _),
    ← nsmul_eq_mul]
  constructor
  · apply List.card_nsmul_le_sum
    exact fun x hx => hmin.2 (.inr (mem_reduceOption_iff.mp hx))
  · apply List.sum_le_card_nsmul
    exact fun x hx => hmax.2 (.inr (mem_reduceOption_iff.mp hx))

/-- With missing values alone the minimum stays where it starts. -/
theorem not_meanBetween_of_forall_none (hne : vs ≠ []) (hnone : ∀ x, some x ∉ vs) :
    ¬MeanBetween vs := by
  have hnil : vs.reduceOption = [] := List.eq_nil_iff_forall_not_mem.mpr fun x hx =>
    hnone x (mem_reduceOption_iff.mp hx)
  have hempty : {x : ℚ | some x ∈ vs} = ∅ := Set.eq_empty_of_forall_notMem hnone
  have hmin := (isLeast_minval_run initVar vs).1
  rw [hempty, Set.mem_insert_iff, or_iff_left (Set.notMem_empty _)] at hmin
  have hinit : (0 : ℚ) < initVar.minval := by
    unfold initVar initMinval
    norm_num
  have hpos := mul_pos hinit (cast_length_pos hne)
  rw [meanBetween_def hne, hmin, hnil, List.sum_nil]
  exact fun h => absurd h.1 hpos.not_ge

theorem exists_isGreatest {x : ℚ} (hx : some x ∈ vs) : ∃ hi, IsGreatest {x | some x ∈ vs} hi := by
  have hfinite : {x | some x ∈ vs}.Finite :=
    (List.finite_toSet vs.reduceOption).subset fun y hy => mem_reduceOption_iff.mpr hy
  obtain ⟨hi, hmax⟩ := hfinite.exists_maximal ⟨x, hx⟩
  exact ⟨hi, hmax.1, fun y hy => le_of_not_gt fun hlt => hmax.not_gt hy hlt⟩

/-- A value replaces the minimum that the hash starts with. -/
theorem isLeast_minval_of_mem (hbound : ∀ x, some x ∈ vs → x < initMinval) {x : ℚ}
    (hx : some x ∈ vs) : IsLeast {x | some x ∈ vs} (run updateVar initVar vs).minval := by
  have hmin := isLeast_minval_run initVar vs
  refine ⟨?_, fun y hy => hmin.2 (.inr hy)⟩
  rcases hmin.1 with heq | hmem
  · have hle := hmin.2 (.inr hx)
    rw [heq] at hle
    exact absurd (hbound x hx) hle.not_gt
  · exact hmem

/-- With missing values the mean is between the two exactly when the others make up
for them. -/
theorem meanBetween_iff (hne : vs ≠ []) (hbound : ∀ x, some x ∈ vs → x < initMinval) :
    MeanBetween vs ↔ NullsBalanced vs := by
  by_cases hnull : none ∈ vs
  swap
  · exact iff_of_true (meanBetween_of_not_mem hne hnull) fun h => absurd h hnull
  by_cases hsome : ∃ x, some x ∈ vs
  · obtain ⟨x, hx⟩ := hsome
    have hlength : (vs.length : ℚ) = vs.count none + vs.reduceOption.length := by
      exact_mod_cast length_eq_count_none_add vs
    have hlo := isLeast_minval_of_mem hbound hx
    obtain ⟨hi, hhi⟩ := exists_isGreatest hx
    have hmaxval : (run updateVar initVar vs).maxval = max initMaxval hi :=
      (isGreatest_maxval_run initVar vs).unique (hhi.insert initMaxval)
    rw [meanBetween_def hne, hmaxval, hlength]
    constructor
    · rintro ⟨hlower, hupper⟩ -
      refine ⟨_, hi, hlo, hhi, ?_⟩
      rw [sum_map_sub_const, sum_map_sub_const]
      constructor <;> linarith
    · intro hbalanced
      obtain ⟨lo, hi', hlo', hhi', hsums⟩ := hbalanced hnull
      obtain rfl := hlo.unique hlo'
      obtain rfl := hhi.unique hhi'
      rw [sum_map_sub_const, sum_map_sub_const] at hsums
      constructor <;> linarith [hsums.1, hsums.2]
  · refine iff_of_false (not_meanBetween_of_forall_none hne fun x hx => hsome ⟨x, hx⟩) ?_
    intro hbalanced
    obtain ⟨lo, -, hlo, -⟩ := hbalanced hnull
    exact hsome ⟨lo, hlo.1⟩

end

def OstWork.values (v : OstVariable) : OstWork → List OstRecord → List (Option ℚ)
  | _, [] => []
  | w, r :: rs => w.value r v :: (w.process r).values v rs

theorem length_values (w : OstWork) (rs : List OstRecord) (v : OstVariable) :
    (w.values v rs).length = rs.length := by
  induction rs generalizing w with
  | nil => rfl
  | cons r rs ih => rw [OstWork.values, List.length_cons, ih, List.length_cons]

theorem values_column (w : OstWork) (rs : List OstRecord) (c : OstColumn) :
    w.values c.var rs = rs.map c.get := by
  induction rs generalizing w with
  | nil => rfl
  | cons r rs ih =>
    have hvalue : w.value r c.var = c.get r := by
      cases c <;> rfl
    rw [OstWork.values, hvalue, ih, List.map_cons]

theorem none_notMem_values {v : OstVariable} (hv : ∀ c : OstColumn, c.var ≠ v) (w : OstWork)
    (rs : List OstRecord) : none ∉ w.values v rs := by
  induction rs generalizing w with
  | nil => exact List.not_mem_nil
  | cons r rs ih =>
    have hvalue : w.value r v ≠ none := by
      cases v with
      | readBytes => exact Option.some_ne_none _
      | writeBytes => exact Option.some_ne_none _
      | readRate => exact Option.some_ne_none _
      | writeRate => exact Option.some_ne_none _
      | kbytesFree => exact absurd rfl (hv .kbytesFree)
      | kbytesUsed => exact absurd rfl (hv .kbytesUsed)
      | inodesFree => exact absurd rfl (hv .inodesFree)
      | inodesUsed => exact absurd rfl (hv .inodesUsed)
      | pctCpu => exact absurd rfl (hv .pctCpu)
    rw [OstWork.values, List.mem_cons]
    rintro (hnone | hmem)
    · exact hvalue hnone.symm
    · exact ih _ hmem

theorem vars_run (v : OstVariable) {w : OstWork} (hw : w.count ≠ 0) (rs : List OstRecord) :
    (run OstWork.process w rs).vars v = run updateVar (w.vars v) (w.values v rs) := by
  induction rs generalizing w with
  | nil => rfl
  | cons r rs ih =>
    have hcount : (w.process r).count ≠ 0 := Nat.succ_ne_zero _
    rw [run_cons, ih hcount, vars_process, if_neg hw, OstWork.values, run_cons]

/-- The first record of an hour starts the variables again. -/
theorem vars_run_of_count_eq_zero (v : OstVariable) {w : OstWork} (hw : w.count = 0)
    {rs : List OstRecord} (hne : rs ≠ []) :
    (run OstWork.process w rs).vars v = run updateVar initVar (w.values v rs) := by
  obtain ⟨r, rs, rfl⟩ := List.exists_cons_of_ne_nil hne
  rw [run_cons, vars_run v (Nat.succ_ne_zero _), vars_process, if_pos hw, OstWork.values, run_cons]

theorem ordered_row_iff (v : OstVariable) {w : OstWork} (hw : w.count = 0) {rs : List OstRecord}
    (hne : rs ≠ []) :
    ((run OstWork.process w rs).row v).Ordered ↔ MeanBetween (w.values v rs) := by
  have hcount : (run OstWork.process w rs).count = (w.values v rs).length := by
    rw [count_run_process, hw, Nat.zero_add, length_values]
  unfold AggRow.Ordered OstWork.row MeanBetween
  rw [vars_run_of_count_eq_zero v hw hne, hcount]
  simp

def writtenHours (raw : OstHistory) (hourly : AggTable) : List DateTime :=
  match getStartAndFinalAggTimestamps raw hourly with
  | none => []
  | some (start, final) => aggHours start final

def rowsOfHours (raw : OstHistory) : OstHash × AggTable → List DateTime → List (AggKey × AggRow)
  | _, [] => []
  | s, start :: hours => newRows raw s start ++ rowsOfHours raw (processHour raw s start) hours

def writtenRows (raw : OstHistory) (hourly : AggTable) : List (AggKey × AggRow) :=
  match getStartAndFinalAggTimestamps raw hourly with
  | none => []
  | some (start, final) => rowsOfHours raw (initialHash raw start, hourly) (aggHours start final)

section

variable (raw : OstHistory)

theorem table_run_processHour (s : OstHash × AggTable) (hours : List DateTime) :
    (run (processHour raw) s hours).2 = s.2.replaceAll (rowsOfHours raw s hours) := by
  induction hours generalizing s with
  | nil => rfl
  | cons start hours ih =>
    rw [run_cons, ih, rowsOfHours, KeyedTable.replaceAll_append, table_processHour]

theorem lmtUpdateOstAgg_eq_replaceAll (hourly : AggTable) :
    lmtUpdateOstAgg raw hourly = hourly.replaceAll (writtenRows raw hourly) := by
  unfold lmtUpdateOstAgg writtenRows
  cases getStartAndFinalAggTimestamps raw hourly with
  | none => rfl
  | some period => exact table_run_processHour raw _ _

variable {raw}

theorem forall_mem_newRows_ordered (hraw : raw.InColumns) (s : OstHash × AggTable)
    (start : DateTime) :
    (∀ r ∈ newRows raw s start, r.2.Ordered) ↔
      ∀ id, ∀ c : OstColumn, NullsBalanced ((raw.hourOf start id).map c.get) := by
  have hrow {id : ℕ} (hne : raw.hourOf start id ≠ []) (v : OstVariable) :
      (((processHour raw s start).1 id).row v).Ordered ↔
        MeanBetween ((clearCounts s.1 id).values v (raw.hourOf start id)) := by
    rw [hash_processHour]
    exact ordered_row_iff v rfl hne
  have hcolumn {id : ℕ} (hne : raw.hourOf start id ≠ []) (c : OstColumn) :
      MeanBetween ((raw.hourOf start id).map c.get) ↔
        NullsBalanced ((raw.hourOf start id).map c.get) := by
    apply meanBetween_iff (mt List.map_eq_nil_iff.mp hne)
    intro x hx
    obtain ⟨r, hr, hget⟩ := List.mem_map.mp hx
    have hmem : r ∈ raw.records := List.mem_of_mem_filter (List.mem_of_mem_filter hr)
    exact (hraw r hmem c x hget).trans_lt floatMax_lt_initMinval
  constructor
  · intro hordered id c
    by_cases hne : raw.hourOf start id = []
    · rw [hne]
      exact fun h => absurd h List.not_mem_nil
    · have hmem : (⟨id, start, c.var.id⟩, ((processHour raw s start).1 id).row c.var) ∈
          newRows raw s start := (mem_newRows raw s).mpr ⟨hne, rfl, c.var, rfl, rfl⟩
      rw [← hcolumn hne, ← values_column (clearCounts s.1 id), ← hrow hne]
      exact hordered _ hmem
  · rintro hbalanced ⟨k, row⟩ hmem
    obtain ⟨hne, -, v, -, rfl⟩ := (mem_newRows raw s).mp hmem
    rw [hrow hne]
    by_cases hv : ∃ c : OstColumn, c.var = v
    · obtain ⟨c, rfl⟩ := hv
      rw [values_column, hcolumn hne]
      exact hbalanced k.id c
    · apply meanBetween_of_not_mem
      · rw [ne_eq, ← List.length_eq_zero_iff, length_values, List.length_eq_zero_iff]
        exact hne
      · exact none_notMem_values (fun c hc => hv ⟨c, hc⟩) _ _

theorem forall_mem_rowsOfHours_ordered (hraw : raw.InColumns) (s : OstHash × AggTable)
    (hours : List DateTime) :
    (∀ r ∈ rowsOfHours raw s hours, r.2.Ordered) ↔
      ∀ start ∈ hours, ∀ id, ∀ c : OstColumn,
        NullsBalanced ((raw.hourOf start id).map c.get) := by
  induction hours generalizing s with
  | nil => simp [rowsOfHours]
  | cons start hours ih =>
    rw [rowsOfHours, List.forall_mem_append, forall_mem_newRows_ordered hraw, ih,
      List.forall_mem_cons]

/-- The rows that are written are ordered exactly when in every hour, for every OST
and column, the values make up for those that are NULL. -/
theorem forall_mem_writtenRows_ordered_iff (hraw : raw.InColumns) (hourly : AggTable) :
    (∀ r ∈ writtenRows raw hourly, r.2.Ordered) ↔
      ∀ start ∈ writtenHours raw hourly, ∀ id, ∀ c : OstColumn,
        NullsBalanced ((raw.hourOf start id).map c.get) := by
  unfold writtenRows writtenHours
  cases getStartAndFinalAggTimestamps raw hourly with
  | none => simp
  | some period => exact forall_mem_rowsOfHours_ordered hraw _ _

end

theorem historyOnTheHour_inColumns : historyOnTheHour.InColumns := by
  intro r hr c x hx
  have hnone : c.get r = none := by
    rcases List.mem_cons.mp hr with rfl | hr
    · cases c <;> rfl
    · obtain rfl := List.mem_singleton.mp hr
      cases c <;> rfl
  rw [hnone] at hx
  cases hx

theorem historyOnTheHour_ordered_iff :
    (∀ r ∈ writtenRows historyOnTheHour .empty, r.2.Ordered) ↔
      ∀ start ∈ writtenHours historyOnTheHour .empty, ∀ id, ∀ c : OstColumn,
        NullsBalanced ((historyOnTheHour.hourOf start id).map c.get) :=
  forall_mem_writtenRows_ordered_iff historyOnTheHour_inColumns .empty

/-- The row of `PCT_CPU` has the minimum 1e50, the average 0 and the maximum -1. -/
theorem pct_cpu_row_not_ordered :
    ¬∀ (raw : OstHistory) (hourly : AggTable), raw.InColumns →
      ∀ r ∈ writtenRows raw hourly, r.2.Ordered := by
  intro h
  have hmem : (⟨⟨1, aggEpoch, 9⟩, ⟨none, some (10 ^ 50), some (-1), some 0, some 1⟩⟩ :
      AggKey × AggRow) ∈ writtenRows historyOnTheHour .empty := by decide +kernel
  obtain ⟨minval, average, maxval, hmin, haverage, -, hle, -⟩ :=
    h _ _ historyOnTheHour_inColumns _ hmem
  obtain rfl := Option.some_inj.mp hmin
  obtain rfl := Option.some_inj.mp haverage
  norm_num at hle

end Lmt
