import Lmt.Library.FormattedText
import Lmt.Scripts.OstAgg

/-!
# `lmt_update_fs_agg`

For each timestamp of an aggregate table of the OSTs, the script folds the rows of
each variable with `LMT::min`, `LMT::max` and sums, and writes one row of the file
system. The accumulators start undefined, which Perl reads as 0. So the maximum of
values that are not negative is right, and the minimum stays undefined and is
written as 0. The order of the timestamps and of the keys of a hash does not
matter, since each row is written on its own.
-/

namespace Lmt

open FormattedText Runs

/-- An undefined value is 0 where a number is expected. -/
def perlNum (x : Option ℚ) : ℚ := x.getD 0

/-- `LMT::max` of two values. -/
def lmtMax (max temp : Option ℚ) : Option ℚ := if perlNum max < perlNum temp then temp else max

/-- `LMT::min` of two values. -/
def lmtMin (min temp : Option ℚ) : Option ℚ := if perlNum temp < perlNum min then temp else min

def perlAdd (x y : Option ℚ) : Option ℚ := some (perlNum x + perlNum y)

/-- The primary key of `FILESYSTEM_AGGREGATE_*`, with the timestamp of the `TS_ID`. -/
structure FsKey where
  filesystemId : ℕ
  timestamp : DateTime
  variableId : ℕ
deriving DecidableEq

structure FsRow where
  ostAggregate : Option ℚ
  ostMinval : Option ℚ
  ostMaxval : Option ℚ
  ostAverage : Option ℚ
deriving DecidableEq

abbrev FsTable := KeyedTable FsKey FsRow

/-- The hashes `%agg`, `%min`, `%max`, `%avg` and `%count` at one variable. -/
structure FsSums where
  agg : Option ℚ
  min : Option ℚ
  max : Option ℚ
  avg : Option ℚ
  count : ℕ

def FsSums.new : FsSums where
  agg := none
  min := none
  max := none
  avg := none
  count := 0

def FsSums.add (s : FsSums) (row : AggRow) : FsSums where
  agg := perlAdd s.agg row.aggregate
  min := lmtMin s.min row.minval
  max := lmtMax s.max row.maxval
  avg := perlAdd s.avg row.average
  count := s.count + 1

def FsSums.complete (s : FsSums) : FsSums :=
  if 0 < s.count then { s with avg := some (perlNum s.avg / s.count) } else s

/-- `$x = 0.0 if ($x == undef)`, which is a comparison of numbers. -/
def zeroIfUndef (x : Option ℚ) : Option ℚ := if perlNum x = perlNum none then some 0 else x

/-- The row that `writeVar` inserts. -/
def FsSums.row (s : FsSums) : FsRow where
  ostAggregate := zeroIfUndef s.agg
  ostMinval := zeroIfUndef s.min
  ostMaxval := zeroIfUndef s.max
  ostAverage := zeroIfUndef s.avg

/-- `select * from $table where TS_ID=?` -/
def rowsAt (ost : AggTable) (ts : DateTime) : List (AggKey × AggRow) :=
  ost.rows.filter fun r => r.1.timestamp = ts

/-- The hashes after the loop over the rows of a timestamp. -/
def sumsAt (ost : AggTable) (ts : DateTime) : ℕ → FsSums :=
  run (fun sums r => Function.update sums r.1.variableId ((sums r.1.variableId).add r.2))
    (fun _ => FsSums.new) (rowsAt ost ts)

def FsKey.isOf (ts : DateTime) (varid : ℕ) (k : FsKey) : Bool :=
  decide (k.timestamp = ts ∧ k.variableId = varid)

variable (fsid : ℕ)

/-- `writeVar`: delete the previous record, and add the new one. -/
def writeFsVar (ts : DateTime) (varid : ℕ) (s : FsSums) (fs : FsTable) : FsTable :=
  let rest := fs.deleteWhere (FsKey.isOf ts varid)
  (rest.insert? ⟨fsid, ts, varid⟩ s.row).getD rest

def writeTimestamp (ost : AggTable) (fs : FsTable) (ts : DateTime) : FsTable :=
  run (fun fs varid => writeFsVar fsid ts varid (sumsAt ost ts varid).complete fs) fs
    ((rowsAt ost ts).map fun r => r.1.variableId).dedup

def writeTable (ost : AggTable) (fs : FsTable) : FsTable :=
  run (writeTimestamp fsid ost) fs ost.timestamps.dedup

def ostAggregateTables : List Text :=
  ["OST_AGGREGATE_HOUR", "OST_AGGREGATE_DAY", "OST_AGGREGATE_WEEK", "OST_AGGREGATE_MONTH",
    "OST_AGGREGATE_YEAR"].map String.toList

/-- `s/^[A-Z]+_/FILESYSTEM_/` -/
def outputTable (tableName : Text) : Text :=
  let kind := tableName.takeWhile Char.isUpper
  match kind, tableName.drop kind.length with
  | _ :: _, '_' :: rest => "FILESYSTEM_".toList ++ rest
  | _, _ => tableName

/-- The aggregate tables of the file system after a run of the script. -/
def lmtUpdateFsAgg (ost : Text → AggTable) (fs : Text → FsTable) : Text → FsTable :=
  run (fun fs table => Function.update fs (outputTable table)
    (writeTable fsid (ost table) (fs (outputTable table)))) fs ostAggregateTables

def AggTable.group (ost : AggTable) (ts : DateTime) (varid : ℕ) : List AggRow :=
  ((rowsAt ost ts).filter fun r => r.1.variableId = varid).map Prod.snd

/-- The rows of the file system with a timestamp and a variable. -/
def FsTable.rowsOf (fs : FsTable) (ts : DateTime) (varid : ℕ) : List (FsKey × FsRow) :=
  fs.rows.filter fun r => FsKey.isOf ts varid r.1

/-- The minimum, the maximum, the sum and the mean of some rows; a NULL is 0. -/
structure FsRow.RollsUp (row : FsRow) (rows : List AggRow) : Prop where
  minval : ∃ x, row.ostMinval = some x ∧ IsLeast {y | ∃ r ∈ rows, perlNum r.minval = y} x
  maxval : ∃ x, row.ostMaxval = some x ∧ IsGreatest {y | ∃ r ∈ rows, perlNum r.maxval = y} x
  aggregate : row.ostAggregate = some (rows.map fun r => perlNum r.aggregate).sum
  average : row.ostAverage = some ((rows.map fun r => perlNum r.average).sum / rows.length)

structure AggRow.NonNegative (row : AggRow) : Prop where
  aggregate : 0 ≤ perlNum row.aggregate
  minval : 0 ≤ perlNum row.minval
  maxval : 0 ≤ perlNum row.maxval
  average : 0 ≤ perlNum row.average

section

variable {rows : List AggRow}

theorem perlNum_zeroIfUndef (x : Option ℚ) : zeroIfUndef x = some (perlNum x) := by
  unfold zeroIfUndef
  split_ifs with h
  · rw [h]
    rfl
  · cases x with
    | none => exact absurd rfl h
    | some x => rfl

theorem perlNum_lmtMax (a b : Option ℚ) : perlNum (lmtMax a b) = max (perlNum a) (perlNum b) := by
  unfold lmtMax
  split_ifs with h
  · exact (max_eq_right h.le).symm
  · exact (max_eq_left (not_lt.mp h)).symm

theorem run_add_sums (s : FsSums) (rows : List AggRow) :
    perlNum (run FsSums.add s rows).agg =
        perlNum s.agg + (rows.map fun r => perlNum r.aggregate).sum ∧
      perlNum (run FsSums.add s rows).avg =
          perlNum s.avg + (rows.map fun r => perlNum r.average).sum ∧
        (run FsSums.add s rows).count = s.count + rows.length := by
  induction rows generalizing s with
  | nil => simp
  | cons r rows ih =>
    obtain ⟨hagg, havg, hcount⟩ := ih (s.add r)
    rw [run_cons, hagg, havg, hcount, List.map_cons, List.sum_cons, List.map_cons, List.sum_cons,
      List.length_cons]
    refine ⟨?_, ?_, ?_⟩
    · rw [← add_assoc]
      rfl
    · rw [← add_assoc]
      rfl
    · have hcount : (s.add r).count = s.count + 1 := rfl
      omega

theorem isGreatest_run_max (rows : List AggRow) :
    IsGreatest (insert 0 {y | ∃ r ∈ rows, perlNum r.maxval = y})
      (perlNum (run FsSums.add .new rows).max) := by
  induction rows using List.reverseRecOn with
  | nil => simp [FsSums.new, perlNum]
  | append_singleton rows r ih =>
    have hset : {y | ∃ r' ∈ rows ++ [r], perlNum r'.maxval = y} =
        insert (perlNum r.maxval) {y | ∃ r' ∈ rows, perlNum r'.maxval = y} := by
      ext y
      simp [or_and_right, exists_or, or_comm, eq_comm]
    rw [run_concat, hset, Set.insert_comm, FsSums.add, perlNum_lmtMax, max_comm]
    exact ih.insert _

theorem min_run_of_nonNegative (h : ∀ r ∈ rows, r.NonNegative) :
    (run FsSums.add .new rows).min = none := by
  induction rows using List.reverseRecOn with
  | nil => rfl
  | append_singleton rows r ih =>
    rw [List.forall_mem_append] at h
    have hnot : ¬perlNum r.minval < perlNum none :=
      (h.2 r (List.mem_singleton_self r)).minval.not_gt
    rw [run_concat, FsSums.add, ih h.1, lmtMin, if_neg hnot]

theorem row_run (hne : rows ≠ []) (h : ∀ r ∈ rows, r.NonNegative) :
    (run FsSums.add .new rows).complete.row.ostMinval = some 0 ∧
      (∃ x, (run FsSums.add .new rows).complete.row.ostMaxval = some x ∧
        IsGreatest {y | ∃ r ∈ rows, perlNum r.maxval = y} x) ∧
      (run FsSums.add .new rows).complete.row.ostAggregate =
        some (rows.map fun r => perlNum r.aggregate).sum ∧
      (run FsSums.add .new rows).complete.row.ostAverage =
        some ((rows.map fun r => perlNum r.average).sum / rows.length) := by
  obtain ⟨hagg, havg, hcount⟩ := run_add_sums .new rows
  have hnew : perlNum FsSums.new.agg = 0 ∧ perlNum FsSums.new.avg = 0 ∧ FsSums.new.count = 0 :=
    ⟨rfl, rfl, rfl⟩
  rw [hnew.1, zero_add] at hagg
  rw [hnew.2.1, zero_add] at havg
  rw [hnew.2.2, Nat.zero_add] at hcount
  have hmax := isGreatest_run_max rows
  have hmin := min_run_of_nonNegative h
  generalize run FsSums.add .new rows = s at hagg havg hcount hmax hmin ⊢
  have hpos : 0 < s.count := by
    rw [hcount]
    exact List.length_pos_iff.mpr hne
  rw [FsSums.complete, if_pos hpos, FsSums.row, hmin, havg, hcount]
  simp only [perlNum_zeroIfUndef, hagg]
  refine ⟨rfl, ⟨_, rfl, ?_, fun y hy => hmax.2 (.inr hy)⟩, trivial, rfl⟩
  -- the greatest value is not below the 0
  rcases hmax.1 with hzero | hmem
  · obtain ⟨r, hr⟩ := List.exists_mem_of_ne_nil rows hne
    have hle : perlNum r.maxval ≤ perlNum s.max := hmax.2 (.inr ⟨r, hr, rfl⟩)
    exact ⟨r, hr, le_antisymm hle (hzero ▸ (h r hr).maxval)⟩
  · exact hmem

theorem rollsUp_run_iff (hne : rows ≠ []) (h : ∀ r ∈ rows, r.NonNegative) :
    (run FsSums.add .new rows).complete.row.RollsUp rows ↔ ∃ r ∈ rows, perlNum r.minval = 0 := by
  obtain ⟨hminval, hmaxval, haggregate, haverage⟩ := row_run hne h
  constructor
  · intro hrow
    obtain ⟨x, hx, hleast⟩ := hrow.minval
    obtain rfl : 0 = x := Option.some_inj.mp (hminval.symm.trans hx)
    exact hleast.1
  · intro hzero
    refine ⟨⟨0, hminval, hzero, ?_⟩, hmaxval, haggregate, haverage⟩
    rintro y ⟨r, hr, rfl⟩
    exact (h r hr).minval

end

section

variable (ost : AggTable) (ts : DateTime) (varid : ℕ)

theorem sumsAt_apply : sumsAt ost ts varid = run FsSums.add .new (ost.group ts varid) := by
  have happly := run_update_apply (fun r : AggKey × AggRow => r.1.variableId)
    (fun s r => s.add r.2) (fun _ => FsSums.new) (rowsAt ost ts) varid
  rw [sumsAt, happly, AggTable.group]
  exact run_map (fun s => s) Prod.snd (fun _ _ => rfl) _ _

theorem mem_variables_iff :
    varid ∈ ((rowsAt ost ts).map fun r => r.1.variableId).dedup ↔ ost.group ts varid ≠ [] := by
  rw [List.mem_dedup, List.mem_map, AggTable.group, ne_eq, List.map_eq_nil_iff,
    List.filter_eq_nil_iff]
  simp

theorem mem_timestamps_of_group (h : ost.group ts varid ≠ []) : ts ∈ ost.timestamps.dedup := by
  obtain ⟨row, hrow⟩ := List.exists_mem_of_ne_nil _ h
  obtain ⟨r, hr, -⟩ := List.mem_map.mp hrow
  obtain ⟨hmem, hts⟩ := List.mem_filter.mp (List.mem_of_mem_filter hr)
  rw [List.mem_dedup]
  exact List.mem_map.mpr ⟨r, hmem, by simpa using hts⟩

def groupRow (k : DateTime × ℕ) : List (FsKey × FsRow) :=
  [(⟨fsid, k.1, k.2⟩, (run FsSums.add .new (ost.group k.1 k.2)).complete.row)]

/-- A row is written on its own, in the place of the previous one. -/
theorem rowsOf_writeFsVar (s : FsSums) (fs : FsTable) (k : DateTime × ℕ) :
    (writeFsVar fsid ts varid s fs).rowsOf k.1 k.2 =
      if (ts, varid) = k then [(⟨fsid, ts, varid⟩, s.row)] else fs.rowsOf k.1 k.2 := by
  obtain ⟨u, hu, hrows⟩ := fs.exists_insert?_deleteWhere (p := FsKey.isOf ts varid)
    (k := ⟨fsid, ts, varid⟩) (by simp [FsKey.isOf]) s.row
  rw [writeFsVar, hu, Option.getD_some, FsTable.rowsOf, hrows, List.filter_append,
    List.filter_filter]
  split_ifs with hk
  · subst hk
    simp [FsKey.isOf]
  · have hnot : FsKey.isOf k.1 k.2 ⟨fsid, ts, varid⟩ = false := by
      rw [FsKey.isOf, decide_eq_false_iff_not]
      rintro ⟨hts, hvar⟩
      exact hk (Prod.ext hts hvar)
    rw [List.filter_cons_of_neg (by simp [hnot]), List.filter_nil, List.append_nil, FsTable.rowsOf]
    refine List.filter_congr fun r _ => ?_
    have hother : FsKey.isOf k.1 k.2 r.1 = true → FsKey.isOf ts varid r.1 = false := by
      simp only [FsKey.isOf, decide_eq_true_eq, decide_eq_false_iff_not]
      rintro ⟨hts, hvar⟩ ⟨hts', hvar'⟩
      exact hk (Prod.ext (hts'.symm.trans hts) (hvar'.symm.trans hvar))
    cases hof : FsKey.isOf k.1 k.2 r.1 with
    | false => rfl
    | true => rw [hother hof]; rfl

theorem rowsOf_writeTimestamp (fs : FsTable) (k : DateTime × ℕ) :
    (writeTimestamp fsid ost fs ts).rowsOf k.1 k.2 =
      if ts = k.1 ∧ ost.group k.1 k.2 ≠ [] then groupRow fsid ost k else fs.rowsOf k.1 k.2 := by
  have hstep (fs : FsTable) (varid : ℕ) (k : DateTime × ℕ) :
      (writeFsVar fsid ts varid (sumsAt ost ts varid).complete fs).rowsOf k.1 k.2 =
        if (ts, varid) = k then groupRow fsid ost k else fs.rowsOf k.1 k.2 := by
    rw [rowsOf_writeFsVar, sumsAt_apply]
    split_ifs with hk
    · subst hk
      rfl
    · rfl
  have hrun := view_run (fun (fs : FsTable) k => fs.rowsOf k.1 k.2) hstep fs
    ((rowsAt ost ts).map fun r => r.1.variableId).dedup k
  rw [writeTimestamp, hrun]
  congr 1
  rw [eq_iff_iff]
  constructor
  · rintro ⟨varid, hmem, rfl⟩
    exact ⟨rfl, (mem_variables_iff ost ts varid).mp hmem⟩
  · rintro ⟨rfl, hne⟩
    exact ⟨k.2, (mem_variables_iff ost k.1 k.2).mpr hne, rfl⟩

theorem rowsOf_writeTable (fs : FsTable) (h : ost.group ts varid ≠ []) :
    (writeTable fsid ost fs).rowsOf ts varid = groupRow fsid ost (ts, varid) := by
  have hrun := view_run (fun (fs : FsTable) (k : DateTime × ℕ) => fs.rowsOf k.1 k.2)
    (fun fs ts => rowsOf_writeTimestamp fsid ost ts fs) fs ost.timestamps.dedup (ts, varid)
  rw [writeTable, hrun, if_pos ⟨ts, mem_timestamps_of_group ost ts varid h, rfl, h⟩]

end

theorem nodup_outputTables : (ostAggregateTables.map outputTable).Nodup := by decide

theorem lmtUpdateFsAgg_outputTable (ost : Text → AggTable) (fs : Text → FsTable) {table : Text}
    (h : table ∈ ostAggregateTables) :
    lmtUpdateFsAgg fsid ost fs (outputTable table) =
      writeTable fsid (ost table) (fs (outputTable table)) := by
  have hfilter : ostAggregateTables.filter (fun t => outputTable t = outputTable table) =
      [table] := by
    have hnodup := List.Nodup.of_map _ nodup_outputTables
    refine List.perm_singleton.mp ((List.perm_ext_iff_of_nodup (hnodup.filter _)
      (List.nodup_singleton _)).mpr fun t => ?_)
    rw [List.mem_filter, List.mem_singleton, decide_eq_true_iff]
    constructor
    · rintro ⟨ht, heq⟩
      exact List.inj_on_of_nodup_map nodup_outputTables ht h heq
    · rintro rfl
      exact ⟨h, rfl⟩
  have happly := run_update_apply outputTable (fun fs t => writeTable fsid (ost t) fs) fs
    ostAggregateTables (outputTable table)
  rw [lmtUpdateFsAgg, happly, hfilter, run_cons, run_nil]

/-- Each timestamp and variable of a table gets exactly one row, which is right exactly
when the least minimum is 0. -/
theorem rolls_up_iff (ost : Text → AggTable) (fs : Text → FsTable)
    (hnonneg : ∀ table ∈ ostAggregateTables, ∀ r ∈ (ost table).rows, r.2.NonNegative)
    {table : Text} (htable : table ∈ ostAggregateTables) {ts : DateTime} {varid : ℕ}
    (hpresent : (ost table).group ts varid ≠ []) :
    (∃ row, (lmtUpdateFsAgg fsid ost fs (outputTable table)).rowsOf ts varid =
        [(⟨fsid, ts, varid⟩, row)] ∧ row.RollsUp ((ost table).group ts varid)) ↔
      ∃ r ∈ (ost table).group ts varid, perlNum r.minval = 0 := by
  have hrows : ∀ r ∈ (ost table).group ts varid, r.NonNegative := by
    intro row hrow
    obtain ⟨r, hr, rfl⟩ := List.mem_map.mp hrow
    exact hnonneg table htable r (List.mem_of_mem_filter (List.mem_of_mem_filter hr))
  rw [lmtUpdateFsAgg_outputTable fsid ost fs htable, rowsOf_writeTable fsid _ ts varid _ hpresent,
    ← rollsUp_run_iff hpresent hrows]
  constructor
  · rintro ⟨row, heq, hrow⟩
    obtain rfl := (Prod.mk.inj (List.cons_eq_cons.mp heq).1).2
    exact hrow
  · intro hrow
    exact ⟨_, rfl, hrow⟩

def oneRowTable (minval : ℚ) : AggTable where
  rows := [(⟨1, aggEpoch, 5⟩, ⟨none, some minval, some 4, some 3, some 2⟩)]
  nodup_keys := List.nodup_singleton _

theorem oneRowTable_nonNegative {minval : ℚ} (h : 0 ≤ minval) :
    ∀ table ∈ ostAggregateTables, ∀ r ∈ ((fun _ => oneRowTable minval) table : AggTable).rows,
      r.2.NonNegative := by
  intro table _ r hr
  obtain rfl := List.mem_singleton.mp hr
  constructor <;> simp [perlNum, h]

theorem group_oneRowTable (minval : ℚ) :
    (oneRowTable minval).group aggEpoch 5 = [⟨none, some minval, some 4, some 3, some 2⟩] := by
  simp [AggTable.group, rowsAt, oneRowTable]

theorem hour_mem_ostAggregateTables : "OST_AGGREGATE_HOUR".toList ∈ ostAggregateTables := by
  rw [ostAggregateTables, List.map_cons]
  exact List.mem_cons_self

theorem rolls_up_iff_one_row :
    (∃ row, (lmtUpdateFsAgg 1 (fun _ => oneRowTable 0) (fun _ => .empty)
        (outputTable "OST_AGGREGATE_HOUR".toList)).rowsOf aggEpoch 5 =
          [(⟨1, aggEpoch, 5⟩, row)] ∧ row.RollsUp ((oneRowTable 0).group aggEpoch 5)) ↔
      ∃ r ∈ (oneRowTable 0).group aggEpoch 5, perlNum r.minval = 0 :=
  rolls_up_iff 1 (fun _ => oneRowTable 0) (fun _ => .empty) (oneRowTable_nonNegative le_rfl)
    hour_mem_ostAggregateTables (by rw [group_oneRowTable]; exact List.cons_ne_nil _ _)

/-- The minimum of a group with the one value 2 is written as 0. -/
theorem minval_of_one_row_lost :
    ¬∀ (fsid : ℕ) (ost : Text → AggTable) (fs : Text → FsTable),
      (∀ table ∈ ostAggregateTables, ∀ r ∈ (ost table).rows, r.2.NonNegative) →
        ∀ table ∈ ostAggregateTables, ∀ ts varid, (ost table).group ts varid ≠ [] →
          ∃ row, (lmtUpdateFsAgg fsid ost fs (outputTable table)).rowsOf ts varid =
            [(⟨fsid, ts, varid⟩, row)] ∧ row.RollsUp ((ost table).group ts varid) := by
  intro h
  have hpresent : (oneRowTable 2).group aggEpoch 5 ≠ [] := by
    rw [group_oneRowTable]
    exact List.cons_ne_nil _ _
  obtain ⟨row, heq, hrow⟩ := h 1 (fun _ => oneRowTable 2) (fun _ => .empty)
    (oneRowTable_nonNegative (by norm_num)) _ hour_mem_ostAggregateTables aggEpoch 5 hpresent
  rw [lmtUpdateFsAgg_outputTable 1 _ _ hour_mem_ostAggregateTables,
    rowsOf_writeTable 1 _ aggEpoch 5 _ hpresent, groupRow, group_oneRowTable] at heq
  obtain rfl := (Prod.mk.inj (List.cons_eq_cons.mp heq).1).2
  obtain ⟨x, hx, hleast⟩ := hrow.minval
  obtain ⟨r, hr, hmin⟩ := hleast.1
  rw [group_oneRowTable, List.mem_singleton] at hr
  subst hr
  obtain rfl : 0 = x := Option.some_inj.mp hx
  norm_num [perlNum] at hmin

end Lmt
