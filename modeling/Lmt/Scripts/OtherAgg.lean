import Lmt.Scripts.Aggregates
import Mathlib.Data.List.Sort

/-!
# `lmt_update_other_agg`

The script fills the tables of days, weeks, months and years from a table of
hours, of OSTs, of routers or of MDSs. For each variable it goes from period to
period, and adds up the rows of each target. A period is half-open.
-/

namespace Lmt

open Loops Runs

/-- The tables beside that of hours, with the interval of their rows. -/
inductive Interval where
  | day | week | month | year
deriving DecidableEq

namespace Interval

/-- `DATE_ADD` and `DateCalc`, for `1 DAY`, `7 DAY`, `1 MONTH` and `1 YEAR`. -/
def next : Interval → DateTime → DateTime
  | day => DateTime.nextDay
  | week => DateTime.nextDay^[7]
  | month => DateTime.addMonths 1
  | year => DateTime.addMonths 12

def roundDown : Interval → DateTime → DateTime
  | day => DateTime.midnight
  | week => DateTime.prevSunday
  | month => DateTime.firstOfMonth
  | year => DateTime.firstOfYear

end Interval

/-- `$startTime`, which has separators at first, and none from `ParseDate` on. -/
structure LoopTime where
  separators : Bool
  time : DateTime

def LoopTime.text (l : LoopTime) : List Char :=
  if l.separators then l.time.dashed else DateTime.remove [':'] l.time.colons

/-- `$startTime lt $finalTimestamp` -/
def morePeriods (final : DateTime) (l : LoopTime) : Bool :=
  decide (l.text < DateTime.remove [' ', ':', '-'] final.dashed)

/-- Add one interval to `$startTime`. -/
def nextPeriod (interval : Interval) (l : LoopTime) : LoopTime where
  separators := false
  time := interval.next l.time

def periodsLeft (final : DateTime) (l : LoopTime) : ℕ :=
  (if l.separators then 1 else 0) + (final.seconds - l.time.seconds)

/-- The values of `$startTime`. -/
def periods (interval : Interval) (start final : DateTime) : List DateTime :=
  (whileValues (morePeriods final) (nextPeriod interval) (periodsLeft final) ⟨true, start⟩).map
    LoopTime.time

/-- `%aggData` of one target. -/
structure AggSums where
  aggregate : ℚ
  minval : ℚ
  maxval : ℚ
  average : ℚ
  numSamples : ℕ

namespace OtherAgg

def initVar : AggSums where
  aggregate := 0
  minval := initMinval
  maxval := initMaxval
  average := 0
  numSamples := 0

def updateVar (v : AggSums) (row : AggRow) : AggSums where
  aggregate := row.aggregate.elim v.aggregate fun x => v.aggregate + x
  minval := row.minval.elim v.minval fun x => min v.minval x
  maxval := row.maxval.elim v.maxval fun x => max v.maxval x
  average := row.average.elim v.average fun x => v.average + x
  numSamples := row.numSamples.elim v.numSamples fun x => v.numSamples + x

end OtherAgg

/-- The row that is written for some rows; `AVERAGE` contains the sum of all averages
before. -/
def periodRow (rows : List AggRow) : AggRow :=
  let v := run OtherAgg.updateVar OtherAgg.initVar rows
  { aggregate := some v.aggregate
    minval := some v.minval
    maxval := some v.maxval
    average := some (v.average / rows.length)
    numSamples := some v.numSamples }

/-- The query for one period's worth of data. -/
def periodRows (hourly : AggTable) (interval : Interval) (varId : ℕ) (start : DateTime) :
    List (AggKey × AggRow) :=
  hourly.rows.filter fun r =>
    start ≤ r.1.timestamp ∧ r.1.timestamp < interval.next start ∧ r.1.variableId = varId

def targetRows (hourly : AggTable) (interval : Interval) (varId : ℕ) (start : DateTime) (id : ℕ) :
    List AggRow :=
  ((periodRows hourly interval varId start).filter fun r => r.1.id = id).map Prod.snd

/-- The targets of the query; a row without an id is skipped. -/
def periodIds (hourly : AggTable) (interval : Interval) (varId : ℕ) (start : DateTime) : List ℕ :=
  (((periodRows hourly interval varId start).map (·.1.id)).filter (· ≠ 0)).dedup

def processPeriod (hourly : AggTable) (interval : Interval) (varId : ℕ) (sink : AggTable)
    (start : DateTime) : AggTable :=
  sink.replaceAll ((periodIds hourly interval varId start).map fun id =>
    (⟨id, start, varId⟩, periodRow (targetRows hourly interval varId start id)))

def getTablesVariableIds (hourly : AggTable) : List ℕ :=
  ((hourly.rows.map (·.1.variableId)).dedup).insertionSort (· ≤ ·)

def updateAggTable (hourly : AggTable) (interval : Interval) (start final : DateTime)
    (sink : AggTable) : AggTable :=
  run
    (fun sink varId => run (processPeriod hourly interval varId) sink
      (periods interval start final))
    sink (getTablesVariableIds hourly)

/-- `$startTimestamp`: the final one of the table, or the first one of the hours
rounded down. -/
def startTimestamp (replaceAll : Bool) (interval : Interval) (first : DateTime) (sink : AggTable) :
    DateTime :=
  if replaceAll then interval.roundDown first
  else (getFinalTimestamp sink.timestamps).getD (interval.roundDown first)

/-- The tables after a run of the script; without an hour there is no variable. -/
def processAggTables (replaceAll : Bool) (hourly : AggTable) (tables : Interval → AggTable)
    (interval : Interval) : AggTable :=
  match getFirstTimestamp hourly.timestamps none, getFinalTimestamp hourly.timestamps with
  | some first, some final =>
    updateAggTable hourly interval
      (startTimestamp replaceAll interval first (tables interval)) final
      (tables interval)
  | _, _ => tables interval

end Lmt
