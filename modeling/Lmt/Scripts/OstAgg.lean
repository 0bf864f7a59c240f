import Lmt.Scripts.Aggregates

/-!
# `lmt_update_ost_agg`

The script reads the records of `OST_DATA` hour by hour, from the last hour that
was written, and writes for each OST of an hour one row for each variable. The
counters of bytes are differenced, with the previous counters kept from hour to
hour. The counters are never NULL, since the monitor module binds them; an hour
is an hour of the calendar.
-/

namespace Lmt

open Loops Runs

/-- A row of `OST_DATA` with the timestamp of its `TS_ID`. -/
structure OstRecord where
  ostId : ℕ
  timestamp : DateTime
  readBytes : ℕ
  writeBytes : ℕ
  pctCpu : Option ℚ
  kbytesFree : Option ℚ
  kbytesUsed : Option ℚ
  inodesFree : Option ℚ
  inodesUsed : Option ℚ

def OstRecord.counters (id : ℕ) (t : DateTime) (read write : ℕ) : OstRecord where
  ostId := id
  timestamp := t
  readBytes := read
  writeBytes := write
  pctCpu := none
  kbytesFree := none
  kbytesUsed := none
  inodesFree := none
  inodesUsed := none

/-- `OST_DATA` in the order of its timestamps. -/
structure OstHistory where
  records : List OstRecord
  ordered : records.Pairwise fun a b => a.timestamp ≤ b.timestamp
  stored : ∀ r ∈ records, StoredTime r.timestamp

/-- `OST_VARIABLE_INFO` -/
inductive OstVariable where
  | readBytes | writeBytes | readRate | writeRate | kbytesFree | kbytesUsed | inodesFree
  | inodesUsed | pctCpu
deriving DecidableEq

def OstVariable.id : OstVariable → ℕ
  | .readBytes => 1
  | .writeBytes => 2
  | .readRate => 3
  | .writeRate => 4
  | .kbytesFree => 5
  | .kbytesUsed => 6
  | .inodesFree => 7
  | .inodesUsed => 8
  | .pctCpu => 9

def ostVariables : List OstVariable :=
  [.readBytes, .writeBytes, .readRate, .writeRate, .pctCpu, .kbytesFree, .kbytesUsed, .inodesFree,
    .inodesUsed]

/-- The hash of one variable. -/
structure AggVar where
  maxval : ℚ
  minval : ℚ
  sum : ℚ

def initVar : AggVar where
  maxval := initMaxval
  minval := initMinval
  sum := 0

def updateVar (v : AggVar) : Option ℚ → AggVar
  | none => v
  | some x => { maxval := max v.maxval x, minval := min v.minval x, sum := v.sum + x }

/-- The bytes since the previous record; the counter starts from 0 when Lustre or
an OSS is restarted. -/
def nbytes (prev cur : ℕ) : ℕ := if cur < prev then cur else cur - prev

def rate (nbytes timediff : ℕ) : ℚ := if 0 < timediff then nbytes / timediff else 0

structure OstWork where
  /-- `counts`, of this hour -/
  count : ℕ
  prevTs : Option DateTime
  /-- `prev_rw_bytes` of `READ_BYTES` and of `WRITE_BYTES` -/
  prevRead : Option ℕ
  prevWrite : Option ℕ
  vars : OstVariable → AggVar

def OstWork.new : OstWork where
  count := 0
  prevTs := none
  prevRead := none
  prevWrite := none
  vars _ := initVar

def OstWork.value (w : OstWork) (r : OstRecord) : OstVariable → Option ℚ
  | .readBytes => some (nbytes (w.prevRead.getD 0) r.readBytes)
  | .writeBytes => some (nbytes (w.prevWrite.getD 0) r.writeBytes)
  | .readRate =>
    some (rate (nbytes (w.prevRead.getD 0) r.readBytes)
      (diffTimestamps r.timestamp (w.prevTs.getD r.timestamp)))
  | .writeRate =>
    some (rate (nbytes (w.prevWrite.getD 0) r.writeBytes)
      (diffTimestamps r.timestamp (w.prevTs.getD r.timestamp)))
  | .kbytesFree => r.kbytesFree
  | .kbytesUsed => r.kbytesUsed
  | .inodesFree => r.inodesFree
  | .inodesUsed => r.inodesUsed
  | .pctCpu => r.pctCpu

/-- The body of the loop over the records of an hour; with the first record of an
OST its variables start again. -/
def OstWork.process (w : OstWork) (r : OstRecord) : OstWork where
  count := w.count + 1
  prevTs := some r.timestamp
  prevRead := some r.readBytes
  prevWrite := some r.writeBytes
  vars v := updateVar (if w.count = 0 then initVar else w.vars v) (w.value r v)

/-- Only these have a meaningful `AGGREGATE`. -/
def OstVariable.isBytes : OstVariable → Bool
  | .readBytes => true
  | .writeBytes => true
  | _ => false

def OstWork.row (w : OstWork) (v : OstVariable) : AggRow where
  aggregate := if v.isBytes then some (w.vars v).sum else none
  minval := some (w.vars v).minval
  maxval := some (w.vars v).maxval
  average := some ((w.vars v).sum / w.count)
  numSamples := some w.count

abbrev OstHash := ℕ → OstWork

def processRecord (hash : OstHash) (r : OstRecord) : OstHash :=
  Function.update hash r.ostId ((hash r.ostId).process r)

/-- `my %counts=()` -/
def clearCounts (hash : OstHash) : OstHash := fun id => { hash id with count := 0 }

/-- The query for one hour's worth of data. -/
def hourRecords (raw : OstHistory) (start : DateTime) : List OstRecord :=
  raw.records.filter fun r => start ≤ r.timestamp ∧ r.timestamp ≤ start.addHour

/-- The rows that are written for an hour, of the OSTs with new data. -/
def hourRows (start : DateTime) (hash : OstHash) (ids : List ℕ) : List (AggKey × AggRow) :=
  ids.flatMap fun id => ostVariables.map fun v => (⟨id, start, v.id⟩, (hash id).row v)

def processHour (raw : OstHistory) (s : OstHash × AggTable) (start : DateTime) :
    OstHash × AggTable :=
  let hash := run processRecord (clearCounts s.1) (hourRecords raw start)
  (hash, s.2.replaceAll (hourRows start hash ((hourRecords raw start).map OstRecord.ostId).dedup))

/-- `$startTimestamp lt $finalTimestamp`, of compact texts. -/
def moreHours (final start : DateTime) : Bool := decide (start.compact < final.compact)

def secondsLeft (final start : DateTime) : ℕ := final.seconds - start.seconds

/-- The values of `$startTimestamp`. -/
def aggHours (start final : DateTime) : List DateTime :=
  whileValues (moreHours final) DateTime.addHour (secondsLeft final) start

/-- The record of an OST that precedes the starting point, by less than 2 hours. -/
def precedingRecord (raw : OstHistory) (start : DateTime) (id : ℕ) : Option OstRecord :=
  (raw.records.filter fun r =>
    r.ostId = id ∧ start.seconds < r.timestamp.seconds + 7200 ∧ r.timestamp < start).getLast?

def initialHash (raw : OstHistory) (start : DateTime) : OstHash := fun id =>
  match precedingRecord raw start id with
  | none => .new
  | some r =>
    { OstWork.new with
      prevTs := some r.timestamp, prevRead := some r.readBytes, prevWrite := some r.writeBytes }

/-- `2006-01-01 00:00:00` -/
def aggEpoch : DateTime where
  month := 12 * 2006
  day := 0
  second := 0
  day_lt := Calendar.monthLength_pos _
  second_lt := DateTime.zero_lt_dayLength

def OstHistory.timestamps (raw : OstHistory) : List DateTime := raw.records.map OstRecord.timestamp

/-- `getStartAndFinalAggTimestamps`; without a record from the starting point on, the
script dies. -/
def getStartAndFinalAggTimestamps (raw : OstHistory) (hourly : AggTable) :
    Option (DateTime × DateTime) := do
  let start := (getFinalTimestamp hourly.timestamps).getD aggEpoch
  let final ← getFinalTimestamp raw.timestamps
  let _ ← getFirstTimestamp raw.timestamps (some start)
  pure (start, final)

def hourlyTable (s : OstHash × AggTable) : AggTable := s.2

def processHours (raw : OstHistory) (hourly : AggTable) (start final : DateTime) : AggTable :=
  hourlyTable (run (processHour raw) (initialHash raw start, hourly) (aggHours start final))

/-- `OST_AGGREGATE_HOUR` after a run of the script. -/
def lmtUpdateOstAgg (raw : OstHistory) (hourly : AggTable) : AggTable :=
  match getStartAndFinalAggTimestamps raw hourly with
  | none => hourly
  | some (start, final) => processHours raw hourly start final

end Lmt
