import Lmt.Library.CalendarText
import Lmt.Library.Loops
import Lmt.Library.Runs
import Lmt.Library.Tables

/-!
# The aggregate tables and `LMT.pm`

The tables `*_AGGREGATE_HOUR` to `*_AGGREGATE_YEAR` of all kinds of targets have
the same columns. A timestamp has one `TS_ID`, so a row is keyed by its
timestamp here. The numbers are exact.
-/

namespace Lmt

/-- The timestamps are inserted as `FROM_UNIXTIME` of the seconds since 1970, which is known up to
2038. -/
def StoredTime (t : DateTime) : Prop := 1970 ≤ t.year ∧ t.year ≤ 2038

instance (t : DateTime) : Decidable (StoredTime t) :=
  inferInstanceAs (Decidable (1970 ≤ t.year ∧ t.year ≤ 2038))

/-- The primary key of an aggregate table, with the timestamp of the `TS_ID`. -/
structure AggKey where
  /-- `OST_ID`, `MDS_ID` or `ROUTER_ID` -/
  id : ℕ
  timestamp : DateTime
  variableId : ℕ
deriving DecidableEq

/-- The other columns, which can be NULL. -/
structure AggRow where
  aggregate : Option ℚ
  minval : Option ℚ
  maxval : Option ℚ
  average : Option ℚ
  numSamples : Option ℕ
deriving DecidableEq

abbrev AggTable := KeyedTable AggKey AggRow

def AggTable.timestamps (t : AggTable) : List DateTime := t.rows.map (·.1.timestamp)

def AggRow.samples (row : AggRow) : ℕ := row.numSamples.getD 0

def AggRow.bytes (row : AggRow) : ℚ := row.aggregate.getD 0

/-- The sum of a column over the rows of one target and variable. -/
def AggTable.total {M : Type} [AddMonoid M] (t : AggTable) (id variableId : ℕ)
    (f : AggRow → M) : M :=
  ((t.rows.filter fun r => r.1.id = id ∧ r.1.variableId = variableId).map fun r => f r.2).sum

/-- `getFinalTimestamp`, of the timestamps of a table. -/
def getFinalTimestamp (timestamps : List DateTime) : Option DateTime := timestamps.max?

/-- `getFirstTimestamp`; if one is given, not before it. -/
def getFirstTimestamp (timestamps : List DateTime) (after : Option DateTime) : Option DateTime :=
  (timestamps.filter fun t => ∀ a ∈ after, a ≤ t).min?

def diffTimestamps (t u : DateTime) : ℕ := (u.seconds - t.seconds : ℤ).natAbs

theorem fourDigitYear_of_le {a final : DateTime} (hfinal : StoredTime final) (h : a ≤ final) :
    a.FourDigitYear := by
  have hyear := DateTime.year_le_of_le h
  have := hfinal.2
  rw [DateTime.FourDigitYear]
  omega

theorem fourDigitYear_of_stored {final : DateTime} (hfinal : StoredTime final) :
    final.FourDigitYear :=
  fourDigitYear_of_le hfinal le_rfl

/-- `MAXVAL` and `MINVAL` of no value. -/
def initMaxval : ℚ := -1

def initMinval : ℚ := 10 ^ 50

theorem getFinalTimestamp_eq_some {timestamps : List DateTime} {t : DateTime} :
    getFinalTimestamp timestamps = some t ↔ t ∈ timestamps ∧ ∀ u ∈ timestamps, u ≤ t :=
  List.max?_eq_some_iff

theorem getFinalTimestamp_eq_none {timestamps : List DateTime} :
    getFinalTimestamp timestamps = none ↔ timestamps = [] :=
  List.max?_eq_none_iff

@[simp] theorem total_empty {M : Type} [AddMonoid M] (id variableId : ℕ) (f : AggRow → M) :
    AggTable.total KeyedTable.empty id variableId f = 0 := rfl

theorem total_eq_sum {M : Type} [AddCommMonoid M] {t : AggTable} {id variableId : ℕ}
    {times : List DateTime} (htimes : times.Nodup)
    (hkeys : ∀ k ∈ t.keys, k.id = id → k.variableId = variableId → k.timestamp ∈ times)
    (f : AggRow → M) :
    t.total id variableId f =
      (times.map fun b => (t.find? ⟨id, b, variableId⟩).elim 0 f).sum := by
  have hsum : ∀ times : List DateTime,
      (times.map fun b => (t.find? ⟨id, b, variableId⟩).elim 0 f).sum =
        ((times.filterMap fun b => (t.find? ⟨id, b, variableId⟩).map fun row =>
          (AggKey.mk id b variableId, row)).map fun r => f r.2).sum := by
    intro times
    induction times with
    | nil => rfl
    | cons b times ih =>
      rw [List.map_cons, List.sum_cons, ih, List.filterMap_cons]
      cases t.find? ⟨id, b, variableId⟩ <;> simp
  rw [hsum, AggTable.total]
  refine (List.Perm.map _ ((List.perm_ext_iff_of_nodup ?_ ?_).mpr fun r => ?_)).sum_eq
  · exact (List.Nodup.of_map _ t.nodup_keys).filter _
  · refine htimes.filterMap fun b b' r hb hb' => ?_
    obtain ⟨_, -, rfl⟩ := Option.map_eq_some_iff.mp hb
    obtain ⟨_, -, heq⟩ := Option.map_eq_some_iff.mp hb'
    exact (AggKey.mk.inj (congrArg Prod.fst heq)).2.1.symm
  · obtain ⟨⟨id', b, variableId'⟩, row⟩ := r
    simp only [List.mem_filter, List.mem_filterMap, Option.map_eq_some_iff, decide_eq_true_eq,
      Prod.mk.injEq, AggKey.mk.injEq]
    constructor
    · rintro ⟨hr, rfl, rfl⟩
      exact ⟨b, hkeys _ (List.mem_map.mpr ⟨_, hr, rfl⟩) rfl rfl, row,
        KeyedTable.find?_eq_some.mpr hr, ⟨rfl, rfl, rfl⟩, rfl⟩
    · rintro ⟨b, -, row, hfind, ⟨rfl, rfl, rfl⟩, rfl⟩
      exact ⟨KeyedTable.find?_eq_some.mp hfind, rfl, rfl⟩

end Lmt
