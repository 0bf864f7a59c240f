import Lmt.Scripts.OstPrevious

/-!
# The bytes of all hours

Each hour adds the increments of the counters over its records. Since an hour
begins with the last record before it, the hours together add the increments over
all records.
-/

namespace Lmt

open Loops Runs Counters

/-- The variables that are differenced. -/
inductive ByteCounter where
  | read | write

namespace ByteCounter

def var : ByteCounter → OstVariable
  | read => .readBytes
  | write => .writeBytes

def rateVar : ByteCounter → OstVariable
  | read => .readRate
  | write => .writeRate

def reading : ByteCounter → OstRecord → ℕ
  | read => OstRecord.readBytes
  | write => OstRecord.writeBytes

/-- `prev_rw_bytes` -/
def prev : ByteCounter → OstWork → Option ℕ
  | read => OstWork.prevRead
  | write => OstWork.prevWrite

end ByteCounter

section

variable (c : ByteCounter)

theorem value_var (w : OstWork) (r : OstRecord) :
    w.value r c.var = some ((increment ((c.prev w).getD 0) (c.reading r) : ℕ) : ℚ) := by
  cases c <;> rfl

theorem prev_process (w : OstWork) (r : OstRecord) : c.prev (w.process r) = some (c.reading r) := by
  cases c <;> rfl

theorem prev_of_follows {w : OstWork} {prev : Option OstRecord} (h : w.Follows prev) :
    c.prev w = prev.map c.reading := by
  cases c with
  | read => exact h.prevRead
  | write => exact h.prevWrite

theorem bytes_row (w : OstWork) : (w.row c.var).bytes = (w.vars c.var).sum := by
  cases c <;> rfl

theorem sum_process (w : OstWork) (r : OstRecord) :
    ((w.process r).vars c.var).sum =
      (if w.count = 0 then 0 else (w.vars c.var).sum) +
        (increment ((c.prev w).getD 0) (c.reading r) : ℕ) := by
  rw [vars_process, value_var, updateVar]
  split_ifs <;> rfl

theorem sum_run_process {w : OstWork} (hw : w.count ≠ 0) (rs : List OstRecord) :
    ((run OstWork.process w rs).vars c.var).sum =
      (w.vars c.var).sum + ((increments ((c.prev w).getD 0) (rs.map c.reading)).sum : ℕ) := by
  induction rs generalizing w with
  | nil => simp [increments]
  | cons r rs ih =>
    rw [run_cons, ih (Nat.succ_ne_zero _), sum_process, if_neg hw, prev_process, List.map_cons,
      increments, List.sum_cons, Option.getD_some]
    push_cast
    ring

/-- The sum over an hour does not depend on the hours before, but for the previous
counter. -/
theorem sum_run_process_first {w : OstWork} (hw : w.count = 0) {rs : List OstRecord}
    (hrs : rs ≠ []) :
    ((run OstWork.process w rs).vars c.var).sum =
      ((increments ((c.prev w).getD 0) (rs.map c.reading)).sum : ℕ) := by
  obtain ⟨r, rs, rfl⟩ := List.exists_cons_of_ne_nil hrs
  rw [run_cons, sum_run_process c (Nat.succ_ne_zero _), sum_process, if_pos hw, prev_process,
    List.map_cons, increments, List.sum_cons, Option.getD_some]
  push_cast
  ring

end

variable {raw : OstHistory} (c : ByteCounter)

theorem bytes_processHour {s : OstHash × AggTable} {start : DateTime}
    (hnew : start ∉ AggTable.timestamps s.2) {id : ℕ} {prev : Option OstRecord}
    (hprev : (s.1 id).Follows prev) :
    AggTable.total (processHour raw s start).2 id c.var.id AggRow.bytes =
      AggTable.total s.2 id c.var.id AggRow.bytes +
        ((increments ((prev.map c.reading).getD 0)
          ((raw.hourOf start id).map c.reading)).sum : ℕ) := by
  rw [total_processHour raw s _ hnew, hash_processHour]
  congr 1
  split_ifs with h
  · rw [h]
    simp [increments]
  · rw [bytes_row, sum_run_process_first c rfl h, prev_of_follows c (follows_clearCounts hprev)]

/-- An hour leads from the readings up to its beginning to those up to its end. -/
theorem total_upTo_addHour (hone : raw.OneRecord) (a : DateTime) (id : ℕ) :
    total ((raw.upTo a.addHour id).map c.reading) =
      total ((raw.upTo a id).map c.reading) +
        (increments (((raw.upTo a id).getLast?.map c.reading).getD 0)
          ((raw.hourOf a id).map c.reading)).sum := by
  have hlast : ((raw.upTo a id).map c.reading).getLast? = (raw.upTo a id).getLast?.map c.reading :=
    List.getLast?_map
  rw [upTo_append_between raw id a.lt_addHour.le, List.map_append, total_eq, increments_append,
    List.sum_append, total_eq, hlast]
  congr 1
  rcases hourOf_cases raw id hone a with h | ⟨r, hr, h⟩
  · rw [h]
  · rw [h, hr, Option.map_some, Option.getD_some, List.map_cons, sum_increments_again]

section

variable {final : DateTime} (hfinal : StoredTime final)

include hfinal

theorem bytes_run (hone : raw.OneRecord) (hrange : ∀ r ∈ raw.records, r.timestamp ≤ final)
    {a : DateTime} (ha : a.FourDigitYear) (s : OstHash × AggTable)
    (hold : ∀ t ∈ AggTable.timestamps s.2, t < a) {id : ℕ}
    (hprev : (s.1 id).Follows (raw.upTo a id).getLast?)
    (htotal : AggTable.total s.2 id c.var.id AggRow.bytes =
      (total ((raw.upTo a id).map c.reading) : ℕ)) :
    AggTable.total (run (processHour raw) s (aggHours a final)).2 id c.var.id AggRow.bytes =
      (total ((raw.of id).map c.reading) : ℕ) := by
  revert s
  apply aggHours_induction hfinal ha
  · intro a ha hle s _ _ htotal
    have hall : raw.upTo a id = raw.of id := by
      refine List.filter_eq_self.mpr fun r hr => ?_
      simpa using (hrange r (List.mem_of_mem_filter hr)).trans hle
    rw [aggHours_of_le hfinal ha hle, run_nil, htotal, hall]
  · intro a ha hlt ih s hold hprev htotal
    have hnew : a ∉ AggTable.timestamps s.2 := fun hmem => lt_irrefl a (hold a hmem)
    rw [aggHours_of_lt hfinal ha hlt, run_cons]
    apply ih
    · exact timestamps_lt_addHour raw s hold
    · exact follows_upTo hone hprev
    · rw [bytes_processHour c hnew hprev, htotal, total_upTo_addHour c hone]
      push_cast
      ring

theorem bytes_processHours (hone : raw.OneRecord) (hrange : ∀ r ∈ raw.records, r.timestamp ≤ final)
    {a : DateTime} (ha : a.FourDigitYear) {hourly : AggTable}
    (hold : ∀ t ∈ hourly.timestamps, t < a) {id : ℕ}
    (hprev : (initialHash raw a id).Follows (raw.upTo a id).getLast?)
    (htotal : hourly.total id c.var.id AggRow.bytes = (total ((raw.upTo a id).map c.reading) : ℕ)) :
    (processHours raw hourly a final).total id c.var.id AggRow.bytes =
      (total ((raw.of id).map c.reading) : ℕ) := by
  rw [processHours, hourlyTable_eq]
  exact bytes_run c hfinal hone hrange ha (initialHash raw a, hourly) hold hprev htotal

end

/-- A first run writes all bytes of each OST: none is lost or written twice. -/
theorem bytes_conserved (raw : OstHistory) (hlater : ∀ r ∈ raw.records, aggEpoch < r.timestamp)
    (hone : raw.OneRecord) (id : ℕ) (c : ByteCounter) :
    AggTable.total (lmtUpdateOstAgg raw .empty) id c.var.id AggRow.bytes =
      (total ((raw.of id).map c.reading) : ℕ) := by
  cases hfinal : getFinalTimestamp raw.timestamps with
  | none =>
    have htimes : raw.timestamps = [] := getFinalTimestamp_eq_none.mp hfinal
    have hnil : raw.of id = [] := by
      rw [OstHistory.of, List.map_eq_nil_iff.mp htimes, List.filter_nil]
    rw [lmtUpdateOstAgg_of_lt (by simp [htimes]), total_empty, hnil]
    rfl
  | some final =>
    have hlt : aggEpoch < final := by
      obtain ⟨r, hr, rfl⟩ := List.mem_map.mp (getFinalTimestamp_eq_some.mp hfinal).1
      exact hlater r hr
    have hprev := follows_initialHash_of_later hlater id
    have hnone : raw.upTo aggEpoch id = [] := by
      refine List.filter_eq_nil_iff.mpr fun r hr hle => ?_
      exact (hlater r (List.mem_of_mem_filter hr)).not_ge (by simpa using hle)
    rw [lmtUpdateOstAgg_of_le hfinal getFinalTimestamp_empty hlt.le]
    apply bytes_processHours c (stored_final hfinal) hone (le_final hfinal) fourDigitYear_aggEpoch
    · intro t ht
      cases ht
    · exact hprev
    · rw [hnone, total_empty]
      rfl

/-- A counter that starts again after one o'clock. -/
def recordsWithReset : List OstRecord :=
  [.counters 1 aggEpoch.addHour 5 5, .counters 2 aggEpoch.addHour 9 0,
    .counters 1 aggEpoch.addHour.addHour 3 6]

theorem recordsWithReset_ordered :
    recordsWithReset.Pairwise fun a b => a.timestamp ≤ b.timestamp := by decide

theorem recordsWithReset_stored : ∀ r ∈ recordsWithReset, StoredTime r.timestamp := by
  decide

def historyWithReset : OstHistory := ⟨_, recordsWithReset_ordered, recordsWithReset_stored⟩

theorem historyWithReset_oneRecord : historyWithReset.OneRecord := by
  rw [OstHistory.OneRecord]
  decide

theorem bytes_conserved_reset :
    AggTable.total (lmtUpdateOstAgg historyWithReset .empty) 1 OstVariable.readBytes.id
      AggRow.bytes = 8 :=
  (bytes_conserved historyWithReset (by decide) historyWithReset_oneRecord 1 .read).trans
    (by norm_num [total, increments, increment, historyWithReset, recordsWithReset, OstHistory.of,
      OstRecord.counters, ByteCounter.reading])

end Lmt
