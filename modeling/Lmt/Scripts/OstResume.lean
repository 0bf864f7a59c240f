import Lmt.Scripts.OstBytes

/-!
# The first record after a starting point

What is kept of an OST matters for its next record alone: for the bytes and the
rates since the previous record. A run that starts again looks for this record in
two hours before its starting point. Without it, the whole counter counts as new
bytes.
-/

namespace Lmt

open Loops Runs Counters

def valueAfter (prev : Option OstRecord) (r : OstRecord) (v : OstVariable) : Option ℚ :=
  OstWork.value
    { OstWork.new with
      prevTs := prev.map OstRecord.timestamp, prevRead := prev.map OstRecord.readBytes,
      prevWrite := prev.map OstRecord.writeBytes } r v

theorem value_of_follows {w : OstWork} {prev : Option OstRecord} (h : w.Follows prev)
    (r : OstRecord) (v : OstVariable) : w.value r v = valueAfter prev r v := by
  obtain ⟨hts, hread, hwrite⟩ := h
  cases v <;> simp only [valueAfter, OstWork.value, hts, hread, hwrite]

theorem vars_process_of_follows {w : OstWork} {prev : Option OstRecord} (h : w.Follows prev)
    (r : OstRecord) (v : OstVariable) :
    (w.process r).vars v =
      updateVar (if w.count = 0 then initVar else w.vars v) (valueAfter prev r v) := by
  rw [vars_process, value_of_follows h]

/-- After the first record of an hour, only its values tell two runs apart. -/
theorem process_eq_process {w w' : OstWork} (hw : w.count = 0) (hw' : w'.count = 0)
    {r : OstRecord} (h : ∀ v, w.value r v = w'.value r v) : w.process r = w'.process r := by
  simp only [OstWork.process, hw, hw', if_true, h]

theorem sum_updateVar (v : AggVar) (x : Option ℚ) : (updateVar v x).sum = v.sum + x.getD 0 := by
  cases x with
  | none => exact (add_zero _).symm
  | some x => rfl

/-- Later records add the same to the sums of two runs. -/
theorem sum_run_process_sub {w w' : OstWork} {prev : Option OstRecord} (h : w.Follows prev)
    (h' : w'.Follows prev) (hw : w.count ≠ 0) (hw' : w'.count ≠ 0) (rs : List OstRecord)
    (v : OstVariable) :
    ((run OstWork.process w rs).vars v).sum - (w.vars v).sum =
      ((run OstWork.process w' rs).vars v).sum - (w'.vars v).sum := by
  induction rs generalizing w w' prev with
  | nil => simp
  | cons r rs ih =>
    have hrest := ih (follows_process w r) (follows_process w' r) (Nat.succ_ne_zero _)
      (Nat.succ_ne_zero _)
    rw [vars_process_of_follows h, vars_process_of_follows h', if_neg hw, if_neg hw', sum_updateVar,
      sum_updateVar] at hrest
    rw [run_cons, run_cons]
    linarith

/-- The averages of an hour tell the values of its first record. -/
theorem value_of_average_eq {w w' : OstWork} (hw : w.count = 0) (hw' : w'.count = 0)
    {r : OstRecord} {rs : List OstRecord} {v : OstVariable}
    (h : ((run OstWork.process w (r :: rs)).row v).average =
      ((run OstWork.process w' (r :: rs)).row v).average) :
    (w.value r v).getD 0 = (w'.value r v).getD 0 := by
  have hcount (w : OstWork) (hw : w.count = 0) :
      (run OstWork.process w (r :: rs)).count = rs.length + 1 := by
    rw [count_run_process, hw, List.length_cons, Nat.zero_add]
  have hsums : ((run OstWork.process w (r :: rs)).vars v).sum =
      ((run OstWork.process w' (r :: rs)).vars v).sum := by
    have hpos : ((rs.length + 1 : ℕ) : ℚ) ≠ 0 := by positivity
    rw [OstWork.row, OstWork.row, hcount w hw, hcount w' hw', Option.some_inj] at h
    exact (div_left_inj' hpos).mp h
  have hsub := sum_run_process_sub (follows_process w r) (follows_process w' r)
    (Nat.succ_ne_zero _) (Nat.succ_ne_zero _) rs v
  rw [run_cons, run_cons] at hsums
  rw [hsums, vars_process, vars_process, if_pos hw, if_pos hw',
    sum_updateVar, sum_updateVar] at hsub
  linarith

section

variable (raw : OstHistory) (start : DateTime) (id : ℕ)

def OstHistory.lastBefore : Option OstRecord :=
  ((raw.of id).filter fun r => r.timestamp < start).getLast?

def OstHistory.firstFrom : Option OstRecord :=
  ((raw.of id).filter fun r => start ≤ r.timestamp).head?

end

/-- A run that starts again counts the bytes of an OST as before, with its first
record from the starting point on. If this record is at the starting point, the
counter has not changed since the record that the query finds; otherwise the query
finds the last record. A counter of 0 tells that there are no new bytes. -/
def ResumesAt (raw : OstHistory) (start : DateTime) (r : OstRecord) (c : ByteCounter) : Prop :=
  c.reading r = 0 ∨
    if r.timestamp = start then
      ∃ p ∈ precedingRecord raw start r.ostId, c.reading p = c.reading r
    else precedingRecord raw start r.ostId = raw.lastBefore start r.ostId

def bytesAfter (prev : Option OstRecord) (r : OstRecord) (c : ByteCounter) : ℕ :=
  increment ((prev.map c.reading).getD 0) (c.reading r)

def rateAfter (prev : Option OstRecord) (r : OstRecord) (c : ByteCounter) : ℚ :=
  rate (bytesAfter prev r c)
    (diffTimestamps r.timestamp ((prev.map OstRecord.timestamp).getD r.timestamp))

/-- Two previous records give the same new bytes and rates. -/
def SameAfter (p q : Option OstRecord) (r : OstRecord) : Prop :=
  ∀ c, bytesAfter p r c = bytesAfter q r c ∧ rateAfter p r c = rateAfter q r c

theorem valueAfter_var (prev : Option OstRecord) (r : OstRecord) (c : ByteCounter) :
    valueAfter prev r c.var = some (bytesAfter prev r c : ℚ) := by
  cases c <;> rfl

theorem valueAfter_rateVar (prev : Option OstRecord) (r : OstRecord) (c : ByteCounter) :
    valueAfter prev r c.rateVar = some (rateAfter prev r c) := by
  cases c <;> rfl

variable {p q : Option OstRecord} {r : OstRecord}

theorem valueAfter_eq_of_sameAfter (h : SameAfter p q r) (v : OstVariable) :
    valueAfter p r v = valueAfter q r v := by
  have hvar (c : ByteCounter) : valueAfter p r c.var = valueAfter q r c.var := by
    rw [valueAfter_var, valueAfter_var, (h c).1]
  have hrate (c : ByteCounter) : valueAfter p r c.rateVar = valueAfter q r c.rateVar := by
    rw [valueAfter_rateVar, valueAfter_rateVar, (h c).2]
  cases v with
  | readBytes => exact hvar .read
  | writeBytes => exact hvar .write
  | readRate => exact hrate .read
  | writeRate => exact hrate .write
  | _ => rfl

theorem sameAfter_of_valueAfter_eq
    (h : ∀ v, (valueAfter p r v).getD 0 = (valueAfter q r v).getD 0) : SameAfter p q r := by
  intro c
  have hbytes := h c.var
  have hrate := h c.rateVar
  rw [valueAfter_var, valueAfter_var, Option.getD_some, Option.getD_some] at hbytes
  rw [valueAfter_rateVar, valueAfter_rateVar, Option.getD_some, Option.getD_some] at hrate
  exact ⟨by exact_mod_cast hbytes, hrate⟩

section

variable {raw : OstHistory} {start : DateTime} {id : ℕ}

/-- The query finds the last record before the starting point, unless it is too old. -/
theorem precedingRecord_eq (raw : OstHistory) (start : DateTime) (id : ℕ) :
    precedingRecord raw start id =
      (raw.lastBefore start id).filter fun p => start.seconds < p.timestamp.seconds + 7200 := by
  rw [OstHistory.lastBefore, ← getLast?_filter ((ordered_of raw id).filter _)
    (fun p => start.seconds < p.timestamp.seconds + 7200), List.filter_filter, OstHistory.of,
    List.filter_filter, precedingRecord]
  · congr 1
    refine List.filter_congr fun r _ => ?_
    simp only [Bool.decide_and, Bool.and_comm]
  · intro a b hab ha
    rw [DateTime.le_def] at hab
    omega

theorem mem_of_firstFrom (h : raw.firstFrom start id = some r) :
    r ∈ raw.records ∧ r.ostId = id ∧ start ≤ r.timestamp := by
  obtain ⟨hof, hle⟩ := List.mem_filter.mp (List.mem_of_head? h)
  obtain ⟨hmem, hid⟩ := List.mem_filter.mp hof
  exact ⟨hmem, by simpa using hid, by simpa using hle⟩

/-- The last record up to the starting point is the first one from it on, if that is
at the starting point. -/
theorem getLast?_upTo_of_firstFrom (hone : raw.OneRecord) (h : raw.firstFrom start id = some r) :
    (raw.upTo start id).getLast? =
      if r.timestamp = start then some r else raw.lastBefore start id := by
  obtain ⟨hmem, hid, -⟩ := mem_of_firstFrom h
  rw [upTo_eq_append]
  rcases atTime_cases raw id hone start with hnone | ⟨s, hs, hsome⟩
  · have hne : r.timestamp ≠ start := by
      intro heq
      have hat : r ∈ raw.atTime start id :=
        List.mem_filter.mpr ⟨List.mem_filter.mpr ⟨hmem, by simpa using hid⟩, by simpa using heq⟩
      rw [hnone] at hat
      cases hat
    rw [hnone, List.append_nil, if_neg hne, OstHistory.lastBefore]
  · have hfirst : raw.firstFrom start id = some s := by
      rw [OstHistory.firstFrom, filter_split (ordered_of raw id) (fun r => r.timestamp ≤ start) _
        fun a b hab hb => hab.trans hb]
      have hat : (raw.of id).filter (fun r => r.timestamp ≤ start ∧ start ≤ r.timestamp) = [s] := by
        rw [← hsome]
        refine List.filter_congr fun r _ => decide_eq_decide.mpr ?_
        exact le_antisymm_iff.symm
      rw [hat, List.head?_append, List.head?_cons, Option.some_or]
    obtain rfl : r = s := Option.some_inj.mp (h.symm.trans hfirst)
    rw [hsome, List.getLast?_concat, if_pos hs]

theorem lt_of_lastBefore {p : OstRecord} (h : raw.lastBefore start id = some p) :
    p.timestamp < start := by
  simpa using (List.mem_filter.mp (List.mem_of_getLast? h)).2

theorem rate_zero (n : ℕ) : rate 0 n = 0 := by
  rw [rate]
  split_ifs <;> simp

theorem rate_eq_zero {n : ℕ} (hn : 0 < n) (b : ℕ) : rate b n = 0 ↔ b = 0 := by
  have hpos : (n : ℚ) ≠ 0 := by positivity
  rw [rate, if_pos hn, div_eq_zero_iff, or_iff_left hpos, Nat.cast_eq_zero]

/-- Without a previous record the whole counter is new, at no rate. -/
theorem bytesAfter_none (r : OstRecord) (c : ByteCounter) : bytesAfter none r c = c.reading r :=
  increment_zero _

theorem rateAfter_none (r : OstRecord) (c : ByteCounter) : rateAfter none r c = 0 := by
  rw [rateAfter, diffTimestamps, rate]
  simp

theorem bytesAfter_self (r : OstRecord) (c : ByteCounter) : bytesAfter (some r) r c = 0 :=
  increment_self _

theorem rateAfter_of_bytesAfter {p : Option OstRecord} {c : ByteCounter}
    (h : bytesAfter p r c = 0) : rateAfter p r c = 0 := by
  rw [rateAfter, h, rate_zero]

theorem bytesAfter_lost {p : OstRecord} (hlt : p.timestamp < r.timestamp) (c : ByteCounter) :
    (bytesAfter (some p) r c = bytesAfter none r c ∧ rateAfter (some p) r c = rateAfter none r c) ↔
      c.reading r = 0 := by
  have hdiff : 0 < diffTimestamps r.timestamp p.timestamp := by
    rw [DateTime.lt_def] at hlt
    rw [diffTimestamps]
    omega
  have hrate : rateAfter (some p) r c = 0 ↔ bytesAfter (some p) r c = 0 := rate_eq_zero hdiff _
  rw [bytesAfter_none, rateAfter_none, hrate]
  constructor
  · rintro ⟨hbytes, hzero⟩
    exact hbytes.symm.trans hzero
  · intro hzero
    have hnone : bytesAfter (some p) r c = 0 := increment_eq_zero.mpr (Or.inr hzero)
    exact ⟨hnone.trans hzero.symm, hnone⟩

/-- What is kept in a run and what is found by a run that starts again give the same
values exactly if the run resumes. -/
theorem sameAfter_iff (hone : raw.OneRecord) (h : raw.firstFrom start id = some r) :
    SameAfter (raw.upTo start id).getLast? (precedingRecord raw start id) r ↔
      ∀ c, ResumesAt raw start r c := by
  obtain ⟨-, rfl, hle⟩ := mem_of_firstFrom h
  refine forall_congr' fun c => ?_
  rw [getLast?_upTo_of_firstFrom hone h, ResumesAt]
  by_cases htime : r.timestamp = start
  · rw [if_pos htime, if_pos htime, bytesAfter_self,
      rateAfter_of_bytesAfter (bytesAfter_self r c)]
    cases hp : precedingRecord raw start r.ostId with
    | none => simp [bytesAfter_none, rateAfter_none, eq_comm]
    | some p =>
      have hbytes : bytesAfter (some p) r c = 0 ↔ c.reading r = c.reading p ∨ c.reading r = 0 :=
        increment_eq_zero
      have hrate : bytesAfter (some p) r c = 0 → rateAfter (some p) r c = 0 :=
        rateAfter_of_bytesAfter
      have hfound : (∃ p' ∈ some p, c.reading p' = c.reading r) ↔ c.reading r = c.reading p := by
        simp [eq_comm]
      rw [hfound, or_comm, ← hbytes]
      constructor
      · rintro ⟨hzero, -⟩
        exact hzero.symm
      · intro hzero
        exact ⟨hzero.symm, (hrate hzero).symm⟩
  · rw [if_neg htime, if_neg htime, precedingRecord_eq]
    cases hp : raw.lastBefore start r.ostId with
    | none => simp
    | some p =>
      rw [Option.filter_some]
      split_ifs with hold
      · simp
      · have hlt := (lt_of_lastBefore hp).trans_le hle
        rw [bytesAfter_lost hlt]
        exact (or_iff_left id).symm

end

end Lmt
