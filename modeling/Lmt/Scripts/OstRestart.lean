import Lmt.Scripts.OstResume
import Mathlib.Data.List.Iterate

/-!
# Starting again

A run over a first part of the records ends with an hour, and a run over all
records starts again with this hour. Up to it both runs and a single run do the
same. From it on, what is kept of an OST differs until its next record, and the
averages of the hour of this record show whether the difference matters.
-/

namespace Lmt

open Loops Runs Counters

theorem seconds_addHour_iterate (n : ℕ) (a : DateTime) :
    (DateTime.addHour^[n] a).seconds = a.seconds + 3600 * n := by
  induction n generalizing a with
  | zero => rw [Function.iterate_zero_apply, Nat.mul_zero, Nat.add_zero]
  | succ n ih =>
    rw [Function.iterate_succ_apply, ih, DateTime.seconds_addHour]
    omega

theorem le_addHour_iterate (n : ℕ) (a : DateTime) : a ≤ DateTime.addHour^[n] a := by
  rw [DateTime.le_def, seconds_addHour_iterate]
  omega

/-- The hours up to one before the final timestamp are the first ones. -/
theorem aggHours_eq_append {final : DateTime} (hfinal : StoredTime final) {n : ℕ} {a : DateTime}
    (h : DateTime.addHour^[n] a < final) :
    aggHours a final =
      List.iterate DateTime.addHour a n ++ aggHours (DateTime.addHour^[n] a) final := by
  induction n generalizing a with
  | zero => rw [Function.iterate_zero_apply, List.iterate, List.nil_append]
  | succ n ih =>
    have hlt : a < final := (le_addHour_iterate (n + 1) a).trans_lt h
    rw [aggHours_of_lt hfinal (fourDigitYear_of_le hfinal hlt.le) hlt, ih h,
      Function.iterate_succ_apply, List.iterate, List.cons_append]

/-- The last hour that begins before the final timestamp of a first run. -/
def LastHour (final last : DateTime) : Prop :=
  (∃ n, DateTime.addHour^[n] aggEpoch = last) ∧ last < final ∧ final ≤ last.addHour

theorem exists_lastHour {final : DateTime} (h : aggEpoch < final) :
    ∃ last, LastHour final last := by
  refine ⟨DateTime.addHour^[(final.seconds - aggEpoch.seconds - 1) / 3600] aggEpoch, ⟨_, rfl⟩, ?_⟩
  rw [DateTime.lt_def] at h
  rw [DateTime.lt_def, DateTime.le_def, DateTime.seconds_addHour, seconds_addHour_iterate]
  omega

theorem addHour_le_of_mem_iterate {n : ℕ} {a b : DateTime}
    (h : b ∈ List.iterate DateTime.addHour a n) : b.addHour ≤ DateTime.addHour^[n] a := by
  obtain ⟨m, hm, rfl⟩ := List.mem_iterate.mp h
  rw [DateTime.le_def, DateTime.seconds_addHour, seconds_addHour_iterate, seconds_addHour_iterate]
  omega

theorem timestamps_run {raw : OstHistory} {s : OstHash × AggTable} {bs : List DateTime}
    {t : DateTime} (h : t ∈ AggTable.timestamps (run (processHour raw) s bs).2) :
    t ∈ AggTable.timestamps s.2 ∨ t ∈ bs := by
  induction bs generalizing s with
  | nil => exact Or.inl h
  | cons b bs ih =>
    rcases ih h with h | h
    · rcases timestamps_processHour raw s h with h | rfl
      · exact Or.inl h
      · exact Or.inr List.mem_cons_self
    · exact Or.inr (List.mem_cons_of_mem _ h)

theorem follows_run_iterate {raw : OstHistory} (hone : raw.OneRecord) (n : ℕ) {a : DateTime}
    {s : OstHash × AggTable} {id : ℕ} (h : (s.1 id).Follows (raw.upTo a id).getLast?) :
    ((run (processHour raw) s (List.iterate DateTime.addHour a n)).1 id).Follows
      (raw.upTo (DateTime.addHour^[n] a) id).getLast? := by
  induction n generalizing a s with
  | zero => exact h
  | succ n ih => exact ih (follows_upTo hone h)

theorem processHour_congr {raw raw' : OstHistory} {start : DateTime}
    (h : hourRecords raw start = hourRecords raw' start) (s : OstHash × AggTable) :
    processHour raw s start = processHour raw' s start := by
  rw [processHour, processHour, h]

section

variable (raw : OstHistory) (start : DateTime) (id : ℕ)

theorem firstFrom_of_hourOf_eq_nil (h : raw.hourOf start id = []) :
    raw.firstFrom start id = raw.firstFrom start.addHour id := by
  have hnone := List.filter_eq_nil_iff.mp h
  rw [OstHistory.firstFrom, OstHistory.firstFrom]
  refine congrArg List.head? (List.filter_congr fun r hr => decide_eq_decide.mpr ?_)
  refine ⟨fun hle => ?_, start.lt_addHour.le.trans⟩
  by_contra hlt
  exact hnone r hr (by simpa using ⟨hle, (not_le.mp hlt).le⟩)

theorem firstFrom_of_hourOf_eq_cons {r : OstRecord} {rs : List OstRecord}
    (h : raw.hourOf start id = r :: rs) : raw.firstFrom start id = some r := by
  have hfirst : (raw.of id).filter (fun r => r.timestamp ≤ start.addHour ∧ start ≤ r.timestamp) =
      r :: rs := by
    rw [← h]
    exact List.filter_congr fun r _ => decide_eq_decide.mpr and_comm
  rw [OstHistory.firstFrom, filter_split (ordered_of raw id) (fun r => r.timestamp ≤ start.addHour)
    _ fun a b hab hb => hab.trans hb, hfirst, List.cons_append, List.head?_cons]

end

/-- The next record of every OST has the same values in both. -/
def SameNext (raw : OstHistory) (a : DateTime) (hash hash' : OstHash) : Prop :=
  ∀ id r, raw.firstFrom a id = some r → ∀ v, (hash id).value r v = (hash' id).value r v

def Written (raw : OstHistory) (a : DateTime) (k : AggKey) : Prop :=
  k.timestamp = a ∧ raw.hourOf a k.id ≠ [] ∧ ∃ v : OstVariable, v.id = k.variableId

section

variable {raw : OstHistory} {s s' : OstHash × AggTable} {a : DateTime}

theorem count_clearCounts (hash : OstHash) (id : ℕ) : (clearCounts hash id).count = 0 := rfl

theorem value_clearCounts (hash : OstHash) (id : ℕ) (r : OstRecord) (v : OstVariable) :
    (clearCounts hash id).value r v = (hash id).value r v := by
  cases v <;> rfl

theorem hash_processHour_of_nil {id : ℕ} (h : raw.hourOf a id = []) (s : OstHash × AggTable) :
    (processHour raw s a).1 id = clearCounts s.1 id := by
  rw [hash_processHour, h, run_nil]

theorem hash_processHour_eq (h : SameNext raw a s.1 s'.1) {id : ℕ} (hdata : raw.hourOf a id ≠ []) :
    (processHour raw s a).1 id = (processHour raw s' a).1 id := by
  obtain ⟨r, rs, hrs⟩ := List.exists_cons_of_ne_nil hdata
  have hvalue (v : OstVariable) : (clearCounts s.1 id).value r v =
      (clearCounts s'.1 id).value r v := by
    rw [value_clearCounts, value_clearCounts, h id r (firstFrom_of_hourOf_eq_cons raw a id hrs)]
  rw [hash_processHour, hash_processHour, hrs, run_cons, run_cons,
    process_eq_process (count_clearCounts _ _) (count_clearCounts _ _) hvalue]

theorem sameNext_processHour (h : SameNext raw a s.1 s'.1) :
    SameNext raw a.addHour (processHour raw s a).1 (processHour raw s' a).1 := by
  intro id r hr v
  by_cases hdata : raw.hourOf a id = []
  · rw [← firstFrom_of_hourOf_eq_nil raw a id hdata] at hr
    rw [hash_processHour_of_nil hdata, hash_processHour_of_nil hdata, value_clearCounts,
      value_clearCounts, h id r hr]
  · rw [hash_processHour_eq h hdata]

theorem find?_processHour_eq (h : SameNext raw a s.1 s'.1)
    (hold : ∀ k, ¬Written raw a k → s.2.find? k = s'.2.find? k) (k : AggKey) :
    (processHour raw s a).2.find? k = (processHour raw s' a).2.find? k := by
  by_cases hk : Written raw a k
  · obtain ⟨id, t, var⟩ := k
    obtain ⟨rfl, hdata, v, rfl⟩ := hk
    rw [find?_processHour_of_hourOf raw s hdata, find?_processHour_of_hourOf raw s' hdata,
      hash_processHour_eq h hdata]
  · have hnot : k.timestamp = a → raw.hourOf a k.id ≠ [] → ∀ v : OstVariable, v.id ≠ k.variableId :=
      fun htime hdata v hv => hk ⟨htime, hdata, v, hv⟩
    rw [find?_processHour_of_not raw s hnot, find?_processHour_of_not raw s' hnot, hold k hk]

end

section

variable {raw : OstHistory} {final : DateTime} (hfinal : StoredTime final)

include hfinal

theorem find?_run_eq {a : DateTime} (ha : a.FourDigitYear) {s s' : OstHash × AggTable}
    (h : SameNext raw a s.1 s'.1) (hold : ∀ k, s.2.find? k = s'.2.find? k) (k : AggKey) :
    (run (processHour raw) s (aggHours a final)).2.find? k =
      (run (processHour raw) s' (aggHours a final)).2.find? k := by
  revert s s'
  apply aggHours_induction hfinal ha
  · intro a ha hle s s' _ hold
    rw [aggHours_of_le hfinal ha hle, run_nil, run_nil, hold]
  · intro a ha hlt ih s s' h hold
    rw [aggHours_of_lt hfinal ha hlt, run_cons, run_cons]
    exact ih (sameNext_processHour h) (find?_processHour_eq h fun k _ => hold k)

theorem find?_run_of_lt {a : DateTime} (ha : a.FourDigitYear) {k : AggKey} (hk : k.timestamp < a)
    (s : OstHash × AggTable) :
    (run (processHour raw) s (aggHours a final)).2.find? k = s.2.find? k := by
  revert s hk
  apply aggHours_induction hfinal ha
  · intro a ha hle _ s
    rw [aggHours_of_le hfinal ha hle, run_nil]
  · intro a ha hlt ih hk s
    rw [aggHours_of_lt hfinal ha hlt, run_cons, ih (hk.trans a.lt_addHour),
      find?_processHour_of_not raw s fun htime => absurd htime hk.ne]

/-- The rows of two runs tell the values of the next records. -/
theorem value_of_find?_eq (hrange : ∀ r ∈ raw.records, r.timestamp ≤ final) {a : DateTime}
    (ha : a.FourDigitYear) (hlt : a < final) {s s' : OstHash × AggTable}
    (h : ∀ k, (run (processHour raw) s (aggHours a final)).2.find? k =
      (run (processHour raw) s' (aggHours a final)).2.find? k)
    {id : ℕ} {r : OstRecord} (hr : raw.firstFrom a id = some r) (v : OstVariable) :
    ((s.1 id).value r v).getD 0 = ((s'.1 id).value r v).getD 0 := by
  revert s s'
  revert hlt hr
  apply aggHours_induction hfinal ha
  · intro a _ hle hlt
    exact absurd hlt hle.not_gt
  · intro a ha hlt ih _ hr s s' h
    have hnext : a.addHour.FourDigitYear :=
      (aggHours_round hfinal a ha ((moreHours_iff hfinal ha).mpr hlt)).1
    have hrest (k : AggKey) :
        (run (processHour raw) (processHour raw s a) (aggHours a.addHour final)).2.find? k =
          (run (processHour raw) (processHour raw s' a) (aggHours a.addHour final)).2.find? k := by
      have hk := h k
      rwa [aggHours_of_lt hfinal ha hlt, run_cons, run_cons] at hk
    cases hdata : raw.hourOf a id with
    | nil =>
      rw [firstFrom_of_hourOf_eq_nil raw a id hdata] at hr
      obtain ⟨hmem, hid, hle⟩ := mem_of_firstFrom hr
      -- a record at the end of this hour would be in it
      have hlate : a.addHour < final := by
        refine lt_of_le_of_ne (hle.trans (hrange r hmem)) fun heq => ?_
        have hof : r ∈ raw.of id := List.mem_filter.mpr ⟨hmem, by simpa using hid⟩
        have hin : r ∈ raw.hourOf a id := List.mem_filter.mpr
          ⟨hof, by simpa using ⟨a.lt_addHour.le.trans hle, (hrange r hmem).trans heq.ge⟩⟩
        rw [hdata] at hin
        cases hin
      have hvalue := ih hlate hr hrest
      rwa [hash_processHour_of_nil hdata, hash_processHour_of_nil hdata, value_clearCounts,
        value_clearCounts] at hvalue
    | cons r' rs =>
      obtain rfl : r = r' := by
        rw [firstFrom_of_hourOf_eq_cons raw a id hdata] at hr
        exact (Option.some_inj.mp hr).symm
      have hne : raw.hourOf a id ≠ [] := by simp [hdata]
      have hrow := hrest ⟨id, a, v.id⟩
      have hkey : (AggKey.mk id a v.id).timestamp < a.addHour := a.lt_addHour
      rw [find?_run_of_lt hfinal hnext hkey, find?_run_of_lt hfinal hnext hkey,
        find?_processHour_of_hourOf raw s hne, find?_processHour_of_hourOf raw s' hne,
        hash_processHour, hash_processHour, hdata, Option.some_inj] at hrow
      have hvalue := value_of_average_eq (count_clearCounts s.1 id) (count_clearCounts s'.1 id)
        (congrArg AggRow.average hrow)
      rwa [value_clearCounts, value_clearCounts] at hvalue

end

section

variable {raw : OstHistory} {final : DateTime} (hfinal : StoredTime final)

include hfinal

/-- One run that has kept the last records, and one that has looked for them: they
write the same exactly if the second one resumes with every OST. -/
theorem find?_run_iff (hone : raw.OneRecord) (hrange : ∀ r ∈ raw.records, r.timestamp ≤ final)
    {a : DateTime} (hlt : a < final) {s s' : OstHash × AggTable}
    (hs : ∀ id, (s.1 id).Follows (precedingRecord raw a id))
    (hs' : ∀ id, (s'.1 id).Follows (raw.upTo a id).getLast?)
    (hold : ∀ k, ¬Written raw a k → s.2.find? k = s'.2.find? k) :
    (∀ k, (run (processHour raw) s (aggHours a final)).2.find? k =
      (run (processHour raw) s' (aggHours a final)).2.find? k) ↔
        ∀ id, ∀ r ∈ raw.firstFrom a id, ∀ c, ResumesAt raw a r c := by
  have ha := fourDigitYear_of_le hfinal hlt.le
  constructor
  · intro h id r hr
    refine (sameAfter_iff hone hr).mp (sameAfter_of_valueAfter_eq fun v => ?_)
    have hvalue := value_of_find?_eq hfinal hrange ha hlt h hr v
    rw [value_of_follows (hs id), value_of_follows (hs' id)] at hvalue
    exact hvalue.symm
  · intro h k
    have hnext : SameNext raw a s.1 s'.1 := by
      intro id r hr v
      rw [value_of_follows (hs id), value_of_follows (hs' id)]
      exact (valueAfter_eq_of_sameAfter ((sameAfter_iff hone hr).mpr (h id r hr)) v).symm
    have hround := aggHours_round hfinal a ha ((moreHours_iff hfinal ha).mpr hlt)
    rw [aggHours_of_lt hfinal ha hlt, run_cons, run_cons]
    exact find?_run_eq hfinal hround.1 (sameNext_processHour hnext)
      (find?_processHour_eq hnext hold) k

end

/-- The state of a run over all records when it comes to an hour. -/
def stateAt (raw : OstHistory) (n : ℕ) : OstHash × AggTable :=
  run (processHour raw) (initialHash raw aggEpoch, .empty)
    (List.iterate DateTime.addHour aggEpoch n)

theorem lmtUpdateOstAgg_empty {raw : OstHistory} {final : DateTime}
    (hfinal : getFinalTimestamp raw.timestamps = some final) {n : ℕ} {last : DateTime}
    (hn : DateTime.addHour^[n] aggEpoch = last) (hlt : last < final) :
    lmtUpdateOstAgg raw .empty =
      hourlyTable (run (processHour raw) (stateAt raw n) (aggHours last final)) := by
  subst hn
  have hle : aggEpoch ≤ final := (le_addHour_iterate n aggEpoch).trans hlt.le
  rw [lmtUpdateOstAgg_of_le hfinal getFinalTimestamp_empty hle, processHours,
    aggHours_eq_append (stored_final hfinal) hlt, run_append, stateAt]

theorem timestamps_stateAt_lt {raw : OstHistory} {n : ℕ} {t : DateTime}
    (h : t ∈ AggTable.timestamps (stateAt raw n).2) : t < DateTime.addHour^[n] aggEpoch := by
  rcases timestamps_run h with h | h
  · cases h
  · exact t.lt_addHour.trans_le (addHour_le_of_mem_iterate h)

/-- A run that starts again starts with the last hour that was written. -/
theorem getFinalTimestamp_processHour {whole first : OstHistory} {final : DateTime}
    (hfinal : getFinalTimestamp first.timestamps = some final) {n : ℕ} {last : DateTime}
    (hn : DateTime.addHour^[n] aggEpoch = last) (hlt : last < final) (hle : final ≤ last.addHour) :
    getFinalTimestamp (hourlyTable (processHour first (stateAt whole n) last)).timestamps =
      some last := by
  subst hn
  rw [hourlyTable_eq, getFinalTimestamp_eq_some]
  constructor
  · obtain ⟨r, hr, rfl⟩ := List.mem_map.mp (getFinalTimestamp_eq_some.mp hfinal).1
    have hin : r ∈ first.hourOf (DateTime.addHour^[n] aggEpoch) r.ostId := List.mem_filter.mpr
      ⟨List.mem_filter.mpr ⟨hr, by simp⟩, by simpa using ⟨hlt.le, hle⟩⟩
    have hrow := find?_processHour_of_hourOf first (stateAt whole n) (List.ne_nil_of_mem hin)
      .readBytes
    rw [KeyedTable.find?_eq_some] at hrow
    exact List.mem_map.mpr ⟨_, hrow, rfl⟩
  · intro t ht
    rcases timestamps_processHour first (stateAt whole n) ht with ht | rfl
    · exact (timestamps_stateAt_lt ht).le
    · exact le_rfl

section

variable {whole first : OstHistory} {later : List OstRecord}
variable (hsplit : whole.records = first.records ++ later)

include hsplit

theorem of_eq_append (id : ℕ) :
    whole.of id = first.of id ++ later.filter fun r => r.ostId = id := by
  rw [OstHistory.of, hsplit, List.filter_append]
  rfl

theorem hourOf_ne_nil {a : DateTime} {id : ℕ} (h : first.hourOf a id ≠ []) :
    whole.hourOf a id ≠ [] := by
  rw [OstHistory.hourOf, of_eq_append hsplit, List.filter_append]
  exact List.append_ne_nil_of_left_ne_nil h _

variable {final : DateTime} (hfinal : getFinalTimestamp first.timestamps = some final)

include hfinal

theorem final_le_of_mem_later {r : OstRecord} (hr : r ∈ later) : final ≤ r.timestamp := by
  obtain ⟨s, hs, rfl⟩ := List.mem_map.mp (getFinalTimestamp_eq_some.mp hfinal).1
  have hordered := whole.ordered
  rw [hsplit] at hordered
  exact (List.pairwise_append.mp hordered).2.2 s hs r hr

theorem hourRecords_first {a : DateTime} (h : a.addHour < final) :
    hourRecords first a = hourRecords whole a := by
  have hnone : later.filter (fun r => a ≤ r.timestamp ∧ r.timestamp ≤ a.addHour) = [] := by
    refine List.filter_eq_nil_iff.mpr fun r hr hin => ?_
    have hle : r.timestamp ≤ a.addHour := (of_decide_eq_true hin).2
    exact (hle.trans_lt h).not_ge (final_le_of_mem_later hsplit hfinal hr)
  rw [hourRecords, hourRecords, hsplit, List.filter_append, hnone, List.append_nil]

theorem exists_final : ∃ final', getFinalTimestamp whole.timestamps = some final' ∧
    final ≤ final' := by
  have hmem : final ∈ whole.timestamps := by
    rw [OstHistory.timestamps, hsplit, List.map_append]
    exact List.mem_append_left _ (getFinalTimestamp_eq_some.mp hfinal).1
  cases hwhole : getFinalTimestamp whole.timestamps with
  | none =>
    rw [getFinalTimestamp_eq_none.mp hwhole] at hmem
    cases hmem
  | some final' => exact ⟨final', rfl, (getFinalTimestamp_eq_some.mp hwhole).2 final hmem⟩

variable (hlater : ∀ r ∈ whole.records, aggEpoch < r.timestamp)

include hlater

theorem stateAt_first {n : ℕ} (hn : DateTime.addHour^[n] aggEpoch < final) :
    stateAt first n = stateAt whole n := by
  have hfirst : ∀ r ∈ first.records, aggEpoch < r.timestamp := by
    intro r hr
    exact hlater r (hsplit ▸ List.mem_append_left _ hr)
  have hinit : initialHash first aggEpoch = initialHash whole aggEpoch := by
    funext id
    rw [initialHash, initialHash, precedingRecord_of_later hfirst, precedingRecord_of_later hlater]
  rw [stateAt, stateAt, hinit]
  refine run_congr (fun a ha => processHour_congr ?_) _
  exact hourRecords_first hsplit hfinal ((addHour_le_of_mem_iterate ha).trans_lt hn)

theorem lmtUpdateOstAgg_first {n : ℕ} {last : DateTime}
    (hn : DateTime.addHour^[n] aggEpoch = last) (hlt : last < final) (hle : final ≤ last.addHour) :
    lmtUpdateOstAgg first .empty = hourlyTable (processHour first (stateAt whole n) last) := by
  have hstored := stored_final hfinal
  have hround := aggHours_round hstored last (fourDigitYear_of_le hstored hlt.le)
    ((moreHours_iff hstored (fourDigitYear_of_le hstored hlt.le)).mpr hlt)
  rw [lmtUpdateOstAgg_empty hfinal hn hlt, stateAt_first hsplit hfinal hlater (hn ▸ hlt),
    aggHours_of_lt hstored (fourDigitYear_of_le hstored hlt.le) hlt,
    aggHours_of_le hstored hround.1 hle, run_cons, run_nil]

/-- Both ways to the same hours: the next records decide whether they write the same. -/
theorem restart_at_iff (hone : whole.OneRecord) {last : DateTime} (hlast : LastHour final last) :
    (∀ k, (lmtUpdateOstAgg whole (lmtUpdateOstAgg first .empty)).find? k =
      (lmtUpdateOstAgg whole .empty).find? k) ↔
        ∀ id, ∀ r ∈ whole.firstFrom last id, ∀ c, ResumesAt whole last r c := by
  obtain ⟨⟨n, hn⟩, hlt, hle⟩ := hlast
  obtain ⟨final', hfinal', hfinals⟩ := exists_final hsplit hfinal
  have hstored := stored_final hfinal'
  have hlt' : last < final' := hlt.trans_le hfinals
  have hyear := fourDigitYear_of_le hstored hlt'.le
  have hstart : (getFinalTimestamp
      (hourlyTable
        (processHour first (stateAt whole n) last)).timestamps).getD aggEpoch = last := by
    rw [getFinalTimestamp_processHour hfinal hn hlt hle, Option.getD_some]
  rw [lmtUpdateOstAgg_first hsplit hfinal hlater hn hlt hle,
    lmtUpdateOstAgg_of_le hfinal' hstart hlt'.le, lmtUpdateOstAgg_empty hfinal' hn hlt',
    processHours, hourlyTable_eq, hourlyTable_eq, hourlyTable_eq]
  apply find?_run_iff (stored_final hfinal') hone (le_final hfinal') hlt'
  · exact follows_initialHash whole last
  · intro id
    subst hn
    exact follows_run_iterate hone n (follows_initialHash_of_later hlater id)
  · intro k hk
    refine find?_processHour_of_not first (stateAt whole n) fun htime hdata v hv => ?_
    exact hk ⟨htime, hourOf_ne_nil hsplit hdata, v, hv⟩

end

/-- A run over all records resumes with every OST after a run over a first part. -/
def Restartable (whole first : OstHistory) : Prop :=
  ∀ final ∈ getFinalTimestamp first.timestamps, ∀ last, LastHour final last →
    ∀ id, ∀ r ∈ whole.firstFrom last id, ∀ c, ResumesAt whole last r c

/-- A run after the first part has been stored and another one after the rest has been
stored leave the same rows as a single run, if and only if the second one resumes
with every OST. -/
theorem incremental_iff_restartable {whole first : OstHistory} {later : List OstRecord}
    (hsplit : whole.records = first.records ++ later)
    (hlater : ∀ r ∈ whole.records, aggEpoch < r.timestamp) (hone : whole.OneRecord) :
    (∀ k, (lmtUpdateOstAgg whole (lmtUpdateOstAgg first .empty)).find? k =
      (lmtUpdateOstAgg whole .empty).find? k) ↔ Restartable whole first := by
  rw [Restartable]
  cases hfinal : getFinalTimestamp first.timestamps with
  | none =>
    have hrun : lmtUpdateOstAgg first .empty = .empty := by
      apply lmtUpdateOstAgg_of_lt
      simp [getFinalTimestamp_eq_none.mp hfinal]
    rw [hrun]
    simp
  | some final =>
    have hlt : aggEpoch < final := by
      obtain ⟨r, hr, rfl⟩ := List.mem_map.mp (getFinalTimestamp_eq_some.mp hfinal).1
      exact hlater r (hsplit ▸ List.mem_append_left _ hr)
    obtain ⟨last, hlast⟩ := exists_lastHour hlt
    constructor
    · rintro h _ ⟨⟩ last hlast
      exact (restart_at_iff hsplit hfinal hlater hone hlast).mp h
    · intro h
      exact (restart_at_iff hsplit hfinal hlater hone hlast).mpr (h final rfl last hlast)

/-- One OST is silent from one o'clock to seven, and another one has a record at six. -/
def recordsWithGap : List OstRecord :=
  [.counters 1 (DateTime.addHour^[1] aggEpoch) 100 0,
    .counters 2 (DateTime.addHour^[6] aggEpoch) 7 0]

def recordAfterGap : OstRecord := .counters 1 (DateTime.addHour^[7] aggEpoch) 150 0

theorem recordsWithGap_ordered :
    recordsWithGap.Pairwise fun a b => a.timestamp ≤ b.timestamp := by decide

theorem recordsWithGap_stored : ∀ r ∈ recordsWithGap, StoredTime r.timestamp := by decide

theorem recordsAfterGap_ordered :
    (recordsWithGap ++ [recordAfterGap]).Pairwise fun a b => a.timestamp ≤ b.timestamp := by
  decide

theorem recordsAfterGap_stored :
    ∀ r ∈ recordsWithGap ++ [recordAfterGap], StoredTime r.timestamp := by
  decide

theorem recordsAfterGap_later :
    ∀ r ∈ recordsWithGap ++ [recordAfterGap], aggEpoch < r.timestamp := by decide

def historyWithGap : OstHistory := ⟨_, recordsWithGap_ordered, recordsWithGap_stored⟩

def historyAfterGap : OstHistory := ⟨_, recordsAfterGap_ordered, recordsAfterGap_stored⟩

theorem historyAfterGap_oneRecord : historyAfterGap.OneRecord := by
  rw [OstHistory.OneRecord]
  decide

theorem historyAfterGap_split :
    historyAfterGap.records = historyWithGap.records ++ [recordAfterGap] := rfl

theorem incremental_iff_restartable_gap :
    (∀ k, (lmtUpdateOstAgg historyAfterGap (lmtUpdateOstAgg historyWithGap .empty)).find? k =
      (lmtUpdateOstAgg historyAfterGap .empty).find? k) ↔
        Restartable historyAfterGap historyWithGap :=
  incremental_iff_restartable historyAfterGap_split recordsAfterGap_later historyAfterGap_oneRecord

/-- The second run does not find the record at one o'clock, and counts all 150 bytes
again. -/
theorem incremental_run_loses_record :
    historyAfterGap.records = historyWithGap.records ++ [recordAfterGap] ∧
      (∀ r ∈ historyAfterGap.records, aggEpoch < r.timestamp) ∧ historyAfterGap.OneRecord ∧
        ¬∀ k, (lmtUpdateOstAgg historyAfterGap (lmtUpdateOstAgg historyWithGap .empty)).find? k =
          (lmtUpdateOstAgg historyAfterGap .empty).find? k := by
  refine ⟨rfl, recordsAfterGap_later, historyAfterGap_oneRecord, fun h => ?_⟩
  have hagain : ((lmtUpdateOstAgg historyAfterGap (lmtUpdateOstAgg historyWithGap .empty)).find?
      ⟨1, DateTime.addHour^[6] aggEpoch, 1⟩).map AggRow.aggregate = some (some 150) := by
    decide +kernel
  have honce : ((lmtUpdateOstAgg historyAfterGap .empty).find?
      ⟨1, DateTime.addHour^[6] aggEpoch, 1⟩).map AggRow.aggregate = some (some 50) := by
    decide +kernel
  rw [h, honce] at hagain
  norm_num at hagain

end Lmt
