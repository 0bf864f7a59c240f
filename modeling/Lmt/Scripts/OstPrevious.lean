import Lmt.Scripts.OstHours

/-!
# The previous record of an OST

The counters and the timestamp that are kept from hour to hour are those of the
last record up to the hour. The record that ends an hour begins the next one as
well, and is its own previous record there.
-/

namespace Lmt

open Loops Runs Counters

def OstHistory.OneRecord (raw : OstHistory) : Prop :=
  raw.records.Pairwise fun a b => a.ostId = b.ostId → a.timestamp ≠ b.timestamp

def OstHistory.upTo (raw : OstHistory) (t : DateTime) (id : ℕ) : List OstRecord :=
  (raw.of id).filter fun r => r.timestamp ≤ t

def OstHistory.between (raw : OstHistory) (t u : DateTime) (id : ℕ) : List OstRecord :=
  (raw.of id).filter fun r => ¬r.timestamp ≤ t ∧ r.timestamp ≤ u

def OstHistory.atTime (raw : OstHistory) (t : DateTime) (id : ℕ) : List OstRecord :=
  (raw.of id).filter fun r => r.timestamp = t

section

variable (raw : OstHistory) {t u : DateTime} (id : ℕ)

theorem ordered_of : (raw.of id).Pairwise fun a b => a.timestamp ≤ b.timestamp :=
  raw.ordered.filter _

theorem upTo_append_between (h : t ≤ u) :
    raw.upTo u id = raw.upTo t id ++ raw.between t u id := by
  rw [OstHistory.upTo, filter_split (ordered_of raw id) (fun r => r.timestamp ≤ t) _
    fun a b hab hb => hab.trans hb]
  congr 1
  refine List.filter_congr fun r _ => decide_eq_decide.mpr ?_
  exact and_iff_left_of_imp fun hr => hr.trans h

theorem upTo_eq_append (t : DateTime) :
    raw.upTo t id = ((raw.of id).filter fun r => r.timestamp < t) ++ raw.atTime t id := by
  rw [OstHistory.upTo, filter_split (ordered_of raw id) (fun r => r.timestamp < t) _
    fun a b hab hb => hab.trans_lt hb]
  congr 1 <;> refine List.filter_congr fun r _ => decide_eq_decide.mpr ?_
  · exact and_iff_left_of_imp le_of_lt
  · rw [not_lt, eq_comm, le_antisymm_iff]

theorem hourOf_eq_append (a : DateTime) :
    raw.hourOf a id = raw.atTime a id ++ raw.between a a.addHour id := by
  rw [OstHistory.hourOf, filter_split (ordered_of raw id) (fun r => r.timestamp ≤ a) _
    fun a b hab hb => hab.trans hb]
  congr 1 <;> refine List.filter_congr fun r _ => decide_eq_decide.mpr ?_
  · rw [← and_assoc, ← le_antisymm_iff]
    exact and_iff_left_of_imp fun hr => hr.le.trans a.lt_addHour.le
  · rw [← and_assoc]
    exact and_congr_left fun _ => and_iff_left_of_imp fun hr => (not_le.mp hr).le

theorem atTime_cases (hone : raw.OneRecord) (a : DateTime) :
    raw.atTime a id = [] ∨ ∃ r, r.timestamp = a ∧ raw.atTime a id = [r] := by
  have hpair : (raw.atTime a id).Pairwise
      fun r s => r.ostId = s.ostId → r.timestamp ≠ s.timestamp := (hone.filter _).filter _
  have hmem : ∀ r ∈ raw.atTime a id, r.ostId = id ∧ r.timestamp = a := by
    intro r hr
    obtain ⟨hof, htime⟩ := List.mem_filter.mp hr
    exact ⟨by simpa using (List.mem_filter.mp hof).2, by simpa using htime⟩
  generalize raw.atTime a id = rs at hpair hmem ⊢
  rcases rs with _ | ⟨r, _ | ⟨s, rs⟩⟩
  · exact Or.inl rfl
  · exact Or.inr ⟨r, (hmem r List.mem_cons_self).2, rfl⟩
  · obtain ⟨hr, hrt⟩ := hmem r List.mem_cons_self
    obtain ⟨hs, hst⟩ := hmem s (List.mem_cons_of_mem _ List.mem_cons_self)
    exact absurd (hrt.trans hst.symm)
      ((List.pairwise_cons.mp hpair).1 s List.mem_cons_self (hr.trans hs.symm))

theorem hourOf_cases (hone : raw.OneRecord) (a : DateTime) :
    raw.hourOf a id = raw.between a a.addHour id ∨
      ∃ r, (raw.upTo a id).getLast? = some r ∧
        raw.hourOf a id = r :: raw.between a a.addHour id := by
  rw [hourOf_eq_append, upTo_eq_append]
  rcases atTime_cases raw id hone a with h | ⟨r, -, h⟩
  · exact Or.inl (by rw [h, List.nil_append])
  · exact Or.inr ⟨r, by rw [h, List.getLast?_concat], by rw [h, List.singleton_append]⟩

theorem getLast?_upTo_addHour (hone : raw.OneRecord) (a : DateTime) :
    (raw.upTo a.addHour id).getLast? = (raw.hourOf a id).getLast?.or (raw.upTo a id).getLast? := by
  rw [upTo_append_between raw id a.lt_addHour.le, List.getLast?_append]
  rcases hourOf_cases raw id hone a with h | ⟨r, hlast, h⟩
  · rw [h]
  · rw [h, hlast, List.getLast?_cons]
    cases (raw.between a a.addHour id).getLast? <;> rfl

end

/-- The counters and the timestamp of the previous record, if there is one, are kept. -/
structure OstWork.Follows (w : OstWork) (prev : Option OstRecord) : Prop where
  prevTs : w.prevTs = prev.map OstRecord.timestamp
  prevRead : w.prevRead = prev.map OstRecord.readBytes
  prevWrite : w.prevWrite = prev.map OstRecord.writeBytes

theorem follows_new : OstWork.new.Follows none := ⟨rfl, rfl, rfl⟩

theorem follows_process (w : OstWork) (r : OstRecord) : (w.process r).Follows (some r) :=
  ⟨rfl, rfl, rfl⟩

theorem follows_initialHash (raw : OstHistory) (start : DateTime) (id : ℕ) :
    (initialHash raw start id).Follows (precedingRecord raw start id) := by
  rw [initialHash]
  cases precedingRecord raw start id with
  | none => exact follows_new
  | some r => exact ⟨rfl, rfl, rfl⟩

theorem follows_run {w : OstWork} {prev : Option OstRecord} (h : w.Follows prev)
    (rs : List OstRecord) : (run OstWork.process w rs).Follows (rs.getLast?.or prev) := by
  induction rs generalizing w prev with
  | nil => exact h
  | cons r rs ih =>
    have hrun := ih (follows_process w r)
    rw [List.getLast?_cons]
    cases hlast : rs.getLast? with
    | none => rwa [hlast] at hrun
    | some s => rwa [hlast] at hrun

theorem follows_clearCounts {hash : OstHash} {id : ℕ} {prev : Option OstRecord}
    (h : (hash id).Follows prev) : (clearCounts hash id).Follows prev := ⟨h.1, h.2, h.3⟩

theorem follows_processHour {raw : OstHistory} {s : OstHash × AggTable} {id : ℕ}
    {prev : Option OstRecord} (h : (s.1 id).Follows prev) (start : DateTime) :
    ((processHour raw s start).1 id).Follows ((raw.hourOf start id).getLast?.or prev) := by
  rw [hash_processHour]
  exact follows_run (follows_clearCounts h) _

theorem follows_upTo {raw : OstHistory} (hone : raw.OneRecord) {s : OstHash × AggTable} {id : ℕ}
    {start : DateTime} (h : (s.1 id).Follows (raw.upTo start id).getLast?) :
    ((processHour raw s start).1 id).Follows (raw.upTo start.addHour id).getLast? := by
  rw [getLast?_upTo_addHour raw id hone]
  exact follows_processHour h start

theorem precedingRecord_of_later {raw : OstHistory} {start : DateTime}
    (hlater : ∀ r ∈ raw.records, start < r.timestamp) (id : ℕ) :
    precedingRecord raw start id = none := by
  rw [precedingRecord, List.getLast?_eq_none_iff, List.filter_eq_nil_iff]
  intro r hr hcond
  simp only [decide_eq_true_eq] at hcond
  exact lt_asymm hcond.2.2 (hlater r hr)

theorem follows_initialHash_of_later {raw : OstHistory} {start : DateTime}
    (hlater : ∀ r ∈ raw.records, start < r.timestamp) (id : ℕ) :
    (initialHash raw start id).Follows (raw.upTo start id).getLast? := by
  have hnil : raw.upTo start id = [] := by
    rw [OstHistory.upTo, List.filter_eq_nil_iff]
    intro r hr hle
    exact (hlater r (List.mem_of_mem_filter hr)).not_ge (by simpa using hle)
  have h := follows_initialHash raw start id
  rwa [precedingRecord_of_later hlater, ← List.getLast?_nil, ← hnil] at h

end Lmt
