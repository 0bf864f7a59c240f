import Lmt.Library.Runs
import Lmt.Ltop.Recording

/-!
# Playback does what polling did

Every poll that records something records one batch. Playing the recording
applies the lines of one batch at a call, and a line has the effect that its
metric had when it was polled, since the two loops choose the same decoder.
-/

namespace Lmt

open FormattedText

theorem toTime_ofTime {t : ℤ} (hlow : -2 ^ 63 ≤ t) (hhigh : t < 2 ^ 63) :
    toTime (ofTime t) = t := by
  simp only [toTime, ofTime, Int64.toInt64_toUInt64]
  exact Int64.toInt_ofInt_of_le hlow hhigh

theorem ofTime_inj {t u : ℤ} (ht : 0 ≤ t ∧ t < 2 ^ 63) (hu : 0 ≤ u ∧ u < 2 ^ 63)
    (h : ofTime t = ofTime u) : t = u := by
  rw [← toTime_ofTime (by omega) ht.2, h, toTime_ofTime (by omega) hu.2]

theorem ofTime_zero : ofTime 0 = 0 := by decide

/-- The arguments of one call of `_poll_cerebro`: the clock and cerebro's answer. -/
structure Poll where
  tnow : ℤ
  cerebro : Cerebro

def recordOf (tnow : ℤ) (c : Cmetric) : Option Record :=
  match c.value with
  | none => none
  | some s =>
    if (scanVersion s).isSome then
      some { tnow := ofTime tnow, trcv := ofTime c.time.toNat,
             node := c.nodename, name := c.name, s }
    else none

def Poll.metrics (p : Poll) : Option (List Cmetric) := lmtCbrGetMetrics polledMetrics p.cerebro

def Poll.records (p : Poll) : List Record := (p.metrics.getD []).filterMap (recordOf p.tnow)

/-- A node name and a value that a line can carry. -/
structure CbrEntry.Recordable (e : CbrEntry) : Prop where
  node : IsWord 63 e.nodename
  value : ∀ s ∈ e.value, IsValue s

instance (e : CbrEntry) : Decidable e.Recordable :=
  decidable_of_iff (IsWord 63 e.nodename ∧ ∀ s ∈ e.value, IsValue s)
    ⟨fun h => ⟨h.1, h.2⟩, fun h => ⟨h.node, h.value⟩⟩

/-- The time is positive and every metric fits its line. -/
structure Poll.Recordable (p : Poll) : Prop where
  pos : 0 < p.tnow
  lt : p.tnow < 2 ^ 63
  entries : ∀ name ∈ polledMetrics, ∀ l ∈ p.cerebro name, ∀ e ∈ l, e.Recordable
  nonempty : p.records ≠ []

theorem mem_lmtCbrGetMetrics {names : List Text} {cerebro : Cerebro} {ms : List Cmetric}
    (h : lmtCbrGetMetrics names cerebro = some ms) :
    ∀ c ∈ ms, c.name ∈ names ∧ ∃ l ∈ cerebro c.name, ∃ e ∈ l,
      c = { name := c.name, nodename := e.nodename, time := e.time, value := e.value } := by
  induction names generalizing ms with
  | nil =>
    obtain rfl : [] = ms := by simpa [lmtCbrGetMetrics] using h
    simp
  | cons name names ih =>
    simp only [lmtCbrGetMetrics, List.mapM_cons, Option.bind_eq_bind, Option.map_eq_some_iff,
      Option.bind_eq_some_iff, Option.pure_def, Option.some.injEq] at h
    obtain ⟨_, ⟨_, ⟨l, hl, rfl⟩, tail, htail, rfl⟩, rfl⟩ := h
    intro c hc
    rw [List.flatten_cons, List.mem_append] at hc
    rcases hc with hc | hc
    · obtain ⟨e, he, rfl⟩ := List.mem_map.mp hc
      exact ⟨by simp, l, hl, e, he, rfl⟩
    · have hms : lmtCbrGetMetrics names cerebro = some tail.flatten := by
        simp [lmtCbrGetMetrics, htail]
      obtain ⟨hname, hrest⟩ := ih hms c hc
      exact ⟨by simp [hname], hrest⟩

theorem isWord_polledMetrics : ∀ name ∈ polledMetrics, IsWord 15 name := by decide

theorem Poll.Recordable.valid_records {p : Poll} (h : p.Recordable) :
    ∀ r ∈ p.records, r.Valid ∧ r.tnow = ofTime p.tnow := by
  intro r hr
  obtain ⟨c, hc, hrec⟩ := List.mem_filterMap.mp hr
  obtain ⟨ms, hms⟩ : ∃ ms, p.metrics = some ms := by
    cases hm : p.metrics with
    | none => simp [hm] at hc
    | some ms => exact ⟨ms, rfl⟩
  rw [hms, Option.getD_some] at hc
  obtain ⟨hname, l, hl, e, he, hce⟩ := mem_lmtCbrGetMetrics hms c hc
  have hentry := h.entries c.name hname l hl e he
  rw [hce] at hrec
  cases hs : e.value with
  | none => simp [recordOf, hs] at hrec
  | some s =>
    simp only [recordOf, hs] at hrec
    split_ifs at hrec with hvers
    obtain rfl := Option.some.inj hrec
    exact ⟨⟨hentry.node, isWord_polledMetrics _ hname, hentry.value s (by simp [hs]), hvers⟩, rfl⟩

theorem Poll.Recordable.exists_batch {p : Poll} (h : p.Recordable) :
    ∃ b : Batch, b.records = p.records ∧ b.tnow = ofTime p.tnow := by
  obtain ⟨r, rs, hrs⟩ := List.exists_cons_of_ne_nil h.nonempty
  have hne : ofTime p.tnow ≠ 0 := fun h0 => by
    have := h.lt
    have := h.pos
    have := ofTime_inj (u := 0) (by omega) (by omega) (h0.trans ofTime_zero.symm)
    omega
  have hvalid := h.valid_records
  rw [hrs] at hvalid
  exact ⟨{ tnow := ofTime p.tnow, first := r, others := rs, valid := fun r hr => (hvalid r hr).1,
           same := fun r hr => (hvalid r hr).2, tnow_ne := hne }, hrs.symm, rfl⟩

section

variable {V : Type*} [Inhabited V] (point : Text → Reading → V) (fs : Option Text) (staleSecs : ℤ)

/-- The two loops choose the same decoder. -/
theorem playDecode_eq_pollDecode (tnow trcv : ℤ) (name s : Text) (vers : ℚ) (st : TargetLists V) :
    playDecode point fs staleSecs tnow trcv name s vers st =
      pollDecode point fs staleSecs tnow trcv name s vers st := by
  unfold playDecode pollDecode
  by_cases h2 : name = "lmt_mdt".toList ∧ versionEq vers 2 = true
  · have hother : ¬("lmt_mdt".toList = "lmt_ost".toList) ∧
        ¬("lmt_mdt".toList = "lmt_osc".toList) := by
      decide
    have h3 := versionEq_three h2.2
    simp only [h2.1, h2.2, h3, hother.1, hother.2, and_self, if_true, false_and, if_false,
      Bool.false_eq_true, and_false]
  · simp only [if_neg h2]

theorem pollMetric_eq {tnow : ℤ} (hpos : 0 < tnow) (hlt : tnow < 2 ^ 63) (p : Poller V)
    (c : Cmetric) :
    pollMetric point fs staleSecs tnow p c =
      match recordOf tnow c with
      | none => p
      | some r => { p with recf := p.recf.map (· ++ r.line)
                           lists := playRecord point fs staleSecs p.lists r } := by
  have htime : c.time.toNat < 2 ^ 32 := c.time.toNat_lt
  unfold pollMetric recordOf
  cases c.value with
  | none => rfl
  | some s =>
    cases hvers : scanVersion s with
    | none => simp [hvers]
    | some vers =>
      simp only [hvers, Option.isSome_some, if_true, playRecord, playDecode_eq_pollDecode,
        toTime_ofTime (show -2 ^ 63 ≤ tnow by omega) hlt,
        toTime_ofTime (show -2 ^ 63 ≤ (c.time.toNat : ℤ) by omega)
          (show (c.time.toNat : ℤ) < 2 ^ 63 by omega)]
      rfl

theorem foldl_pollMetric {tnow : ℤ} (hpos : 0 < tnow) (hlt : tnow < 2 ^ 63) (p : Poller V)
    (ms : List Cmetric) :
    ms.foldl (pollMetric point fs staleSecs tnow) p =
      { p with recf := p.recf.map (· ++ linesText (ms.filterMap (recordOf tnow)))
               lists := (ms.filterMap (recordOf tnow)).foldl (playRecord point fs staleSecs)
                 p.lists } := by
  induction ms generalizing p with
  | nil => simp
  | cons c ms ih =>
    rw [List.foldl_cons, pollMetric_eq point fs staleSecs hpos hlt, ih]
    cases hr : recordOf tnow c with
    | none => simp [hr]
    | some r => cases p.recf <;> simp [hr]

theorem pollCerebro_eq {poll : Poll} (h : poll.Recordable) (p : Poller V) :
    pollCerebro point fs staleSecs poll.tnow poll.cerebro p =
      { lists := poll.records.foldl (playRecord point fs staleSecs) p.lists
        recf := p.recf.map (· ++ linesText poll.records)
        tp := poll.tnow } := by
  have hrecords := h.nonempty
  unfold Poll.records Poll.metrics at *
  unfold pollCerebro
  cases hm : lmtCbrGetMetrics polledMetrics poll.cerebro with
  | none => simp [hm] at hrecords
  | some ms => simp [foldl_pollMetric point fs staleSecs h.pos h.lt]

/-- `_poll_cerebro` as a step of the live program. -/
def pollStep (p : Poller V) (poll : Poll) : Poller V :=
  pollCerebro point fs staleSecs poll.tnow poll.cerebro p

theorem run_pollStep {polls : List Poll} (h : ∀ p ∈ polls, p.Recordable) (p : Poller V) :
    Runs.run (pollStep point fs staleSecs) p polls =
      { lists := (polls.flatMap Poll.records).foldl (playRecord point fs staleSecs) p.lists
        recf := p.recf.map (· ++ linesText (polls.flatMap Poll.records))
        tp := (polls.getLast?.map Poll.tnow).getD p.tp } := by
  induction polls using List.reverseRecOn with
  | nil => simp
  | append_singleton init poll ih =>
    rw [Runs.run_concat, ih fun p hp => h p (by simp [hp]), pollStep,
      pollCerebro_eq point fs staleSecs (h poll (by simp))]
    cases p.recf <;> simp [linesText]

theorem exists_batches {polls : List Poll} (h : ∀ p ∈ polls, p.Recordable) :
    ∃ bs : List Batch, bs.map Batch.records = polls.map Poll.records ∧
      bs.map Batch.tnow = polls.map fun p => ofTime p.tnow := by
  induction polls with
  | nil => exact ⟨[], rfl, rfl⟩
  | cons p polls ih =>
    obtain ⟨b, hrecords, htnow⟩ := (h p (by simp)).exists_batch
    obtain ⟨bs, hbs, htimes⟩ := ih fun p hp => h p (by simp [hp])
    exact ⟨b :: bs, by simp [hrecords, hbs], by simp [htnow, htimes]⟩

theorem separated_of_polls {polls : List Poll} (h : ∀ p ∈ polls, p.Recordable)
    (hdistinct : polls.IsChain fun p q => p.tnow ≠ q.tnow) {bs : List Batch}
    (htimes : bs.map Batch.tnow = polls.map fun p => ofTime p.tnow) : Separated bs := by
  have hpolls : polls.IsChain fun p q => ofTime p.tnow ≠ ofTime q.tnow :=
    hdistinct.imp_of_mem_imp fun p q hp hq hne heq =>
      hne (ofTime_inj ⟨(h p hp).pos.le, (h p hp).lt⟩ ⟨(h q hq).pos.le, (h q hq).lt⟩ heq)
  have hmap := (List.isChain_map (R := (· ≠ ·)) fun p : Poll => ofTime p.tnow).mpr hpolls
  rw [← htimes] at hmap
  exact (List.isChain_map Batch.tnow).mp hmap

theorem recordingText_eq (bs : List Batch) :
    recordingText bs = linesText (bs.flatMap Batch.records) := by
  rw [linesText, List.flatMap_assoc]
  rfl

/-- Playing the recording of some polls from its start does at the n-th call
what the n-th poll did: the lists and the time are the same, and the file has
been read exactly as far as it was written by then. -/
theorem playFile_refines_pollCerebro {polls : List Poll} (hpolls : ∀ p ∈ polls, p.Recordable)
    (hdistinct : polls.IsChain fun p q => p.tnow ≠ q.tnow) (timeSeries : Option (List Ts))
    (tp tdiff : ℤ) {n : ℕ} (hn : n ≤ polls.length) :
    ∃ recording q,
      (Runs.run (pollStep point fs staleSecs) ⟨.empty, some [], tp⟩ polls).recf = some recording ∧
      playTimes point fs staleSecs n ⟨.empty, timeSeries, ⟨recording, 0, false⟩, tp, tdiff⟩ =
        some q ∧
      let live := Runs.run (pollStep point fs staleSecs) ⟨.empty, some [], tp⟩ (polls.take n)
      q.lists = live.lists ∧ q.tp = live.tp ∧ some (recording.take q.file.pos) = live.recf := by
  obtain ⟨bs, hrecords, htimes⟩ := exists_batches hpolls
  have hlen : (bs.take n).length = n := by
    have := congrArg List.length htimes
    simp only [List.length_map] at this
    rw [List.length_take]
    omega
  have hsep : Separated (bs.take n ++ bs.drop n) := by
    rw [List.take_append_drop]
    exact separated_of_polls hpolls hdistinct htimes
  obtain ⟨q, hq, hplayed⟩ := playTimes_batches point fs staleSecs _ _ hsep
    (p := ⟨.empty, timeSeries, ⟨recordingText bs, 0, false⟩, tp, tdiff⟩)
    (by rw [List.take_append_drop]; rfl)
  rw [hlen] at hq
  -- the batches played are the batches of the first `n` polls
  have hall : bs.flatMap Batch.records = polls.flatMap Poll.records := by
    rw [List.flatMap_def, List.flatMap_def, hrecords]
  have hdone : (bs.take n).flatMap Batch.records = (polls.take n).flatMap Poll.records := by
    rw [List.flatMap_def, List.flatMap_def, List.map_take, List.map_take, hrecords]
  have htp : (bs.take n).getLast?.map (fun b => toTime b.tnow) =
      (polls.take n).getLast?.map Poll.tnow := by
    have hlast : (polls.take n).map Poll.tnow =
        ((polls.take n).map fun p => ofTime p.tnow).map toTime := by
      rw [List.map_map]
      refine List.map_congr_left fun p hp => ?_
      have hp := hpolls p (List.mem_of_mem_take hp)
      have := hp.pos
      exact (toTime_ofTime (by omega) hp.lt).symm
    calc (bs.take n).getLast?.map (fun b => toTime b.tnow)
        = ((bs.take n).map Batch.tnow).getLast?.map toTime := by
          rw [List.getLast?_map, Option.map_map]
          rfl
      _ = ((polls.take n).map Poll.tnow).getLast? := by
          rw [hlast, List.map_take, htimes, ← List.map_take, List.getLast?_map (f := toTime)]
      _ = (polls.take n).getLast?.map Poll.tnow := List.getLast?_map
  have hfirst : ∀ p ∈ polls.take n, p.Recordable := fun p hp => hpolls p (List.mem_of_mem_take hp)
  have hlive := run_pollStep point fs staleSecs hfirst ⟨.empty, some [], tp⟩
  refine ⟨recordingText bs, q, ?_, hq, ?_⟩
  · rw [run_pollStep point fs staleSecs hpolls, recordingText_eq, hall]
    rfl
  · have hread : (recordingText bs).take q.file.pos = recordingText (bs.take n) := by
      have hsplit := recordingText_append (bs.take n) (bs.drop n)
      rw [List.take_append_drop] at hsplit
      rw [hsplit, hplayed.file]
      exact List.take_left
    simp only [hlive, hplayed.lists, hplayed.tp, hdone, htp, hread]
    exact ⟨trivial, trivial, by rw [recordingText_eq, hdone]; rfl⟩

end

section

/-- An OST metric and an OSC metric, read at the given time. -/
def samplePoll (tnow : ℤ) (counter : UInt32) : Poll where
  tnow := tnow
  cerebro name :=
    if name = "lmt_ost".toList then
      some [{ nodename := "oss1".toList, time := counter
              value := some ("2;oss1.llnl.gov;1.000000;2.000000;lc1-OST0000;" ++
                "1;2;3;4;5;6;7;8;9;10;11;12;13;COMPLETE").toList }]
    else if name = "lmt_osc".toList then
      some [{ nodename := "mds1".toList, time := counter
              value := some "1;mds1;lc1-OST0000;F".toList }]
    else some []

def samplePolls : List Poll := [samplePoll 100 95, samplePoll 130 125]

theorem samplePolls_recordable : ∀ p ∈ samplePolls, p.Recordable := by
  intro p hp
  simp only [samplePolls, List.mem_cons, List.not_mem_nil, or_false] at hp
  rcases hp with rfl | rfl <;>
    exact ⟨by decide, by decide, by decide +kernel, by decide +kernel⟩

theorem playFile_refines_pollCerebro_sample :
    ∃ recording q,
      playTimes (fun _ => Reading.exact) none 60 2
        ⟨.empty, none, ⟨recording, 0, false⟩, 0, 0⟩ = some q ∧
      q.lists.ostData.length = 1 ∧ q.tp = 130 := by
  obtain ⟨recording, q, -, hq, hlists, htp, -⟩ :=
    playFile_refines_pollCerebro (fun _ => Reading.exact) none 60 samplePolls_recordable
      (by decide) none 0 0
      (n := 2) (by decide)
  refine ⟨recording, q, hq, ?_, ?_⟩
  · rw [hlists]
    decide +kernel
  · rw [htp]
    decide +kernel

end

end Lmt
