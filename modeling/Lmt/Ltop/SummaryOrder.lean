import Lmt.Ltop.ServerTotals
import Lmt.Ltop.TargetRuns

/-!
# Summaries of reordered lists

A merged sample holds the data of those fresh targets that were collected at the
same times as the one of the first fresh target. The number of targets does not
depend on the order of the list, and a merged sample does so only if the order
puts a target first that was collected at other times.
-/

namespace Lmt

open FormattedText Grouping

section

/-- Both samples have the same valid data points, collected at the same times. -/
def Sample.SameData (s s' : Sample ℚ) : Prop :=
  s.SameTimes s' ∧ (0 < s.valid → s.val1 = s'.val1) ∧ (1 < s.valid → s.val0 = s'.val0)

variable {s s' : Sample ℚ}

theorem sampleVal_of_sameData (h : s.SameData s') (hstale : s.staleSecs = s'.staleSecs) (tnow : ℤ) :
    sampleVal s tnow = sampleVal s' tnow := by
  obtain ⟨⟨hvalid, htime1, -⟩, hval1, -⟩ := h
  unfold sampleVal
  by_cases hpos : 0 < s.valid
  · rw [htime1 hpos, hval1 hpos, hstale, hvalid]
  · rw [if_neg (fun hc => hpos hc.1), if_neg (fun hc => hpos (hvalid ▸ hc.1))]

theorem sampleRate_of_sameData (h : s.SameData s') (hstale : s.staleSecs = s'.staleSecs)
    (tnow : ℤ) : sampleRate s tnow = sampleRate s' tnow := by
  obtain ⟨⟨hvalid, htime1, htime0⟩, hval1, hval0⟩ := h
  unfold sampleRate
  by_cases htwo : s.valid = 2
  · rw [htime1 (by omega), htime0 (by omega), hval1 (by omega), hval0 (by omega), hstale, hvalid]
  · have htwo' : ¬s'.valid = 2 := hvalid ▸ htwo
    simp [htwo, htwo']

theorem Sample.SameTimes.matching_eq {V : Type*} {s s' : Sample V} (h : s.SameTimes s')
    (samples : List (Sample V)) : s.matching samples = s'.matching samples := by
  unfold Sample.matching
  apply List.filter_congr
  intro s'' _
  have hiff : s.SameTimes s'' ↔ s'.SameTimes s'' := ⟨h.symm.trans, h.trans⟩
  exact decide_eq_decide.mpr hiff

theorem matching_cons_self {V : Type*} (s : Sample V) (samples : List (Sample V)) :
    s.matching (s :: samples) = s :: s.matching samples :=
  List.filter_cons_of_pos (decide_eq_true (Sample.SameTimes.refl s))

end

namespace TargetKind

variable {R Field : Type*} (kind : TargetKind R Field)

def firstFresh (tnow staleSecs : ℤ) (servername : Text) (targetData : List R) : Option R :=
  (kind.freshOn tnow staleSecs servername targetData).head?

/-- What two summaries have in common: the servers and their target counts, and
the value and rate of every merged sample unless the first fresh targets have
samples that were collected at different times. -/
structure SameTotals (tnow staleSecs : ℤ) (targetData serverData targetData' serverData' : List R) :
    Prop where
  servers : (serverData.map kind.servername).Perm (serverData'.map kind.servername)
  count : ∀ servername,
    (kind.findServer servername serverData).map (fun server => (kind.common server).name) =
      (kind.findServer servername serverData').map fun server => (kind.common server).name
  samples : ∀ servername server server' first first',
    kind.findServer servername serverData = some server →
    kind.findServer servername serverData' = some server' →
    kind.firstFresh tnow staleSecs servername targetData = some first →
    kind.firstFresh tnow staleSecs servername targetData' = some first' →
    ∀ k, (kind.field k first).SameTimes (kind.field k first') → ∀ t,
      sampleVal (kind.field k server) t = sampleVal (kind.field k server') t ∧
        sampleRate (kind.field k server) t = sampleRate (kind.field k server') t

variable {kind} {first first' : R} {rest rest' : List R}

/-- Merging the targets in another order merges the same data points. -/
theorem sameData_foldl_merge (h : (first :: rest).Perm (first' :: rest')) {k : Field}
    (htimes : (kind.field k first).SameTimes (kind.field k first')) :
    (kind.field k (rest.foldl (fun server target => kind.merge target server)
      (kind.start first))).SameData
        (kind.field k (rest'.foldl (fun server target => kind.merge target server)
          (kind.start first'))) := by
  have hmatching : (kind.field k first :: (kind.field k first).matching
      (rest.map (kind.field k))).Perm (kind.field k first' :: (kind.field k first').matching
        (rest'.map (kind.field k))) := by
    rw [← matching_cons_self, ← matching_cons_self, ← List.map_cons, ← List.map_cons,
      ← htimes.matching_eq]
    exact (h.map (kind.field k)).filter _
  have hval1 := foldl_perm (kind.op_comm k) (kind.op_assoc k) (hmatching.map Sample.val1)
  have hval0 := foldl_perm (kind.op_comm k) (kind.op_assoc k) (hmatching.map Sample.val0)
  obtain ⟨hvalid, -, -⟩ := id htimes
  rw [kind.field_foldl_merge, kind.field_foldl_merge]
  refine ⟨htimes, ?_, ?_⟩
  · intro hpos
    have hpos' : 0 < (kind.field k first').valid := hvalid ▸ hpos
    exact (if_pos hpos).trans (hval1.trans (if_pos hpos').symm)
  · intro hpos
    have hpos' : 1 < (kind.field k first').valid := hvalid ▸ hpos
    exact (if_pos hpos).trans (hval0.trans (if_pos hpos').symm)

/-- The record of a server keeps the time after which the samples of its first
target expire. -/
theorem staleSecs_foldl_merge (rest : List R) (first : R) (k : Field) :
    (kind.field k (rest.foldl (fun server target => kind.merge target server)
      (kind.start first))).staleSecs = (kind.field k first).staleSecs := by
  rw [kind.field_foldl_merge]
  rfl

theorem sameTotals_of_perm {targetData targetData' : List R} {tnow staleSecs : ℤ}
    (hperm : targetData'.Perm targetData)
    (hstale : ∀ target ∈ targetData, ∀ k, (kind.field k target).staleSecs = staleSecs)
    (f : R → R → ℤ) :
    kind.SameTotals tnow staleSecs targetData
      (listSort f (kind.summarizeTarget targetData tnow staleSecs)) targetData'
      (listSort f (kind.summarizeTarget targetData' tnow staleSecs)) := by
  have hfresh (servername : Text) : (kind.freshOn tnow staleSecs servername targetData).Perm
      (kind.freshOn tnow staleSecs servername targetData') :=
    (hperm.symm.filter _).filter _
  refine ⟨?_, ?_, ?_⟩
  · rw [List.perm_ext_iff_of_nodup (nodup_listSort_summarizeTarget kind f _ _ _)
      (nodup_listSort_summarizeTarget kind f _ _ _)]
    intro servername
    rw [((perm_listSort f _).map kind.servername).mem_iff,
      ((perm_listSort f _).map kind.servername).mem_iff, kind.mem_map_summarizeTarget,
      kind.mem_map_summarizeTarget]
    have hnil := hfresh servername
    constructor
    · intro h hnil'
      rw [hnil'] at hnil
      exact h hnil.eq_nil
    · intro h hnil'
      rw [hnil'] at hnil
      exact h hnil.symm.eq_nil
  · intro servername
    rw [findServer_listSort, findServer_listSort]
    have hlength := (hfresh servername).length_eq
    cases htargets : kind.freshOn tnow staleSecs servername targetData with
    | nil =>
      rw [htargets] at hlength
      rw [List.length_eq_zero_iff.mp hlength.symm]
    | cons first rest =>
      cases htargets' : kind.freshOn tnow staleSecs servername targetData' with
      | nil =>
        rw [htargets, htargets'] at hlength
        exact absurd hlength (by simp)
      | cons first' rest' =>
        rw [htargets, htargets', List.length_cons, List.length_cons] at hlength
        simp only [record, Option.map_some]
        rw [kind.name_foldl_merge, kind.name_foldl_merge, hlength]
  · intro servername server server' first first' hserver hserver' hfirst hfirst' k htimes t
    obtain ⟨rest, htargets⟩ := List.head?_eq_some_iff.mp hfirst
    obtain ⟨rest', htargets'⟩ := List.head?_eq_some_iff.mp hfirst'
    have hlists := hfresh servername
    have hmem : ∀ target ∈ kind.freshOn tnow staleSecs servername targetData, target ∈ targetData :=
      fun target h => List.mem_of_mem_filter (List.mem_of_mem_filter h)
    rw [findServer_listSort, htargets] at hserver
    rw [findServer_listSort, htargets'] at hserver'
    obtain rfl := Option.some_inj.mp hserver
    obtain rfl := Option.some_inj.mp hserver'
    have hfirstStale : (kind.field k first).staleSecs = staleSecs :=
      hstale first (hmem first (by simp [htargets])) k
    have hfirstStale' : (kind.field k first').staleSecs = staleSecs :=
      hstale first' (hmem first' (hlists.mem_iff.mpr (by simp [htargets']))) k
    rw [htargets, htargets'] at hlists
    have hdata := sameData_foldl_merge hlists htimes
    have hsecs : (kind.field k (rest.foldl (fun server target => kind.merge target server)
        (kind.start first))).staleSecs =
          (kind.field k (rest'.foldl (fun server target => kind.merge target server)
            (kind.start first'))).staleSecs := by
      rw [staleSecs_foldl_merge, staleSecs_foldl_merge, hfirstStale, hfirstStale']
    exact ⟨sampleVal_of_sameData hdata hsecs t, sampleRate_of_sameData hdata hsecs t⟩

end TargetKind

theorem Oststat.mem_samples_field (k : OstField) (o : Oststat ℚ) : o.field k ∈ o.samples := by
  cases k <;> simp [Oststat.field, Oststat.samples]

theorem Mdtstat.mem_samples_field (k : MdtField) (m : Mdtstat ℚ) : m.field k ∈ m.samples := by
  cases k <;> simp [Mdtstat.field, Mdtstat.samples]

/-- In every run, summaries of the lists in another order have the same servers
and counts, and the same values and rates of every merged sample that the first
fresh targets collected at the same times. -/
theorem summarize_perm {number : Reading → ℚ} {staleSecs : ℤ} {actions : List TargetAction}
    (h : ∀ a ∈ actions, a.Meets (·.staleSecs = staleSecs)) {st : TargetLists ℚ}
    (hrun : Runs.run (targetStep number) .empty actions = st) (tnow : ℤ) :
    (∀ ostData, ostData.Perm st.ostData →
      ostKind.SameTotals tnow staleSecs st.ostData (summarizeOst st.ostData tnow staleSecs)
        ostData (summarizeOst ostData tnow staleSecs)) ∧
    ∀ mdtData, mdtData.Perm st.mdtData →
      mdtKind.SameTotals tnow staleSecs st.mdtData (summarizeMdt st.mdtData tnow staleSecs)
        mdtData (summarizeMdt mdtData tnow staleSecs) := by
  obtain ⟨host, hmdt⟩ := targetRun_forall (Oststat.hasStaleSecs_invariant number staleSecs)
    (Mdtstat.hasStaleSecs_invariant number staleSecs) h
  rw [hrun] at host hmdt
  constructor
  · intro ostData hperm
    apply TargetKind.sameTotals_of_perm hperm
    intro o ho k
    exact host o ho _ (Oststat.mem_samples_field k o)
  · intro mdtData hperm
    apply TargetKind.sameTotals_of_perm hperm
    intro m hm k
    exact hmdt m hm _ (Mdtstat.mem_samples_field k m)

/-- The second OST of a server appears when the first one has reported once. -/
def lateOst : List TargetAction :=
  [.update (.ost (oss1Report "lc1-OST0000" 0) 10 60),
    .update (.ost (oss1Report "lc1-OST0000" 100) 20 60),
    .update (.ost (oss1Report "lc1-OST0001" 300) 20 60)]

def lateOstLists : TargetLists ℚ := Runs.run (targetStep Reading.exact) .empty lateOst

theorem summarize_perm_lateOst :
    ostKind.SameTotals 25 60 lateOstLists.ostData (summarizeOst lateOstLists.ostData 25 60)
      lateOstLists.ostData.reverse (summarizeOst lateOstLists.ostData.reverse 25 60) :=
  (@summarize_perm Reading.exact 60 lateOst
    (by simp [lateOst, TargetAction.Meets, UpdateCall.staleSecs]) lateOstLists rfl 25).1 _
    (List.reverse_perm _)

/-- The rate and the value of a server depend on which of its two OSTs is first. -/
theorem summarizeOst_depends_on_order :
    (summarizeOst lateOstLists.ostData 25 60).map
        (fun oss => (oss.common.servername, sampleVal oss.rbytes 25, sampleRate oss.rbytes 25)) =
      [("oss1".toList, 100, 10)] ∧
    (summarizeOst lateOstLists.ostData.reverse 25 60).map
        (fun oss => (oss.common.servername, sampleVal oss.rbytes 25, sampleRate oss.rbytes 25)) =
      [("oss1".toList, 300, 0)] := by
  have hfirst : (summarizeOst lateOstLists.ostData 25 60).map
      (fun oss => (oss.common.servername, oss.rbytes)) =
        [("oss1".toList, ⟨0, 100, 10, 20, 2, 60⟩)] := by decide
  have hsecond : (summarizeOst lateOstLists.ostData.reverse 25 60).map
      (fun oss => (oss.common.servername, oss.rbytes)) =
        [("oss1".toList, ⟨0, 300, 0, 20, 1, 60⟩)] := by decide
  have hshown (ossData : List (Oststat ℚ)) : ossData.map
      (fun oss => (oss.common.servername, sampleVal oss.rbytes 25, sampleRate oss.rbytes 25)) =
        (ossData.map fun oss => (oss.common.servername, oss.rbytes)).map
          fun (servername, s) => (servername, sampleVal s 25, sampleRate s 25) := by
    rw [List.map_map]
    rfl
  rw [hshown, hshown, hfirst, hsecond]
  norm_num [sampleVal, sampleRate]

end Lmt
