import Lmt.Ltop.Failover
import Lmt.Ltop.Summary

/-!
# The totals of a server

When the fresh targets of a server report at the same times, its record holds
their sums. Otherwise only the targets that report with the first one are
counted, so that the order of the list matters as far as it decides which target
is the first.
-/

namespace Lmt

open FormattedText Grouping

/-- The record sums up the targets. -/
structure ServerTotals (targets : List (Oststat ℚ)) (server : Oststat ℚ) : Prop where
  name : server.common.name = countName targets.length
  times : ∀ k, ∀ o ∈ targets, (server.field k).SameTimes (o.field k)
  sum_val1 : ∀ k ≠ .numExports, 0 < (server.field k).valid →
    (server.field k).val1 = (targets.map fun o => (o.field k).val1).sum
  sum_val0 : ∀ k ≠ .numExports, 1 < (server.field k).valid →
    (server.field k).val0 = (targets.map fun o => (o.field k).val0).sum
  least_val1 : 0 < server.numExports.valid →
    IsLeast {v | ∃ o ∈ targets, o.numExports.val1 = v} server.numExports.val1
  least_val0 : 1 < server.numExports.valid →
    IsLeast {v | ∃ o ∈ targets, o.numExports.val0 = v} server.numExports.val0
  timestamp : IsLeast {t | ∃ o ∈ targets, o.common.tgtMetricTimestamp = t}
    server.common.tgtMetricTimestamp
  tag : server.common.tag ↔ ∃ o ∈ targets, o.common.tag
  tgtstate : server.common.tgtstate = "F".toList ↔ ∀ o ∈ targets, o.common.tgtstate = "F".toList
  recovStatus : "COMPLETE".toList <+: server.common.recovStatus ↔
    ∀ o ∈ targets, "COMPLETE".toList <+: o.common.recovStatus

def ReportTogether (ostData : List (Oststat ℚ)) (tnow staleSecs : ℤ) : Prop :=
  ∀ servername, ∀ o ∈ ostKind.freshOn tnow staleSecs servername ostData,
    ∀ o' ∈ ostKind.freshOn tnow staleSecs servername ostData, ∀ k,
      (o.field k).SameTimes (o'.field k)

theorem isLeast_insert {α β : Type*} [LinearOrder β] {f : α → β} {l : List α} {m : β} (a : α)
    (h : IsLeast {v | ∃ b ∈ l, f b = v} m) :
    IsLeast {v | ∃ b ∈ l ++ [a], f b = v} (if f a < m then f a else m) := by
  obtain ⟨⟨b, hb, rfl⟩, hle⟩ := h
  constructor
  · split_ifs
    · exact ⟨a, by simp, rfl⟩
    · exact ⟨b, by simp [hb], rfl⟩
  · rintro v ⟨c, hc, rfl⟩
    rcases List.mem_append.mp hc with hc | hc
    · have hcb := hle ⟨c, hc, rfl⟩
      split_ifs with hlt
      · exact hlt.le.trans hcb
      · exact hcb
    · obtain rfl := List.mem_singleton.mp hc
      split_ifs with hlt
      · exact le_rfl
      · exact not_lt.mp hlt

theorem foldl_min_isLeast {α : Type*} {f : α → ℚ} (first : α) (l : List α) :
    IsLeast {v | ∃ b ∈ first :: l, f b = v} ((l.map f).foldl min (f first)) := by
  induction l using List.reverseRecOn with
  | nil =>
    refine ⟨⟨first, by simp, rfl⟩, ?_⟩
    rintro v ⟨b, hb, rfl⟩
    obtain rfl := List.mem_singleton.mp hb
    exact le_rfl
  | append_singleton l a ih =>
    have hinsert := isLeast_insert a ih
    rw [List.map_append, List.foldl_append, ← List.cons_append]
    rw [show (if f a < (l.map f).foldl min (f first) then f a else (l.map f).foldl min (f first)) =
      ([a].map f).foldl min ((l.map f).foldl min (f first)) from ?_] at hinsert
    · exact hinsert
    · simp only [List.map_cons, List.map_nil, List.foldl_cons, List.foldl_nil]
      split_ifs with hlt
      · exact (min_eq_right hlt.le).symm
      · exact (min_eq_left (not_lt.mp hlt)).symm

theorem OstField.op_of_ne {k : OstField} (h : k ≠ .numExports) : k.op = (· + ·) := by
  cases k with
  | numExports => exact absurd rfl h
  | _ => rfl

theorem foldl_add_eq_sum (q : ℚ) (l : List ℚ) : l.foldl (· + ·) q = (q :: l).sum := by
  induction l generalizing q with
  | nil => simp
  | cons a l ih =>
    rw [List.foldl_cons, ih, List.sum_cons, List.sum_cons, List.sum_cons, add_assoc]

theorem common_foldl_merge (rest : List (Oststat ℚ)) (first : Oststat ℚ) :
    let server := (rest.foldl (fun server o => ostKind.merge o server) (ostKind.start first)).common
    IsLeast {t | ∃ o ∈ first :: rest, o.common.tgtMetricTimestamp = t} server.tgtMetricTimestamp ∧
      (server.tag ↔ ∃ o ∈ first :: rest, o.common.tag) ∧
      (server.tgtstate = "F".toList ↔ ∀ o ∈ first :: rest, o.common.tgtstate = "F".toList) ∧
      ("COMPLETE".toList <+: server.recovStatus ↔
        ∀ o ∈ first :: rest, "COMPLETE".toList <+: o.common.recovStatus) := by
  induction rest using List.reverseRecOn with
  | nil =>
    refine ⟨⟨⟨first, by simp, rfl⟩, ?_⟩, ?_, ?_, ?_⟩
    · rintro t ⟨o, ho, rfl⟩
      obtain rfl := List.mem_singleton.mp ho
      exact le_rfl
    · simp [ostKind, TargetKind.start]
    · simp [ostKind, TargetKind.start]
    · simp [ostKind, TargetKind.start]
  | append_singleton rest o ih =>
    rw [List.foldl_append, List.foldl_cons, List.foldl_nil]
    generalize
      rest.foldl (fun server o => ostKind.merge o server) (ostKind.start first) = server at ih ⊢
    obtain ⟨htime, htag, hstate, hrecov⟩ := ih
    rw [← List.cons_append]
    have hmem {P : Oststat ℚ → Prop} :
        (∀ o' ∈ first :: rest ++ [o], P o') ↔ P o ∧ ∀ o' ∈ first :: rest, P o' := by
      simp only [List.mem_append, List.mem_singleton, or_imp, forall_and, forall_eq]
      exact and_comm
    refine ⟨isLeast_insert o htime, ?_, ?_, ?_⟩
    · have hexists : (∃ o' ∈ first :: rest ++ [o], o'.common.tag) ↔
          o.common.tag ∨ ∃ o' ∈ first :: rest, o'.common.tag := by
        simp only [List.mem_append, List.mem_singleton, or_and_right, exists_or, exists_eq_left]
        exact or_comm
      rw [hexists, ← htag]
      simp only [ostKind, TargetKind.merge, tag_summarizeCommon, singleOstUpdateSummary]
      cases o.common.tag <;> simp
    · rw [hmem, ← hstate]
      change
        (if o.common.tgtstate ≠ "F".toList then o.common.tgtstate else server.common.tgtstate) =
        "F".toList ↔ _
      by_cases hF : o.common.tgtstate = "F".toList
      · rw [if_neg (not_not.mpr hF)]
        exact ⟨fun h => ⟨hF, h⟩, fun h => h.2⟩
      · rw [if_pos hF]
        exact ⟨fun h => absurd h hF, fun h => absurd h.1 hF⟩
    · rw [hmem, ← hrecov]
      change "COMPLETE".toList <+: (if o.common.recovStatus.take 8 ≠ "COMPLETE".toList then
        o.common.recovStatus else server.common.recovStatus) ↔ _
      have hstart : o.common.recovStatus.take 8 = "COMPLETE".toList ↔
          "COMPLETE".toList <+: o.common.recovStatus :=
        ⟨fun h => List.prefix_iff_eq_take.mpr h.symm, fun h => (List.prefix_iff_eq_take.mp h).symm⟩
      by_cases hcomplete : o.common.recovStatus.take 8 = "COMPLETE".toList
      · rw [if_neg (not_not.mpr hcomplete)]
        exact ⟨fun h => ⟨hstart.mp hcomplete, h⟩, fun h => h.2⟩
      · rw [if_pos hcomplete]
        exact ⟨fun h => absurd (hstart.mpr h) hcomplete, fun h => h.1⟩

theorem serverTotals_foldl_merge {first : Oststat ℚ} {rest : List (Oststat ℚ)}
    (h : ∀ o ∈ rest, ∀ k, (first.field k).SameTimes (o.field k)) :
    ServerTotals (first :: rest)
      (rest.foldl (fun server o => ostKind.merge o server) (ostKind.start first)) := by
  obtain ⟨htime, htag, hstate, hrecov⟩ := common_foldl_merge rest first
  have hfield (k : OstField) :
      (rest.foldl (fun server o => ostKind.merge o server) (ostKind.start first)).field k =
        (first.field k).withPoints
          ((rest.map fun o => (o.field k).val1).foldl k.op (first.field k).val1)
          ((rest.map fun o => (o.field k).val0).foldl k.op (first.field k).val0) := by
    have hmatching : (ostKind.field k first).matching (rest.map (ostKind.field k)) =
        rest.map (ostKind.field k) := by
      apply List.filter_eq_self.mpr
      intro s hs
      obtain ⟨o, ho, rfl⟩ := List.mem_map.mp hs
      exact decide_eq_true (h o ho k)
    have hfold := ostKind.field_foldl_merge k rest first
    rw [hmatching, List.map_map, List.map_map] at hfold
    exact hfold
  have hname := ostKind.name_foldl_merge rest first
  generalize rest.foldl (fun server o => ostKind.merge o server) (ostKind.start first) = server at *
  have hval1 (k : OstField) (hpos : 0 < (server.field k).valid) : (server.field k).val1 =
      (rest.map fun o => (o.field k).val1).foldl k.op (first.field k).val1 := by
    rw [hfield] at hpos ⊢
    exact if_pos hpos
  have hval0 (k : OstField) (hpos : 1 < (server.field k).valid) : (server.field k).val0 =
      (rest.map fun o => (o.field k).val0).foldl k.op (first.field k).val0 := by
    rw [hfield] at hpos ⊢
    exact if_pos hpos
  refine ⟨hname, ?_, ?_, ?_, ?_, ?_, htime, htag, hstate, hrecov⟩
  · intro k o ho
    rw [hfield]
    rcases List.mem_cons.mp ho with rfl | ho
    · exact Sample.SameTimes.refl _
    · exact h o ho k
  · intro k hk hpos
    rw [hval1 k hpos, List.map_cons, OstField.op_of_ne hk, foldl_add_eq_sum]
  · intro k hk hpos
    rw [hval0 k hpos, List.map_cons, OstField.op_of_ne hk, foldl_add_eq_sum]
  · intro hpos
    have hval : server.numExports.val1 =
        (rest.map fun o => o.numExports.val1).foldl min first.numExports.val1 :=
      hval1 .numExports hpos
    rw [hval]
    exact foldl_min_isLeast first rest
  · intro hpos
    have hval : server.numExports.val0 =
        (rest.map fun o => o.numExports.val0).foldl min first.numExports.val0 :=
      hval0 .numExports hpos
    rw [hval]
    exact foldl_min_isLeast first rest

/-- When the fresh targets of each server report together, the summary has
exactly one record for every server with a fresh target, which sums them up. -/
theorem summarizeOst_totals {ostData : List (Oststat ℚ)} {tnow staleSecs : ℤ}
    (h : ReportTogether ostData tnow staleSecs) :
    ((summarizeOst ostData tnow staleSecs).map fun o => o.common.servername).Nodup ∧
      (∀ servername, servername ∈ (summarizeOst ostData tnow staleSecs).map
          (fun o => o.common.servername) ↔
        ∃ o ∈ ostData, tnow - o.common.tgtMetricTimestamp ≤ staleSecs ∧
          o.common.servername = servername) ∧
      ∀ server ∈ summarizeOst ostData tnow staleSecs,
        ServerTotals (ostData.filter fun o => tnow - o.common.tgtMetricTimestamp ≤ staleSecs ∧
          o.common.servername = server.common.servername) server := by
  have hperm := perm_listSort (fun o1 o2 => cmpTgtstatByserver o1.common o2.common)
    (ostKind.summarizeTarget ostData tnow staleSecs)
  have hfresh (servername : Text) : ostKind.freshOn tnow staleSecs servername ostData =
      ostData.filter fun o => tnow - o.common.tgtMetricTimestamp ≤ staleSecs ∧
        o.common.servername = servername := by
    rw [TargetKind.freshOn, List.filter_filter]
    apply List.filter_congr
    intro o _
    rw [Bool.decide_and, Bool.and_comm]
    rfl
  refine ⟨nodup_listSort_summarizeTarget ostKind _ ostData tnow staleSecs, ?_, ?_⟩
  · intro servername
    refine (hperm.map ostKind.servername).mem_iff.trans ?_
    refine (ostKind.mem_map_summarizeTarget ostData tnow staleSecs servername).trans ?_
    rw [hfresh]
    simp [List.filter_eq_nil_iff]
  · intro server hserver
    have hfind : ostKind.findServer server.common.servername (summarizeOst ostData tnow staleSecs) =
        some server :=
      (find?_eq_some_iff (nodup_listSort_summarizeTarget ostKind _ ostData tnow staleSecs)).mpr
        ⟨hserver, rfl⟩
    rw [summarizeOst, findServer_listSort] at hfind
    have htogether := h server.common.servername
    rw [← hfresh]
    cases htargets : ostKind.freshOn tnow staleSecs server.common.servername ostData with
    | nil => simp [htargets, record] at hfind
    | cons first rest =>
      rw [htargets] at hfind htogether
      obtain rfl := Option.some_inj.mp hfind
      apply serverTotals_foldl_merge
      intro o ho k
      exact htogether first List.mem_cons_self o (List.mem_cons_of_mem _ ho) k

def oss1Report (ostname : String) (readBytes : UInt64) : OstReport where
  ostname := ostname.toList
  servername := "oss1".toList
  readBytes := readBytes
  writeBytes := 0
  iops := 0
  numExports := 4
  lockCount := 0
  grantRate := 0
  cancelRate := 0
  connect := 0
  recovStatus := "COMPLETE".toList
  kbytesFree := 0
  kbytesTotal := 0
  pctCpu := 0
  pctMem := 0

def reportsTogether : List UpdateCall :=
  [.ost (oss1Report "lc1-OST0000" 0) 10 60, .ost (oss1Report "lc1-OST0001" 0) 10 60,
    .ost (oss1Report "lc1-OST0000" 100) 20 60, .ost (oss1Report "lc1-OST0001" 300) 20 60]

def ostsTogether : List (Oststat ℚ) :=
  (Runs.run (updateTargets fun _ => Reading.exact) .empty reportsTogether).ostData

theorem ostsTogether_sameTimes : ∀ o ∈ ostsTogether, ∀ o' ∈ ostsTogether,
    ∀ k : OstField, (o.field k).SameTimes (o'.field k) := by
  intro o ho o' ho' k
  cases k <;> revert o' <;> revert o <;> decide

theorem summarizeOst_totals_together :
    ∃ server ∈ summarizeOst ostsTogether 25 60, ServerTotals ostsTogether server := by
  have htogether : ReportTogether ostsTogether 25 60 := by
    intro servername o ho o' ho' k
    exact ostsTogether_sameTimes o (List.mem_of_mem_filter (List.mem_of_mem_filter ho)) o'
      (List.mem_of_mem_filter (List.mem_of_mem_filter ho')) k
  obtain ⟨-, hservers, htotals⟩ := summarizeOst_totals htogether
  obtain ⟨server, hserver, hname⟩ := List.mem_map.mp ((hservers "oss1".toList).mpr (by decide))
  refine ⟨server, hserver, ?_⟩
  have h := htotals server hserver
  rw [hname] at h
  exact h

end Lmt
