import Lmt.Ltop.OstHistory

/-!
# The history of an MDT

A report of an MDT has a number for each operation that it counts. A row has a
sample for some of the operations, and a report that counts one of them twice
adds its first number only.
-/

namespace Lmt

open FirstMatch FormattedText Runs Sessions

/-- The reports of an MDT with the versions of the metrics they came in. -/
abbrev ToldMdt := Session (MdtReport × ℕ) Text

def ToldMdt.start : ToldMdt := ⟨[], 0, [], []⟩

def mdtServer (e : MdtReport × ℕ) : Text := e.1.servername

/-- What an action of `ltop` tells of the MDT with this name. -/
def mdtTold (name : Text) (h : Option ToldMdt) : TargetAction → Option ToldMdt
  | .update (.mdt r trcv _ version) =>
    if r.mdtname = name then some ((h.getD .start).report mdtServer (r, version) trcv) else h
  | .empty => none
  | _ => h

def mdtHistory (actions : List TargetAction) (name : Text) : Option ToldMdt :=
  run (mdtTold name) none actions

def mdtSamples : List ((Mdtstat ℚ → Sample ℚ) × (MdtReport → Reading)) :=
  [(Mdtstat.inodesFree, fun r => .counter r.inodesFree),
    (Mdtstat.inodesTotal, fun r => .counter r.inodesTotal),
    (Mdtstat.kbytesFree, fun r => .counter r.kbytesFree),
    (Mdtstat.kbytesTotal, fun r => .counter r.kbytesTotal),
    (fun m => m.common.pctCpu, fun r => .percent r.pctCpu),
    (fun m => m.common.pctMem, fun r => .percent r.pctMem)]

def Mdtstat.mdop (m : Mdtstat ℚ) : MdopSample → Sample ℚ
  | .open => m.open
  | .close => m.close
  | .getattr => m.getattr
  | .setattr => m.setattr
  | .link => m.link
  | .unlink => m.unlink
  | .mkdir => m.mkdir
  | .rmdir => m.rmdir
  | .statfs => m.statfs
  | .rename => m.rename
  | .getxattr => m.getxattr
  | .readBytes => m.readBytes
  | .writeBytes => m.writeBytes

theorem mdop_modify_self (m : Mdtstat ℚ) (k : MdopSample) (f : Sample ℚ → Sample ℚ) :
    (m.modify k f).mdop k = f (m.mdop k) := by cases k <;> rfl

theorem mdop_modify_of_ne (m : Mdtstat ℚ) {k k' : MdopSample} (h : k ≠ k')
    (f : Sample ℚ → Sample ℚ) : (m.modify k f).mdop k' = m.mdop k' := by
  cases k <;> cases k' <;> first | rfl | exact absurd rfl h

def MdtReport.ops (r : MdtReport) : List MdtOp := r.mdops.filterMap lmtMdtDecodeV1Mdops

def MdtReport.mdop (r : MdtReport) (k : MdopSample) : Option Reading :=
  (r.ops.find? fun op => mdopSample op.opname = some k).map fun op => .counter (k.counter op)

section

variable (number : Reading → ℚ)

/-- The row shows the history of its MDT. -/
structure Mdtstat.Shows (m : Mdtstat ℚ) (h : ToldMdt) : Prop where
  timely : h.Timely
  ofServer : h.OfServer mdtServer
  servername : m.common.servername = h.server
  timestamp : m.common.tgtMetricTimestamp = h.time
  recovStatus : m.common.recovStatus =
    ((h.since.find? fun e => e.1.2 = 2 ∨ e.1.2 = 3).map fun e =>
      (e.1.1.recovStatus.getD []).take (recoveryStrSize - 1)).getD []
  samples : ∀ k ∈ mdtSamples, (k.1 m).Holds
    (pointsOf (fun e => some (number (k.2 e.1))) h.since)
  mdops : ∀ k, (m.mdop k).Holds (pointsOf (fun e => (e.1.mdop k).map number) h.since)

variable {number} {m : Mdtstat ℚ} {h : ToldMdt} {r : MdtReport} {t : ℤ} {version : ℕ}

theorem createMdtstat_shows (name : Text) (staleSecs : ℤ) :
    (createMdtstat name staleSecs).Shows number .start where
  timely := by simp [Session.Timely, Session.all, ToldMdt.start]
  ofServer := by simp [Session.OfServer, ToldMdt.start]
  servername := rfl
  timestamp := rfl
  recovStatus := rfl
  samples := by
    intro k hk
    simp only [mdtSamples, List.mem_cons, List.not_mem_nil, or_false] at hk
    rcases hk with rfl | rfl | rfl | rfl | rfl | rfl <;> rfl
  mdops k := by cases k <;> rfl

theorem mdtSamples_sampleMdop (servername : Text) (m : Mdtstat ℚ) (op : MdtOp) :
    ∀ k ∈ mdtSamples, k.1 (sampleMdop (fun _ => number) servername t m op) = k.1 m := by
  unfold sampleMdop
  cases mdopSample op.opname with
  | none => simp
  | some k => cases k <;> simp [mdtSamples, Mdtstat.modify]

theorem mdtSamples_foldl_sampleMdop (servername : Text) (ops : List MdtOp) (m : Mdtstat ℚ) :
    ∀ k ∈ mdtSamples,
      k.1 (ops.foldl (sampleMdop (fun _ => number) servername t) m) = k.1 m := by
  intro k hk
  induction ops generalizing m with
  | nil => rfl
  | cons op ops ih => rw [List.foldl_cons, ih, mdtSamples_sampleMdop servername m op k hk]

variable {k : MdopSample} {points : List (ℚ × ℤ)} {servername : Text}

theorem mdop_sampleMdop (number : Reading → ℚ) (servername : Text) (t : ℤ) (m : Mdtstat ℚ)
    (op : MdtOp) (k : MdopSample) :
    (sampleMdop (fun _ => number) servername t m op).mdop k =
      if mdopSample op.opname = some k then
        sampleUpdate (m.mdop k) (number (.counter (k.counter op))) t
      else m.mdop k := by
  unfold sampleMdop
  cases hop : mdopSample op.opname with
  | none => rfl
  | some k' =>
    by_cases hk : k' = k
    · subst hk
      rw [if_pos rfl]
      exact mdop_modify_self m k' _
    · rw [if_neg fun h => hk (Option.some_inj.mp h)]
      exact mdop_modify_of_ne m hk _

theorem foldl_sampleMdop_holds_same {n : ℚ} (ops : List MdtOp) {m : Mdtstat ℚ}
    (h : (m.mdop k).Holds ((n, t) :: points)) :
    ((ops.foldl (sampleMdop (fun _ => number) servername t) m).mdop k).Holds
      ((n, t) :: points) := by
  induction ops generalizing m with
  | nil => exact h
  | cons op ops ih =>
    apply ih
    rw [mdop_sampleMdop]
    split_ifs
    · exact sampleUpdate_holds_same h _
    · exact h

/-- The operations of a report add the number of the first one that the sample is for. -/
theorem foldl_sampleMdop_holds (number : Reading → ℚ) (servername : Text) (ops : List MdtOp)
    {m : Mdtstat ℚ} (h : (m.mdop k).Holds points)
    (hlt : ∀ p ∈ points, p.2 < t) :
    ((ops.foldl (sampleMdop (fun _ => number) servername t) m).mdop k).Holds
      (match ops.find? fun op => mdopSample op.opname = some k with
        | some op => (number (.counter (k.counter op)), t) :: points
        | none => points) := by
  induction ops generalizing m with
  | nil => exact h
  | cons op ops ih =>
    have hstep := mdop_sampleMdop number servername t m op k
    by_cases hop : mdopSample op.opname = some k
    · rw [if_pos hop] at hstep
      rw [List.find?_cons_of_pos (by simpa using hop)]
      have hfirst := sampleUpdate_holds_cons h hlt (number (.counter (k.counter op)))
      rw [← hstep] at hfirst
      exact foldl_sampleMdop_holds_same ops hfirst
    · rw [if_neg hop] at hstep
      rw [List.find?_cons_of_neg (by simpa using hop)]
      rw [← hstep] at h
      exact ih h

theorem mdtSamples_failoverMdt (m : Mdtstat ℚ) (servername : Text) :
    ∀ k ∈ mdtSamples, k.1 (failoverMdt m servername) = sampleInvalidate (k.1 m) := by
  simp [mdtSamples, failoverMdt]

theorem mdop_failoverMdt (m : Mdtstat ℚ) (servername : Text) (k : MdopSample) :
    (failoverMdt m servername).mdop k = sampleInvalidate (m.mdop k) := by cases k <;> rfl

theorem mdtSamples_sampleMdtstat (number : Reading → ℚ) (r : MdtReport) (t : ℤ) (version : ℕ)
    (m : Mdtstat ℚ) :
    ∀ k ∈ mdtSamples, k.1 (sampleMdtstat (fun _ => number) r t version m) =
      sampleUpdate (k.1 m) (number (k.2 r)) t := by
  simp [mdtSamples, sampleMdtstat]

theorem mdop_sampleMdtstat (number : Reading → ℚ) (r : MdtReport) (t : ℤ) (version : ℕ)
    (m : Mdtstat ℚ) (k : MdopSample) :
    (sampleMdtstat (fun _ => number) r t version m).mdop k = m.mdop k := by cases k <;> rfl

/-- When another server reports, the row forgets the session. -/
theorem failoverMdt_shows (hshows : m.Shows number h) (hname : servername.length < maxhostnamelen) :
    (failoverMdt m servername).Shows number (h.takeover servername) := by
  refine ⟨hshows.timely, List.forall_mem_nil _, take_servername hname, hshows.timestamp, rfl, ?_,
    ?_⟩
  · intro k hk
    rw [mdtSamples_failoverMdt m servername k hk]
    rfl
  · intro k
    rw [mdop_failoverMdt]
    rfl

theorem sampleMdtstat_shows (hshows : m.Shows number h) (hlt : h.time < t)
    (hserver : r.servername = h.server) :
    (r.ops.foldl (sampleMdop (fun _ => number) r.servername t)
        (sampleMdtstat (fun _ => number) r t version m)).Shows number
      (h.report mdtServer (r, version) t) := by
  have hsession : h.report mdtServer (r, version) t =
      { h with time := t, since := ((r, version), t) :: h.since } :=
    Session.report_of_eq hlt hserver
  have hnewer (x : MdtReport × ℕ → Option ℚ) : ∀ p ∈ pointsOf x h.since, p.2 < t := by
    intro p hp
    obtain ⟨e, he, htime⟩ := mem_pointsOf hp
    exact htime ▸ hshows.timely.lt_of_mem hlt (List.mem_append_left _ he)
  have hcommon : (r.ops.foldl (sampleMdop (fun _ => number) r.servername t)
      (sampleMdtstat (fun _ => number) r t version m)).common =
        (sampleMdtstat (fun _ => number) r t version m).common :=
    common_foldl_sampleMdop r.servername t _ r.ops
  refine ⟨Session.report_timely hshows.timely, Session.report_ofServer hshows.ofServer _ t, ?_, ?_,
    ?_, ?_, ?_⟩
  · rw [hcommon, hsession]
    exact hshows.servername
  · rw [hcommon, hsession]
    rfl
  · rw [hcommon, hsession]
    unfold sampleMdtstat
    dsimp only
    by_cases hversion : version = 2 ∨ version = 3
    · rw [if_pos hversion, List.find?_cons_of_pos (by simpa using hversion)]
      rfl
    · rw [if_neg hversion, List.find?_cons_of_neg (by simpa using hversion)]
      exact hshows.recovStatus
  · intro k hk
    rw [mdtSamples_foldl_sampleMdop _ _ _ k hk, mdtSamples_sampleMdtstat number r t version m k hk,
      hsession]
    exact sampleUpdate_holds_cons (hshows.samples k hk) (hnewer _) _
  · intro k
    have hbefore := hshows.mdops k
    rw [← mdop_sampleMdtstat number r t version m k] at hbefore
    have hops := foldl_sampleMdop_holds number r.servername r.ops hbefore (hnewer _)
    rw [hsession]
    unfold pointsOf MdtReport.mdop at hops ⊢
    rw [List.filterMap_cons]
    cases hop : r.ops.find? fun op => mdopSample op.opname = some k with
    | none => simpa [hop] using hops
    | some op => simpa [hop] using hops

theorem reportMdt_shows (hshows : m.Shows number h)
    (hname : r.servername.length < maxhostnamelen) :
    (reportMdt (fun _ => number) r t version m).Shows number
      (h.report mdtServer (r, version) t) := by
  unfold reportMdt
  rw [hshows.timestamp, hshows.servername]
  by_cases hlt : h.time < t
  · rw [if_pos hlt]
    by_cases hserver : r.servername = h.server
    · rw [if_pos hserver]
      exact sampleMdtstat_shows hshows hlt hserver
    · rw [if_neg hserver]
      have htakeover : (h.takeover r.servername).report mdtServer (r, version) t =
          h.report mdtServer (r, version) t := Session.report_takeover hlt hserver
      rw [← htakeover]
      exact sampleMdtstat_shows (failoverMdt_shows hshows hname) hlt rfl
  · rw [if_neg hlt, Session.report_of_le hlt]
    exact hshows

end

def Mdtstat.target (m : Mdtstat ℚ) : Text := m.common.target "-MDT".toList

section

variable {number : Reading → ℚ} {known : Text → Option ToldMdt} {mdtData : List (Mdtstat ℚ)}
  {st : TargetLists ℚ}

def MdtRows (number : Reading → ℚ) (known : Text → Option ToldMdt)
    (mdtData : List (Mdtstat ℚ)) : Prop :=
  Represents Mdtstat.target (Mdtstat.Shows number) known mdtData

theorem MdtRows.updateMdt (h : MdtRows number known mdtData)
    (hwell : ∀ m ∈ mdtData, m.common.WellNamed "-MDT".toList) {r : MdtReport}
    (hname : ∃ t : TargetName, r.mdtname = t.text "-MDT".toList)
    (hplain : PlainName "-MDT".toList r.mdtname)
    (hserver : r.servername.length < maxhostnamelen) (t staleSecs : ℤ) (version : ℕ) :
    MdtRows number
      (Function.update known r.mdtname
        (some (((known r.mdtname).getD .start).report mdtServer (r, version) t)))
      (updateMdt (fun _ => number) r mdtData t staleSecs version) := by
  obtain ⟨n, hn⟩ := hname
  have htarget : (createMdtstat r.mdtname staleSecs : Mdtstat ℚ).target = r.mdtname := by
    rw [hn]
    exact target_createTarget isMarker_mdt n staleSecs
  have hmatch : ∀ m ∈ mdtData, matchMdtstat m r.mdtname ↔ m.target = r.mdtname := by
    intro m hm
    have hiff := GenericTarget.matches_iff isMarker_mdt (hwell m hm) n
    rw [← hn] at hiff
    rwa [and_iff_right hplain] at hiff
  have hstep (m : Mdtstat ℚ) (h : ToldMdt) (hshows : m.Shows number h) :
      (reportMdt (fun _ => number) r t version m).Shows number
        (h.report mdtServer (r, version) t) := reportMdt_shows hshows hserver
  have hrows := Represents.updateFirst h hmatch htarget
    (fun m => (sameNames_reportMdt r t version m).target) (createMdtstat_shows _ staleSecs) hstep
  exact hrows

theorem targetStep_mdtRows (h : MdtRows number known st.mdtData)
    (hwell : ∀ m ∈ st.mdtData, m.common.WellNamed "-MDT".toList) {a : TargetAction}
    (ha : a.Meets UpdateCall.Regular) :
    MdtRows number (fun name => mdtTold name (known name) a) (targetStep number st a).mdtData := by
  cases a with
  | update c =>
    cases c with
    | osc name state tnow trcv staleSecs => exact h
    | ost r trcv staleSecs => exact h
    | mdt r trcv staleSecs version =>
      have hrows := h.updateMdt hwell ha.named ha.plain ha.servername trcv staleSecs version
      rwa [update_eq_ite known r.mdtname fun h =>
        some ((h.getD .start).report mdtServer (r, version) trcv)] at hrows
  | sortMdt f => exact h.perm (perm_listSort f _).symm
  | empty => exact represents_nil
  | _ => exact h

end

end Lmt
