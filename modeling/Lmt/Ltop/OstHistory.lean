import Lmt.Library.MapTables
import Lmt.Library.Sessions
import Lmt.Ltop.SampleRuns
import Lmt.Ltop.TargetRuns
import Lmt.Ltop.OneRecord

/-!
# The history of an OST

What a row of `ltop` shows of an OST is what the servers have reported of it: its
samples are the newest reports of the server that it has now. Which reports these
are is said for each OST on its own, whatever else is reported between them,
however the list is sorted and whichever rows are tagged.
-/

namespace Lmt

open FirstMatch FormattedText Runs Sessions

section

variable {ρ σ : Type*} [DecidableEq σ] {server : ρ → σ} {session : Session ρ σ} {s : Sample ℚ}
  {r : ρ} {t : ℤ}

def pointsOf (number : ρ → Option ℚ) (reports : List (ρ × ℤ)) : List (ℚ × ℤ) :=
  reports.filterMap fun e => (number e.1).map fun n => (n, e.2)

theorem mem_pointsOf {number : ρ → Option ℚ} {reports : List (ρ × ℤ)} {p : ℚ × ℤ}
    (h : p ∈ pointsOf number reports) : ∃ e ∈ reports, e.2 = p.2 := by
  obtain ⟨e, he, hp⟩ := List.mem_filterMap.mp h
  obtain ⟨n, -, rfl⟩ := Option.map_eq_some_iff.mp hp
  exact ⟨e, he, rfl⟩

theorem sampleUpdate_holds_cons {points : List (ℚ × ℤ)} (h : s.Holds points)
    (hlt : ∀ p ∈ points, p.2 < t) (n : ℚ) : (sampleUpdate s n t).Holds ((n, t) :: points) := by
  have hholds := sampleUpdate_holds h n t
  have hhead : ∀ p ∈ points.head?, p.2 < t := fun p hp => hlt p (List.mem_of_head? hp)
  rwa [if_pos hhead] at hholds

/-- An update with the time of the newest data point changes nothing. -/
theorem sampleUpdate_holds_same {points : List (ℚ × ℤ)} {p : ℚ × ℤ} (h : s.Holds (p :: points))
    (n : ℚ) : (sampleUpdate s n p.2).Holds (p :: points) := by
  have hholds := sampleUpdate_holds h n p.2
  have hnot : ¬∀ q ∈ (p :: points).head?, q.2 < p.2 := fun hall => lt_irrefl p.2 (hall p rfl)
  rwa [if_neg hnot] at hholds

/-- The rate between the newest two data points, as long as it is shown. -/
def lastRate (staleSecs tnow : ℤ) : List (ℚ × ℤ) → ℚ
  | p :: q :: _ =>
    if tnow - p.2 ≤ staleSecs then max 0 ((p.1 - q.1) / ((p.2 - q.2 : ℤ) : ℚ)) else 0
  | _ => 0

/-- The newest data point, as long as it is shown. -/
def lastVal (staleSecs tnow : ℤ) : List (ℚ × ℤ) → ℚ
  | p :: _ => if tnow - p.2 ≤ staleSecs then p.1 else 0
  | [] => 0

theorem sampleRate_of_holds {points : List (ℚ × ℤ)} (h : s.Holds points) (tnow : ℤ) :
    sampleRate s tnow = lastRate s.staleSecs tnow points := by
  match points, h with
  | [], h =>
    have hvalid : s.valid = 0 := h
    simp [sampleRate, hvalid, lastRate]
  | [p], ⟨hvalid, _⟩ => simp [sampleRate, hvalid, lastRate]
  | p :: q :: points, ⟨hvalid, hval1, htime1, hval0, htime0⟩ =>
    simp only [sampleRate, lastRate, hvalid, hval1, htime1, hval0, htime0, true_and]
    by_cases hfresh : tnow - p.2 ≤ s.staleSecs
    · rw [if_pos hfresh, if_pos hfresh]
      split_ifs with hneg
      · rw [max_eq_left hneg.le]
      · rw [max_eq_right (not_lt.mp hneg)]
    · rw [if_neg hfresh, if_neg hfresh]
      simp

theorem sampleVal_of_holds {points : List (ℚ × ℤ)} (h : s.Holds points) (tnow : ℤ) :
    sampleVal s tnow = lastVal s.staleSecs tnow points := by
  match points, h with
  | [], h =>
    have hvalid : s.valid = 0 := h
    simp [sampleVal, hvalid, lastVal]
  | [p], ⟨hvalid, hval, htime⟩ => simp [sampleVal, hvalid, hval, htime, lastVal]
  | p :: q :: points, ⟨hvalid, hval, htime, _⟩ => simp [sampleVal, hvalid, hval, htime, lastVal]

end

/-- The reports of an OST, and the last state of its OSC. -/
structure ToldOst where
  session : Session OstReport Text
  tgtstate : Text

def ToldOst.start : ToldOst := ⟨⟨[], 0, [], []⟩, []⟩

def ToldOst.report (h : ToldOst) (r : OstReport) (t : ℤ) : ToldOst :=
  { h with session := h.session.report OstReport.servername r t }

def ToldOst.state (h : ToldOst) (state : Text) (tnow trcv staleSecs : ℤ) : ToldOst :=
  { h with tgtstate := if tnow - trcv > staleSecs then [] else state.take 1 }

/-- What an action of `ltop` tells of the OST with this name. -/
def ostTold (name : Text) (h : Option ToldOst) : TargetAction → Option ToldOst
  | .update (.osc ostname state tnow trcv staleSecs) =>
    if ostname = name then some ((h.getD .start).state state tnow trcv staleSecs) else h
  | .update (.ost r trcv _) =>
    if r.ostname = name then some ((h.getD .start).report r trcv) else h
  | .empty => none
  | _ => h

def ostHistory (actions : List TargetAction) (name : Text) : Option ToldOst :=
  run (ostTold name) none actions

/-- The samples that are invalidated when another server reports, with what they are made from. -/
def ostSamples : List ((Oststat ℚ → Sample ℚ) × (OstReport → Reading)) :=
  [(Oststat.rbytes, fun r => .counter r.readBytes),
    (Oststat.wbytes, fun r => .counter r.writeBytes),
    (Oststat.iops, fun r => .counter r.iops),
    (Oststat.numExports, fun r => .counter r.numExports),
    (Oststat.lockCount, fun r => .counter r.lockCount),
    (Oststat.kbytesFree, fun r => .counter r.kbytesFree),
    (Oststat.kbytesTotal, fun r => .counter r.kbytesTotal),
    (fun o => o.common.pctCpu, fun r => .percent r.pctCpu),
    (fun o => o.common.pctMem, fun r => .percent r.pctMem)]

def keptOstSamples : List ((Oststat ℚ → Sample ℚ) × (OstReport → Reading)) :=
  [(Oststat.grantRate, fun r => .counter r.grantRate),
    (Oststat.cancelRate, fun r => .counter r.cancelRate),
    (Oststat.connect, fun r => .counter r.connect)]

section

variable (number : Reading → ℚ)

/-- The row shows the history of its OST. -/
structure Oststat.Shows (o : Oststat ℚ) (h : ToldOst) : Prop where
  timely : h.session.Timely
  ofServer : h.session.OfServer OstReport.servername
  servername : o.common.servername = h.session.server
  timestamp : o.common.tgtMetricTimestamp = h.session.time
  tgtstate : o.common.tgtstate = h.tgtstate
  recovStatus : o.common.recovStatus =
    (h.session.all.head?.map fun e => e.1.recovStatus.take (recoveryStrSize - 1)).getD []
  samples : ∀ k ∈ ostSamples, (k.1 o).Holds
    (pointsOf (fun r => some (number (k.2 r))) h.session.since)
  kept : ∀ k ∈ keptOstSamples, (k.1 o).Holds
    (pointsOf (fun r => some (number (k.2 r))) h.session.all)

variable {number}

theorem createOststat_shows (name : Text) (staleSecs : ℤ) :
    (createOststat name staleSecs).Shows number .start where
  timely := by simp [Session.Timely, Session.all, ToldOst.start]
  ofServer := by simp [Session.OfServer, ToldOst.start]
  servername := rfl
  timestamp := rfl
  tgtstate := rfl
  recovStatus := rfl
  samples := by
    intro k hk
    simp only [ostSamples, List.mem_cons, List.not_mem_nil, or_false] at hk
    rcases hk with rfl | rfl | rfl | rfl | rfl | rfl | rfl | rfl | rfl <;> rfl
  kept := by
    intro k hk
    simp only [keptOstSamples, List.mem_cons, List.not_mem_nil, or_false] at hk
    rcases hk with rfl | rfl | rfl <;> rfl

variable {o : Oststat ℚ} {h : ToldOst} {r : OstReport} {t : ℤ}

theorem ostSamples_failoverOst (o : Oststat ℚ) (servername : Text) :
    ∀ k ∈ ostSamples, k.1 (failoverOst o servername) = sampleInvalidate (k.1 o) := by
  simp [ostSamples, failoverOst]

theorem keptOstSamples_failoverOst (o : Oststat ℚ) (servername : Text) :
    ∀ k ∈ keptOstSamples, k.1 (failoverOst o servername) = k.1 o := by
  simp [keptOstSamples, failoverOst]

theorem ostSamples_sampleOststat (number : Reading → ℚ) (r : OstReport) (t : ℤ) (o : Oststat ℚ) :
    ∀ k ∈ ostSamples ++ keptOstSamples,
      k.1 (sampleOststat (fun _ => number) r t o) = sampleUpdate (k.1 o) (number (k.2 r)) t := by
  simp [ostSamples, keptOstSamples, sampleOststat]

theorem Oststat.Shows.restate (hshows : o.Shows number h) (state : Text) (tagval : Bool) :
    { o with common.tgtstate := state, common.tag := tagval }.Shows number
      { h with tgtstate := state } where
  timely := hshows.timely
  ofServer := hshows.ofServer
  servername := hshows.servername
  timestamp := hshows.timestamp
  tgtstate := rfl
  recovStatus := hshows.recovStatus
  samples := by simpa [ostSamples] using hshows.samples
  kept := by simpa [keptOstSamples] using hshows.kept

theorem setTgtstate_shows (hshows : o.Shows number h) (state : Text) (tnow trcv staleSecs : ℤ) :
    (setTgtstate state tnow trcv staleSecs o).Shows number
      (h.state state tnow trcv staleSecs) :=
  hshows.restate _ o.common.tag

theorem setTag_shows (hshows : o.Shows number h) (tagval : Bool) :
    (o.setTag tagval).Shows number h := by
  have htold : { h with tgtstate := o.common.tgtstate } = h := by rw [hshows.tgtstate]
  have hrestate := hshows.restate o.common.tgtstate tagval
  rw [htold] at hrestate
  exact hrestate

theorem sampleOststat_shows (hshows : o.Shows number h) (hlt : h.session.time < t)
    (hserver : r.servername = h.session.server) :
    (sampleOststat (fun _ => number) r t o).Shows number (h.report r t) := by
  have hsession : (h.report r t).session =
      { h.session with time := t, since := (r, t) :: h.session.since } :=
    Session.report_of_eq hlt hserver
  have hsamples := ostSamples_sampleOststat number r t o
  have hnewer (k : OstReport → Reading) (reports : List (OstReport × ℤ))
      (hsub : reports ⊆ h.session.all) :
      ∀ p ∈ pointsOf (fun r => some (number (k r))) reports, p.2 < t := by
    intro p hp
    obtain ⟨e, he, htime⟩ := mem_pointsOf hp
    exact htime ▸ hshows.timely.lt_of_mem hlt (hsub he)
  refine ⟨Session.report_timely hshows.timely, Session.report_ofServer hshows.ofServer r t, ?_, ?_,
    hshows.tgtstate, ?_, ?_, ?_⟩
  · rw [hsession]
    exact hshows.servername
  · rw [hsession]
    rfl
  · rw [hsession]
    rfl
  · intro k hk
    rw [hsamples k (List.mem_append_left _ hk), hsession]
    exact sampleUpdate_holds_cons (hshows.samples k hk)
      (hnewer k.2 _ (List.subset_append_left _ _)) _
  · intro k hk
    rw [hsamples k (List.mem_append_right _ hk), hsession]
    exact sampleUpdate_holds_cons (hshows.kept k hk) (hnewer k.2 _ (List.Subset.refl _)) _

/-- When another server reports, the row forgets the session; three of its samples do not. -/
theorem failoverOst_shows (hshows : o.Shows number h) {servername : Text}
    (hname : servername.length < maxhostnamelen) :
    (failoverOst o servername).Shows number
      { h with session := h.session.takeover servername } := by
  refine ⟨hshows.timely, List.forall_mem_nil _, take_servername hname, hshows.timestamp,
    hshows.tgtstate, hshows.recovStatus, ?_, ?_⟩
  · intro k hk
    rw [ostSamples_failoverOst o servername k hk]
    rfl
  · intro k hk
    rw [keptOstSamples_failoverOst o servername k hk]
    exact hshows.kept k hk

theorem reportOst_shows (hshows : o.Shows number h) (hname : r.servername.length < maxhostnamelen) :
    (reportOst (fun _ => number) r t o).Shows number (h.report r t) := by
  unfold reportOst
  rw [hshows.timestamp, hshows.servername]
  by_cases hlt : h.session.time < t
  · rw [if_pos hlt]
    by_cases hserver : r.servername = h.session.server
    · rw [if_pos hserver]
      exact sampleOststat_shows hshows hlt hserver
    · rw [if_neg hserver]
      have hreport := sampleOststat_shows (r := r) (failoverOst_shows hshows hname) hlt rfl
      unfold ToldOst.report at hreport ⊢
      rwa [Session.report_takeover hlt hserver] at hreport
  · rw [if_neg hlt]
    unfold ToldOst.report
    rw [Session.report_of_le hlt]
    exact hshows

end

/-- The call is for a target that is found again, and the name of its server fits the row. -/
structure UpdateCall.Regular (c : UpdateCall) : Prop where
  named : c.Named
  plain : c.Plain
  servername : c.servername.length < maxhostnamelen

def Oststat.target (o : Oststat ℚ) : Text := o.common.target "-OST".toList

section

variable {number : Reading → ℚ} {m : Text → Option ToldOst} {ostData : List (Oststat ℚ)}
  {st : TargetLists ℚ}

/-- The rows are those of the OSTs of which something is known, and each shows what that is. -/
def OstRows (number : Reading → ℚ) (m : Text → Option ToldOst) (ostData : List (Oststat ℚ)) :
    Prop :=
  Represents Oststat.target (Oststat.Shows number) m ostData

theorem OstRows.toggleNth (h : OstRows number m ostData) (selost n : ℤ) :
    OstRows number m (toggleNth selost n ostData).1 := by
  apply h.forall₂
  clear h
  have hself (o : Oststat ℚ) : o.target = o.target ∧ ∀ h, o.Shows number h → o.Shows number h :=
    ⟨rfl, fun _ h => h⟩
  induction ostData generalizing n with
  | nil => exact .nil
  | cons o ostData ih =>
    unfold Lmt.toggleNth
    split_ifs
    · exact .cons ⟨rfl, fun _ h => setTag_shows h _⟩ (List.forall₂_same.mpr fun o _ => hself o)
    · exact .cons (hself o) (ih (n + 1))

theorem OstRows.map_setTag (h : OstRows number m ostData) {g : Oststat ℚ → Oststat ℚ}
    (hg : ∀ o, g o = o ∨ ∃ tagval, g o = o.setTag tagval) : OstRows number m (ostData.map g) := by
  apply h.forall₂
  apply List.forall₂_map_right_iff.mpr
  apply List.forall₂_same.mpr
  intro o _
  rcases hg o with heq | ⟨tagval, heq⟩
  · rw [heq]
    exact ⟨rfl, fun _ h => h⟩
  · rw [heq]
    exact ⟨rfl, fun _ h => setTag_shows h tagval⟩

theorem OstRows.updateFirst (h : OstRows number m ostData)
    (hwell : ∀ o ∈ ostData, o.common.WellNamed "-OST".toList) {name : Text}
    (hname : ∃ t : TargetName, name = t.text "-OST".toList)
    (hplain : PlainName "-OST".toList name) {f : Oststat ℚ → Oststat ℚ}
    (hf : ∀ o, (f o).common.SameNames o.common) {g : ToldOst → ToldOst}
    (hstep : ∀ o h, o.Shows number h → (f o).Shows number (g h)) (staleSecs : ℤ) :
    OstRows number (Function.update m name (some (g ((m name).getD .start))))
      (updateFirst (matchOststat · name) (createOststat name staleSecs) f ostData) := by
  obtain ⟨t, rfl⟩ := hname
  have htarget : (createOststat (t.text "-OST".toList) staleSecs : Oststat ℚ).target =
      t.text "-OST".toList := target_createTarget isMarker_ost t staleSecs
  refine Represents.updateFirst h ?_ htarget (fun o => (hf o).target)
    (createOststat_shows _ staleSecs) hstep
  intro o ho
  have hmatch := GenericTarget.matches_iff isMarker_ost (hwell o ho) t
  rwa [and_iff_right hplain] at hmatch

theorem update_eq_ite {κ η : Type*} [DecidableEq κ] (m : κ → η) (k : κ) (g : η → η) :
    Function.update m k (g (m k)) = fun k' => if k = k' then g (m k') else m k' := by
  funext k'
  by_cases hk : k = k'
  · rw [← hk, Function.update_self, if_pos rfl]
  · rw [Function.update_of_ne (Ne.symm hk), if_neg hk]

theorem targetStep_ostRows (h : OstRows number m st.ostData)
    (hwell : ∀ o ∈ st.ostData, o.common.WellNamed "-OST".toList) {a : TargetAction}
    (ha : a.Meets UpdateCall.Regular) :
    OstRows number (fun name => ostTold name (m name) a) (targetStep number st a).ostData := by
  cases a with
  | update c =>
    cases c with
    | osc name state tnow trcv staleSecs =>
      have hname : ∃ t : TargetName, name = t.text "-OST".toList := ha.named
      have hrows := h.updateFirst hwell hname ha.plain
        (sameNames_setTgtstate state tnow trcv staleSecs)
        (fun o h hshows => setTgtstate_shows hshows state tnow trcv staleSecs) staleSecs
      rwa [update_eq_ite m name fun h => some ((h.getD .start).state state tnow trcv staleSecs)]
        at hrows
    | ost r trcv staleSecs =>
      have hname : ∃ t : TargetName, r.ostname = t.text "-OST".toList := ha.named
      have hrows := h.updateFirst hwell hname ha.plain (sameNames_reportOst r trcv)
        (fun o h hshows => reportOst_shows hshows ha.servername) staleSecs
      rwa [update_eq_ite m r.ostname fun h => some ((h.getD .start).report r trcv)] at hrows
    | mdt r trcv staleSecs version => exact h
  | sortOst f => exact h.perm (perm_listSort f _).symm
  | sortMdt f => exact h
  | tagOst selost => exact h.toggleNth selost 0
  | tagOss ossData selost =>
    change OstRows number m (((tagNthOst ossData selost (some st.ostData)).2).getD [])
    cases hoss : nthOst ossData selost with
    | none =>
      rw [tagNthOst_of_none hoss]
      exact h
    | some oss =>
      rw [tagNthOst_of_some hoss]
      apply h.map_setTag
      intro o
      split_ifs
      · exact .inr ⟨_, rfl⟩
      · exact .inl rfl
  | clearTags => exact h.map_setTag fun o => .inr ⟨false, rfl⟩
  | empty => exact represents_nil

end

end Lmt
