import Lmt.Ltop.Tags
import Lmt.Ltop.TargetNames

/-!
# What happens to the target lists

Between two refreshes `ltop` updates its lists, sorts them, tags records and
empties the lists. A property of records that creation, reports and tags keep
holds of every record in every run.
-/

namespace Lmt

open FormattedText FirstMatch

/-- What the main loop does to `ost_data` and `mdt_data`. What `_summarize_mdt` adds to the samples
that an MDS shares with its first MDT, those of the free and the total space, is left out. -/
inductive TargetAction where
  | update (c : UpdateCall)
  | sortOst (f : Oststat ℚ → Oststat ℚ → ℤ)
  | sortMdt (f : Mdtstat ℚ → Mdtstat ℚ → ℤ)
  /-- tag an OST, in the target view -/
  | tagOst (selost : ℤ)
  /-- tag a server and its targets, in the server view -/
  | tagOss (ossData : List (Oststat ℚ)) (selost : ℤ)
  | clearTags
  | empty

def UpdateCall.staleSecs : UpdateCall → ℤ
  | .osc _ _ _ _ staleSecs => staleSecs
  | .ost _ _ staleSecs => staleSecs
  | .mdt _ _ staleSecs _ => staleSecs

def TargetAction.Meets (valid : UpdateCall → Prop) : TargetAction → Prop
  | .update c => valid c
  | _ => True

theorem TargetAction.meets_true (actions : List TargetAction) :
    ∀ a ∈ actions, a.Meets fun _ => True := by
  intro a _
  cases a <;> trivial

section

variable (number : Reading → ℚ)

def targetStep (st : TargetLists ℚ) : TargetAction → TargetLists ℚ
  | .update c => updateTargets (fun _ => number) st c
  | .sortOst f => { st with ostData := listSort f st.ostData }
  | .sortMdt f => { st with mdtData := listSort f st.mdtData }
  | .tagOst selost => { st with ostData := (tagNthOst st.ostData selost none).1 }
  | .tagOss ossData selost =>
    { st with ostData := ((tagNthOst ossData selost (some st.ostData)).2).getD [] }
  | .clearTags => { st with ostData := clearTags st.ostData }
  | .empty => .empty

end

section

variable {number : Reading → ℚ} {valid : UpdateCall → Prop} {P : Oststat ℚ → Prop}
  {Q : Mdtstat ℚ → Prop}

/-- A property of OSTs that everything that is done to a record keeps, when the
calls are valid. -/
structure OstInvariant (number : Reading → ℚ) (valid : UpdateCall → Prop) (P : Oststat ℚ → Prop) :
    Prop where
  create : ∀ {c}, valid c → c.marker = "-OST".toList → P (createOststat c.target c.staleSecs)
  osc : ∀ {o}, P o → ∀ state tnow trcv staleSecs, P (setTgtstate state tnow trcv staleSecs o)
  report : ∀ {o}, P o → ∀ r trcv, P (reportOst (fun _ => number) r trcv o)
  setTag : ∀ {o}, P o → ∀ tagval, P (o.setTag tagval)

/-- The same for MDTs, which have no tags. -/
structure MdtInvariant (number : Reading → ℚ) (valid : UpdateCall → Prop) (Q : Mdtstat ℚ → Prop) :
    Prop where
  create : ∀ {c}, valid c → c.marker = "-MDT".toList → Q (createMdtstat c.target c.staleSecs)
  report : ∀ {m}, Q m → ∀ r trcv version, Q (reportMdt (fun _ => number) r trcv version m)

theorem OstInvariant.toggleNth (hP : OstInvariant number valid P) {ostData : List (Oststat ℚ)}
    (h : ∀ o ∈ ostData, P o) (selost n : ℤ) : ∀ o ∈ (toggleNth selost n ostData).1, P o := by
  induction ostData generalizing n with
  | nil => exact h
  | cons o ostData ih =>
    rw [List.forall_mem_cons] at h
    unfold Lmt.toggleNth
    split_ifs
    · exact List.forall_mem_cons.mpr ⟨hP.setTag h.1 _, h.2⟩
    · exact List.forall_mem_cons.mpr ⟨h.1, ih h.2 _⟩

theorem OstInvariant.tagOstByoss (hP : OstInvariant number valid P)
    {ostData : List (Oststat ℚ)} (h : ∀ o ∈ ostData, P o) (ossname : Text) (tagval : Bool) :
    ∀ o ∈ tagOstByoss ostData ossname tagval, P o := by
  intro o ho
  obtain ⟨o', ho', rfl⟩ := List.mem_map.mp ho
  split_ifs
  · exact hP.setTag (h o' ho') tagval
  · exact h o' ho'

theorem targetStep_forall (hP : OstInvariant number valid P)
    (hQ : MdtInvariant number valid Q) {st : TargetLists ℚ} {a : TargetAction}
    (h : (∀ o ∈ st.ostData, P o) ∧ ∀ m ∈ st.mdtData, Q m) (ha : a.Meets valid) :
    (∀ o ∈ (targetStep number st a).ostData, P o) ∧
      ∀ m ∈ (targetStep number st a).mdtData, Q m := by
  obtain ⟨host, hmdt⟩ := h
  cases a with
  | update c =>
    cases c with
    | osc name state tnow trcv staleSecs =>
      refine ⟨forall_mem_updateFirst host (hP.osc ?_ state tnow trcv staleSecs), hmdt⟩
      exact forall_firstOrNew host (hP.create ha rfl)
    | ost r trcv staleSecs =>
      refine ⟨forall_mem_updateFirst host (hP.report ?_ r trcv), hmdt⟩
      exact forall_firstOrNew host (hP.create ha rfl)
    | mdt r trcv staleSecs version =>
      refine ⟨host, forall_mem_updateFirst hmdt (hQ.report ?_ r trcv version)⟩
      exact forall_firstOrNew hmdt (hQ.create ha rfl)
  | sortOst f => exact ⟨fun o ho => host o ((mem_listSort f).mp ho), hmdt⟩
  | sortMdt f => exact ⟨host, fun m hm => hmdt m ((mem_listSort f).mp hm)⟩
  | tagOst selost => exact ⟨hP.toggleNth host selost 0, hmdt⟩
  | tagOss ossData selost =>
    refine ⟨?_, hmdt⟩
    change ∀ o ∈ ((tagNthOst ossData selost (some st.ostData)).2).getD [], P o
    cases hoss : nthOst ossData selost with
    | none =>
      rw [tagNthOst_of_none hoss]
      exact host
    | some oss =>
      rw [tagNthOst_of_some hoss]
      exact hP.tagOstByoss host _ _
  | clearTags =>
    refine ⟨?_, hmdt⟩
    intro o ho
    obtain ⟨o', ho', rfl⟩ := List.mem_map.mp ho
    exact hP.setTag (host o' ho') false
  | empty => exact ⟨List.forall_mem_nil _, List.forall_mem_nil _⟩

theorem targetRun_forall (hP : OstInvariant number valid P)
    (hQ : MdtInvariant number valid Q) {actions : List TargetAction}
    (h : ∀ a ∈ actions, a.Meets valid) :
    (∀ o ∈ (Runs.run (targetStep number) .empty actions).ostData, P o) ∧
      ∀ m ∈ (Runs.run (targetStep number) .empty actions).mdtData, Q m := by
  have hstep (st : TargetLists ℚ) (a : TargetAction)
      (hst : (∀ o ∈ st.ostData, P o) ∧ ∀ m ∈ st.mdtData, Q m) (ha : a.Meets valid) :=
    targetStep_forall hP hQ hst ha
  exact Runs.invariant_run hstep ⟨List.forall_mem_nil _, List.forall_mem_nil _⟩ h

end

section

variable (number : Reading → ℚ) (staleSecs : ℤ)

/-- All samples of an OST expire after the same time. -/
def Oststat.HasStaleSecs (o : Oststat ℚ) : Prop := ∀ s ∈ o.samples, s.staleSecs = staleSecs

def Mdtstat.HasStaleSecs (m : Mdtstat ℚ) : Prop := ∀ s ∈ m.samples, s.staleSecs = staleSecs

theorem Oststat.hasStaleSecs_invariant :
    OstInvariant number (·.staleSecs = staleSecs) (Oststat.HasStaleSecs staleSecs) where
  create := by
    rintro c rfl -
    simp [Oststat.HasStaleSecs, Oststat.samples, createOststat, createTarget]
  osc h state tnow trcv staleSecs := h
  report := by
    intro o h r trcv
    simp only [Oststat.HasStaleSecs, Oststat.samples, List.mem_cons, List.not_mem_nil, or_false,
      forall_eq_or_imp, forall_eq] at h
    unfold reportOst
    split_ifs <;> simp [Oststat.HasStaleSecs, Oststat.samples, sampleOststat, failoverOst, h]
  setTag h tagval := h

theorem sampleMdop_hasStaleSecs {servername : Text} {trcv : ℤ} {m : Mdtstat ℚ}
    (h : m.HasStaleSecs staleSecs) (op : MdtOp) :
    (sampleMdop (fun _ => number) servername trcv m op).HasStaleSecs staleSecs := by
  simp only [Mdtstat.HasStaleSecs, Mdtstat.samples, List.mem_cons, List.not_mem_nil, or_false,
    forall_eq_or_imp, forall_eq] at h
  unfold sampleMdop
  cases mdopSample op.opname with
  | none => simpa [Mdtstat.HasStaleSecs, Mdtstat.samples] using h
  | some k => cases k <;> simp [Mdtstat.HasStaleSecs, Mdtstat.samples, Mdtstat.modify, h]

theorem sampleMdtstat_hasStaleSecs {r : MdtReport} {trcv : ℤ} {version : ℕ} {m : Mdtstat ℚ}
    (h : m.HasStaleSecs staleSecs) :
    (sampleMdtstat (fun _ => number) r trcv version m).HasStaleSecs staleSecs := by
  simp only [Mdtstat.HasStaleSecs, Mdtstat.samples, List.mem_cons, List.not_mem_nil, or_false,
    forall_eq_or_imp, forall_eq] at h
  simp [Mdtstat.HasStaleSecs, Mdtstat.samples, sampleMdtstat, h]

theorem failoverMdt_hasStaleSecs {m : Mdtstat ℚ} (h : m.HasStaleSecs staleSecs)
    (servername : Text) : (failoverMdt m servername).HasStaleSecs staleSecs := by
  simp only [Mdtstat.HasStaleSecs, Mdtstat.samples, List.mem_cons, List.not_mem_nil, or_false,
    forall_eq_or_imp, forall_eq] at h
  simp [Mdtstat.HasStaleSecs, Mdtstat.samples, failoverMdt, h]

theorem Mdtstat.hasStaleSecs_invariant :
    MdtInvariant number (·.staleSecs = staleSecs) (Mdtstat.HasStaleSecs staleSecs) where
  create := by
    rintro c rfl -
    simp [Mdtstat.HasStaleSecs, Mdtstat.samples, createMdtstat, createTarget]
  report := by
    intro m h r trcv version
    have hops (ops : List MdtOp) {m : Mdtstat ℚ} (h : m.HasStaleSecs staleSecs) :
        (ops.foldl (sampleMdop (fun _ => number) r.servername trcv) m).HasStaleSecs staleSecs := by
      induction ops generalizing m with
      | nil => exact h
      | cons op ops ih => exact ih (sampleMdop_hasStaleSecs number staleSecs h op)
    unfold reportMdt
    split_ifs
    · exact hops _ (sampleMdtstat_hasStaleSecs number staleSecs h)
    · exact hops _ (sampleMdtstat_hasStaleSecs number staleSecs
        (failoverMdt_hasStaleSecs staleSecs h _))
    · exact h

theorem ossname_invariant : OstInvariant number (fun _ => True) fun o => o.ossname = [] where
  create _ _ := rfl
  osc h state tnow trcv staleSecs := h
  report := by
    intro o h r trcv
    unfold reportOst
    split_ifs <;> exact h
  setTag h tagval := h

end

theorem ossname_summarizeOst {ostData : List (Oststat ℚ)} (h : ∀ o ∈ ostData, o.ossname = [])
    (tnow staleSecs : ℤ) : ∀ oss ∈ summarizeOst ostData tnow staleSecs, oss.ossname = [] := by
  intro oss hoss
  rw [summarizeOst, mem_listSort, TargetKind.summarizeTarget_eq_group] at hoss
  have hnew : ∀ o ∈ ostData.filter (ostKind.Fresh tnow staleSecs),
      (ostKind.start o).ossname = [] := fun o ho => h o (List.mem_of_mem_filter ho)
  have hmerge : ∀ o oss : Oststat ℚ, oss.ossname = [] → (ostKind.merge o oss).ossname = [] :=
    fun o oss hoss => hoss
  exact Grouping.forall_mem_group hnew hmerge oss hoss

theorem mem_of_nthOst {ostData : List (Oststat ℚ)} {selost : ℤ} {o : Oststat ℚ}
    (h : nthOst ostData selost = some o) : o ∈ ostData := by
  unfold nthOst at h
  split_ifs at h
  exact List.mem_of_getElem? h

/-- In a run, tagging a server tags exactly its targets if and only if the OSTs of
all other servers have the new tag already. -/
theorem tagNthOst_run_iff {number : Reading → ℚ} {actions : List TargetAction}
    {ostData : List (Oststat ℚ)}
    (hrun : (Runs.run (targetStep number) .empty actions).ostData = ostData)
    (tnow staleSecs selost : ℤ) :
    TagsItsTargets (summarizeOst ostData tnow staleSecs) ostData selost ↔
      ∀ oss, nthOst (summarizeOst ostData tnow staleSecs) selost = some oss → ∀ o ∈ ostData,
        o.common.servername ≠ oss.common.servername → o.common.tag = !oss.common.tag := by
  have hmdt : MdtInvariant number (fun _ => True) fun _ => True :=
    ⟨fun _ _ => trivial, fun _ _ _ _ => trivial⟩
  have hname := (targetRun_forall (ossname_invariant number) hmdt
    (TargetAction.meets_true actions)).1
  rw [hrun] at hname
  rw [tagsItsTargets_iff]
  apply forall₂_congr
  intro oss hoss
  apply forall₂_congr
  intro o ho
  have hosts : oss.ossname = [] :=
    ossname_summarizeOst hname tnow staleSecs oss (mem_of_nthOst hoss)
  unfold TaggedAlike
  rw [hname o ho, hosts]
  tauto

end Lmt
