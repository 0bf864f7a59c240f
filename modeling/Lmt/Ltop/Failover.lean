import Lmt.Library.Runs
import Lmt.Ltop.Targets

/-!
# Failover and the origin of data points

Storing with every data point the server it came from changes nothing in what
the updates do. In a run with origins one can read off whether the samples of a
record mix servers. `_update_mdt` never mixes them. `_update_ost` leaves
`grant_rate`, `cancel_rate` and `connect` as they were on failover, so its
records stay unmixed exactly as long as no OST changes its server.
-/

namespace Lmt

open FormattedText FirstMatch

/-- A call of one of the functions that update target records. -/
inductive UpdateCall where
  | osc (name state : Text) (tnow trcv staleSecs : ℤ)
  | ost (r : OstReport) (trcv staleSecs : ℤ)
  | mdt (r : MdtReport) (trcv staleSecs : ℤ) (version : ℕ)

def UpdateCall.servername : UpdateCall → Text
  | .osc .. => []
  | .ost r .. => r.servername
  | .mdt r .. => r.servername

section

variable {V W : Type*} [Inhabited V] [Inhabited W]

def updateTargets (point : Text → Reading → V) (st : TargetLists V) : UpdateCall → TargetLists V
  | .osc name state tnow trcv staleSecs =>
    { st with ostData := updateOsc name state st.ostData tnow trcv staleSecs }
  | .ost r trcv staleSecs => { st with ostData := updateOst point r st.ostData trcv staleSecs }
  | .mdt r trcv staleSecs version =>
    { st with mdtData := updateMdt point r st.mdtData trcv staleSecs version }

end

section

variable {V W : Type*}

def Oststat.samples (o : Oststat V) : List (Sample V) :=
  [o.rbytes, o.wbytes, o.iops, o.numExports, o.lockCount, o.grantRate, o.cancelRate, o.connect,
    o.kbytesFree, o.kbytesTotal, o.common.pctCpu, o.common.pctMem]

def Mdtstat.samples (m : Mdtstat V) : List (Sample V) :=
  [m.inodesFree, m.inodesTotal, m.open, m.close, m.getattr, m.setattr, m.link, m.unlink, m.mkdir,
    m.rmdir, m.statfs, m.rename, m.kbytesFree, m.kbytesTotal, m.getxattr, m.common.pctCpu,
    m.common.pctMem, m.readBytes, m.writeBytes]

/-- Every valid data point of the samples satisfies `P`. -/
def AllPoints (P : V → Prop) (samples : List (Sample V)) : Prop := ∀ s ∈ samples, s.All P

theorem createOststat_allPoints [Inhabited V] (P : V → Prop) (name : Text) (staleSecs : ℤ) :
    AllPoints P (createOststat name staleSecs : Oststat V).samples := by
  simp [AllPoints, Oststat.samples, createOststat, createTarget, sampleCreate_all]

theorem createMdtstat_allPoints [Inhabited V] (P : V → Prop) (name : Text) (staleSecs : ℤ) :
    AllPoints P (createMdtstat name staleSecs : Mdtstat V).samples := by
  simp [AllPoints, Mdtstat.samples, createMdtstat, createTarget, sampleCreate_all]

variable {P : V → Prop} {point : Text → Reading → V}

theorem failoverOst_allPoints {o : Oststat V} (h : AllPoints P o.samples) (servername : Text) :
    AllPoints P (failoverOst o servername).samples := by
  simp only [AllPoints, Oststat.samples, List.mem_cons, List.not_mem_nil, or_false,
    forall_eq_or_imp, forall_eq] at h
  simp [AllPoints, Oststat.samples, failoverOst, sampleInvalidate_all, h]

theorem failoverMdt_allPoints (P : V → Prop) (m : Mdtstat V) (servername : Text) :
    AllPoints P (failoverMdt m servername).samples := by
  simp [AllPoints, Mdtstat.samples, failoverMdt, sampleInvalidate_all]

theorem sampleOststat_allPoints {r : OstReport} (hp : ∀ v, P (point r.servername v))
    {o : Oststat V} (h : AllPoints P o.samples) (trcv : ℤ) :
    AllPoints P (sampleOststat point r trcv o).samples := by
  simp only [AllPoints, Oststat.samples, List.mem_cons, List.not_mem_nil, or_false,
    forall_eq_or_imp, forall_eq] at h
  simp [AllPoints, Oststat.samples, sampleOststat, sampleUpdate_all, h, hp]

theorem sampleMdtstat_allPoints {r : MdtReport} (hp : ∀ v, P (point r.servername v))
    {m : Mdtstat V} (h : AllPoints P m.samples) (trcv : ℤ) (version : ℕ) :
    AllPoints P (sampleMdtstat point r trcv version m).samples := by
  simp only [AllPoints, Mdtstat.samples, List.mem_cons, List.not_mem_nil, or_false,
    forall_eq_or_imp, forall_eq] at h
  simp [AllPoints, Mdtstat.samples, sampleMdtstat, sampleUpdate_all, h, hp]

theorem sampleMdop_allPoints {servername : Text} (hp : ∀ v, P (point servername v))
    {m : Mdtstat V} (h : AllPoints P m.samples) (trcv : ℤ) (op : MdtOp) :
    AllPoints P (sampleMdop point servername trcv m op).samples := by
  simp only [AllPoints, Mdtstat.samples, List.mem_cons, List.not_mem_nil, or_false,
    forall_eq_or_imp, forall_eq] at h
  unfold sampleMdop
  cases mdopSample op.opname with
  | none => simpa [AllPoints, Mdtstat.samples] using h
  | some k => cases k <;> simp [AllPoints, Mdtstat.samples, Mdtstat.modify, sampleUpdate_all, h, hp]

theorem common_sampleMdop (servername : Text) (trcv : ℤ) (m : Mdtstat V) (op : MdtOp) :
    (sampleMdop point servername trcv m op).common = m.common := by
  unfold sampleMdop
  cases mdopSample op.opname with
  | none => rfl
  | some k => cases k <;> rfl

theorem foldl_sampleMdop_allPoints {servername : Text} (hp : ∀ v, P (point servername v))
    {m : Mdtstat V} (h : AllPoints P m.samples) (trcv : ℤ) (ops : List MdtOp) :
    AllPoints P (ops.foldl (sampleMdop point servername trcv) m).samples := by
  induction ops generalizing m with
  | nil => exact h
  | cons op ops ih => exact ih (sampleMdop_allPoints hp h trcv op)

theorem common_foldl_sampleMdop (servername : Text) (trcv : ℤ) (m : Mdtstat V)
    (ops : List MdtOp) :
    (ops.foldl (sampleMdop point servername trcv) m).common = m.common := by
  induction ops generalizing m with
  | nil => rfl
  | cons op ops ih => rw [List.foldl_cons, ih, common_sampleMdop]

end

section

variable {number : Reading → ℚ}

/-- A data point together with the server that reported it. -/
def tracked (number : Reading → ℚ) (server : Text) (r : Reading) : Text × ℚ := (server, number r)

/-- All data points of the record were reported by the server it names. -/
def Oststat.OneServer (o : Oststat (Text × ℚ)) : Prop :=
  AllPoints (·.1 = o.common.servername) o.samples

def Mdtstat.OneServer (m : Mdtstat (Text × ℚ)) : Prop :=
  AllPoints (·.1 = m.common.servername) m.samples

def TargetLists.OneServer (st : TargetLists (Text × ℚ)) : Prop :=
  (∀ o ∈ st.ostData, o.OneServer) ∧ ∀ m ∈ st.mdtData, m.OneServer

/-- A record has data points only after an accepted report, which has a positive
receive time. -/
def Oststat.Tracked (o : Oststat (Text × ℚ)) : Prop :=
  o.OneServer ∧ 0 ≤ o.common.tgtMetricTimestamp ∧
    (o.common.tgtMetricTimestamp = 0 → AllPoints (fun _ => False) o.samples)

/-- The record that a call of `_update_ost` finds or creates. -/
def ostRecord {V : Type*} [Inhabited V] (r : OstReport) (ostData : List (Oststat V))
    (staleSecs : ℤ) : Oststat V :=
  firstOrNew (matchOststat · r.ostname) (createOststat r.ostname staleSecs) ostData

/-- The call is no failover of an OST: it is refused as old, or it is the first
report of the OST, or it comes from the server of the last one. -/
def KeepsOstServer {V : Type*} [Inhabited V] (st : TargetLists V) : UpdateCall → Prop
  | .ost r trcv staleSecs =>
    let o := (ostRecord r st.ostData staleSecs).common
    trcv ≤ o.tgtMetricTimestamp ∨ o.tgtMetricTimestamp = 0 ∨ r.servername = o.servername
  | _ => True

instance {V : Type*} [Inhabited V] (st : TargetLists V) (c : UpdateCall) :
    Decidable (KeepsOstServer st c) := by
  cases c <;> unfold KeepsOstServer <;> infer_instance

theorem take_servername {name : Text} (h : name.length < maxhostnamelen) :
    name.take (maxhostnamelen - 1) = name := List.take_of_length_le (by omega)

theorem servername_sampleOststat {V : Type*} (point : Text → Reading → V) (r : OstReport)
    (trcv : ℤ) (o : Oststat V) :
    (sampleOststat point r trcv o).common.servername = o.common.servername := rfl

theorem reportOst_tracked {r : OstReport} {trcv : ℤ} {o : Oststat (Text × ℚ)}
    (hname : r.servername.length < maxhostnamelen) (h : o.Tracked)
    (hkeep : trcv ≤ o.common.tgtMetricTimestamp ∨ o.common.tgtMetricTimestamp = 0 ∨
      r.servername = o.common.servername) :
    (reportOst (tracked number) r trcv o).Tracked := by
  obtain ⟨hone, hpos, hnew⟩ := h
  unfold reportOst
  split_ifs with hlt hsame
  · have hpoint (v : Reading) : (tracked number r.servername v).1 = o.common.servername := hsame
    exact ⟨sampleOststat_allPoints hpoint hone trcv, by change 0 ≤ trcv; omega,
      fun h0 => absurd (show trcv = 0 from h0) (by omega)⟩
  · have h0 : o.common.tgtMetricTimestamp = 0 := by
      rcases hkeep with h | h | h
      · omega
      · exact h
      · exact absurd h hsame
    have hempty : AllPoints (fun v => v.1 = r.servername) o.samples :=
      fun s hs v hv => (hnew h0 s hs v hv).elim
    have hserver : (failoverOst o r.servername).common.servername = r.servername :=
      take_servername hname
    refine ⟨?_, by change 0 ≤ trcv; omega, fun h0 => absurd (show trcv = 0 from h0) (by omega)⟩
    rw [Oststat.OneServer, servername_sampleOststat, hserver]
    exact sampleOststat_allPoints (fun _ => rfl) (failoverOst_allPoints hempty _) trcv
  · exact ⟨hone, hpos, hnew⟩

theorem reportMdt_oneServer {r : MdtReport} {trcv : ℤ} {m : Mdtstat (Text × ℚ)}
    (hname : r.servername.length < maxhostnamelen) (h : m.OneServer) (version : ℕ) :
    (reportMdt (tracked number) r trcv version m).OneServer := by
  unfold reportMdt
  split_ifs with hlt hsame
  · have hpoint (v : Reading) : (tracked number r.servername v).1 = m.common.servername := hsame
    rw [Mdtstat.OneServer, common_foldl_sampleMdop]
    exact foldl_sampleMdop_allPoints hpoint (sampleMdtstat_allPoints hpoint h trcv version) trcv _
  · have hserver : (failoverMdt m r.servername).common.servername = r.servername :=
      take_servername hname
    rw [Mdtstat.OneServer, common_foldl_sampleMdop]
    rw [show (sampleMdtstat (tracked number) r trcv version
      (failoverMdt m r.servername)).common.servername = r.servername from hserver]
    exact foldl_sampleMdop_allPoints (fun _ => rfl)
      (sampleMdtstat_allPoints (fun _ => rfl) (failoverMdt_allPoints _ m _) trcv version) trcv _
  · exact h

theorem createOststat_tracked (name : Text) (staleSecs : ℤ) :
    (createOststat name staleSecs : Oststat (Text × ℚ)).Tracked :=
  ⟨createOststat_allPoints _ name staleSecs, le_rfl,
    fun _ => createOststat_allPoints _ name staleSecs⟩

/-- What every run without an OST failover keeps. -/
def TargetLists.Tracked (st : TargetLists (Text × ℚ)) : Prop :=
  (∀ o ∈ st.ostData, o.Tracked) ∧ ∀ m ∈ st.mdtData, m.OneServer

theorem updateTargets_tracked {st : TargetLists (Text × ℚ)} {c : UpdateCall}
    (hname : c.servername.length < maxhostnamelen) (h : st.Tracked) (hkeep : KeepsOstServer st c) :
    (updateTargets (tracked number) st c).Tracked := by
  obtain ⟨host, hmdt⟩ := h
  cases c with
  | osc name state tnow trcv staleSecs =>
    refine ⟨forall_mem_updateFirst host ?_, hmdt⟩
    exact forall_firstOrNew (P := Oststat.Tracked) host (createOststat_tracked name staleSecs)
  | ost r trcv staleSecs =>
    refine ⟨forall_mem_updateFirst host (reportOst_tracked hname ?_ hkeep), hmdt⟩
    exact forall_firstOrNew host (createOststat_tracked r.ostname staleSecs)
  | mdt r trcv staleSecs version =>
    refine ⟨host, forall_mem_updateFirst hmdt (reportMdt_oneServer hname ?_ version)⟩
    exact forall_firstOrNew hmdt (createMdtstat_allPoints _ r.mdtname staleSecs)

end

section

variable {V W : Type*} (f : V → W)

def GenericTarget.map (t : GenericTarget V) : GenericTarget W :=
  { fsname := t.fsname, name := t.name, servername := t.servername,
    tgtMetricTimestamp := t.tgtMetricTimestamp, recovStatus := t.recovStatus,
    tgtstate := t.tgtstate, pctCpu := t.pctCpu.map f, pctMem := t.pctMem.map f, tag := t.tag }

def Oststat.map (o : Oststat V) : Oststat W :=
  { common := o.common.map f, rbytes := o.rbytes.map f, wbytes := o.wbytes.map f,
    iops := o.iops.map f, numExports := o.numExports.map f, lockCount := o.lockCount.map f,
    grantRate := o.grantRate.map f, cancelRate := o.cancelRate.map f,
    connect := o.connect.map f, kbytesFree := o.kbytesFree.map f,
    kbytesTotal := o.kbytesTotal.map f, ossname := o.ossname }

def Mdtstat.map (m : Mdtstat V) : Mdtstat W :=
  { common := m.common.map f, inodesFree := m.inodesFree.map f,
    inodesTotal := m.inodesTotal.map f, «open» := m.open.map f, close := m.close.map f,
    getattr := m.getattr.map f, setattr := m.setattr.map f, link := m.link.map f,
    unlink := m.unlink.map f, mkdir := m.mkdir.map f, rmdir := m.rmdir.map f,
    statfs := m.statfs.map f, rename := m.rename.map f, kbytesFree := m.kbytesFree.map f,
    kbytesTotal := m.kbytesTotal.map f, getxattr := m.getxattr.map f,
    readBytes := m.readBytes.map f, writeBytes := m.writeBytes.map f }

def TargetLists.map (st : TargetLists V) : TargetLists W :=
  ⟨st.mdtData.map (Mdtstat.map f), st.ostData.map (Oststat.map f)⟩

variable {f} {point : Text → Reading → V} {point' : Text → Reading → W}

theorem map_reportOst (hp : ∀ t v, f (point t v) = point' t v) (r : OstReport) (trcv : ℤ)
    (o : Oststat V) : (reportOst point r trcv o).map f = reportOst point' r trcv (o.map f) := by
  by_cases hlt : o.common.tgtMetricTimestamp < trcv
  · by_cases hsame : r.servername = o.common.servername <;>
      simp [reportOst, Oststat.map, GenericTarget.map, hlt, hsame, sampleOststat, failoverOst, hp]
  · simp [reportOst, Oststat.map, GenericTarget.map, hlt]

theorem map_sampleMdop (hp : ∀ t v, f (point t v) = point' t v) (servername : Text) (trcv : ℤ)
    (m : Mdtstat V) (op : MdtOp) :
    (sampleMdop point servername trcv m op).map f =
      sampleMdop point' servername trcv (m.map f) op := by
  unfold sampleMdop
  cases mdopSample op.opname with
  | none => rfl
  | some k => cases k <;> simp [Mdtstat.map, Mdtstat.modify, hp]

theorem map_reportMdt (hp : ∀ t v, f (point t v) = point' t v) (r : MdtReport) (trcv : ℤ)
    (version : ℕ) (m : Mdtstat V) :
    (reportMdt point r trcv version m).map f = reportMdt point' r trcv version (m.map f) := by
  by_cases hlt : m.common.tgtMetricTimestamp < trcv
  · have hsample (m : Mdtstat V) : (sampleMdtstat point r trcv version m).map f =
        sampleMdtstat point' r trcv version (m.map f) := by
      simp [Mdtstat.map, GenericTarget.map, sampleMdtstat, hp]
    have hfail : (failoverMdt m r.servername).map f = failoverMdt (m.map f) r.servername := rfl
    have hops := Runs.run_map (Mdtstat.map f) id (map_sampleMdop hp r.servername trcv)
    simp only [Runs.run, List.map_id] at hops
    have hcommon : (m.map f).common.tgtMetricTimestamp < trcv := hlt
    rw [reportMdt, if_pos hlt, hops, hsample, reportMdt, if_pos hcommon]
    have hserver : (m.map f).common.servername = m.common.servername := rfl
    rw [hserver, apply_ite (Mdtstat.map f), hfail]
  · have hcommon : ¬(m.map f).common.tgtMetricTimestamp < trcv := hlt
    rw [reportMdt, if_neg hlt, reportMdt, if_neg hcommon]

variable [Inhabited V] [Inhabited W]

theorem map_createOststat (hf : f default = default) (name : Text) (staleSecs : ℤ) :
    (createOststat name staleSecs : Oststat V).map f = createOststat name staleSecs := by
  simp [Oststat.map, GenericTarget.map, createOststat, createTarget, map_sampleCreate f hf]

theorem map_createMdtstat (hf : f default = default) (name : Text) (staleSecs : ℤ) :
    (createMdtstat name staleSecs : Mdtstat V).map f = createMdtstat name staleSecs := by
  simp [Mdtstat.map, GenericTarget.map, createMdtstat, createTarget, map_sampleCreate f hf]

theorem map_updateOsc (hf : f default = default) (name state : Text) (ostData : List (Oststat V))
    (tnow trcv staleSecs : ℤ) :
    (updateOsc name state ostData tnow trcv staleSecs).map (Oststat.map f) =
      updateOsc name state (ostData.map (Oststat.map f)) tnow trcv staleSecs := by
  rw [updateOsc, updateOsc, ← map_createOststat hf]
  exact map_updateFirst (q := (matchOststat · name)) (k := setTgtstate state tnow trcv staleSecs)
    (Oststat.map f) (fun _ => rfl) (fun _ => rfl) ostData

theorem map_updateOst (hf : f default = default) (hp : ∀ t v, f (point t v) = point' t v)
    (r : OstReport) (ostData : List (Oststat V)) (trcv staleSecs : ℤ) :
    (updateOst point r ostData trcv staleSecs).map (Oststat.map f) =
      updateOst point' r (ostData.map (Oststat.map f)) trcv staleSecs := by
  rw [updateOst, updateOst, ← map_createOststat hf]
  exact map_updateFirst (q := (matchOststat · r.ostname)) (Oststat.map f) (fun _ => rfl)
    (map_reportOst hp r trcv) ostData

theorem map_updateMdt (hf : f default = default) (hp : ∀ t v, f (point t v) = point' t v)
    (r : MdtReport) (mdtData : List (Mdtstat V)) (trcv staleSecs : ℤ) (version : ℕ) :
    (updateMdt point r mdtData trcv staleSecs version).map (Mdtstat.map f) =
      updateMdt point' r (mdtData.map (Mdtstat.map f)) trcv staleSecs version := by
  rw [updateMdt, updateMdt, ← map_createMdtstat hf]
  exact map_updateFirst (q := (matchMdtstat · r.mdtname)) (Mdtstat.map f) (fun _ => rfl)
    (map_reportMdt hp r trcv version) mdtData

theorem map_updateTargets (hf : f default = default) (hp : ∀ t v, f (point t v) = point' t v)
    (st : TargetLists V) (c : UpdateCall) :
    (updateTargets point st c).map f = updateTargets point' (st.map f) c := by
  cases c with
  | osc name state tnow trcv staleSecs =>
    exact congrArg (TargetLists.mk _) (map_updateOsc hf name state _ tnow trcv staleSecs)
  | ost r trcv staleSecs =>
    exact congrArg (TargetLists.mk _) (map_updateOst hf hp r _ trcv staleSecs)
  | mdt r trcv staleSecs version =>
    exact congrArg (TargetLists.mk · _) (map_updateMdt hf hp r _ trcv staleSecs version)

end

section

variable (number : Reading → ℚ)

/-- A rate shown for the sample is a difference between readings of `server`. -/
def Sample.RateOf (server : Text) (s : Sample (Text × ℚ)) : Prop :=
  ∀ tnow, sampleRate (s.map Prod.snd) tnow ≠ 0 →
    ∃ v v', s.points = [(server, v), (server, v')] ∧
      sampleRate (s.map Prod.snd) tnow = (v - v') / ((s.time1 - s.time0 : ℤ) : ℚ)

theorem Sample.rateOf_of_all {server : Text} {s : Sample (Text × ℚ)} (h : s.All (·.1 = server)) :
    s.RateOf server := by
  intro tnow hrate
  obtain ⟨hpoints, hslope⟩ := sampleRate_points hrate
  have hvalid : s.points = [s.val1, s.val0] := by
    have hlen := congrArg List.length hpoints
    simp only [Sample.points, Sample.map, List.length_take, List.length_cons,
      List.length_nil] at hlen
    exact List.take_of_length_le (by simp only [List.length_cons, List.length_nil]; omega)
  have h1 : s.val1.1 = server := h _ (by simp [hvalid])
  have h0 : s.val0.1 = server := h _ (by simp [hvalid])
  refine ⟨s.val1.2, s.val0.2, ?_, hslope⟩
  rw [hvalid, ← h1]
  simp [Prod.ext_iff, h0, h1]

def TargetLists.RatesOfOneServer (st : TargetLists (Text × ℚ)) : Prop :=
  (∀ o ∈ st.ostData, ∀ s ∈ o.samples, s.RateOf o.common.servername) ∧
    ∀ m ∈ st.mdtData, ∀ s ∈ m.samples, s.RateOf m.common.servername

theorem TargetLists.OneServer.rates {st : TargetLists (Text × ℚ)} (h : st.OneServer) :
    st.RatesOfOneServer :=
  ⟨fun o ho s hs => Sample.rateOf_of_all (h.1 o ho s hs),
    fun m hm s hs => Sample.rateOf_of_all (h.2 m hm s hs)⟩

theorem ostRecord_map {V W : Type*} [Inhabited V] [Inhabited W] {f : V → W}
    (hf : f default = default) (r : OstReport) (ostData : List (Oststat V)) (staleSecs : ℤ) :
    ostRecord r (ostData.map (Oststat.map f)) staleSecs =
      (ostRecord r ostData staleSecs).map f := by
  rw [ostRecord, ostRecord, ← map_createOststat hf]
  exact firstOrNew_map (q := (matchOststat · r.ostname)) (Oststat.map f) (fun _ => rfl) ostData

theorem keepsOstServer_map {V W : Type*} [Inhabited V] [Inhabited W] {f : V → W}
    (hf : f default = default) (st : TargetLists V) (c : UpdateCall) :
    KeepsOstServer (st.map f) c ↔ KeepsOstServer st c := by
  cases c with
  | ost r trcv staleSecs =>
    simp only [KeepsOstServer, TargetLists.map, ostRecord_map hf]
    rfl
  | _ => exact Iff.rfl

/-- As long as no OST changes its server, all valid data points of a record were
reported by the server it names, and no rate mixes two servers. The run with
origins is the program's run. -/
theorem updateTargets_oneServer {calls : List UpdateCall}
    (hnames : ∀ c ∈ calls, c.servername.length < maxhostnamelen)
    (hkeep : Runs.StepsMeet (updateTargets fun _ => number) KeepsOstServer .empty calls) :
    (Runs.run (updateTargets (tracked number)) .empty calls).OneServer ∧
      (Runs.run (updateTargets (tracked number)) .empty calls).RatesOfOneServer ∧
      (Runs.run (updateTargets (tracked number)) .empty calls).map Prod.snd =
        Runs.run (updateTargets fun _ => number) .empty calls := by
  have hstep (st : TargetLists (Text × ℚ)) (c : UpdateCall) :
      (updateTargets (tracked number) st c).map Prod.snd =
        updateTargets (fun _ => number) (st.map Prod.snd) c :=
    map_updateTargets (f := Prod.snd) rfl (fun _ _ => rfl) st c
  have hrun := Runs.run_map (TargetLists.map Prod.snd) id hstep .empty calls
  have hmeet := (Runs.stepsMeet_map (TargetLists.map Prod.snd) id hstep KeepsOstServer
    .empty calls).mp (by rwa [List.map_id])
  rw [List.map_id] at hrun
  have hone : (Runs.run (updateTargets (tracked number)) .empty calls).Tracked := by
    have hvalid := hmeet.and_forall hnames
    refine Runs.invariant_of_stepsMeet (fun st c h hc => ?_) ⟨by simp [TargetLists.empty],
      by simp [TargetLists.empty]⟩ hvalid
    exact updateTargets_tracked hc.2 h ((keepsOstServer_map (f := Prod.snd) rfl st c).mp hc.1)
  have hone : (Runs.run (updateTargets (tracked number)) .empty calls).OneServer :=
    ⟨fun o ho => (hone.1 o ho).1, hone.2⟩
  exact ⟨hone, hone.rates, hrun⟩

end

section

def sampleReport (servername : String) (n : UInt64) : OstReport where
  ostname := "lc1-OST0000".toList
  servername := servername.toList
  readBytes := n
  writeBytes := n
  iops := n
  numExports := n
  lockCount := n
  grantRate := n
  cancelRate := n
  connect := n
  recovStatus := "COMPLETE".toList
  kbytesFree := n
  kbytesTotal := n
  pctCpu := 0
  pctMem := 0

/-- Two reports of an MDT that fails over between them. -/
def sampleMdtFailover : List UpdateCall :=
  ["mds1", "mds2"].zipIdx.map fun (server, i) =>
    .mdt { mdtname := "lc1-MDT0000".toList, servername := server.toList, inodesFree := 1,
           inodesTotal := 2, kbytesFree := 3, kbytesTotal := 4, pctCpu := 0, pctMem := 0,
           recovStatus := some [], mdops := ["7;0;0;open".toList] } (10 + 10 * i) 60 3

def sampleOstFailover : List UpdateCall :=
  [.ost (sampleReport "oss1" 10) 10 60, .ost (sampleReport "oss2" 500) 20 60]

theorem updateTargets_oneServer_sample :
    (Runs.run (updateTargets (tracked Reading.exact)) .empty
      (.ost (sampleReport "oss1" 10) 10 60 :: sampleMdtFailover)).OneServer :=
  (updateTargets_oneServer Reading.exact (by decide +kernel) (by decide +kernel)).1

/-- After a failover the grant rate of the OST is computed from the counters of
both servers. -/
theorem updateOst_failover_mixes_servers :
    (∀ c ∈ sampleOstFailover, c.servername.length < maxhostnamelen) ∧
      (∃ o ∈ (Runs.run (updateTargets (tracked Reading.exact)) .empty sampleOstFailover).ostData,
        o.common.servername = "oss2".toList ∧
        o.grantRate.points = [("oss2".toList, 500), ("oss1".toList, 10)] ∧
        sampleRate (o.grantRate.map Prod.snd) 20 = 49) ∧
      ¬(Runs.run (updateTargets (tracked Reading.exact)) .empty sampleOstFailover).OneServer := by
  have hmixed : ∃ o ∈ (Runs.run (updateTargets (tracked Reading.exact)) .empty
      sampleOstFailover).ostData, o.common.servername = "oss2".toList ∧
        o.grantRate.points = [("oss2".toList, 500), ("oss1".toList, 10)] ∧
        sampleRate (o.grantRate.map Prod.snd) 20 = 49 := by
    decide +kernel
  refine ⟨by decide +kernel, hmixed, fun h => ?_⟩
  obtain ⟨o, ho, hname, hpoints, -⟩ := hmixed
  have hone := h.1 o ho o.grantRate (by simp [Oststat.samples]) ("oss1".toList, 10)
    (by simp [hpoints])
  rw [hname] at hone
  exact absurd hone (by decide)

end

end Lmt
