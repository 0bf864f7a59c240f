import Lmt.Proc.CpuUsage
import Lmt.Proc.Discipline

/-!
# What the metrics are made of

The values that the servers put in their metrics, one function of the program for
each. A function that succeeds has read what the files hold and leaves the
context closed, so that the next one finds it closed.
-/

namespace Lmt

open Attempts FormattedText HashTables

def procLustreValue (fs : ProcFs) (tmplOst tmplMdt name : Text) : ProcM (Except Errno UInt64) :=
  if occurs name "-OST" then readint1 fs tmplOst name
  else if occurs name "-MDT" then readint1 fs tmplMdt name
  else pure (.error .inval)

def procLustreKbytes (fs : ProcFs) (name : Text) : ProcM (Except Errno (UInt64 × UInt64)) :=
  procLustreFree fs "fs/lustre/obdfilter/%s/kbytesfree".toList
    "fs/lustre/obdfilter/%s/kbytestotal".toList "%s/kbytesfree".toList "%s/kbytestotal".toList name

def procLustreNumExports (fs : ProcFs) (name : Text) : ProcM (Except Errno UInt64) :=
  procLustreValue fs "fs/lustre/obdfilter/%s/num_exports".toList "%s/num_exports".toList name

/-- `NONFATAL_MISSING_LDLM_STATS` -/
def nonfatalMissing : Except Errno UInt64 → Except Errno UInt64
  | .error .noent => .ok 0
  | r => r

/-- A number of the lock manager, which may be missing. -/
def procLustreLdlmValue (fs : ProcFs) (tmplOst tmplMdt name : Text) :
    ProcM (Except Errno UInt64) :=
  nonfatalMissing <$> procLustreValue fs tmplOst tmplMdt name

def procLustreLdlmLockCount (fs : ProcFs) (name : Text) : ProcM (Except Errno UInt64) :=
  procLustreLdlmValue fs "fs/lustre/ldlm/namespaces/filter-%s_UUID/lock_count".toList
    "fs/lustre/ldlm/namespaces/mds-%s_UUID/lock_count".toList name

def procLustreLdlmGrantRate (fs : ProcFs) (name : Text) : ProcM (Except Errno UInt64) :=
  procLustreLdlmValue fs "fs/lustre/ldlm/namespaces/filter-%s_UUID/pool/grant_rate".toList
    "fs/lustre/ldlm/namespaces/mds-%s_UUID/pool/grant_rate".toList name

def procLustreLdlmCancelRate (fs : ProcFs) (name : Text) : ProcM (Except Errno UInt64) :=
  procLustreLdlmValue fs "fs/lustre/ldlm/namespaces/filter-%s_UUID/pool/cancel_rate".toList
    "fs/lustre/ldlm/namespaces/mds-%s_UUID/pool/cancel_rate".toList name

/-- What `get_recovstr` prints of a recovery status; `ltop` depends on the status being first. -/
def recoveryText (rh : StatsTable) : Option Text :=
  match rh.find slot "status:".toList with
  | none => none
  | some status =>
    match rh.find slot "non-ready".toList with
    | some waitingfor => some (status ++ " on ".toList ++ waitingfor)
    | none =>
      some (status ++ ' ' :: (rh.find slot "completed_clients:".toList).getD [] ++
        ' ' :: (rh.find slot "time_remaining:".toList).getD ['0'] ++ "s remaining".toList)

/-- `get_recovstr`: what does not fit the buffer of `len` bytes is cut off. -/
def getRecovstr (fs : ProcFs) (name : Text) (len : ℤ) : ProcM (Except Errno Text) := do
  match ← procLustreHashrecov fs name with
  | .error e => pure (.error e)
  | .ok rh =>
    match recoveryText rh with
    | none => pure (.error .ok)
    | some text => pure (.ok (snprintf len text).2)

/-- `" MemTotal: %lu kB MemFree: %lu kB"` -/
def meminfoFormat : List Directive :=
  .space :: ("MemTotal:".toList.map Directive.lit ++ .space :: .uint64 :: .space ::
    ("kB".toList.map Directive.lit ++ .space :: ("MemFree:".toList.map Directive.lit ++
      .space :: .uint64 :: .space :: "kB".toList.map Directive.lit)))

def scannedMemory : List Scanned → Except Errno (UInt64 × UInt64)
  | [.uint64 ktot, .uint64 kfree] => .ok (ktot, kfree)
  | _ => .error .io

/-- `proc_meminfo`: the total and the free memory. -/
def procMeminfo (fs : ProcFs) : ProcM (Except Errno (UInt64 × UInt64)) := do
  match ← procOpen fs "meminfo".toList with
  | .error e => pure (.error e)
  | .ok () =>
    let vals ← procScanf meminfoFormat
    procClose
    pure (scannedMemory vals)

def lnetPath (lustreVersion : Int32) (inProc inDebugfs : Text) : Text :=
  if oscInProc lustreVersion then inProc else inDebugfs

/-- Nine numbers that are not kept, one that is, and another one that is not. -/
def newbytesFormat : List Directive :=
  (List.replicate 9 [.skip .uint64, .space]).flatten ++ [.uint64, .space, .skip .uint64]

def procLustreLnetNewbytes (fs : ProcFs) : ProcM (Except Errno UInt64) := do
  let lustreVersion ← packedLustreVersion fs
  match ← procOpen fs
    (lnetPath lustreVersion "sys/lnet/stats".toList "kernel/debug/lnet/stats".toList) with
  | .error e => pure (.error e)
  | .ok () =>
    let vals ← procScanf newbytesFormat
    procClose
    pure (scannedUInt64 vals)

def routingEnabled : Option Text → Except Errno Bool
  | some line =>
    if line = "Routing enabled".toList then .ok true
    else if line = "Routing disabled".toList then .ok false
    else .error .io
  | none => .error .io

/-- `proc_lustre_lnet_routing_enabled`. A missing file keeps its own error. -/
def procLustreLnetRoutingEnabled (fs : ProcFs) : ProcM (Except Errno Bool) := do
  let lustreVersion ← packedLustreVersion fs
  match ← procOpen fs
    (lnetPath lustreVersion "sys/lnet/routes".toList "kernel/debug/lnet/routes".toList) with
  | .error e => pure (.error e)
  | .ok () =>
    let line ← procGets 32
    procClose
    pure (routingEnabled line)

/-- `if (x < 0) goto done;` in a function that returns -1 at `done`. -/
def orDone {α β : Type} (x : ProcM (Except Errno α)) (next : α → ProcM (Option β)) :
    ProcM (Option β) := do
  match ← x with
  | .error _ => pure none
  | .ok a => next a

/-- Called with a closed context, the function succeeds with this result only, and closes the
context again. -/
def Reads {α : Type} (x : ProcM (Except Errno α)) (v : Except Errno α) : Prop :=
  ∀ a ctx, exec x .closed = (some (.ok a), ctx) → v = .ok a ∧ ctx = .closed

section

variable {α β : Type} {x : ProcM (Except Errno α)} {v : Except Errno α}
  {next : α → ProcM (Option β)} {b : β} {ctx : Ctx}

theorem reads_of_wp (h : ∀ Q, wp x Q .closed → Q v .closed) : Reads x v := by
  intro a ctx hexec
  have hv := h (fun r c => r = .ok a ∧ c = ctx) ((wp_of_exec hexec).mpr ⟨rfl, rfl⟩)
  exact ⟨hv.1, hv.2.symm⟩

theorem Reads.orDone (hx : Reads x v)
    (h : exec (orDone x next) .closed = (some (some b), ctx)) :
    ∃ a, v = .ok a ∧ exec (next a) .closed = (some (some b), ctx) := by
  unfold Lmt.orDone at h
  obtain ⟨r, c, hexec, hnext⟩ := exec_bind_eq_some.mp h
  cases r with
  | error e => simp at hnext
  | ok a =>
    obtain ⟨hv, rfl⟩ := hx a c hexec
    exact ⟨a, hv, hnext⟩

theorem Reads.map {γ : Type} (hx : Reads x v) (g : α → γ) :
    Reads (Except.map g <$> x) (v.map g) := by
  intro c ctx hexec
  rw [exec_map, Prod.mk.injEq] at hexec
  obtain ⟨hresult, rfl⟩ := hexec
  obtain ⟨r, hr, hg⟩ := Option.map_eq_some_iff.mp hresult
  cases r with
  | error e => cases hg
  | ok a =>
    obtain ⟨rfl, hctx⟩ := hx a _ (Prod.ext hr rfl)
    exact ⟨hg, hctx⟩

end

theorem except_bind_eq_ok {α β : Type} {x : Except Errno α} {f : α → Except Errno β} {b : β} :
    x >>= f = .ok b ↔ ∃ a, x = .ok a ∧ f a = .ok b := by
  cases x with
  | error e => simp [bind, Except.bind]
  | ok a => simp [bind, Except.bind]

/-- What a function returns that opens a file, scans it and closes it. -/
def scanOf {α : Type} (format : List Directive) (result : List Scanned → Except Errno α) :
    Node → Except Errno α
  | .missing e => .error e
  | .dir _ => .error .ok
  | .file content => result (scanf format content).1

/-- What `_readstr1` returns. -/
def textOf : Node → Except Errno Text := scanOf [.word 255] scannedText

def targetTmpl (tmplOst tmplMdt name : Text) : Except Errno Text :=
  if occurs name "-OST" then .ok tmplOst
  else if occurs name "-MDT" then .ok tmplMdt
  else .error .inval

def tableOf : Node → Except Errno StatsTable
  | .missing e => .error e
  | .dir _ => .error .ok
  | .file content => (statsOf content).mapError Prod.snd

/-- The number in the first line of `meminfo` and that in the second one. -/
def memoryOf : Node → Except Errno (UInt64 × UInt64) := scanOf meminfoFormat scannedMemory

def newbytesOf : Node → Except Errno UInt64 := scanOf newbytesFormat scannedUInt64

def routingOf : Node → Except Errno Bool
  | .missing e => .error e
  | .dir _ => .error .ok
  | .file content => routingEnabled (gets 32 content).1

def timesOf : Node → Except Errno CpuTimes := scanOf procStatFormat scannedTimes

/-- The reads and writes in the histogram of a `brw_stats`; 0 if there is none. -/
def iopsOf : Node → UInt64
  | .file content =>
    let rest := (getsLoop 256 (brwSeekLine .rpc) content.length () content).2
    match (linesOf 256 content).foldlM (brwSeekLine .rpc) () with
    | .error _ =>
      (histogramSort (brwParseLoop rest.length [] rest).1).foldl
        (fun iops e => iops + (e.yr + e.yw)) 0
    | .ok _ => 0
  | _ => 0

namespace ProcFs

variable (fs : ProcFs) (name : Text)

def value (tmplOst tmplMdt : Text) : Except Errno UInt64 :=
  targetTmpl tmplOst tmplMdt name >>= fun tmpl => intOf (fs.node (valuePath fs tmpl name))

def free (tmplfOst tmpltOst tmplfMdt tmpltMdt : Text) : Except Errno (UInt64 × UInt64) := do
  let f ← fs.value name tmplfOst tmplfMdt
  let t ← fs.value name tmpltOst tmpltMdt
  pure (f, t)

def files : Except Errno (UInt64 × UInt64) :=
  fs.free name "fs/lustre/obdfilter/%s/filesfree".toList
    "fs/lustre/obdfilter/%s/filestotal".toList "%s/filesfree".toList "%s/filestotal".toList

def kbytes : Except Errno (UInt64 × UInt64) :=
  fs.free name "fs/lustre/obdfilter/%s/kbytesfree".toList
    "fs/lustre/obdfilter/%s/kbytestotal".toList "%s/kbytesfree".toList "%s/kbytestotal".toList

def numExports : Except Errno UInt64 :=
  fs.value name "fs/lustre/obdfilter/%s/num_exports".toList "%s/num_exports".toList

def lockCount : Except Errno UInt64 :=
  nonfatalMissing (fs.value name "fs/lustre/ldlm/namespaces/filter-%s_UUID/lock_count".toList
    "fs/lustre/ldlm/namespaces/mds-%s_UUID/lock_count".toList)

def grantRate : Except Errno UInt64 :=
  nonfatalMissing (fs.value name "fs/lustre/ldlm/namespaces/filter-%s_UUID/pool/grant_rate".toList
    "fs/lustre/ldlm/namespaces/mds-%s_UUID/pool/grant_rate".toList)

def cancelRate : Except Errno UInt64 :=
  nonfatalMissing (fs.value name "fs/lustre/ldlm/namespaces/filter-%s_UUID/pool/cancel_rate".toList
    "fs/lustre/ldlm/namespaces/mds-%s_UUID/pool/cancel_rate".toList)

def uuid : Except Errno Text :=
  (targetTmpl "fs/lustre/obdfilter/%s/uuid".toList "%s/uuid".toList name >>= fun tmpl =>
    textOf (fs.node (textPath fs tmpl name))).map trimUuid

def stats : Except Errno StatsTable :=
  match statsTmpl fs name with
  | .error e => .error e
  | .ok tmpl =>
    match fs.node (fmtArgs tmpl [name]) with
    | .file content =>
      match statsOf content with
      | .error (_, e) => .error e
      | .ok h => ((exec (finishHashstats fs name h) .closed).1).getD (.error .ok)
    | _ => .error .ok

def iops : UInt64 := if occurs name "-OST" then iopsOf (brwNode fs name) else 0

def recovery : Except Errno StatsTable :=
  targetTmpl "fs/lustre/obdfilter/%s/recovery_status".toList
      (mdtDir fs ++ '/' :: "%s/recovery_status".toList) name >>=
    fun tmpl => tableOf (fs.node (fmtArgs tmpl [name]))

/-- The recovery status of a target as it is put in a buffer of `len` bytes. -/
def recovstr (len : ℤ) : Except Errno Text := do
  let rh ← fs.recovery name
  match recoveryText rh with
  | none => .error .ok
  | some text => .ok (snprintf len text).2

end ProcFs

section

variable {fs : ProcFs} (name : Text)

theorem reads_readint1 (tmpl : Text) :
    Reads (readint1 fs tmpl name) (intOf (fs.node (valuePath fs tmpl name))) :=
  reads_of_wp fun Q h => ((wp_readint1 tmpl name Q).mp h).2.2

theorem wp_scanning {α : Type} {path : Text} {format : List Directive}
    {result : List Scanned → Except Errno α} {Q : Except Errno α → Ctx → Prop}
    (h : wp (do
      match ← procOpen fs path with
      | .error e => pure (.error e)
      | .ok () =>
        let vals ← procScanf format
        procClose
        pure (result vals)) Q .closed) : Q (scanOf format result (fs.node path)) .closed := by
  rw [wp_bind, wp_procOpen] at h
  cases hnode : fs.node path with
  | missing e =>
    rw [hnode] at h
    exact h
  | dir entries => simp [hnode, procScanf] at h
  | file content => simpa [hnode, procScanf, scanOf] using h

theorem reads_readstr1 (tmpl : Text) :
    Reads (readstr1 fs tmpl name) (textOf (fs.node (textPath fs tmpl name))) := by
  apply reads_of_wp
  intro Q h
  unfold readstr1 newStrTmpl at h
  unfold textPath
  rw [wp_bind, wp_ite] at h
  split_ifs at h ⊢
  · rw [wp_buildMdtPath] at h
    exact wp_scanning h.2
  · rw [wp_pure] at h
    exact wp_scanning h

theorem reads_procLustreValue (tmplOst tmplMdt : Text) :
    Reads (procLustreValue fs tmplOst tmplMdt name) (fs.value name tmplOst tmplMdt) := by
  unfold procLustreValue ProcFs.value targetTmpl
  split_ifs
  · exact reads_readint1 name tmplOst
  · exact reads_readint1 name tmplMdt
  · exact reads_of_wp fun Q h => h

theorem reads_procLustreFree (tmplfOst tmpltOst tmplfMdt tmpltMdt : Text) :
    Reads (procLustreFree fs tmplfOst tmpltOst tmplfMdt tmpltMdt name)
      (fs.free name tmplfOst tmpltOst tmplfMdt tmpltMdt) := by
  have hread (tmplf tmplt : Text) (Q : Except Errno (UInt64 × UInt64) → Ctx → Prop)
      {next : Except Errno UInt64 → ProcM (Except Errno (UInt64 × UInt64))}
      (herror : ∀ e, next (.error e) = pure (.error e))
      (hok : ∀ f, ∃ last, next (.ok f) = readint1 fs tmplt name >>= last ∧
        ∀ t, last t = pure (t.map fun t => (f, t)))
      (h : wp (readint1 fs tmplf name >>= next) Q .closed) :
      Q (do
        let f ← intOf (fs.node (valuePath fs tmplf name))
        let t ← intOf (fs.node (valuePath fs tmplt name))
        pure (f, t)) .closed := by
    rw [wp_bind, wp_readint1] at h
    cases hf : intOf (fs.node (valuePath fs tmplf name)) with
    | error e =>
      have hfirst := h.2.2
      rw [hf, herror, wp_pure] at hfirst
      exact hfirst
    | ok f =>
      obtain ⟨last, hlast, hpure⟩ := hok f
      have hsecond := h.2.2
      rw [hf, hlast, wp_bind, wp_readint1, hpure, wp_pure] at hsecond
      cases ht : intOf (fs.node (valuePath fs tmplt name)) with
      | error e =>
        rw [ht] at hsecond
        exact hsecond.2.2
      | ok t =>
        rw [ht] at hsecond
        exact hsecond.2.2
  apply reads_of_wp
  intro Q h
  unfold procLustreFree at h
  unfold ProcFs.free ProcFs.value targetTmpl
  rw [wp_ite, wp_ite] at h
  split_ifs at h ⊢
  · exact hread _ _ Q (fun _ => rfl)
      (fun f => ⟨_, rfl, fun t => by cases t <;> rfl⟩) h
  · exact hread _ _ Q (fun _ => rfl)
      (fun f => ⟨_, rfl, fun t => by cases t <;> rfl⟩) h
  · exact h

theorem reads_procLustreFiles : Reads (procLustreFiles fs name) (fs.files name) :=
  reads_procLustreFree name _ _ _ _

theorem reads_procLustreKbytes : Reads (procLustreKbytes fs name) (fs.kbytes name) :=
  reads_procLustreFree name _ _ _ _

theorem reads_procLustreNumExports : Reads (procLustreNumExports fs name) (fs.numExports name) :=
  reads_procLustreValue name _ _

theorem reads_procLustreLdlmValue (tmplOst tmplMdt : Text) :
    Reads (procLustreLdlmValue fs tmplOst tmplMdt name)
      (nonfatalMissing (fs.value name tmplOst tmplMdt)) := by
  apply reads_of_wp
  intro Q h
  unfold procLustreLdlmValue procLustreValue at h
  unfold ProcFs.value targetTmpl
  rw [wp_map, wp_ite, wp_ite] at h
  split_ifs at h ⊢
  · exact ((wp_readint1 _ _ _).mp h).2.2
  · exact ((wp_readint1 _ _ _).mp h).2.2
  · exact h

theorem reads_procLustreUuid : Reads (procLustreUuid fs name) (fs.uuid name) := by
  unfold procLustreUuid ProcFs.uuid targetTmpl
  split_ifs
  · exact (reads_readstr1 name _).map trimUuid
  · exact (reads_readstr1 name _).map trimUuid
  · exact reads_of_wp fun Q h => h

/-- Stats that could be aggregated were read to the end of the last file. -/
theorem closed_of_aggregateExports {mdtDir mdtName : Text} {names : List Text}
    {h h' : StatsTable} {ctx : Ctx}
    (hexec : exec (aggregateExports fs mdtDir mdtName names h) .closed = (some (.ok (), h'), ctx)) :
    ctx = .closed := by
  replace hexec := (wp_of_exec (Q := fun r c => r = (.ok (), h') ∧ c = ctx) hexec).mpr ⟨rfl, rfl⟩
  induction names generalizing h with
  | nil => exact hexec.2.symm
  | cons name names ih =>
    unfold aggregateExports procOpenf at hexec
    rw [wp_bind, wp_procOpen] at hexec
    cases hnode : fs.node (fmtArgs "%s/%s/exports/%s/stats".toList [mdtDir, mdtName, name]) with
    | missing e =>
      simp only [hnode, wp_pure] at hexec
      exact hexec.2.symm
    | dir entries =>
      simp only [hnode, wp_bind] at hexec
      exact hexec.elim
    | file content =>
      simp only [hnode, wp_bind, wp_hashAggregateStats_file] at hexec
      rcases hagg : aggregateResult
        ((linesOf 256 content).foldlM hashAggregateLine h) with ⟨e | u, h₁⟩
      · simp [hagg] at hexec
      · simp only [hagg, wp_bind, wp_procClose_file] at hexec
        exact ih hexec

theorem closed_of_finishHashstats {h h' : StatsTable} {ctx : Ctx}
    (hexec : wp (finishHashstats fs name h) (fun r c => r = .ok h' ∧ c = ctx) .closed) :
    ctx = .closed := by
  unfold finishHashstats fixMdtStats completeMdtStats aggregateMdtExportStats at hexec
  rw [wp_ite] at hexec
  split_ifs at hexec
  · have hnames (names : List Text)
        (hrun : wp (if names.length = 0 then pure (.ok (), h)
            else aggregateExports fs (mdtDir fs) name names h)
          (fun r c => wp (match r.1 with
              | .error e => (pure (.error e) : ProcM (Except Errno StatsTable))
              | .ok () => pure (.ok (r.2.forEach fun n => (rekeyMdtStats n.1, n.2))))
            (fun r c => r = .ok h' ∧ c = ctx) c) .closed) : ctx = .closed := by
      rw [wp_ite] at hrun
      split_ifs at hrun
      · exact hrun.2.symm
      · obtain ⟨⟨e | u, h₁⟩, c, hagg, hdone⟩ := wp_iff.mp hrun
        · simp at hdone
        · obtain ⟨-, rfl⟩ := hdone
          exact closed_of_aggregateExports hagg
    simp only [wp_bind, wp_findMdtDir, wp_procLustreMdtExportlist, wp_subdirlist] at hexec
    obtain ⟨-, -, hlist⟩ := hexec
    cases hnode : fs.node (exportsPath fs name) with
    | missing e =>
      rw [hnode] at hlist
      exact hnames _ hlist
    | file content => simp [hnode] at hlist
    | dir entries =>
      rw [hnode] at hlist
      exact hnames _ hlist
  · exact hexec.2.symm
  · exact hexec.2.symm

theorem reads_procLustreHashstats : Reads (procLustreHashstats fs name) (fs.stats name) := by
  intro h' ctx hexec
  have hwp := (wp_of_exec (Q := fun r c => r = .ok h' ∧ c = ctx) hexec).mpr ⟨rfl, rfl⟩
  obtain ⟨-, hstats⟩ := (wp_procLustreHashstats name _).mp hwp
  unfold ProcFs.stats
  cases htmpl : statsTmpl fs name with
  | error e => simp [htmpl] at hstats
  | ok tmpl =>
    rw [htmpl] at hstats
    obtain ⟨content, hnode, hcontent⟩ := hstats
    simp only [hnode]
    cases hof : statsOf content with
    | error e => simp [hof] at hcontent
    | ok h =>
      simp only [hof] at hcontent
      have hclosed := closed_of_finishHashstats name hcontent
      obtain ⟨r, c, hfinish, rfl, rfl⟩ := wp_iff.mp hcontent
      simp [hfinish, hclosed]

theorem wp_getIops (Q : Except Errno UInt64 → Ctx → Prop)
    (h : wp (getIops fs name) Q .closed) :
    ∃ r, Q r .closed ∧ fs.iops name = match r with | .ok n => n | .error _ => 0 := by
  unfold getIops procLustreBrwstats at h
  unfold ProcFs.iops brwNode
  rw [wp_bind, wp_ite] at h
  split_ifs at h ⊢
  · rw [wp_bind, wp_openFirst] at h
    cases hnode : firstNode fs name brwStatsPaths .ok with
    | missing e =>
      simp only [hnode, wp_pure] at h
      exact ⟨_, h, rfl⟩
    | dir entries => simp [hnode, brwSeek] at h
    | file content =>
      simp only [hnode, brwSeek, wp_bind, wp_procGetsLoop_file] at h
      unfold iopsOf
      cases hseek : (linesOf 256 content).foldlM (brwSeekLine .rpc) () with
      | error u =>
        simp only [hseek, wp_pure, if_true, wp_bind, brwParse, wp_map, wp_reading_file,
          wp_procClose_file] at h
        exact ⟨_, h, by simp [hseek]⟩
      | ok u =>
        simp only [hseek, wp_pure, Bool.false_eq_true, if_false, wp_bind, wp_procClose_file] at h
        exact ⟨_, h, by simp [hseek]⟩
  · exact ⟨_, h, rfl⟩

theorem reads_procLustreHashrecov : Reads (procLustreHashrecov fs name) (fs.recovery name) := by
  have hread (path : Text) (Q : Except Errno StatsTable → Ctx → Prop)
      {next : Except Errno Unit → ProcM (Except Errno StatsTable)}
      (herror : ∀ e, next (.error e) = pure (.error e))
      (hok : ∃ last, next (.ok ()) = hashStats .empty >>= last ∧
        ∀ r, last (statsResult r) = procClose >>= fun _ => pure (r.mapError Prod.snd))
      (h : wp (procOpen fs path >>= next) Q .closed) : Q (tableOf (fs.node path)) .closed := by
    obtain ⟨last, hlast, hclose⟩ := hok
    rw [wp_bind, wp_procOpen] at h
    cases hnode : fs.node path with
    | missing e => simpa [hnode, herror, tableOf] using h
    | dir entries => simp [hnode, hlast, hashStats] at h
    | file content =>
      simp only [hnode, hlast, wp_bind, wp_hashStats_file, hclose, wp_procClose_file,
        wp_pure] at h
      exact h
  apply reads_of_wp
  intro Q h
  unfold procLustreHashrecov openRecovery at h
  unfold ProcFs.recovery targetTmpl
  split_ifs at h ⊢
  · exact hread _ Q (fun _ => rfl) ⟨_, rfl, fun r => by rcases r with ⟨_, _⟩ | _ <;> rfl⟩ h
  · rw [bind_assoc, wp_bind, wp_buildMdtPath] at h
    exact hread _ Q (fun _ => rfl) ⟨_, rfl, fun r => by rcases r with ⟨_, _⟩ | _ <;> rfl⟩ h.2
  · exact h

theorem reads_getRecovstr (len : ℤ) : Reads (getRecovstr fs name len) (fs.recovstr name len) := by
  intro text ctx hexec
  unfold getRecovstr at hexec
  obtain ⟨r, c, hrecov, hnext⟩ := exec_bind_eq_some.mp hexec
  cases r with
  | error e => simp at hnext
  | ok rh =>
    obtain ⟨hrh, rfl⟩ := reads_procLustreHashrecov name rh c hrecov
    cases htext : recoveryText rh with
    | none => simp [htext] at hnext
    | some t =>
      simp only [htext, exec_pure, Prod.mk.injEq, Option.some_inj] at hnext
      obtain ⟨ht, rfl⟩ := hnext
      exact ⟨except_bind_eq_ok.mpr ⟨rh, hrh, by rw [htext]; exact ht⟩, rfl⟩

theorem reads_procMeminfo : Reads (procMeminfo fs) (memoryOf (fs.node "meminfo".toList)) :=
  reads_of_wp fun _ h => wp_scanning h

theorem reads_procStat : Reads (procStat fs) (timesOf (fs.node statPath)) :=
  reads_of_wp fun _ h => wp_scanning h

theorem reads_procStat2 (usage total : UInt64) :
    Reads (procStat2 fs usage total)
      ((timesOf (fs.node statPath)).map (cpuUsage usage total)) := by
  intro r ctx hexec
  unfold procStat2 at hexec
  obtain ⟨t, c, hstat, hnext⟩ := exec_bind_eq_some.mp hexec
  cases t with
  | error e => simp at hnext
  | ok t =>
    obtain ⟨ht, rfl⟩ := reads_procStat t c hstat
    rw [ht]
    cases hnext
    exact ⟨rfl, rfl⟩

def ProcFs.lnetStats (fs : ProcFs) : Node :=
  fs.node (lnetPath (lustreVersion fs) "sys/lnet/stats".toList "kernel/debug/lnet/stats".toList)

def ProcFs.lnetRoutes (fs : ProcFs) : Node :=
  fs.node (lnetPath (lustreVersion fs) "sys/lnet/routes".toList "kernel/debug/lnet/routes".toList)

theorem reads_procLustreLnetNewbytes :
    Reads (procLustreLnetNewbytes fs) (newbytesOf fs.lnetStats) := by
  apply reads_of_wp
  intro Q h
  unfold procLustreLnetNewbytes at h
  rw [wp_bind, wp_packedLustreVersion] at h
  exact wp_scanning h.2

theorem reads_procLustreLnetRoutingEnabled :
    Reads (procLustreLnetRoutingEnabled fs) (routingOf fs.lnetRoutes) := by
  apply reads_of_wp
  intro Q h
  unfold procLustreLnetRoutingEnabled at h
  rw [wp_bind, wp_packedLustreVersion, wp_bind, wp_procOpen] at h
  obtain ⟨-, hopen⟩ := h
  unfold ProcFs.lnetRoutes
  cases hnode : fs.node (lnetPath (lustreVersion fs) "sys/lnet/routes".toList
      "kernel/debug/lnet/routes".toList) with
  | missing e =>
    rw [hnode] at hopen
    exact hopen
  | dir entries =>
    rw [hnode] at hopen
    simp [procGets] at hopen
  | file content =>
    rw [hnode] at hopen
    simpa [procGets, routingOf] using hopen

end

end Lmt
