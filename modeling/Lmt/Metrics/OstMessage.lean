import Lmt.Ltop.RepeatedMetrics
import Lmt.Metrics.OstRoundTrip
import Lmt.Proc.TargetValues

/-!
# From the files of an OSS to `ltop`

An OSS reads everything that it reports of its OSTs from the proc and sys trees,
prints it, and `ltop` applies what it decodes to the rows of the OSTs. Whatever
the trees hold, a metric that is written arrives as what they hold.
-/

namespace Lmt

open Attempts FormattedText HashTables SeparatedFields

/-- The percentages are computed in floating point. These are the millionths that `%f` prints of
the one of the CPU, and of that of the total and the free memory, whose total is not 0: of a total
of 0 it prints `nan`. -/
structure Percentages where
  cpu : ℚ → ℕ
  mem : UInt64 → UInt64 → ℕ

/-- What `_get_oststring_v2` reads. An OST without `brw_stats` has no I/O operations. -/
def readOst (fs : ProcFs) (name : Text) : ProcM (Option OstReading) :=
  orDone (procLustreUuid fs name) fun uuid =>
  orDone (procLustreHashstats fs name) fun stats => do
    let iops ← getIops fs name
    orDone (procLustreFiles fs name) fun files =>
      orDone (procLustreKbytes fs name) fun kbytes =>
      orDone (procLustreNumExports fs name) fun numExports =>
      orDone (procLustreLdlmLockCount fs name) fun lockCount =>
      orDone (procLustreLdlmGrantRate fs name) fun grantRate =>
      orDone (procLustreLdlmCancelRate fs name) fun cancelRate =>
      orDone (getRecovstr fs name recoveryStrSize) fun recovStr =>
      pure (some
        { uuid
          filesfree := files.1
          filestotal := files.2
          kbytesfree := kbytes.1
          kbytestotal := kbytes.2
          readBytes := (procLustreParsestat stats "read_bytes".toList).2.sum
          writeBytes := (procLustreParsestat stats "write_bytes".toList).2.sum
          iops := (match iops with
            | .ok n => n
            | .error _ => 0)
          numExports, lockCount, grantRate, cancelRate
          connect := (procLustreParsestat stats "connect".toList).2.count
          reconnect := (procLustreParsestat stats "reconnect".toList).2.count
          recovStr })

/-- The loop of `lmt_ost_string_v2` over the OSTs. -/
def appendOsts (fs : ProcFs) (len : ℤ) : List Text → Text → ProcM (Option Text)
  | [], s => pure (some s)
  | name :: names, s => do
    match ← readOst fs name with
    | none => pure none
    | some r =>
      match getOststringV2 r (len - s.length) with
      | none => pure none
      | some t => appendOsts fs len names (s ++ t)

/-- `lmt_ost_string_v2` with the node name that `uname` gives, and the usage and the total that
the call before has left; `none` for a return value of -1. -/
def writeOsts (pct : Percentages) (fs : ProcFs) (nodename : Option Text) (usage total : UInt64)
    (len : ℤ) : ProcM (Option Text) :=
  orDone (procLustreOstlist fs) fun ostlist =>
  if ostlist = [] then pure none
  else
    match nodename with
    | none => pure none
    | some node =>
      orDone (procStat2 fs usage total) fun cpu =>
      orDone (procMeminfo fs) fun mem =>
      match snprintfChecked len (terminate ';'
        (serverHeader ['2'] node (pct.cpu cpu.pct) (pct.mem mem.1 mem.2))) with
      | none => pure none
      | some s => appendOsts fs len ostlist s

namespace ProcFs

variable (fs : ProcFs) (name : Text)

def ostNames : Except Errno (List Text) :=
  match fs.node "fs/lustre/obdfilter".toList with
  | .missing e => .error e
  | .file _ => .error .ok
  | .dir entries => .ok (subdirNames entries)

def ostReading : Except Errno OstReading := do
  let uuid ← fs.uuid name
  let stats ← fs.stats name
  let files ← fs.files name
  let kbytes ← fs.kbytes name
  let numExports ← fs.numExports name
  let lockCount ← fs.lockCount name
  let grantRate ← fs.grantRate name
  let cancelRate ← fs.cancelRate name
  let recovStr ← fs.recovstr name recoveryStrSize
  pure
    { uuid
      filesfree := files.1
      filestotal := files.2
      kbytesfree := kbytes.1
      kbytestotal := kbytes.2
      readBytes := (procLustreParsestat stats "read_bytes".toList).2.sum
      writeBytes := (procLustreParsestat stats "write_bytes".toList).2.sum
      iops := fs.iops name
      numExports, lockCount, grantRate, cancelRate
      connect := (procLustreParsestat stats "connect".toList).2.count
      reconnect := (procLustreParsestat stats "reconnect".toList).2.count
      recovStr }

/-- The percentage of the CPU since the call before, in millionths. -/
def cpupct (pct : Percentages) (usage total : UInt64) : Except Errno ℕ :=
  (timesOf (fs.node statPath)).map fun t => pct.cpu (cpuUsage usage total t).pct

def mempct (pct : Percentages) : Except Errno ℕ :=
  (memoryOf (fs.node "meminfo".toList)).map fun m => pct.mem m.1 m.2

/-- The results of the calls of `lmt_ost_string_v2`. -/
def ostServer (pct : Percentages) (nodename : Option Text) (usage total : UInt64) : OstServer where
  ostlist := fs.ostNames.toOption
  nodename
  cpupct := (fs.cpupct pct usage total).toOption
  mempct := (fs.mempct pct).toOption
  target name := (fs.ostReading name).toOption

/-- The names and the recovery states can stand in a metric. -/
def OstFields : Prop :=
  ∀ names, fs.ostNames = .ok names → ∀ name ∈ names, ∀ r, fs.ostReading name = .ok r →
    IsField ';' r.uuid ∧ ';' ∉ r.recovStr

end ProcFs

section

variable {fs : ProcFs} {name node s t : Text} {names : List Text} {len : ℤ} {pct : Percentages}
  {usage total : UInt64} {ctx : Ctx}

theorem reads_procLustreOstlist : Reads (procLustreOstlist fs) fs.ostNames := by
  apply reads_of_wp
  intro Q h
  unfold procLustreOstlist at h
  rw [wp_subdirlist] at h
  unfold ProcFs.ostNames
  cases hnode : fs.node "fs/lustre/obdfilter".toList with
  | missing e =>
    rw [hnode] at h
    exact h
  | file content =>
    rw [hnode] at h
    exact h.elim
  | dir entries =>
    rw [hnode] at h
    exact h

theorem ostReading_of_readOst {r : OstReading}
    (h : exec (readOst fs name) .closed = (some (some r), ctx)) :
    fs.ostReading name = .ok r ∧ ctx = .closed := by
  unfold readOst at h
  obtain ⟨uuid, huuid, h⟩ := (reads_procLustreUuid name).orDone h
  obtain ⟨stats, hstats, h⟩ := (reads_procLustreHashstats name).orDone h
  obtain ⟨iops, c, hexec, h⟩ := exec_bind_eq_some.mp h
  obtain ⟨_, ⟨rfl, rfl⟩, hiops⟩ := wp_getIops name (fun r c' => r = iops ∧ c' = c)
    ((wp_of_exec hexec).mpr ⟨rfl, rfl⟩)
  obtain ⟨files, hfiles, h⟩ := (reads_procLustreFiles name).orDone h
  obtain ⟨kbytes, hkbytes, h⟩ := (reads_procLustreKbytes name).orDone h
  obtain ⟨numExports, hexports, h⟩ := (reads_procLustreNumExports name).orDone h
  obtain ⟨lockCount, hlock, h⟩ := (reads_procLustreLdlmValue name _ _).orDone h
  obtain ⟨grantRate, hgrant, h⟩ := (reads_procLustreLdlmValue name _ _).orDone h
  obtain ⟨cancelRate, hcancel, h⟩ := (reads_procLustreLdlmValue name _ _).orDone h
  obtain ⟨recovStr, hrecov, h⟩ := (reads_getRecovstr name _).orDone h
  rw [exec_pure, Prod.mk.injEq, Option.some_inj, Option.some_inj] at h
  obtain ⟨rfl, rfl⟩ := h
  refine ⟨?_, rfl⟩
  unfold ProcFs.ostReading ProcFs.lockCount ProcFs.grantRate ProcFs.cancelRate
  rw [huuid, hstats, hfiles, hkbytes, hexports, hlock, hgrant, hcancel, hrecov, hiops]
  rfl

theorem exists_of_appendOsts
    (h : exec (appendOsts fs len names s) .closed = (some (some t), ctx)) :
    ctx = .closed ∧ ∃ records,
      List.Forall₂ (fun name r => fs.ostReading name = .ok r) names records ∧
      (records.map fun r => terminate ';' r.fields).foldlM (appendChecked len) s = some t := by
  induction names generalizing s with
  | nil =>
    cases h
    exact ⟨rfl, [], .nil, rfl⟩
  | cons name names ih =>
    unfold appendOsts at h
    obtain ⟨r, c, hread, h⟩ := exec_bind_eq_some.mp h
    cases r with
    | none => simp at h
    | some r =>
      obtain ⟨hr, rfl⟩ := ostReading_of_readOst hread
      cases hprint : getOststringV2 r (len - s.length) with
      | none => simp [hprint] at h
      | some u =>
        simp only [hprint] at h
        obtain ⟨hctx, records, hrecords, hfold⟩ := ih h
        refine ⟨hctx, r :: records, .cons hr hrecords, ?_⟩
        unfold getOststringV2 at hprint
        rw [List.map_cons, List.foldlM_cons]
        unfold appendChecked at hfold ⊢
        rw [hprint]
        exact hfold

theorem cpupct_eq_ok {cpu : CpuUsage}
    (h : (timesOf (fs.node statPath)).map (cpuUsage usage total) = .ok cpu) :
    fs.cpupct pct usage total = .ok (pct.cpu cpu.pct) := by
  unfold ProcFs.cpupct
  cases ht : timesOf (fs.node statPath) with
  | error e => simp [ht, Except.map] at h
  | ok t =>
    rw [ht] at h
    cases h
    rfl

theorem mempct_eq_ok {mem : UInt64 × UInt64} (h : memoryOf (fs.node "meminfo".toList) = .ok mem) :
    fs.mempct pct = .ok (pct.mem mem.1 mem.2) := by
  unfold ProcFs.mempct
  rw [h]
  rfl

theorem reports_of_writeOsts
    (h : exec (writeOsts pct fs (some node) usage total len) .closed = (some (some s), ctx)) :
    ctx = .closed ∧ ∃ names records cpu mem, fs.ostNames = .ok names ∧
      List.Forall₂ (fun name r => fs.ostReading name = .ok r) names records ∧
      fs.cpupct pct usage total = .ok cpu ∧ fs.mempct pct = .ok mem ∧
      (fs.ostServer pct (some node) usage total).Reports node cpu mem records ∧
      (s.length : ℤ) < len ∧ s = ostText node cpu mem records := by
  unfold writeOsts at h
  obtain ⟨names, hnames, h⟩ := reads_procLustreOstlist.orDone h
  by_cases hempty : names = []
  · rw [if_pos hempty] at h
    simp at h
  · rw [if_neg hempty] at h
    obtain ⟨cpu, hcpu, h⟩ := (reads_procStat2 usage total).orDone h
    obtain ⟨mem, hmem, h⟩ := reads_procMeminfo.orDone h
    rw [snprintfChecked_eq] at h
    by_cases hhead : ((terminate ';'
      (serverHeader ['2'] node (pct.cpu cpu.pct) (pct.mem mem.1 mem.2))).length : ℤ) < len
    · rw [if_pos hhead] at h
      obtain ⟨hctx, records, hrecords, hfold⟩ := exists_of_appendOsts h
      rw [foldlM_appendChecked _ hhead] at hfold
      split_ifs at hfold with hfits
      have htext := Option.some.inj hfold
      rw [htext] at hfits
      refine ⟨hctx, names, records, _, _, hnames, hrecords,
        cpupct_eq_ok hcpu, mempct_eq_ok hmem, ?_,
        hfits, ?_⟩
      · have hne : records ≠ [] := by
          rintro rfl
          exact hempty (List.forall₂_nil_right_iff.mp hrecords)
        have htargets : List.Forall₂ (fun name r => (fs.ostReading name).toOption = some r)
            names records := hrecords.imp fun _ _ hr => by rw [hr]; rfl
        exact ⟨hne, ⟨names, congrArg Except.toOption hnames, htargets⟩, rfl,
          congrArg Except.toOption (cpupct_eq_ok hcpu),
          congrArg Except.toOption (mempct_eq_ok hmem)⟩
      · rw [← htext, ostText, List.flatMap_def, List.map_map]
        rfl
    · rw [if_neg hhead] at h
      simp at h

theorem recoveryText_ne_nil {rh : StatsTable} (h : recoveryText rh = some t) : t ≠ [] := by
  unfold recoveryText at h
  split at h
  · simp at h
  · split at h
    · obtain rfl := Option.some.inj h
      simp
    · obtain rfl := Option.some.inj h
      simp

theorem recovStr_ne_nil {r : OstReading} (h : fs.ostReading name = .ok r) : r.recovStr ≠ [] := by
  unfold ProcFs.ostReading ProcFs.recovstr at h
  simp only [except_bind_eq_ok] at h
  obtain ⟨_, -, _, -, _, -, _, -, _, -, _, -, _, -, _, -, recovStr, ⟨rh, -, htext⟩, hr⟩ := h
  cases hr
  cases hrecovery : recoveryText rh with
  | none => simp [hrecovery] at htext
  | some text =>
    rw [hrecovery] at htext
    cases htext
    obtain ⟨c, rest, rfl⟩ := List.exists_cons_of_ne_nil (recoveryText_ne_nil hrecovery)
    simp [snprintf, recoveryStrSize]

theorem valid_of_forall₂ {records : List OstReading}
    (h : List.Forall₂ (fun name r => fs.ostReading name = .ok r) names records)
    (hfields : ∀ name ∈ names, ∀ r, fs.ostReading name = .ok r →
      IsField ';' r.uuid ∧ ';' ∉ r.recovStr) : ∀ r ∈ records, r.Valid := by
  induction h with
  | nil => simp
  | cons hname _ ih =>
    intro r hr
    rcases List.mem_cons.mp hr with rfl | hr
    · obtain ⟨huuid, hrecov⟩ := hfields _ (by simp) _ hname
      exact ⟨huuid, ⟨recovStr_ne_nil hname, hrecov⟩⟩
    · exact ih (fun name hmem => hfields name (by simp [hmem])) r hr

/-- What `ltop` is told of an OST. -/
def OstReading.report (node : Text) (cpu mem : ℕ) (r : OstReading) : OstReport where
  ostname := r.uuid
  servername := node.takeWhile (· != '.')
  readBytes := r.readBytes
  writeBytes := r.writeBytes
  iops := r.iops
  numExports := r.numExports
  lockCount := r.lockCount
  grantRate := r.grantRate
  cancelRate := r.cancelRate
  connect := r.connect + r.reconnect
  recovStatus := r.recovStr
  kbytesFree := r.kbytesfree
  kbytesTotal := r.kbytestotal
  pctCpu := (cpu : ℚ) / 10 ^ 6
  pctMem := (mem : ℚ) / 10 ^ 6

theorem ostReports_ostText {cpu mem : ℕ} {records : List OstReading} (hnode : IsField ';' node)
    (hrecords : ∀ r ∈ records, r.Valid) (sel : Option Text) :
    ostReports (ostText node cpu mem records) sel =
      (records.filter fun r => fsSelected sel r.uuid).map (OstReading.report node cpu mem) := by
  have hgroups (m : OstMetric) (hcpu : m.pctCpu = (cpu : ℚ) / 10 ^ 6)
      (hmem : m.pctMem = (mem : ℚ) / 10 ^ 6) :
      (records.map fun r => joined ';' r.fields).filterMap
          (ostReport? sel m (node.takeWhile (· != '.'))) =
        (records.filter fun r => fsSelected sel r.uuid).map (OstReading.report node cpu mem) := by
    induction records with
    | nil => rfl
    | cons r records ih =>
      have hinfo := lmtOstDecodeV2Ostinfo_fields (hrecords r (by simp))
      rw [List.map_cons, List.filterMap_cons, ih fun r hr => hrecords r (by simp [hr])]
      unfold ostReport?
      rw [hinfo, List.filter_cons]
      by_cases hsel : fsSelected sel r.uuid
      · simp [OstReading.info, hsel, OstReading.report, ostReport, hcpu, hmem]
      · simp [OstReading.info, hsel]
  unfold ostReports
  rw [lmtOstDecodeV2_ostText hnode hrecords]
  exact hgroups _ rfl rfl

end

/-- An OSS with one OST, without files of the lock manager. -/
def ostTree : ProcFs where
  sys _ := .missing .noent
  proc path :=
    if path = "fs/lustre/obdfilter".toList then .dir [⟨"lc1-OST0000".toList, .dir⟩]
    else if path = "fs/lustre/obdfilter/lc1-OST0000/uuid".toList then
      .file "lc1-OST0000_UUID\n".toList
    else if path = "fs/lustre/obdfilter/lc1-OST0000/stats".toList then
      .file "read_bytes 2 samples [bytes] 4096 8192 12288\nconnect 3 samples [reqs]\n".toList
    else if path = "fs/lustre/obdfilter/lc1-OST0000/recovery_status".toList then
      .file "status: COMPLETE\n".toList
    else if path = "fs/lustre/obdfilter/lc1-OST0000/filesfree".toList then .file "90\n".toList
    else if path = "fs/lustre/obdfilter/lc1-OST0000/filestotal".toList then .file "100\n".toList
    else if path = "fs/lustre/obdfilter/lc1-OST0000/kbytesfree".toList then .file "700\n".toList
    else if path = "fs/lustre/obdfilter/lc1-OST0000/kbytestotal".toList then .file "800\n".toList
    else if path = "fs/lustre/obdfilter/lc1-OST0000/num_exports".toList then .file "5\n".toList
    else if path = "stat".toList then .file "cpu  10 0 5 85 0 0 0\n".toList
    else if path = "meminfo".toList then
      .file "MemTotal: 1000 kB\nMemFree: 250 kB\n".toList
    else .missing .noent
  garbage := []

def wholePercentages : Percentages where
  cpu q := q.floor.toNat * 10 ^ 6
  mem total free := (total - free).toNat * 100 / total.toNat * 10 ^ 6

def ostTreeMetric : Text :=
  ("2;oss1;15.000000;75.000000;lc1-OST0000;90;100;700;800;12288;0;0;5;0;0;0;3;0;" ++
    "COMPLETE  0s remaining;").toList

def ostTreeReading : OstReading where
  uuid := "lc1-OST0000".toList
  filesfree := 90
  filestotal := 100
  kbytesfree := 700
  kbytestotal := 800
  readBytes := 12288
  writeBytes := 0
  iops := 0
  numExports := 5
  lockCount := 0
  grantRate := 0
  cancelRate := 0
  connect := 3
  reconnect := 0
  recovStr := "COMPLETE  0s remaining".toList

theorem ostTree_fields : ostTree.OstFields := by
  intro names hnames
  have heq : ostTree.ostNames = .ok ["lc1-OST0000".toList] := by decide +kernel
  have hreading : ostTree.ostReading "lc1-OST0000".toList = .ok ostTreeReading := by
    decide +kernel
  rw [heq] at hnames
  cases hnames
  intro name hname r hr
  rw [List.mem_singleton.mp hname, hreading] at hr
  cases hr
  exact ⟨by constructor <;> decide, by decide⟩

end Lmt
