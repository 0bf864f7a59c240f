import Lmt.Proc.Brwstats
import Lmt.Proc.ExportStats

/-!
# Contexts are closed again

A function is disciplined if it violates no assertion of a context that it finds
closed, and closes the context again. Most functions are as long as nothing that
they read as a file is a directory and nothing that they list is a file. The
stats file of a target has to be there as well, and the stats of the exports have
to be well-formed.
-/

namespace Lmt

open Attempts FormattedText HashTables

/-- Called with a closed context, the function returns with a closed context. -/
def Disciplined {α : Type} (x : ProcM α) : Prop := wp x (fun _ ctx => ctx = .closed) .closed

/-- What `_readint1` returns. -/
def intOf : Node → Except Errno UInt64
  | .missing e => .error e
  | .dir _ => .error .ok
  | .file content => scannedUInt64 (scanf [.uint64] content).1

def HasNumber (n : Node) : Prop := ∃ content, n = .file content ∧ (scanUInt64 content).isSome

theorem hasNumber_iff (n : Node) : HasNumber n ↔ ∃ val, intOf n = .ok val := by
  unfold HasNumber
  cases n with
  | missing e => simp [intOf]
  | dir entries => simp [intOf]
  | file content =>
    unfold intOf
    cases h : scanUInt64 content with
    | none => simp [h, scannedUInt64, scanf, Directive.read]
    | some r => simp [h, scannedUInt64, scanf, Directive.read]

def valuePath (fs : ProcFs) (tmpl name : Text) : Text := fmtArgs (tmplOf fs tmpl name) [name]

def textPath (fs : ProcFs) (tmpl name : Text) : Text :=
  fmtArgs (if occurs name "-MDT" then mdtDir fs ++ '/' :: tmpl else tmpl) [name]

def PathReadable (fs : ProcFs) (name : Text) : Prop := occurs name "-MDT" → VersionReadable fs

section

variable {fs : ProcFs}

theorem wp_readint1 (tmpl a1 : Text) (Q : Except Errno UInt64 → Ctx → Prop) :
    wp (readint1 fs tmpl a1) Q .closed ↔
      PathReadable fs a1 ∧ (fs.node (valuePath fs tmpl a1)).isDir = false ∧
        Q (intOf (fs.node (valuePath fs tmpl a1))) .closed := by
  rw [readint1, wp_bind, wp_newTmpl]
  apply and_congr_right
  intro _
  change wp (procOpen fs (valuePath fs tmpl a1) >>= _) Q .closed ↔ _
  rw [wp_bind, wp_procOpen]
  cases fs.node (valuePath fs tmpl a1) with
  | missing e => exact (and_iff_right rfl).symm
  | dir entries => simp [procScanf, Node.isDir]
  | file content =>
    simp only [wp_bind, procScanf, wp_reading_file, wp_procClose_file, wp_pure, Node.isDir,
      true_and, intOf]

def NumbersReadable (fs : ProcFs) (tmplf tmplt name : Text) : Prop :=
  PathReadable fs name ∧ (fs.node (valuePath fs tmplf name)).isDir = false ∧
    (HasNumber (fs.node (valuePath fs tmplf name)) →
      (fs.node (valuePath fs tmplt name)).isDir = false)

theorem disciplined_procLustreFiles (name : Text) :
    Disciplined (procLustreFiles fs name) ↔
      if occurs name "-OST" then
        NumbersReadable fs "fs/lustre/obdfilter/%s/filesfree".toList
          "fs/lustre/obdfilter/%s/filestotal".toList name
      else if occurs name "-MDT" then
        NumbersReadable fs "%s/filesfree".toList "%s/filestotal".toList name
      else True := by
  have hread (tmplf tmplt : Text)
      {next : Except Errno UInt64 → ProcM (Except Errno (UInt64 × UInt64))}
      (herror : ∀ e, ∃ r, next (.error e) = pure r)
      (hok : ∀ f, ∃ last, next (.ok f) = readint1 fs tmplt name >>= last ∧
        ∀ t, ∃ r, last t = pure r) :
      wp (readint1 fs tmplf name >>= next) (fun _ ctx => ctx = .closed) .closed ↔
        NumbersReadable fs tmplf tmplt name := by
    unfold NumbersReadable
    rw [wp_bind, wp_readint1, hasNumber_iff]
    apply and_congr_right
    intro hpath
    apply and_congr_right
    intro _
    cases intOf (fs.node (valuePath fs tmplf name)) with
    | error e =>
      obtain ⟨r, hr⟩ := herror e
      simp [hr]
    | ok f =>
      obtain ⟨last, hlast, hpure⟩ := hok f
      obtain ⟨r, hr⟩ := hpure (intOf (fs.node (valuePath fs tmplt name)))
      rw [hlast, wp_bind, wp_readint1, hr]
      simp [hpath]
  have herror (e : Errno) : ∃ r : Except Errno (UInt64 × UInt64),
      (pure (.error e) : ProcM (Except Errno (UInt64 × UInt64))) = pure r := ⟨_, rfl⟩
  unfold Disciplined procLustreFiles procLustreFree
  rw [wp_ite, wp_ite]
  split_ifs
  · exact hread _ _ herror fun f => ⟨_, rfl, fun t => by cases t <;> exact ⟨_, rfl⟩⟩
  · exact hread _ _ herror fun f => ⟨_, rfl, fun t => by cases t <;> exact ⟨_, rfl⟩⟩
  · exact iff_of_true rfl trivial

theorem disciplined_readstr1 (tmpl a1 : Text) :
    Disciplined (readstr1 fs tmpl a1) ↔
      PathReadable fs a1 ∧ (fs.node (textPath fs tmpl a1)).isDir = false := by
  have hread (path : Text) {next : Except Errno Unit → ProcM (Except Errno Text)}
      (herror : ∀ e, next (.error e) = pure (.error e))
      (hok : next (.ok ()) = do
        let vals ← procScanf [.word 255]
        procClose
        pure (scannedText vals)) :
      wp (procOpen fs path >>= next) (fun _ ctx => ctx = .closed) .closed ↔
        (fs.node path).isDir = false := by
    rw [wp_bind, wp_procOpen]
    cases fs.node path with
    | missing e => simp [herror, Node.isDir]
    | file content => simp [hok, procScanf, Node.isDir]
    | dir entries => simp [hok, procScanf, Node.isDir]
  unfold Disciplined readstr1 newStrTmpl PathReadable textPath
  rw [wp_bind, wp_ite]
  split_ifs with hmdt
  · rw [wp_buildMdtPath]
    exact and_congr (imp_iff_right hmdt).symm (hread _ (fun _ => rfl) rfl)
  · rw [wp_pure]
    exact (hread _ (fun _ => rfl) rfl).trans (and_iff_right (fun h => absurd h hmdt)).symm

theorem disciplined_procLustreUuid (name : Text) :
    Disciplined (procLustreUuid fs name) ↔
      if occurs name "-OST" then
        PathReadable fs name ∧
          (fs.node (textPath fs "fs/lustre/obdfilter/%s/uuid".toList name)).isDir = false
      else if occurs name "-MDT" then
        PathReadable fs name ∧ (fs.node (textPath fs "%s/uuid".toList name)).isDir = false
      else True := by
  unfold Disciplined procLustreUuid
  rw [wp_ite, wp_ite]
  split_ifs
  · rw [wp_map]
    exact disciplined_readstr1 _ _
  · rw [wp_map]
    exact disciplined_readstr1 _ _
  · exact iff_of_true rfl trivial

def oscPath (fs : ProcFs) (name : Text) : Text :=
  fmtArgs (if oscInProc (lustreVersion fs) then "fs/lustre/osc/%s/ost_server_uuid".toList
    else "kernel/debug/lustre/osp/%s/ost_server_uuid".toList) [name]

theorem disciplined_procLustreOscinfo (name : Text) :
    Disciplined (procLustreOscinfo fs name) ↔
      VersionReadable fs ∧ (fs.node (oscPath fs name)).isDir = false := by
  unfold Disciplined procLustreOscinfo
  rw [wp_bind, wp_packedLustreVersion]
  apply and_congr_right
  intro _
  change wp (procOpen fs (oscPath fs name) >>= _) _ .closed ↔ _
  rw [wp_bind, wp_procOpen]
  cases fs.node (oscPath fs name) with
  | missing e => simp [Node.isDir]
  | file content => simp [procScanf, Node.isDir]
  | dir entries => simp [procScanf, Node.isDir]

theorem disciplined_subdirlist (path : Text) :
    Disciplined (subdirlist fs path) ↔ (fs.node path).isFile = false := by
  unfold Disciplined
  rw [wp_subdirlist]
  cases fs.node path <;> simp [Node.isFile]

theorem disciplined_procLustreMdtlist :
    Disciplined (procLustreMdtlist fs) ↔
      (procExists fs "fs/lustre".toList = .ok () →
        VersionReadable fs ∧ (fs.node (mdtDir fs)).isFile = false) := by
  unfold Disciplined procLustreMdtlist
  cases procExists fs "fs/lustre".toList with
  | error e => simp
  | ok u =>
    dsimp only
    rw [wp_bind, wp_findMdtDir, forall_prop_of_true rfl]
    exact and_congr_right fun _ => disciplined_subdirlist _

theorem disciplined_procLustreOsclist :
    Disciplined (procLustreOsclist fs) ↔
      VersionReadable fs ∧
        (fs.node (if oscInProc (lustreVersion fs) then "fs/lustre/osc".toList
          else "kernel/debug/lustre/osp/".toList)).isFile = false := by
  unfold Disciplined procLustreOsclist
  rw [wp_bind, wp_packedLustreVersion]
  exact and_congr_right fun _ => disciplined_subdirlist _

theorem disciplined_procLustreMdtExportlist (name : Text) :
    Disciplined (procLustreMdtExportlist fs name) ↔
      VersionReadable fs ∧ (fs.node (exportsPath fs name)).isFile = false := by
  unfold Disciplined
  rw [wp_procLustreMdtExportlist]
  exact and_congr_right fun _ => disciplined_subdirlist _

/-- What the first of some paths leads to that leads anywhere. -/
def firstNode (fs : ProcFs) (name : Text) : List Text → Errno → Node
  | [], e => .missing e
  | path :: paths, _ =>
    match fs.node (fmtArgs path [name]) with
    | .missing e => firstNode fs name paths e
    | n => n

theorem wp_openFirst (name : Text) (paths : List Text) (e : Errno)
    (Q : Except Errno Unit → Ctx → Prop) :
    wp (openFirst fs name paths e) Q .closed ↔
      match firstNode fs name paths e with
      | .missing e => Q (.error e) .closed
      | .file content => Q (.ok ()) (.file content)
      | .dir entries => Q (.ok ()) (.dir entries) := by
  induction paths generalizing e with
  | nil => rfl
  | cons path paths ih =>
    rw [openFirst, wp_bind, procOpenf, wp_procOpen, firstNode]
    cases fs.node (fmtArgs path [name]) with
    | missing e => exact ih e
    | file content => rfl
    | dir entries => rfl

def brwNode (fs : ProcFs) (name : Text) : Node := firstNode fs name brwStatsPaths .ok

theorem disciplined_procLustreBrwstats (name : Text) (t : Brw) :
    Disciplined (procLustreBrwstats fs name t) ↔
      (occurs name "-OST" → (brwNode fs name).isDir = false) := by
  unfold Disciplined procLustreBrwstats brwNode
  rw [wp_ite]
  split_ifs with host
  · rw [wp_bind, wp_openFirst, forall_prop_of_true host]
    cases firstNode fs name brwStatsPaths .ok with
    | missing e => simp [Node.isDir]
    | dir entries => simp [brwSeek, Node.isDir]
    | file content =>
      simp only [brwSeek, wp_bind, wp_procGetsLoop_file, Node.isDir, iff_true]
      cases (linesOf 256 content).foldlM (brwSeekLine t) () <;> simp [brwParse, wp_ite]
  · exact iff_of_true rfl fun h => absurd h host

def recoveryPath (fs : ProcFs) (name : Text) : Text :=
  if occurs name "-OST" then fmtArgs "fs/lustre/obdfilter/%s/recovery_status".toList [name]
  else fmtArgs (mdtDir fs ++ '/' :: "%s/recovery_status".toList) [name]

theorem disciplined_procLustreHashrecov (name : Text) :
    Disciplined (procLustreHashrecov fs name) ↔
      if occurs name "-OST" then (fs.node (recoveryPath fs name)).isDir = false
      else if occurs name "-MDT" then
        VersionReadable fs ∧ (fs.node (recoveryPath fs name)).isDir = false
      else True := by
  have hread (path : Text) {next : Except Errno Unit → ProcM (Except Errno StatsTable)}
      (herror : ∀ e, next (.error e) = pure (.error e))
      (hok : ∃ last, next (.ok ()) = hashStats .empty >>= last ∧
        ∀ r, ∃ v, last r = procClose >>= fun _ => pure v) :
      wp (procOpen fs path >>= next) (fun _ ctx => ctx = .closed) .closed ↔
        (fs.node path).isDir = false := by
    obtain ⟨last, hlast, hclose⟩ := hok
    rw [wp_bind, wp_procOpen]
    cases fs.node path with
    | missing e => simp [herror, Node.isDir]
    | dir entries => simp [hlast, hashStats, Node.isDir]
    | file content =>
      obtain ⟨v, hv⟩ := hclose (statsResult (statsOf content))
      rw [statsOf] at hv
      simp [hlast, wp_hashStats_file, hv, Node.isDir]
  unfold Disciplined procLustreHashrecov openRecovery recoveryPath
  split_ifs with host hmdt
  · exact hread _ (fun _ => rfl) ⟨_, rfl, fun r => by rcases r with ⟨_ | _, h⟩ <;> exact ⟨_, rfl⟩⟩
  · rw [bind_assoc, wp_bind, wp_buildMdtPath]
    exact and_congr_right fun _ => hread _ (fun _ => rfl)
      ⟨_, rfl, fun r => by rcases r with ⟨_ | _, h⟩ <;> exact ⟨_, rfl⟩⟩
  · exact iff_of_true rfl trivial

/-- The exports are listed in a directory, and what the loop reads of their stats
is files that it can aggregate. -/
def ExportsReadable (fs : ProcFs) (mdtName : Text) (base : Text → Option Text) : Prop :=
  (fs.node (exportsPath fs mdtName)).isFile = false ∧
    ∀ e ∈ countedExports fs mdtName (exportNames fs mdtName),
      Aggregable base (exportStats fs mdtName e)

section

variable {mdtName : Text} {base : Text → Option Text} {h : StatsTable}

/-- A file that cannot be aggregated stays open, and a directory cannot be read. -/
theorem not_disciplined_aggregateExports {names : List Text} (hv : h.Valid slot)
    (hends : SameEnds base h)
    (hnames : ¬∀ e ∈ countedExports fs mdtName names, Aggregable base (exportStats fs mdtName e)) :
    ¬Disciplined (aggregateExports fs (mdtDir fs) mdtName names h) := by
  induction names generalizing h with
  | nil => simp [countedExports] at hnames
  | cons name names ih =>
    rw [countedExports_cons] at hnames
    unfold Disciplined
    rw [aggregateExports, wp_bind, procOpenf, wp_procOpen]
    change ¬(match exportStats fs mdtName name with
      | .missing e => _
      | .file content => _
      | .dir entries => _)
    cases hnode : exportStats fs mdtName name with
    | missing e => simp [hnode, Node.isMissing] at hnames
    | dir entries => exact id
    | file content =>
      dsimp only
      rw [wp_bind, wp_hashAggregateStats_file]
      by_cases hlines : ∀ line ∈ addedLines base (linesOf 256 content), (parseStat line).isSome
      · obtain ⟨h₁, hagg, hv₁, hends₁, -⟩ := foldlM_hashAggregateLine hv hends hlines
        rw [hagg]
        apply ih hv₁ hends₁
        intro hrest
        apply hnames
        rw [hnode, if_neg (by simp [Node.isMissing])]
        intro e he
        rcases List.mem_cons.mp he with rfl | he
        · exact ⟨content, hnode, hlines⟩
        · exact hrest e he
      · obtain ⟨h₁, e, hagg⟩ := foldlM_hashAggregateLine_error hv hends hlines
        rw [hagg]
        simp

theorem disciplined_aggregateMdtExportStats (hversion : VersionReadable fs) (hv : h.Valid slot)
    (hends : SameEnds base h) :
    Disciplined (aggregateMdtExportStats fs mdtName h) ↔ ExportsReadable fs mdtName base := by
  unfold ExportsReadable
  cases hlist : (fs.node (exportsPath fs mdtName)).isFile with
  | true =>
    apply iff_of_false _ (by simp)
    unfold Disciplined
    rw [aggregateMdtExportStats, wp_bind, wp_findMdtDir, wp_bind, wp_procLustreMdtExportlist,
      wp_subdirlist]
    cases hnode : fs.node (exportsPath fs mdtName) <;> simp [hnode, Node.isFile] at hlist ⊢
  | false =>
    have hexec := exec_aggregateMdtExportStats (h := h) hversion hlist
    have hsame : Disciplined (aggregateMdtExportStats fs mdtName h) ↔
        Disciplined (aggregateExports fs (mdtDir fs) mdtName (exportNames fs mdtName) h) := by
      unfold Disciplined wp
      rw [hexec]
    rw [hsame, and_iff_right rfl]
    constructor
    · intro hd
      by_contra hnames
      exact not_disciplined_aggregateExports hv hends hnames hd
    · intro hnames
      obtain ⟨ret, h', hrun, -⟩ := aggregateExports_spec hv hends hnames
      exact (wp_of_exec hrun).mpr rfl

end

def HasValues (content : Text) : Prop := ∀ line ∈ linesOf 256 content, (parseStat line).isSome

/-- The versions that had the stats of an MDT in those of its exports only. -/
def NeedsExports (fs : ProcFs) (name : Text) : Prop :=
  occurs name "-MDT" ∧ lustre20 ≤ lustreVersion fs ∧ lustreVersion fs < packedVersion 2 0 56 0

/-- The stats file is there, and where those of the exports are read as well they
can be aggregated. -/
def HashstatsReadable (fs : ProcFs) (name : Text) : Prop :=
  VersionReadable fs ∧
    ∀ stats, statsTmpl fs name = .ok stats →
      ∃ content, fs.node (fmtArgs stats [name]) = .file content ∧
        (NeedsExports fs name → HasValues content →
          ExportsReadable fs name (lastValue (linesOf 256 content)))

theorem disciplined_finishHashstats {name : Text} {base : Text → Option Text} {h : StatsTable}
    (hversion : VersionReadable fs) (hv : h.Valid slot) (hends : SameEnds base h) :
    Disciplined (finishHashstats fs name h) ↔
      (NeedsExports fs name → ExportsReadable fs name base) := by
  unfold Disciplined finishHashstats NeedsExports
  rw [wp_ite]
  split_ifs with hfix
  · obtain ⟨hmdt, hlustre20⟩ : occurs name "-MDT" ∧ lustre20 ≤ lustreVersion fs := by
      simpa using hfix
    have hpure :
        wp (fixMdtStats fs name (lustreVersion fs) h) (fun _ ctx => ctx = .closed) .closed ↔
        Disciplined (completeMdtStats fs name (lustreVersion fs) h) := by
      rw [fixMdtStats, wp_bind]
      apply wp_congr
      rintro ⟨ret, h'⟩ ctx
      cases ret <;> rfl
    rw [hpure, completeMdtStats]
    split_ifs with hearly
    · rw [disciplined_aggregateMdtExportStats hversion hv hends]
      exact (imp_iff_right ⟨hmdt, hlustre20, hearly⟩).symm
    · exact iff_of_true rfl fun hneeds => absurd hneeds.2.2 hearly
  · apply iff_of_true rfl
    rintro ⟨hmdt, hlustre20, -⟩
    exact absurd (by simp [hmdt, hlustre20]) hfix

theorem disciplined_procLustreHashstats (name : Text) :
    Disciplined (procLustreHashstats fs name) ↔ HashstatsReadable fs name := by
  unfold Disciplined HashstatsReadable
  rw [wp_procLustreHashstats]
  apply and_congr_right
  intro hversion
  cases statsTmpl fs name with
  | error e => simp
  | ok stats =>
    simp only [Except.ok.injEq, forall_eq']
    apply exists_congr
    intro content
    apply and_congr_right
    intro _
    by_cases hvalues : HasValues content
    · obtain ⟨h, hrun, hv, hfind⟩ := foldlM_hashStatsLine (HashTable.valid_empty slot) hvalues
      have hends : SameEnds (lastValue (linesOf 256 content)) h := fun k => by
        rw [hfind, HashTable.find_empty, Option.or_none]
      rw [statsOf, hrun, imp_iff_right hvalues]
      exact disciplined_finishHashstats hversion hv hends
    · obtain ⟨h, hrun⟩ := foldlM_hashStatsLine_error (HashTable.valid_empty slot) hvalues
      rw [statsOf, hrun]
      exact iff_of_true trivial fun _ h => absurd h hvalues

end

/-- When each of the functions keeps the discipline of contexts. -/
theorem disciplined_iff (fs : ProcFs) (name : Text) (t : Brw) :
    (Disciplined (procLustreHashstats fs name) ↔ HashstatsReadable fs name) ∧
    (Disciplined (procLustreHashrecov fs name) ↔
      if occurs name "-OST" then (fs.node (recoveryPath fs name)).isDir = false
      else if occurs name "-MDT" then
        VersionReadable fs ∧ (fs.node (recoveryPath fs name)).isDir = false
      else True) ∧
    (Disciplined (procLustreBrwstats fs name t) ↔
      (occurs name "-OST" → (brwNode fs name).isDir = false)) ∧
    (Disciplined (procLustreUuid fs name) ↔
      if occurs name "-OST" then
        PathReadable fs name ∧
          (fs.node (textPath fs "fs/lustre/obdfilter/%s/uuid".toList name)).isDir = false
      else if occurs name "-MDT" then
        PathReadable fs name ∧ (fs.node (textPath fs "%s/uuid".toList name)).isDir = false
      else True) ∧
    (Disciplined (procLustreOscinfo fs name) ↔
      VersionReadable fs ∧ (fs.node (oscPath fs name)).isDir = false) ∧
    (Disciplined (procLustreFiles fs name) ↔
      if occurs name "-OST" then
        NumbersReadable fs "fs/lustre/obdfilter/%s/filesfree".toList
          "fs/lustre/obdfilter/%s/filestotal".toList name
      else if occurs name "-MDT" then
        NumbersReadable fs "%s/filesfree".toList "%s/filestotal".toList name
      else True) ∧
    (Disciplined (procLustreOstlist fs) ↔
      (fs.node "fs/lustre/obdfilter".toList).isFile = false) ∧
    (Disciplined (procLustreMdtlist fs) ↔
      (procExists fs "fs/lustre".toList = .ok () →
        VersionReadable fs ∧ (fs.node (mdtDir fs)).isFile = false)) ∧
    (Disciplined (procLustreOsclist fs) ↔
      VersionReadable fs ∧
        (fs.node (if oscInProc (lustreVersion fs) then "fs/lustre/osc".toList
          else "kernel/debug/lustre/osp/".toList)).isFile = false) ∧
    (Disciplined (procLustreMdtExportlist fs name) ↔
      VersionReadable fs ∧ (fs.node (exportsPath fs name)).isFile = false) :=
  ⟨disciplined_procLustreHashstats name, disciplined_procLustreHashrecov name,
    disciplined_procLustreBrwstats name t, disciplined_procLustreUuid name,
    disciplined_procLustreOscinfo name, disciplined_procLustreFiles name,
    disciplined_subdirlist _, disciplined_procLustreMdtlist, disciplined_procLustreOsclist,
    disciplined_procLustreMdtExportlist name⟩

def emptyTree : ProcFs := ⟨fun _ => .missing .noent, fun _ => .missing .noent, []⟩

/-- A tree of 2.0.50 with an export whose stats have a line without a value. -/
def malformedTree : ProcFs where
  sys _ := .missing .noent
  proc path :=
    if path = versionPath then .file "lustre: 2.0.50\n".toList
    else if path = "fs/lustre/mdt/lc1-MDT0000/md_stats".toList then .file []
    else if path = "fs/lustre/mdt/lc1-MDT0000/exports".toList then .dir [⟨"b".toList, .dir⟩]
    else if path = "fs/lustre/mdt/lc1-MDT0000/exports/b/stats".toList then .file "open\n".toList
    else .missing .noent
  garbage := []

/-- Without its stats file the function reads from a closed context; with a malformed
one of an export it returns with the file open. -/
theorem procLustreHashstats_undisciplined :
    (exec (procLustreHashstats emptyTree "lc1-OST0000".toList) .closed).1 = none ∧
      exec (procLustreHashstats malformedTree "lc1-MDT0000".toList) .closed =
        (some (.error .io), .file []) ∧
      ¬Disciplined (procLustreHashstats emptyTree "lc1-OST0000".toList) ∧
      ¬Disciplined (procLustreHashstats malformedTree "lc1-MDT0000".toList) := by
  have hempty : (exec (procLustreHashstats emptyTree "lc1-OST0000".toList) .closed).1 = none := rfl
  have hmalformed : exec (procLustreHashstats malformedTree "lc1-MDT0000".toList) .closed =
      (some (.error .io), .file []) := rfl
  refine ⟨hempty, hmalformed, ?_, ?_⟩
  · intro h
    obtain ⟨r, ctx, hexec, -⟩ := wp_iff.mp h
    rw [hexec] at hempty
    cases hempty
  · intro h
    have hclosed : Ctx.file [] = .closed := (wp_of_exec hmalformed).mp h
    cases hclosed

end Lmt
