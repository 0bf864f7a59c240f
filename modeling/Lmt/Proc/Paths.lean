import Lmt.Proc.Lustre

/-!
# What is read where

For each function that finds a path or reads a value, what it needs of the trees
and what it returns then. A function that is called with a closed context runs
as its condition says, or violates an assertion.
-/

namespace Lmt

open Attempts FormattedText HashTables

section

variable {α β σ ε : Type} {fs : ProcFs} {path : Text}

theorem wp_procOpen (Q : Except Errno Unit → Ctx → Prop) :
    wp (procOpen fs path) Q .closed ↔
      match fs.node path with
      | .missing e => Q (.error e) .closed
      | .file content => Q (.ok ()) (.file content)
      | .dir entries => Q (.ok ()) (.dir entries) := by
  cases h : fs.node path with
  | missing e => exact wp_of_exec (exec_procOpen_missing h)
  | file content => exact wp_of_exec (exec_procOpen_file h)
  | dir entries => exact wp_of_exec (exec_procOpen_dir h)

@[simp] theorem wp_procClose_file (Q : Unit → Ctx → Prop) (rest : Text) :
    wp procClose Q (.file rest) ↔ Q () .closed := Iff.rfl

@[simp] theorem wp_procClose_dir (Q : Unit → Ctx → Prop) (entries : List Dirent) :
    wp procClose Q (.dir entries) ↔ Q () .closed := Iff.rfl

@[simp] theorem wp_procClose_closed (Q : Unit → Ctx → Prop) :
    wp procClose Q .closed ↔ False := Iff.rfl

@[simp] theorem wp_reading_file (f : Text → α × Text) (Q : α → Ctx → Prop) (rest : Text) :
    wp (reading f) Q (.file rest) ↔ Q (f rest).1 (.file (f rest).2) := Iff.rfl

@[simp] theorem wp_reading_closed (f : Text → α × Text) (Q : α → Ctx → Prop) :
    wp (reading f) Q .closed ↔ False := Iff.rfl

@[simp] theorem wp_reading_dir (f : Text → α × Text) (Q : α → Ctx → Prop)
    (entries : List Dirent) : wp (reading f) Q (.dir entries) ↔ False := Iff.rfl

@[simp] theorem wp_readingDir_dir (f : List Dirent → α × List Dirent) (Q : α → Ctx → Prop)
    (entries : List Dirent) :
    wp (readingDir f) Q (.dir entries) ↔ Q (f entries).1 (.dir (f entries).2) := Iff.rfl

@[simp] theorem wp_readingDir_file (f : List Dirent → α × List Dirent) (Q : α → Ctx → Prop)
    (rest : Text) : wp (readingDir f) Q (.file rest) ↔ False := Iff.rfl

theorem wp_procGetsLoop_file (len : ℕ) (body : σ → Text → Except ε σ) (s : σ)
    (Q : Except ε σ → Ctx → Prop) (text : Text) :
    wp (procGetsLoop len body s) Q (.file text) ↔
      Q ((linesOf len text).foldlM body s)
        (.file (getsLoop len body text.length s text).2) :=
  wp_of_exec (exec_procGetsLoop len body s text)

@[simp] theorem wp_procGetsLoop_dir (len : ℕ) (body : σ → Text → Except ε σ) (s : σ)
    (Q : Except ε σ → Ctx → Prop) (entries : List Dirent) :
    wp (procGetsLoop len body s) Q (.dir entries) ↔ False := Iff.rfl

@[simp] theorem wp_procGetsLoop_closed (len : ℕ) (body : σ → Text → Except ε σ) (s : σ)
    (Q : Except ε σ → Ctx → Prop) : wp (procGetsLoop len body s) Q .closed ↔ False := Iff.rfl

/-- The rest of a stats file after `_hash_stats`. -/
def afterStats (h : StatsTable) (content : Text) : Text :=
  (getsLoop 256 hashStatsLine content.length h content).2

theorem wp_hashStats_file (h : StatsTable) (Q : Except Errno Unit × StatsTable → Ctx → Prop)
    (content : Text) :
    wp (hashStats h) Q (.file content) ↔
      Q (statsResult ((linesOf 256 content).foldlM hashStatsLine h))
        (.file (afterStats h content)) := by
  rw [hashStats, wp_map, wp_procGetsLoop_file]
  rfl

theorem wp_hashStats_dir (h : StatsTable) (Q : Except Errno Unit × StatsTable → Ctx → Prop)
    (entries : List Dirent) : wp (hashStats h) Q (.dir entries) ↔ False := Iff.rfl

theorem wp_hashStats_closed (h : StatsTable) (Q : Except Errno Unit × StatsTable → Ctx → Prop) :
    wp (hashStats h) Q .closed ↔ False := Iff.rfl

end

def statsOf (content : Text) : Except (StatsTable × Errno) StatsTable :=
  (linesOf 256 content).foldlM hashStatsLine .empty

def versionString (fs : ProcFs) : Except Errno Text :=
  match fs.node versionPath with
  | .missing e => .error e
  | .dir _ => .error .ok
  | .file content =>
    let rh := (statsResult (statsOf content)).2
    if 0 < rh.count then
      match rh.find slot "lustre:".toList with
      | none => .error .ok
      | some version => .ok version
    else .ok ((gets 64 content).1.getD fs.garbage)

def lustreVersion (fs : ProcFs) : Int32 := packVersion (versionString fs >>= dottedVersion)

def VersionReadable (fs : ProcFs) : Prop := (fs.node versionPath).isDir = false

section

variable {fs : ProcFs}

theorem wp_readLustreVersionString (Q : Except Errno Text → Ctx → Prop) :
    wp (readLustreVersionString fs) Q .closed ↔
      VersionReadable fs ∧ Q (versionString fs) .closed := by
  unfold readLustreVersionString VersionReadable versionString
  rw [wp_bind, wp_procOpen]
  cases hnode : fs.node versionPath with
  | missing e => exact (and_iff_right rfl).symm
  | dir entries =>
    simp only [wp_bind, wp_hashStats_dir, Node.isDir, Bool.true_eq_false, false_and]
  | file content =>
    simp only [wp_bind, wp_hashStats_file, wp_procClose_file, Node.isDir, true_and]
    change wp (if 0 < (statsResult (statsOf content)).2.count then _ else _) Q .closed ↔ _
    rw [wp_ite]
    split_ifs
    · exact wp_pure _
    · rw [wp_bind, procGetsPath, wp_bind, wp_procOpen, hnode]
      rfl

theorem versionReadable_of_le {v : Int32} (hv : -1 < v) (h : v ≤ lustreVersion fs) :
    VersionReadable fs := by
  unfold VersionReadable
  cases hnode : fs.node versionPath with
  | missing e => rfl
  | file content => rfl
  | dir entries =>
    have hnone : versionString fs = .error .ok := by rw [versionString, hnode]
    rw [lustreVersion, hnone] at h
    exact absurd (Int32.lt_of_lt_of_le hv h) (by decide)

theorem wp_packedLustreVersion (Q : Int32 → Ctx → Prop) :
    wp (packedLustreVersion fs) Q .closed ↔ VersionReadable fs ∧ Q (lustreVersion fs) .closed := by
  rw [packedLustreVersion, wp_map, procFsLustreVersion, wp_map, wp_readLustreVersionString]
  rfl

end

def mdtDir (fs : ProcFs) : Text :=
  if lustre20 ≤ lustreVersion fs then "fs/lustre/mdt".toList else "fs/lustre/mds".toList

def osdDir (fs : ProcFs) : Text :=
  if lustre20 ≤ lustreVersion fs then
    match fs.node "fs/lustre/osd-zfs".toList with
    | .missing _ => "fs/lustre/osd-ldiskfs".toList
    | _ => "fs/lustre/osd-zfs".toList
  else "fs/lustre/mds".toList

def tmplOf (fs : ProcFs) (tmpl name : Text) : Text :=
  if occurs name "-MDT" then
    (if occurs tmpl "/files" || occurs tmpl "/kbytes" then osdDir fs else mdtDir fs) ++ '/' :: tmpl
  else tmpl

section

variable {fs : ProcFs}

theorem wp_findMdtDir (Q : Text → Ctx → Prop) :
    wp (findMdtDir fs) Q .closed ↔ VersionReadable fs ∧ Q (mdtDir fs) .closed := by
  rw [findMdtDir, wp_bind, wp_packedLustreVersion]
  rfl

theorem wp_buildMdtPath (inTmpl : Text) (Q : Text → Ctx → Prop) :
    wp (buildMdtPath fs inTmpl) Q .closed ↔
      VersionReadable fs ∧ Q (mdtDir fs ++ '/' :: inTmpl) .closed := by
  rw [buildMdtPath, wp_bind, wp_findMdtDir]
  rfl

theorem wp_findOsdDir (Q : Text → Ctx → Prop) :
    wp (findOsdDir fs) Q .closed ↔ VersionReadable fs ∧ Q (osdDir fs) .closed := by
  rw [findOsdDir, wp_bind, wp_packedLustreVersion, osdDir, wp_ite]
  split_ifs
  · rw [wp_bind, findLustreBackfsType, wp_bind, wp_procOpen]
    cases fs.node "fs/lustre/osd-zfs".toList <;> rfl
  · rfl

theorem wp_buildOsdPath (inTmpl : Text) (Q : Text → Ctx → Prop) :
    wp (buildOsdPath fs inTmpl) Q .closed ↔
      VersionReadable fs ∧ Q (osdDir fs ++ '/' :: inTmpl) .closed := by
  rw [buildOsdPath, wp_bind, wp_findOsdDir]
  rfl

theorem wp_newTmpl (tmpl a1 : Text) (Q : Text → Ctx → Prop) :
    wp (newTmpl fs tmpl a1) Q .closed ↔
      (occurs a1 "-MDT" → VersionReadable fs) ∧ Q (tmplOf fs tmpl a1) .closed := by
  unfold newTmpl tmplOf
  split_ifs with hmdt hosd
  · rw [wp_buildOsdPath]
    simp [hmdt]
  · rw [wp_buildMdtPath]
    simp [hmdt]
  · simp [hmdt]

def statsTmpl (fs : ProcFs) (name : Text) : Except Errno Text :=
  if occurs name "-MDT" then
    .ok (mdtDir fs ++ '/' ::
      (if lustre20 ≤ lustreVersion fs then "%s/md_stats".toList else "%s/stats".toList))
  else if occurs name "-OST" then .ok "fs/lustre/obdfilter/%s/stats".toList
  else .error .inval

theorem wp_buildOsdStatsPath (name : Text) (Q : Except Errno Text → Ctx → Prop) :
    wp (buildOsdStatsPath fs name) Q .closed ↔
      VersionReadable fs ∧ Q (statsTmpl fs name) .closed := by
  rw [buildOsdStatsPath, wp_bind, wp_packedLustreVersion, statsTmpl, wp_ite, wp_ite]
  split_ifs
  · rw [wp_bind, wp_buildMdtPath]
    simp
  · rw [wp_bind, wp_buildMdtPath]
    simp
  · rfl
  · rfl

/-- The rest of `proc_lustre_hashstats` once the stats file is read. -/
def finishHashstats (fs : ProcFs) (name : Text) (h : StatsTable) :
    ProcM (Except Errno StatsTable) :=
  if occurs name "-MDT" && lustre20 ≤ lustreVersion fs then fixMdtStats fs name (lustreVersion fs) h
  else pure (.ok h)

theorem wp_procLustreHashstats (name : Text) (Q : Except Errno StatsTable → Ctx → Prop) :
    wp (procLustreHashstats fs name) Q .closed ↔
      VersionReadable fs ∧
        match statsTmpl fs name with
        | .error e => Q (.error e) .closed
        | .ok stats =>
          ∃ content, fs.node (fmtArgs stats [name]) = .file content ∧
            match statsOf content with
            | .error (_, e) => Q (.error e) .closed
            | .ok h => wp (finishHashstats fs name h) Q .closed := by
  rw [procLustreHashstats, wp_bind, wp_packedLustreVersion, wp_bind, wp_buildOsdStatsPath,
    ← and_assoc, and_self]
  apply and_congr_right
  intro hversion
  cases statsTmpl fs name with
  | error e => rfl
  | ok stats =>
    dsimp only
    rw [wp_bind, procOpenf, wp_procOpen]
    cases fs.node (fmtArgs stats [name]) with
    | missing e => simp [wp_hashStats_closed]
    | dir entries => simp [wp_hashStats_dir]
    | file content =>
      simp only [wp_bind, wp_hashStats_file, wp_procClose_file, Node.file.injEq, exists_eq_left']
      rcases hstats : statsOf content with ⟨h, e⟩ | h
      all_goals
        rw [statsOf] at hstats
        rw [hstats]
        rfl

def subdirNames (entries : List Dirent) : List Text :=
  listSort strcmp
    ((readdirLoop ⟨false, true⟩ entries.length entries).1.filter fun name => !isClientOsc name)

theorem wp_subdirlist (path : Text) (Q : Except Errno (List Text) → Ctx → Prop) :
    wp (subdirlist fs path) Q .closed ↔
      match fs.node path with
      | .missing e => Q (.error e) .closed
      | .file _ => False
      | .dir entries => Q (.ok (subdirNames entries)) .closed := by
  rw [subdirlist, wp_bind, wp_procOpen]
  cases fs.node path <;> rfl

def exportsPath (fs : ProcFs) (mdtName : Text) : Text :=
  fmtArgs "%s/%s/exports".toList [mdtDir fs, mdtName]

theorem wp_procLustreMdtExportlist (name : Text) (Q : Except Errno (List Text) → Ctx → Prop) :
    wp (procLustreMdtExportlist fs name) Q .closed ↔
      VersionReadable fs ∧ wp (subdirlist fs (exportsPath fs name)) Q .closed := by
  rw [procLustreMdtExportlist, wp_bind, wp_findMdtDir]
  rfl

end

end Lmt
