import Lmt.Ltop.Sorting
import Lmt.Proc.Stats

/-!
# Reading Lustre's files (`lustre.c`)

Where a file is depends on the version of Lustre, which is itself read from a
file, and on the back end of the file system. A function that sets `errno` and
returns a negative number has that error as its result.
-/

namespace Lmt

open Attempts FormattedText HashTables

/-- `strstr (name, pat) != NULL` -/
def occurs (name : Text) (pat : String) : Bool := (strstr name pat.toList).isSome

/-- `%d`: a number as `strtol` gives it, cut to an `int`. -/
def scanInt (s : Text) : Option (Int32 × Text) :=
  let signed := scanSign (skipSpace s)
  let ds := signed.2.takeWhile Char.isDigit
  if ds = [] then none
  else
    let v : ℤ := if signed.1 then -digitsValue ds else digitsValue ds
    some (Int32.ofInt (max (-2 ^ 63) (min (2 ^ 63 - 1) v)), signed.2.dropWhile Char.isDigit)

/-- The conversions of `"%d.%d…"` that succeed. -/
def scanDotted : ℕ → Text → List Int32
  | 0, _ => []
  | n + 1, s =>
    match scanInt s with
    | none => []
    | some (v, '.' :: rest) => v :: scanDotted n rest
    | some (v, _) => [v]

def packedVersion (major minor patch fix : Int32) : Int32 :=
  (major <<< 24) + (minor <<< 16) + (patch <<< 8) + fix

def lustre18 : Int32 := packedVersion 1 8 0 0

def lustre20 : Int32 := packedVersion 2 0 0 0

def lustre2108 : Int32 := packedVersion 2 10 8 0

def versionPath : Text := "fs/lustre/version".toList

/-- `_read_lustre_version_string`. Up to 2.8 the file has lines like a stats
file, afterwards it is a bare version string. When there is nothing to read the
buffer is used as it was. -/
def readLustreVersionString (fs : ProcFs) : ProcM (Except Errno Text) := do
  match ← procOpen fs versionPath with
  | .error e => pure (.error e)
  | .ok () =>
    let (_, rh) ← hashStats .empty
    procClose
    if 0 < rh.count then
      pure (match rh.find slot "lustre:".toList with
        | none => .error .ok
        | some version => .ok version)
    else
      let buf ← procGetsPath fs versionPath 64
      pure (.ok (buf.getD fs.garbage))

/-- The numbers of a version string; the last one may be missing. -/
def dottedVersion (version : Text) : Except Errno (Int32 × Int32 × Int32 × Int32) :=
  match scanDotted 4 version with
  | major :: minor :: patch :: fix => .ok (major, minor, patch, fix.headD 0)
  | _ => .error .io

def procFsLustreVersion (fs : ProcFs) :
    ProcM (Except Errno (Int32 × Int32 × Int32 × Int32)) :=
  (· >>= dottedVersion) <$> readLustreVersionString fs

def packVersion : Except Errno (Int32 × Int32 × Int32 × Int32) → Int32
  | .error _ => -1
  | .ok (major, minor, patch, fix) =>
    if packedVersion major minor patch fix < -1 then -1 else packedVersion major minor patch fix

/-- `_packed_lustre_version`: -1 when the version cannot be told. -/
def packedLustreVersion (fs : ProcFs) : ProcM Int32 := packVersion <$> procFsLustreVersion fs

def findMdtDir (fs : ProcFs) : ProcM Text := do
  let lustreVersion ← packedLustreVersion fs
  pure (if lustre20 ≤ lustreVersion then "fs/lustre/mdt".toList else "fs/lustre/mds".toList)

def buildMdtPath (fs : ProcFs) (inTmpl : Text) : ProcM Text := do
  let mdtDir ← findMdtDir fs
  pure (mdtDir ++ '/' :: inTmpl)

inductive Backfs where
  | ldiskfs | zfs

def findLustreBackfsType (fs : ProcFs) : ProcM Backfs := do
  match ← procOpen fs "fs/lustre/osd-zfs".toList with
  | .ok () =>
    procClose
    pure .zfs
  | .error _ => pure .ldiskfs

def buildOsdStatsPath (fs : ProcFs) (name : Text) : ProcM (Except Errno Text) := do
  let lustreVersion ← packedLustreVersion fs
  if occurs name "-MDT" then
    let stats ← buildMdtPath fs
      (if lustre20 ≤ lustreVersion then "%s/md_stats".toList else "%s/stats".toList)
    pure (.ok stats)
  else if occurs name "-OST" then pure (.ok "fs/lustre/obdfilter/%s/stats".toList)
  else pure (.error .inval)

def findOsdDir (fs : ProcFs) : ProcM Text := do
  let lustreVersion ← packedLustreVersion fs
  if lustre20 ≤ lustreVersion then
    match ← findLustreBackfsType fs with
    | .ldiskfs => pure "fs/lustre/osd-ldiskfs".toList
    | .zfs => pure "fs/lustre/osd-zfs".toList
  else pure "fs/lustre/mds".toList

def buildOsdPath (fs : ProcFs) (inTmpl : Text) : ProcM Text := do
  let osdDir ← findOsdDir fs
  pure (osdDir ++ '/' :: inTmpl)

/-- The template with the directory of the version in front, for an MDT. -/
def newTmpl (fs : ProcFs) (tmpl a1 : Text) : ProcM Text :=
  if occurs a1 "-MDT" then
    if occurs tmpl "/files" || occurs tmpl "/kbytes" then buildOsdPath fs tmpl
    else buildMdtPath fs tmpl
  else pure tmpl

/-- The assigned value, or `EIO`. -/
def scannedUInt64 : List Scanned → Except Errno UInt64
  | [.uint64 val] => .ok val
  | _ => .error .io

def scannedText : List Scanned → Except Errno Text
  | [.text s] => .ok s
  | _ => .error .io

def readint1 (fs : ProcFs) (tmpl a1 : Text) : ProcM (Except Errno UInt64) := do
  let tmpl ← newTmpl fs tmpl a1
  match ← procOpenf fs tmpl [a1] with
  | .error e => pure (.error e)
  | .ok () =>
    let vals ← procScanf [.uint64]
    procClose
    pure (scannedUInt64 vals)

def newStrTmpl (fs : ProcFs) (tmpl a1 : Text) : ProcM Text :=
  if occurs a1 "-MDT" then buildMdtPath fs tmpl else pure tmpl

def readstr1 (fs : ProcFs) (tmpl a1 : Text) : ProcM (Except Errno Text) := do
  let tmpl ← newStrTmpl fs tmpl a1
  match ← procOpenf fs tmpl [a1] with
  | .error e => pure (.error e)
  | .ok () =>
    let vals ← procScanf [.word 255]
    procClose
    pure (scannedText vals)

/-- A free part and a total, with templates for OSTs and for MDTs. -/
def procLustreFree (fs : ProcFs) (tmplfOst tmpltOst tmplfMdt tmpltMdt name : Text) :
    ProcM (Except Errno (UInt64 × UInt64)) :=
  let read (tmplf tmplt : Text) : ProcM (Except Errno (UInt64 × UInt64)) := do
    match ← readint1 fs tmplf name with
    | .error e => pure (.error e)
    | .ok f =>
      match ← readint1 fs tmplt name with
      | .error e => pure (.error e)
      | .ok t => pure (.ok (f, t))
  if occurs name "-OST" then read tmplfOst tmpltOst
  else if occurs name "-MDT" then read tmplfMdt tmpltMdt
  else pure (.error .inval)

/-- `proc_lustre_files`: the free and the total number of files. -/
def procLustreFiles (fs : ProcFs) (name : Text) : ProcM (Except Errno (UInt64 × UInt64)) :=
  procLustreFree fs "fs/lustre/obdfilter/%s/filesfree".toList
    "fs/lustre/obdfilter/%s/filestotal".toList "%s/filesfree".toList "%s/filestotal".toList name

def trimUuid (s : Text) : Text :=
  if 5 ≤ s.length ∧ s.drop (s.length - 5) = "_UUID".toList then s.take (s.length - 5) else s

def procLustreUuid (fs : ProcFs) (name : Text) : ProcM (Except Errno Text) :=
  if occurs name "-OST" then
    Except.map trimUuid <$> readstr1 fs "fs/lustre/obdfilter/%s/uuid".toList name
  else if occurs name "-MDT" then
    Except.map trimUuid <$> readstr1 fs "%s/uuid".toList name
  else pure (.error .inval)

/-- The versions that have the OSCs below `fs/lustre/osc`. -/
def oscInProc (lustreVersion : Int32) : Prop :=
  (lustre18 ≤ lustreVersion ∧ lustreVersion ≤ lustre2108) ∨ lustreVersion < 0

instance (v : Int32) : Decidable (oscInProc v) :=
  inferInstanceAs (Decidable ((lustre18 ≤ v ∧ v ≤ lustre2108) ∨ v < 0))

/-- `proc_lustre_oscinfo`: the uuid of the OST and the state of the connection. -/
def procLustreOscinfo (fs : ProcFs) (name : Text) : ProcM (Except Errno (Text × Text)) := do
  let lustreVersion ← packedLustreVersion fs
  let oscUuidDir :=
    if oscInProc lustreVersion then "fs/lustre/osc/%s/ost_server_uuid".toList
    else "kernel/debug/lustre/osp/%s/ost_server_uuid".toList
  match ← procOpenf fs oscUuidDir [name] with
  | .error e => pure (.error e)
  | .ok () =>
    let vals ← procScanf [.word 31, .space, .word 31]
    procClose
    pure (match vals with
      | [.text s1, .text s2] => .ok (trimUuid s1, s2)
      | _ => .error .io)

/-- An OSC that a client made, such as `lc1-OST0005-osc-ffff81007f018c00`. -/
def isClientOsc (name : Text) : Bool := occurs name "-osc-" && !occurs name "MDT"

/-- `_subdirlist`: the names of the directories, in order. -/
def subdirlist (fs : ProcFs) (path : Text) : ProcM (Except Errno (List Text)) := do
  match ← procOpen fs path with
  | .error e => pure (.error e)
  | .ok () =>
    let names ← procReaddirLoop ⟨false, true⟩
    procClose
    pure (.ok (listSort strcmp (names.filter fun name => !isClientOsc name)))

def procLustreOstlist (fs : ProcFs) : ProcM (Except Errno (List Text)) :=
  subdirlist fs "fs/lustre/obdfilter".toList

def procLustreMdtlist (fs : ProcFs) : ProcM (Except Errno (List Text)) := do
  match procExists fs "fs/lustre".toList with
  | .error e => pure (.error e)
  | .ok () =>
    let mdtDir ← findMdtDir fs
    subdirlist fs mdtDir

def procLustreOsclist (fs : ProcFs) : ProcM (Except Errno (List Text)) := do
  let lustreVersion ← packedLustreVersion fs
  subdirlist fs
    (if oscInProc lustreVersion then "fs/lustre/osc".toList
    else "kernel/debug/lustre/osp/".toList)

def procLustreMdtExportlist (fs : ProcFs) (name : Text) : ProcM (Except Errno (List Text)) := do
  let mdtDir ← findMdtDir fs
  subdirlist fs (fmtArgs "%s/%s/exports".toList [mdtDir, name])

/-- The loop of `_aggregate_mdt_export_stats`. It ends at an export without a
stats file, and it does not close the file that it cannot aggregate. -/
def aggregateExports (fs : ProcFs) (mdtDir mdtName : Text) :
    List Text → StatsTable → ProcM (Except Errno Unit × StatsTable)
  | [], h => pure (.ok (), h)
  | name :: names, h => do
    match ← procOpenf fs "%s/%s/exports/%s/stats".toList [mdtDir, mdtName, name] with
    | .error e => pure (if e = .noent then .ok () else .error e, h)
    | .ok () =>
      match ← hashAggregateStats h with
      | (.error e, h) => pure (.error e, h)
      | (.ok (), h) =>
        procClose
        aggregateExports fs mdtDir mdtName names h

/-- A list that cannot be read is left empty. -/
def listed : Except Errno (List Text) → List Text
  | .ok l => l
  | .error _ => []

def aggregateMdtExportStats (fs : ProcFs) (mdtName : Text) (h : StatsTable) :
    ProcM (Except Errno Unit × StatsTable) := do
  let mdtDir ← findMdtDir fs
  let ret ← procLustreMdtExportlist fs mdtName
  if (listed ret).length = 0 then pure (.ok (), h)
  else aggregateExports fs mdtDir mdtName (listed ret) h

def completeMdtStats (fs : ProcFs) (name : Text) (lustreVersion : Int32) (h : StatsTable) :
    ProcM (Except Errno Unit × StatsTable) :=
  if lustreVersion < packedVersion 2 0 56 0 then aggregateMdtExportStats fs name h
  else pure (.ok (), h)

/-- What `proc_lustre_hashstats` does to the stats of an MDT since 2.0. -/
def fixMdtStats (fs : ProcFs) (name : Text) (lustreVersion : Int32) (h : StatsTable) :
    ProcM (Except Errno StatsTable) := do
  let (ret, h) ← completeMdtStats fs name lustreVersion h
  match ret with
  | .error e => pure (.error e)
  | .ok () => pure (.ok (h.forEach fun n => (rekeyMdtStats n.1, n.2)))

/-- `proc_lustre_hashstats`. What opening the stats file returns is not looked at. -/
def procLustreHashstats (fs : ProcFs) (name : Text) : ProcM (Except Errno StatsTable) := do
  let lustreVersion ← packedLustreVersion fs
  match ← buildOsdStatsPath fs name with
  | .error e => pure (.error e)
  | .ok stats =>
    let _ ← procOpenf fs stats [name]
    let (ret, h) ← hashStats .empty
    procClose
    match ret with
    | .error e => pure (.error e)
    | .ok () =>
      if occurs name "-MDT" && lustre20 ≤ lustreVersion then fixMdtStats fs name lustreVersion h
      else pure (.ok h)

/-- The file that `proc_lustre_hashrecov` opens. -/
def openRecovery (fs : ProcFs) (name : Text) : ProcM (Except Errno Unit) :=
  if occurs name "-OST" then procOpenf fs "fs/lustre/obdfilter/%s/recovery_status".toList [name]
  else if occurs name "-MDT" then do
    let tmplr ← buildMdtPath fs "%s/recovery_status".toList
    procOpenf fs tmplr [name]
  else pure (.error .inval)

def procLustreHashrecov (fs : ProcFs) (name : Text) : ProcM (Except Errno StatsTable) := do
  match ← openRecovery fs name with
  | .error e => pure (.error e)
  | .ok () =>
    let (ret, h) ← hashStats .empty
    procClose
    match ret with
    | .error e => pure (.error e)
    | .ok () => pure (.ok h)

end Lmt
