import Lmt.Library.Runs
import Lmt.Metrics.Ost
import Lmt.Metrics.Mdt
import Lmt.Metrics.Router
import Lmt.Database.Mysql

/-!
# The inserter of `lmtdb.c`

The monitor module keeps one handle for each database and drops all of them
after an error; at most every 15 seconds it opens them again. Each metric is
decoded and inserted target by target into the database of the target's file
system.
-/

namespace Lmt

open Attempts FormattedText

/-- The static variables of `lmtdb.c`, and the server. -/
structure Inserter where
  dbs : Option (List Handle)
  lastConnect : ℕ
  reconnectNeeded : Bool
  world : World

/-- The module when it is loaded, with empty histories. -/
def Inserter.start (w : World) : Inserter where
  dbs := none
  lastConnect := 0
  reconnectNeeded := true
  world := { w with stamped := [], events := [] }

def minReconnectSecs : ℕ := 15

def inWorld {α : Type} (x : Attempt World α) : Attempt Inserter α :=
  zoom Inserter.world (fun s w => { s with world := w }) x

variable (site : Site)

def limitReconnect (now : ℕ) : Attempt Inserter Unit := do
  let s ← get
  if now < s.lastConnect + minReconnectSecs then failure
  else modify fun s => { s with lastConnect := now }

def connect : Attempt Inserter Unit := do
  let dbs ← inWorld (lmtDbCreateAll site false)
  modify fun s => { s with dbs := some dbs, reconnectNeeded := false }

/-- The handles are dropped before anything can fail. -/
def initDbIfneeded : Attempt Inserter Unit := do
  let s ← get
  if s.reconnectNeeded then
    modify fun s => { s with dbs := none }
    let now ← inWorld (gettimeofday site)
    limitReconnect now
    connect site
  else pure ()

def triggerDbReconnect (s : Inserter) : Inserter := { s with reconnectNeeded := true }

/-- `strncmp (s1, s2, n) == 0`, where a text ends with a NUL. -/
def strncmpEq (s1 s2 : Text) (n : ℕ) : Bool := s1.take n == s2.take n

/-- The part of a target's name before its first hyphen. -/
def svcPrefixLength (name : Text) : ℕ :=
  match strchr name '-' with
  | some p => name.length - p.length
  | none => name.length

def svcToDb (dbs : Option (List Handle)) (name : Text) : Option ℕ :=
  match dbs with
  | none => none
  | some dbs => dbs.findIdx? fun db => strncmpEq db.fsname name (svcPrefixLength name)

def Inserter.db? (s : Inserter) (i : ℕ) : Option Db := do
  let dbs ← s.dbs
  let handle ← dbs[i]?
  pure { handle, world := s.world }

def Inserter.setDb (s : Inserter) (i : ℕ) (db : Db) : Inserter :=
  { s with dbs := s.dbs.map (·.set i db.handle), world := db.world }

/-- Use the handle at a position; a failure triggers a reconnect. -/
def withDb (i : ℕ) (x : DbM Unit) : Attempt Inserter Unit := do
  let s ← get
  let db ← ofOption (s.db? i)
  let r := exec x db
  set (s.setDb i r.2)
  onFailure (ofOption r.1) triggerDbReconnect

/-- The part of a helper's name that looks up the target's database. -/
def findDb (name : Text) : Attempt Inserter ℕ := do
  let s ← get
  ofOption (svcToDb s.dbs name)

def insertOstinfo (m : OstMetric) (s : Inserter) (ostr : Text) : Inserter :=
  final (do
    let o ← ofOption (lmtOstDecodeV2Ostinfo ostr)
    let db ← findDb o.ostname
    withDb db (lmtDbInsertOstData site m.ossname o.ostname
      { readBytes := o.readBytes, writeBytes := o.writeBytes, kbytesFree := o.kbytesFree,
        kbytesUsed := o.kbytesTotal - o.kbytesFree, inodesFree := o.inodesFree,
        inodesUsed := o.inodesTotal - o.inodesFree })
    withDb db (lmtDbInsertOssData site m.ossname { pctCpu := m.pctCpu, pctMemory := m.pctMem })) s

def lmtDbInsertOstV2 (s : Inserter) (text : Text) : Inserter :=
  match exec (initDbIfneeded site) s, lmtOstDecodeV2 text with
  | (some _, s), some m => Runs.run (insertOstinfo site m) s m.ostinfo
  | (_, s), _ => s

def insertMdsOps (db : ℕ) (mdtname : Text) (s : Inserter) (op : Text) : Inserter :=
  final (do
    let o ← ofOption (lmtMdtDecodeV1Mdops op)
    withDb db (lmtDbInsertMdsOpsData site mdtname o.opname o.samples o.sum o.sumsquares)) s

def decodeMdtinfoOf (ver : ℕ) (s : Text) : Option MdtInfo :=
  if ver = 1 then lmtMdtDecodeV1Mdtinfo s
  else if ver = 2 then lmtMdtDecodeV2Mdtinfo s
  else if ver = 3 then lmtMdtDecodeV3Mdtinfo s
  else none

def insertMdsData (m : MdtMetric) (info : MdtInfo) : DbM Unit :=
  lmtDbInsertMdsData site m.mdsname info.mdtname
    { pctCpu := m.pctCpu, kbytesFree := info.kbytesFree,
      kbytesUsed := info.kbytesTotal - info.kbytesFree, inodesFree := info.inodesFree,
      inodesUsed := info.inodesTotal - info.inodesFree }

/-- Helper of `lmt_db_insert_mdt_v1_v2_v3`. -/
def insertMds (m : MdtMetric) (ver : ℕ) (s : Inserter) (mdt : Text) : Inserter :=
  final (do
    let info ← ofOption (decodeMdtinfoOf ver mdt)
    let db ← findDb info.mdtname
    withDb db (insertMdsData site m info)
    modify fun s => Runs.run (insertMdsOps site db info.mdtname) s info.mdops) s

def lmtDbInsertMdtV1V2V3 (s : Inserter) (text : Text) (ver : ℕ) : Inserter :=
  match exec (initDbIfneeded site) s, lmtMdtDecodeV1V2V3 text ver with
  | (some _, s), some m => Runs.run (insertMds site m ver) s m.mdtinfo
  | (_, s), _ => s

def lmtDbInsertMdtV1 (s : Inserter) (text : Text) : Inserter := lmtDbInsertMdtV1V2V3 site s text 1

def lmtDbInsertMdtV2 (s : Inserter) (text : Text) : Inserter := lmtDbInsertMdtV1V2V3 site s text 2

def lmtDbInsertMdtV3 (s : Inserter) (text : Text) : Inserter := lmtDbInsertMdtV1V2V3 site s text 3

def Inserter.positions (s : Inserter) : List ℕ := List.range (s.dbs.getD []).length

/-- `lmt_router_v1`, for every file system. -/
def lmtDbInsertRouterV1 (s : Inserter) (text : Text) : Inserter :=
  final (do
    initDbIfneeded site
    let m ← ofOption (lmtRouterDecodeV1 text)
    let s ← get
    each (fun db => withDb db (lmtDbInsertRouterData site m.name
      { bytes := m.bytes, pctCpu := m.pctCpu })) s.positions) s

/-- An OSS without OST information is inserted where it is known already. -/
def insertKnownOss (m : OssMetric) (db : ℕ) : Attempt Inserter Unit := do
  let s ← get
  match s.db? db with
  | none => pure ()
  | some h =>
    if lmtDbLookup h.handle .oss m.ossname then
      withDb db (lmtDbInsertOssData site m.ossname { pctCpu := m.pctCpu, pctMemory := m.pctMem })
    else pure ()

def lmtDbInsertOssV1 (s : Inserter) (text : Text) : Inserter :=
  final (do
    initDbIfneeded site
    let m ← ofOption (lmtOssDecodeV1 text)
    let s ← get
    each (insertKnownOss site m) s.positions) s

def lmtDbInsertOstV1 (s : Inserter) (text : Text) : Inserter :=
  final (do
    initDbIfneeded site
    let m ← ofOption (lmtOstDecodeV1 text)
    let db ← findDb m.ostname
    withDb db (lmtDbInsertOstData site m.ossname m.ostname
      { readBytes := m.readBytes, writeBytes := m.writeBytes, kbytesFree := m.kbytesFree,
        kbytesUsed := m.kbytesTotal - m.kbytesFree, inodesFree := m.inodesFree,
        inodesUsed := m.inodesTotal - m.inodesFree })) s

/-- A metric; the value is `none` when it is not a string. -/
structure Metric where
  name : Text
  value : Option Text

def metricHandler (name : Text) (vers : ℚ) : Option (Inserter → Text → Inserter) :=
  if name = "lmt_ost".toList ∧ versionEq vers 2 then some (lmtDbInsertOstV2 site)
  else if name = "lmt_mdt".toList ∧ versionEq vers 3 then some (lmtDbInsertMdtV3 site)
  else if name = "lmt_router".toList ∧ versionEq vers 1 then some (lmtDbInsertRouterV1 site)
  else if name = "lmt_mdt".toList ∧ versionEq vers 2 then some (lmtDbInsertMdtV2 site)
  else if name = "lmt_oss".toList ∧ versionEq vers 1 then some (lmtDbInsertOssV1 site)
  else if name = "lmt_ost".toList ∧ versionEq vers 1 then some (lmtDbInsertOstV1 site)
  else none

def metricUpdate (s : Inserter) (m : Metric) : Inserter :=
  match m.value with
  | none => s
  | some text =>
    match (scanVersion text).bind (metricHandler site m.name) with
    | none => s
    | some handler => handler s text

end Lmt
