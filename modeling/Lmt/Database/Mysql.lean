import Lmt.Metrics.Util
import Lmt.Database.Server

/-!
# Database handles of `lmtmysql.c`

A handle is a connection to one database with the cached ids of all names and
the cached last timestamp. The functions are attempts on a handle and the
server; a return value of -1 is a failure, which keeps what was done before it.
`_verify_type` is left out, since the columns have the types of the schema.
-/

namespace Lmt

open Attempts FormattedText

/-- `lmt_db_t`; the six prepared statements exist together or not at all. -/
structure Handle where
  name : Text
  /-- `conn`, numbered in the order of the connections -/
  conn : ℕ
  prepared : Bool
  timestamp : ℕ
  timestampId : ℕ
  idhash : KeyedTable Text ℕ

/-- A handle with the server behind it. -/
structure Db where
  handle : Handle
  world : World

abbrev DbM := Attempt Db

def onWorld {α : Type} (x : Attempt World α) : DbM α :=
  zoom Db.world (fun s w => { s with world := w }) x

def Db.tables (s : Db) : Tables := s.world.tables s.handle.name

def Db.update (s : Db) (f : Tables → Tables) : Db :=
  { s with world := s.world.update s.handle.name f }

/-- The kinds of names in the hash table. -/
inductive Svc where
  | mds | mdt | oss | ost | router | op
deriving DecidableEq

def Svc.pfx : Svc → Text
  | .mds => "mds".toList
  | .mdt => "mdt".toList
  | .oss => "oss".toList
  | .ost => "ost".toList
  | .router => "router".toList
  | .op => "op".toList

/-- `"%s_%s"` -/
def svcidKey (svc : Svc) (name : Text) : Text := svc.pfx ++ '_' :: name

/-- The columns that `sql_sel_*_info` selects: an id and a name. -/
def Tables.select (t : Tables) : Svc → List (ℕ × Text)
  | .mds => t.mdsInfo.rows.map fun r => (r.1, r.2.hostname)
  | .mdt => t.mdsInfo.rows.map fun r => (r.1, r.2.mdsName)
  | .oss => t.ossInfo.rows
  | .ost => t.ostInfo.rows.map fun r => (r.1, r.2.ostName)
  | .router => t.routerInfo.rows.map fun r => (r.1, r.2.hostname)
  | .op => t.operationInfo.rows

def lookupIdhash (h : Handle) (svc : Svc) (name : Text) : Option ℕ :=
  h.idhash.find? (svcidKey svc name)

def lmtDbLookup (h : Handle) (svc : Svc) (name : Text) : Bool := (lookupIdhash h svc name).isSome

/-- `hash_insert` of one id, which fails when its key exists. -/
def hashInsert (svc : Svc) (row : ℕ × Text) : DbM Unit := do
  let s ← get
  let idhash ← ofOption (s.handle.idhash.insert? (svcidKey svc row.2) row.1)
  set { s with handle := { s.handle with idhash } }

variable (site : Site)

/-- `mysql_query` and `mysql_store_result` of a `select`. -/
def mysqlSelect (svc : Svc) : DbM (List (ℕ × Text)) := do
  onWorld (mysqlCall site)
  onWorld (mysqlCall site)
  let s ← get
  pure (s.tables.select svc)

def populateIdhashAll (svc : Svc) : DbM Unit := do
  let rows ← mysqlSelect site svc
  each (hashInsert svc) rows

def populateIdhashOne (svc : Svc) (a1 : Text) : DbM ℕ := do
  let rows ← mysqlSelect site svc
  let row ← ofOption (rows.find? (·.2 = a1))
  hashInsert svc row
  pure row.1

def populateIdhash : DbM Unit :=
  each (populateIdhashAll site) [.mds, .mdt, .oss, .ost, .router, .op]

/-- `mysql_query` of an `insert` into an information table. -/
def mysqlInsert (f : Tables → Tables) : DbM Unit := do
  onWorld (mysqlCall site)
  modify fun s => s.update f

def insertMdsInfo (mdsname mdtname : Text) : DbM ℕ := do
  mysqlInsert site fun t =>
    { t with mdsInfo := t.mdsInfo.insert { mdsName := mdtname, hostname := mdsname } }
  let _ ← populateIdhashOne site .mds mdsname
  populateIdhashOne site .mdt mdtname

def insertOssInfo (ossname : Text) : DbM ℕ := do
  mysqlInsert site fun t => { t with ossInfo := t.ossInfo.insert ossname }
  populateIdhashOne site .oss ossname

def ossIdOrInsert (ossname : Text) : DbM ℕ := do
  let s ← get
  match lookupIdhash s.handle .oss ossname with
  | some id => pure id
  | none => insertOssInfo site ossname

def insertOstInfo (ossname ostname : Text) : DbM ℕ := do
  let ossId ← ossIdOrInsert site ossname
  mysqlInsert site fun t =>
    { t with ostInfo := t.ostInfo.insert { ossId, ostName := ostname, hostname := ossname } }
  populateIdhashOne site .ost ostname

def insertRouterInfo (rtrname : Text) : DbM ℕ := do
  mysqlInsert site fun t =>
    { t with routerInfo := t.routerInfo.insert { routerName := rtrname, hostname := rtrname } }
  populateIdhashOne site .router rtrname

def lmtUpdateInterval : ℕ := 5

/-- Round down to the nearest multiple of the update interval. -/
def roundTimestamp (now : ℕ) : ℕ := now - now % lmtUpdateInterval

/-- `mysql_stmt_bind_param` and `mysql_stmt_execute`. -/
def mysqlExecute : DbM Unit := do
  onWorld (mysqlCall site)
  onWorld (mysqlCall site)

def Handle.key (h : Handle) : Text × ℕ := (h.name, h.conn)

def Db.note (s : Db) (event : Event) : Db :=
  { s with world := { s.world with events := (s.handle.key, event) :: s.world.events } }

/-- Note in the history that a rounded clock reading was accepted. -/
def Db.stamp (s : Db) (timestamp : ℕ) : Db :=
  { s with
    world :=
      { s.world with stamped := ((s.handle.name, s.handle.conn), timestamp) :: s.world.stamped } }

/-- Insert a `TIMESTAMP_INFO` row and cache it. -/
def Db.insertTimestamp (s : Db) (timestamp : ℕ) : Db :=
  { (s.update fun t => { t with timestampInfo := t.timestampInfo.insert timestamp }).note
      (.timestamp s.tables.timestampInfo.next timestamp) with
    handle := { s.handle with timestamp, timestampId := s.tables.timestampInfo.next } }

def Db.insertRow (s : Db) (table : DataTable) (key : ℕ × ℕ) (insert? : Tables → Option Tables) :
    Db :=
  (s.update fun t => (insert? t).getD t).note (.row table key.1 key.2)

def ifPrepared : DbM Unit := do
  let s ← get
  if s.handle.prepared then pure () else failure

def readClock : DbM ℕ := do
  let now ← onWorld (gettimeofday site)
  modify fun s => s.note (.reading now)
  pure now

def updateTimestamp : DbM Unit := do
  ifPrepared
  let now ← readClock site
  let timestamp := roundTimestamp now
  let s ← get
  if timestamp ≤ s.handle.timestamp then
    modify fun s => s.stamp timestamp
  else
    mysqlExecute site
    modify fun s => (s.insertTimestamp timestamp).stamp timestamp

/-- The id of a name: the cached one, or that of a new row when `db_autoconf` is
on. Without either the result is `none`, to avoid a reconnect. -/
def lookupOrInsert (svc : Svc) (name : Text) (insertInfo : DbM ℕ) : DbM (Option ℕ) := do
  let s ← get
  match lookupIdhash s.handle svc name with
  | some id => pure (some id)
  | none => if site.autoconf then some <$> insertInfo else pure none

/-- Execute a prepared insert; a duplicate key is an expected failure if the
previous insert was delayed. -/
def insertRow (table : DataTable) (key : ℕ × ℕ) (insert? : Tables → Option Tables) :
    DbM Unit := do
  mysqlExecute site
  modify fun s => s.insertRow table key insert?

/-- The common body of the functions that insert into a data table. The row is
inserted under the id of the name and the cached `TS_ID`. -/
def insertSample (table : DataTable) (svc : Svc) (name : Text) (insertInfo : DbM ℕ)
    (insert? : ℕ × ℕ → Tables → Option Tables) : DbM Unit := do
  ifPrepared
  let id ← lookupOrInsert site svc name insertInfo
  match id with
  | none => pure ()
  | some id =>
    updateTimestamp site
    let s ← get
    insertRow site table (id, s.handle.timestampId) (insert? (id, s.handle.timestampId))

def lmtDbInsertMdsData (mdsname mdtname : Text) (row : MdsDataRow) : DbM Unit :=
  insertSample site .mds .mdt mdtname (insertMdsInfo site mdsname mdtname) fun key t =>
    (t.mdsData.insert? key row).map fun mdsData => { t with mdsData }

def lmtDbInsertOssData (ossname : Text) (row : OssDataRow) : DbM Unit :=
  insertSample site .oss .oss ossname (insertOssInfo site ossname) fun key t =>
    (t.ossData.insert? key row).map fun ossData => { t with ossData }

def lmtDbInsertOstData (ossname ostname : Text) (row : OstDataRow) : DbM Unit :=
  insertSample site .ost .ost ostname (insertOstInfo site ossname ostname) fun key t =>
    (t.ostData.insert? key row).map fun ostData => { t with ostData }

def lmtDbInsertRouterData (rtrname : Text) (row : RouterDataRow) : DbM Unit :=
  insertSample site .router .router rtrname (insertRouterInfo site rtrname) fun key t =>
    (t.routerData.insert? key row).map fun routerData => { t with routerData }

/-- Names without an id are skipped, to avoid a reconnect. The timestamp is the
one of the last update. -/
def lmtDbInsertMdsOpsData (mdtname opname : Text) (samples sum sumsquares : UInt64) :
    DbM Unit := do
  ifPrepared
  let s ← get
  match lookupIdhash s.handle .mdt mdtname, lookupIdhash s.handle .op opname with
  | some mdsId, some operationId =>
    insertRow site .mdsOps (mdsId, s.handle.timestampId) fun t =>
      some { t with
        mdsOpsData := t.mdsOpsData ++
          [{ mdsId, operationId, tsId := s.handle.timestampId, samples, sum, sumsquares }] }
  | _, _ => pure ()

/-- Prepare all statements even when one cannot be; then fail. -/
def prepareStmts : ℕ → Attempt World Unit
  | 0 => pure ()
  | n + 1 => do
    let r ← attempt (mysqlCall site)
    prepareStmts n
    ofOption r

def Handle.new (readonly : Bool) (dbname : Text) (conn : ℕ) : Handle where
  name := dbname
  conn := conn
  prepared := !readonly
  timestamp := 0
  timestampId := 0
  idhash := .empty

def mysqlRealConnect : Attempt World ℕ := do
  let w ← get
  set { w with connections := w.connections + 1 }
  mysqlCall site
  pure w.connections

/-- Fill the cache of a new handle, which is dropped when that fails. -/
def populateHandle (h : Handle) : Attempt World Handle :=
  zoom (fun w => ⟨h, w⟩) (fun _ s => s.world) do
    populateIdhash site
    let s ← get
    pure s.handle

def lmtDbCreate (readonly : Bool) (dbname : Text) : Attempt World Handle := do
  let conn ← mysqlRealConnect site
  if readonly then pure () else prepareStmts site 6
  populateHandle site (.new readonly dbname conn)

/-- `LIKE 'filesystem_%'`; the underscore stands for any character. -/
def isLmtDatabase (dbname : Text) : Bool :=
  "filesystem".toList.isPrefixOf dbname && "filesystem".length < dbname.length

def lmtDbList : Attempt World (List Text) := do
  mysqlCall site
  mysqlCall site
  pure (site.databases.filter isLmtDatabase)

def lmtDbCreateAll (readonly : Bool) : Attempt World (List Handle) := do
  let l ← lmtDbList site
  collect (lmtDbCreate site readonly) l

def Handle.fsname (h : Handle) : Text :=
  match strchr h.name '_' with
  | some p => p.drop 1
  | none => h.name

end Lmt
