import Lmt.Library.Attempts
import Lmt.Library.Tables
import Lmt.Library.FormattedText

/-!
# The MySQL server and its tables

The tables are those of `create_schema-1.1.sql` that the monitor module reads or
writes, with the columns it fills. Every automatic id and every primary key of
the schema is kept by the server; `MDS_OPS_DATA` has neither. Names compare by
their characters, a `TIMESTAMP` is the number of seconds it was made from, and a
`select` returns its rows in the order of their insertion. A call of the client
library that fails changes no table.
-/

namespace Lmt

open Attempts FormattedText

structure MdsInfoRow where
  mdsName : Text
  hostname : Text
deriving DecidableEq

structure OstInfoRow where
  ossId : ℕ
  ostName : Text
  hostname : Text
deriving DecidableEq

structure RouterInfoRow where
  routerName : Text
  hostname : Text
deriving DecidableEq

/-- The columns of `MDS_DATA` after its key. -/
structure MdsDataRow where
  pctCpu : ℚ
  kbytesFree : UInt64
  kbytesUsed : UInt64
  inodesFree : UInt64
  inodesUsed : UInt64
deriving DecidableEq

/-- A row of `MDS_OPS_DATA`. -/
structure MdsOpsRow where
  mdsId : ℕ
  operationId : ℕ
  tsId : ℕ
  samples : UInt64
  sum : UInt64
  sumsquares : UInt64
deriving DecidableEq

/-- The columns of `OSS_DATA` after its key. -/
structure OssDataRow where
  pctCpu : ℚ
  pctMemory : ℚ
deriving DecidableEq

/-- The columns of `OST_DATA` after its key. -/
structure OstDataRow where
  readBytes : UInt64
  writeBytes : UInt64
  kbytesFree : UInt64
  kbytesUsed : UInt64
  inodesFree : UInt64
  inodesUsed : UInt64
deriving DecidableEq

/-- The columns of `ROUTER_DATA` after its key. -/
structure RouterDataRow where
  bytes : UInt64
  pctCpu : ℚ
deriving DecidableEq

/-- The tables of one file system's database. The keys of the data tables are a
target's id and a `TS_ID`. -/
structure Tables where
  mdsInfo : AutoTable MdsInfoRow
  /-- `HOSTNAME` -/
  ossInfo : AutoTable Text
  ostInfo : AutoTable OstInfoRow
  routerInfo : AutoTable RouterInfoRow
  /-- `OPERATION_NAME` -/
  operationInfo : AutoTable Text
  /-- `TIMESTAMP` -/
  timestampInfo : AutoTable ℕ
  mdsData : KeyedTable (ℕ × ℕ) MdsDataRow
  mdsOpsData : List MdsOpsRow
  ossData : KeyedTable (ℕ × ℕ) OssDataRow
  ostData : KeyedTable (ℕ × ℕ) OstDataRow
  routerData : KeyedTable (ℕ × ℕ) RouterDataRow
deriving Inhabited

def MdsOpsRow.key (r : MdsOpsRow) : ℕ × ℕ × ℕ := (r.mdsId, r.tsId, r.operationId)

/-- What the module finds: its configuration, the clock, and which calls of the
client library fail. -/
structure Site where
  /-- the server's databases, in the order it lists them -/
  databases : List Text
  nodup_databases : databases.Nodup
  /-- `lmt_conf_get_db_autoconf` -/
  autoconf : Bool
  /-- the seconds of the `n`-th reading; `none` when `gettimeofday` fails -/
  clock : ℕ → Option ℕ
  /-- whether the `n`-th call fails -/
  fails : ℕ → Bool

/-- The tables of samples. -/
inductive DataTable where
  | ost | oss | mds | mdsOps | router
deriving DecidableEq

/-- What happens through a handle. -/
inductive Event where
  /-- the clock is read for a timestamp -/
  | reading (now : ℕ)
  /-- a row of `TIMESTAMP_INFO` is inserted -/
  | timestamp (tsId timestamp : ℕ)
  /-- an insert into a data table is executed, or refused for its key -/
  | row (table : DataTable) (id tsId : ℕ)
deriving DecidableEq

/-- The server and how far the clock and the failures were used up. No function reads
the two histories, which are kept under the database and the connection, the newest
entry first. -/
structure World where
  tables : Text → Tables
  calls : ℕ
  clockReads : ℕ
  /-- how many connections to a database were opened -/
  connections : ℕ
  /-- the rounded clock readings that `_update_timestamp` accepted -/
  stamped : List ((Text × ℕ) × ℕ)
  /-- what happened through the handles -/
  events : List ((Text × ℕ) × Event)

def lc1Databases : List Text := ["filesystem_lc1".toList]

theorem nodup_lc1Databases : lc1Databases.Nodup := List.nodup_singleton _

def World.empty : World where
  tables _ := default
  calls := 0
  clockReads := 0
  connections := 0
  stamped := []
  events := []

def World.update (w : World) (dbname : Text) (f : Tables → Tables) : World :=
  { w with tables := Function.update w.tables dbname (f (w.tables dbname)) }

section

variable (w : World) (dbname : Text) (f : Tables → Tables)

@[simp] theorem World.tables_update :
    (w.update dbname f).tables = Function.update w.tables dbname (f (w.tables dbname)) := rfl

@[simp] theorem World.calls_update : (w.update dbname f).calls = w.calls := rfl

@[simp] theorem World.clockReads_update : (w.update dbname f).clockReads = w.clockReads := rfl

@[simp] theorem World.connections_update : (w.update dbname f).connections = w.connections := rfl

@[simp] theorem World.stamped_update : (w.update dbname f).stamped = w.stamped := rfl

@[simp] theorem World.events_update : (w.update dbname f).events = w.events := rfl

end

variable (site : Site)

def mysqlCall : Attempt World Unit := do
  let w ← get
  set { w with calls := w.calls + 1 }
  if site.fails w.calls then failure else pure ()

def gettimeofday : Attempt World ℕ := do
  let w ← get
  set { w with clockReads := w.clockReads + 1 }
  ofOption (site.clock w.clockReads)

theorem exec_mysqlCall (w : World) :
    exec (mysqlCall site) w =
      (if site.fails w.calls then none else some (), { w with calls := w.calls + 1 }) := by
  simp only [mysqlCall, exec_bind, exec_get, exec_set]
  split_ifs <;> simp

theorem exec_gettimeofday (w : World) :
    exec (gettimeofday site) w =
      (site.clock w.clockReads, { w with clockReads := w.clockReads + 1 }) := by
  simp only [gettimeofday, exec_bind, exec_get, exec_set]
  cases site.clock w.clockReads <;> simp

end Lmt
