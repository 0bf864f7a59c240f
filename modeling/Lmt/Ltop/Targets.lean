import Lmt.Library.FirstMatch
import Lmt.Metrics.Mdt
import Lmt.Metrics.Ost
import Lmt.Ltop.Sample

/-!
# Target records of `ltop.c`

`ost_data` and `mdt_data` hold one record for each target, found by the target's
name and created when it is first reported. A report is applied when it is newer
than the last one; when another server reports the target, the samples are
invalidated first.

The records are generic in the data points of their samples. `point` makes a
data point from a reading of a server's metric; the program keeps the number.
-/

namespace Lmt

open FormattedText FirstMatch

/-- The position of the first occurrence of `pat`. -/
def strstr : Text → Text → Option ℕ
  | [], pat => if pat = [] then some 0 else none
  | c :: s, pat => if pat.isPrefixOf (c :: s) then some 0 else (strstr s pat).map (· + 1)

/-- The position of the last occurrence of `c`. -/
def strrchr : Text → Char → Option ℕ
  | [], _ => none
  | d :: s, c =>
    match strrchr s c with
    | some i => some (i + 1)
    | none => if d = c then some 0 else none

def maxhostnamelen : ℕ := 64

def recoveryStrSize : ℕ := 64

/-- Match a target `fs-OSTxxxx` or `fs-MDTxxxx` against a file system name,
which may contain hyphens. -/
def fsmatch (name fs : Text) : Bool :=
  let len := (strrchr name '-').getD name.length
  fs.length = len && name.take len == fs

/-- A number of a metric: a counter or a scanned percentage. -/
inductive Reading where
  | counter (n : UInt64)
  | percent (q : ℚ)
deriving DecidableEq

/-- The number of a reading, without the rounding to `double`. -/
def Reading.exact : Reading → ℚ
  | .counter n => n.toNat
  | .percent q => q

/-- `generic_target_t`; `tgtMetricTimestamp` is a `time_t`. -/
structure GenericTarget (V : Type*) where
  fsname : Text
  name : Text
  servername : Text
  tgtMetricTimestamp : ℤ
  recovStatus : Text
  tgtstate : Text
  pctCpu : Sample V
  pctMem : Sample V
  tag : Bool
deriving DecidableEq

/-- `oststat_t` -/
structure Oststat (V : Type*) where
  common : GenericTarget V
  rbytes : Sample V
  wbytes : Sample V
  iops : Sample V
  numExports : Sample V
  lockCount : Sample V
  grantRate : Sample V
  cancelRate : Sample V
  connect : Sample V
  kbytesFree : Sample V
  kbytesTotal : Sample V
  ossname : Text
deriving DecidableEq

/-- `mdtstat_t` -/
structure Mdtstat (V : Type*) where
  common : GenericTarget V
  inodesFree : Sample V
  inodesTotal : Sample V
  «open» : Sample V
  close : Sample V
  getattr : Sample V
  setattr : Sample V
  link : Sample V
  unlink : Sample V
  mkdir : Sample V
  rmdir : Sample V
  statfs : Sample V
  rename : Sample V
  kbytesFree : Sample V
  kbytesTotal : Sample V
  getxattr : Sample V
  readBytes : Sample V
  writeBytes : Sample V
deriving DecidableEq

structure TargetLists (V : Type*) where
  mdtData : List (Mdtstat V)
  ostData : List (Oststat V)
deriving DecidableEq

def TargetLists.empty {V : Type*} : TargetLists V := ⟨[], []⟩

section

variable {V : Type*} [Inhabited V]

/-- The fields both kinds of record start with. `strncpy` copies the part before the marker whole,
so this is the code for names with at most 16 characters before it, as lustre's are. -/
def createTarget (marker name : Text) (staleSecs : ℤ) : GenericTarget V where
  fsname := match strstr name marker with
    | some i => name.take i
    | none => name.take 16
  name := match strstr name marker with
    | some i => (name.drop (i + 4)).take 16
    | none => name.take 16
  servername := []
  tgtMetricTimestamp := 0
  recovStatus := []
  tgtstate := []
  pctCpu := sampleCreate staleSecs
  pctMem := sampleCreate staleSecs
  tag := false

def createOststat (name : Text) (staleSecs : ℤ) : Oststat V where
  common := createTarget "-OST".toList name staleSecs
  rbytes := sampleCreate staleSecs
  wbytes := sampleCreate staleSecs
  iops := sampleCreate staleSecs
  numExports := sampleCreate staleSecs
  lockCount := sampleCreate staleSecs
  grantRate := sampleCreate staleSecs
  cancelRate := sampleCreate staleSecs
  connect := sampleCreate staleSecs
  kbytesFree := sampleCreate staleSecs
  kbytesTotal := sampleCreate staleSecs
  ossname := []

def createMdtstat (name : Text) (staleSecs : ℤ) : Mdtstat V where
  common := createTarget "-MDT".toList name staleSecs
  inodesFree := sampleCreate staleSecs
  inodesTotal := sampleCreate staleSecs
  «open» := sampleCreate staleSecs
  close := sampleCreate staleSecs
  getattr := sampleCreate staleSecs
  setattr := sampleCreate staleSecs
  link := sampleCreate staleSecs
  unlink := sampleCreate staleSecs
  mkdir := sampleCreate staleSecs
  rmdir := sampleCreate staleSecs
  statfs := sampleCreate staleSecs
  rename := sampleCreate staleSecs
  kbytesFree := sampleCreate staleSecs
  kbytesTotal := sampleCreate staleSecs
  getxattr := sampleCreate staleSecs
  readBytes := sampleCreate staleSecs
  writeBytes := sampleCreate staleSecs

end

variable {V : Type*}

/-- The test of `_match_oststat` and `_match_mdtstat`. -/
def GenericTarget.matches (marker : Text) (t : GenericTarget V) (name : Text) : Bool :=
  let target := match strstr name marker with
    | some i => name.drop (i + 4)
    | none => name
  t.name == target && fsmatch name t.fsname

def matchOststat (o : Oststat V) (name : Text) : Bool := o.common.matches "-OST".toList name

def matchMdtstat (m : Mdtstat V) (name : Text) : Bool := m.common.matches "-MDT".toList name

def setTgtstate (state : Text) (tnow trcv staleSecs : ℤ) (o : Oststat V) : Oststat V :=
  { o with common.tgtstate := if tnow - trcv > staleSecs then [] else state.take 1 }

def updateOsc [Inhabited V] (name state : Text) (ostData : List (Oststat V))
    (tnow trcv staleSecs : ℤ) : List (Oststat V) :=
  updateFirst (matchOststat · name) (createOststat name staleSecs)
    (setTgtstate state tnow trcv staleSecs) ostData

/-- The arguments of `_update_ost` that say what a server reported. -/
structure OstReport where
  ostname : Text
  servername : Text
  readBytes : UInt64
  writeBytes : UInt64
  iops : UInt64
  numExports : UInt64
  lockCount : UInt64
  grantRate : UInt64
  cancelRate : UInt64
  connect : UInt64
  recovStatus : Text
  kbytesFree : UInt64
  kbytesTotal : UInt64
  pctCpu : ℚ
  pctMem : ℚ

/-- What `_update_ost` does on failover or failback. -/
def failoverOst (o : Oststat V) (servername : Text) : Oststat V :=
  { o with
    rbytes := sampleInvalidate o.rbytes
    wbytes := sampleInvalidate o.wbytes
    iops := sampleInvalidate o.iops
    numExports := sampleInvalidate o.numExports
    lockCount := sampleInvalidate o.lockCount
    kbytesFree := sampleInvalidate o.kbytesFree
    kbytesTotal := sampleInvalidate o.kbytesTotal
    common.pctCpu := sampleInvalidate o.common.pctCpu
    common.pctMem := sampleInvalidate o.common.pctMem
    common.servername := servername.take (maxhostnamelen - 1) }

section

variable (point : Text → Reading → V)

/-- The updates of the samples at the end of `_update_ost`. -/
def sampleOststat (r : OstReport) (trcv : ℤ) (o : Oststat V) : Oststat V :=
  { o with
    common.tgtMetricTimestamp := trcv
    rbytes := sampleUpdate o.rbytes (point r.servername (.counter r.readBytes)) trcv
    wbytes := sampleUpdate o.wbytes (point r.servername (.counter r.writeBytes)) trcv
    iops := sampleUpdate o.iops (point r.servername (.counter r.iops)) trcv
    numExports := sampleUpdate o.numExports (point r.servername (.counter r.numExports)) trcv
    lockCount := sampleUpdate o.lockCount (point r.servername (.counter r.lockCount)) trcv
    grantRate := sampleUpdate o.grantRate (point r.servername (.counter r.grantRate)) trcv
    cancelRate := sampleUpdate o.cancelRate (point r.servername (.counter r.cancelRate)) trcv
    connect := sampleUpdate o.connect (point r.servername (.counter r.connect)) trcv
    kbytesFree := sampleUpdate o.kbytesFree (point r.servername (.counter r.kbytesFree)) trcv
    kbytesTotal := sampleUpdate o.kbytesTotal (point r.servername (.counter r.kbytesTotal)) trcv
    common.pctCpu := sampleUpdate o.common.pctCpu (point r.servername (.percent r.pctCpu)) trcv
    common.pctMem := sampleUpdate o.common.pctMem (point r.servername (.percent r.pctMem)) trcv
    common.recovStatus := r.recovStatus.take (recoveryStrSize - 1) }

/-- What `_update_ost` does to the record of the OST. -/
def reportOst (r : OstReport) (trcv : ℤ) (o : Oststat V) : Oststat V :=
  if o.common.tgtMetricTimestamp < trcv then
    sampleOststat point r trcv
      (if r.servername = o.common.servername then o else failoverOst o r.servername)
  else o

def updateOst [Inhabited V] (r : OstReport) (ostData : List (Oststat V)) (trcv staleSecs : ℤ) :
    List (Oststat V) :=
  updateFirst (matchOststat · r.ostname) (createOststat r.ostname staleSecs)
    (reportOst point r trcv) ostData

end

/-- The operations of an MDT that have a sample. -/
inductive MdopSample where
  | «open» | close | getattr | setattr | link | unlink | mkdir | rmdir | statfs | rename
  | getxattr | readBytes | writeBytes
deriving DecidableEq

/-- The comparisons of the operation's name in `_update_mdt`, in their order. -/
def mdopSamples : List (Text × MdopSample) :=
  [("open".toList, .open), ("close".toList, .close), ("getattr".toList, .getattr),
    ("setattr".toList, .setattr), ("link".toList, .link), ("unlink".toList, .unlink),
    ("mkdir".toList, .mkdir), ("rmdir".toList, .rmdir), ("statfs".toList, .statfs),
    ("rename".toList, .rename), ("getxattr".toList, .getxattr),
    ("read_bytes".toList, .readBytes), ("write_bytes".toList, .writeBytes)]

def mdopSample (opname : Text) : Option MdopSample := mdopSamples.lookup opname

def MdopSample.counter : MdopSample → MdtOp → UInt64
  | .readBytes, op | .writeBytes, op => op.sum
  | _, op => op.samples

def Mdtstat.modify (m : Mdtstat V) (k : MdopSample) (f : Sample V → Sample V) : Mdtstat V :=
  match k with
  | .open => { m with «open» := f m.open }
  | .close => { m with close := f m.close }
  | .getattr => { m with getattr := f m.getattr }
  | .setattr => { m with setattr := f m.setattr }
  | .link => { m with link := f m.link }
  | .unlink => { m with unlink := f m.unlink }
  | .mkdir => { m with mkdir := f m.mkdir }
  | .rmdir => { m with rmdir := f m.rmdir }
  | .statfs => { m with statfs := f m.statfs }
  | .rename => { m with rename := f m.rename }
  | .getxattr => { m with getxattr := f m.getxattr }
  | .readBytes => { m with readBytes := f m.readBytes }
  | .writeBytes => { m with writeBytes := f m.writeBytes }

section

variable (point : Text → Reading → V)

/-- The arguments of `_update_mdt` that say what a server reported. The
recovery status is absent in version 1. -/
structure MdtReport where
  mdtname : Text
  servername : Text
  inodesFree : UInt64
  inodesTotal : UInt64
  kbytesFree : UInt64
  kbytesTotal : UInt64
  pctCpu : ℚ
  pctMem : ℚ
  recovStatus : Option Text
  mdops : List Text

/-- What `_update_mdt` does on failover or failback. -/
def failoverMdt (m : Mdtstat V) (servername : Text) : Mdtstat V :=
  { m with
    inodesFree := sampleInvalidate m.inodesFree
    inodesTotal := sampleInvalidate m.inodesTotal
    «open» := sampleInvalidate m.open
    close := sampleInvalidate m.close
    getattr := sampleInvalidate m.getattr
    setattr := sampleInvalidate m.setattr
    link := sampleInvalidate m.link
    unlink := sampleInvalidate m.unlink
    mkdir := sampleInvalidate m.mkdir
    rmdir := sampleInvalidate m.rmdir
    statfs := sampleInvalidate m.statfs
    rename := sampleInvalidate m.rename
    kbytesFree := sampleInvalidate m.kbytesFree
    kbytesTotal := sampleInvalidate m.kbytesTotal
    getxattr := sampleInvalidate m.getxattr
    common.pctCpu := sampleInvalidate m.common.pctCpu
    common.pctMem := sampleInvalidate m.common.pctMem
    readBytes := sampleInvalidate m.readBytes
    writeBytes := sampleInvalidate m.writeBytes
    common.servername := servername.take (maxhostnamelen - 1)
    common.recovStatus := [] }

def sampleMdtstat (r : MdtReport) (trcv : ℤ) (version : ℕ) (m : Mdtstat V) : Mdtstat V :=
  { m with
    common.tgtMetricTimestamp := trcv
    inodesFree := sampleUpdate m.inodesFree (point r.servername (.counter r.inodesFree)) trcv
    inodesTotal := sampleUpdate m.inodesTotal (point r.servername (.counter r.inodesTotal)) trcv
    kbytesFree := sampleUpdate m.kbytesFree (point r.servername (.counter r.kbytesFree)) trcv
    kbytesTotal := sampleUpdate m.kbytesTotal (point r.servername (.counter r.kbytesTotal)) trcv
    common.pctCpu := sampleUpdate m.common.pctCpu (point r.servername (.percent r.pctCpu)) trcv
    common.pctMem := sampleUpdate m.common.pctMem (point r.servername (.percent r.pctMem)) trcv
    common.recovStatus :=
      if version = 2 ∨ version = 3 then (r.recovStatus.getD []).take (recoveryStrSize - 1)
      else m.common.recovStatus }

def sampleMdop (servername : Text) (trcv : ℤ) (m : Mdtstat V) (op : MdtOp) : Mdtstat V :=
  match mdopSample op.opname with
  | some k => m.modify k fun s => sampleUpdate s (point servername (.counter (k.counter op))) trcv
  | none => m

/-- What `_update_mdt` does to the record of the MDT. Groups of `mdops` that do
not decode are skipped. -/
def reportMdt (r : MdtReport) (trcv : ℤ) (version : ℕ) (m : Mdtstat V) : Mdtstat V :=
  if m.common.tgtMetricTimestamp < trcv then
    (r.mdops.filterMap lmtMdtDecodeV1Mdops).foldl (sampleMdop point r.servername trcv)
      (sampleMdtstat point r trcv version
        (if r.servername = m.common.servername then m else failoverMdt m r.servername))
  else m

def updateMdt [Inhabited V] (r : MdtReport) (mdtData : List (Mdtstat V)) (trcv staleSecs : ℤ)
    (version : ℕ) : List (Mdtstat V) :=
  updateFirst (matchMdtstat · r.mdtname) (createMdtstat r.mdtname staleSecs)
    (reportMdt point r trcv version) mdtData

end

end Lmt
