import Lmt.Metrics.Osc
import Lmt.Ltop.Targets

/-!
# Applying a metric to the target records

Each metric is decoded, its targets are selected by file system, and the record
of every selected target is updated. A metric or a target that does not decode
is skipped.
-/

namespace Lmt

open FormattedText

def fsSelected (fs : Option Text) (name : Text) : Bool :=
  match fs with
  | none => true
  | some fs => fsmatch name fs

section

variable {V : Type*} [Inhabited V]

def decodeOscinfo (fs : Option Text) (tnow trcv staleSecs : ℤ) (ostData : List (Oststat V))
    (s : Text) : List (Oststat V) :=
  match lmtOscDecodeV1Oscinfo s with
  | none => ostData
  | some osc =>
    if fsSelected fs osc.oscname then
      updateOsc osc.oscname osc.oscstate ostData tnow trcv staleSecs
    else ostData

def decodeOscV1 (val : Text) (fs : Option Text) (ostData : List (Oststat V))
    (tnow trcv staleSecs : ℤ) : List (Oststat V) :=
  match lmtOscDecodeV1 val with
  | none => ostData
  | some m => m.oscinfo.foldl (decodeOscinfo fs tnow trcv staleSecs) ostData

variable (point : Text → Reading → V)

/-- What `_update_ost` is called with for one group of an OST metric. -/
def ostReport (m : OstMetric) (servername : Text) (o : OstInfo) : OstReport where
  ostname := o.ostname
  servername
  readBytes := o.readBytes
  writeBytes := o.writeBytes
  iops := o.iops
  numExports := o.numExports
  lockCount := o.lockCount
  grantRate := o.grantRate
  cancelRate := o.cancelRate
  connect := o.connect + o.reconnect
  recovStatus := o.recovStatus
  kbytesFree := o.kbytesFree
  kbytesTotal := o.kbytesTotal
  pctCpu := m.pctCpu
  pctMem := m.pctMem

def decodeOstinfo (fs : Option Text) (m : OstMetric) (servername : Text) (trcv staleSecs : ℤ)
    (ostData : List (Oststat V)) (s : Text) : List (Oststat V) :=
  match lmtOstDecodeV2Ostinfo s with
  | none => ostData
  | some o =>
    if fsSelected fs o.ostname
        then updateOst point (ostReport m servername o) ostData trcv staleSecs
    else ostData

/-- The domain name of the server is dropped. -/
def decodeOstV2 (val : Text) (fs : Option Text) (ostData : List (Oststat V))
    (trcv staleSecs : ℤ) : List (Oststat V) :=
  match lmtOstDecodeV2 val with
  | none => ostData
  | some m =>
    let servername := m.ossname.takeWhile (· != '.')
    m.ostinfo.foldl (decodeOstinfo point fs m servername trcv staleSecs) ostData

/-- What `_update_mdt` is called with for one group of an MDT metric. -/
def mdtReport (m : MdtMetric) (i : MdtInfo) : MdtReport where
  mdtname := i.mdtname
  servername := m.mdsname
  inodesFree := i.inodesFree
  inodesTotal := i.inodesTotal
  kbytesFree := i.kbytesFree
  kbytesTotal := i.kbytesTotal
  pctCpu := m.pctCpu
  pctMem := m.pctMem
  recovStatus := i.recoveryStatus
  mdops := i.mdops

/-- One group of an MDT metric of version 2 or 3. -/
def decodeMdtinfo (version : ℕ) (fs : Option Text) (m : MdtMetric) (trcv staleSecs : ℤ)
    (mdtData : List (Mdtstat V)) (s : Text) : List (Mdtstat V) :=
  match lmtMdtDecodeMdtinfoHelper s version with
  | none => mdtData
  | some i =>
    if fsSelected fs i.mdtname then updateMdt point (mdtReport m i) mdtData trcv staleSecs version
    else mdtData

def decodeMdt (version : ℕ) (val : Text) (fs : Option Text) (mdtData : List (Mdtstat V))
    (trcv staleSecs : ℤ) : List (Mdtstat V) :=
  match lmtMdtDecodeV1V2V3 val version with
  | none => mdtData
  | some m => m.mdtinfo.foldl (decodeMdtinfo point version fs m trcv staleSecs) mdtData

def decodeMdtV2 (val : Text) (fs : Option Text) (mdtData : List (Mdtstat V))
    (trcv staleSecs : ℤ) : List (Mdtstat V) :=
  decodeMdt point 2 val fs mdtData trcv staleSecs

def decodeMdtV3 (val : Text) (fs : Option Text) (mdtData : List (Mdtstat V))
    (trcv staleSecs : ℤ) : List (Mdtstat V) :=
  decodeMdt point 3 val fs mdtData trcv staleSecs

end

end Lmt
