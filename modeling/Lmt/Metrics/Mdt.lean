import Lmt.Metrics.Header

/-!
# The MDT metric of `mdt.c`

A record is the MDT's name, four capacity counters and the recovery string,
followed by three counters for each operation of a hardwired table. The reader
cuts the metric into records by a computed number of fields and names the
operations of a record by their position in the table.
-/

namespace Lmt

open FormattedText SeparatedFields

/-- The hardwired order of the operations in `lmt_mdt` versions 1 and 2. -/
def optabMdtV1 : List Text :=
  ["open", "close", "mknod", "link", "unlink", "mkdir", "rmdir", "rename", "getxattr",
    "process_config", "connect", "reconnect", "disconnect", "statfs", "create", "destroy",
    "setattr", "getattr", "llog_init", "notify", "quotactl"].map String.toList

/-- The hardwired order of the operations in `lmt_mdt` version 3. -/
def optabMdtV3 : List Text :=
  ["open", "close", "mknod", "link", "unlink", "mkdir", "rmdir", "rename", "getxattr",
    "process_config", "connect", "reconnect", "disconnect", "statfs", "create", "destroy",
    "setattr", "getattr", "llog_init", "notify", "quotactl", "read_bytes",
    "write_bytes"].map String.toList

/-- The counters `proc_lustre_parsestat` returns; zeros for an unknown key. -/
structure OpStat where
  count : UInt64
  sum : UInt64
  sumsq : UInt64
deriving DecidableEq

/-- What `_get_mdtstring` reads for one target before it formats it. -/
structure MdtReading where
  uuid : Text
  filesfree : UInt64
  filestotal : UInt64
  kbytesfree : UInt64
  kbytestotal : UInt64
  recovStr : Text
  /-- `proc_lustre_parsestat` on the target's statistics -/
  stats : Text → OpStat

/-- The results of the calls `lmt_mdt_string_v3` makes; `none` is a failure. -/
structure MdtServer where
  /-- `proc_lustre_mdtlist` -/
  mdtlist : Option (List Text)
  /-- `uname` -/
  nodename : Option Text
  /-- `proc_stat2`, in millionths of a percent -/
  cpupct : Option ℕ
  /-- `_get_mem_usage`, in millionths of a percent -/
  mempct : Option ℕ
  /-- everything read for one target -/
  target : Text → Option MdtReading

/-- The arguments of `"%lu;%lu;%lu;"`. -/
def OpStat.fields (o : OpStat) : List Text :=
  [printUInt64 o.count, printUInt64 o.sum, printUInt64 o.sumsq]

def getMdtop (stats : Text → OpStat) (key : Text) (len : ℤ) : Option Text :=
  snprintfChecked len (terminate ';' (stats key).fields)

/-- The arguments of `"%s;%lu;%lu;%lu;%lu;%s;"`. -/
def MdtReading.infoFields (r : MdtReading) : List Text :=
  [r.uuid, printUInt64 r.filesfree, printUInt64 r.filestotal, printUInt64 r.kbytesfree,
    printUInt64 r.kbytestotal, r.recovStr]

/-- One turn of the loop over the operations. -/
def appendMdtop (stats : Text → OpStat) (len : ℤ) (s key : Text) : Option Text := do
  let t ← getMdtop stats key (len - s.length)
  pure (s ++ t)

def getMdtstring (r : MdtReading) (len : ℤ) : Option Text := do
  let s ← snprintfChecked len (terminate ';' r.infoFields)
  optabMdtV3.foldlM (appendMdtop r.stats len) s

def appendMdt (ctx : MdtServer) (len : ℤ) (s name : Text) : Option Text := do
  let r ← ctx.target name
  let t ← getMdtstring r (len - s.length)
  pure (s ++ t)

def chomp (s : Text) : Text := if s.getLast? = some ';' then s.dropLast else s

/-- The metric in a buffer of `len` bytes; `none` for a return value of -1. -/
def lmtMdtStringV3 (ctx : MdtServer) (len : ℤ) : Option Text := do
  let mdtlist ← ctx.mdtlist
  if mdtlist = [] then none
  let nodename ← ctx.nodename
  let cpupct ← ctx.cpupct
  let mempct ← ctx.mempct
  let s ← snprintfChecked len (terminate ';' (serverHeader ['3'] nodename cpupct mempct))
  let s ← mdtlist.foldlM (appendMdt ctx len) s
  pure (chomp s)

def parseAndSkipMdsInfoV1 (src : Text) : Option ((Text × ℚ × ℚ) × Text) :=
  match sscanf serverFormat src with
  | [.text mdsname, .float pctCpu, .float pctMem] =>
    (strskip src 4 ';').map fun src => ((mdsname, pctCpu, pctMem), src)
  | _ => none

/-- The results of `lmt_mdt_decode_v1_v2_v3`. -/
structure MdtMetric where
  mdsname : Text
  pctCpu : ℚ
  pctMem : ℚ
  mdtinfo : List Text
deriving DecidableEq

def mdtfields (version : ℕ) : ℕ :=
  if version = 1 then 5 + 3 * optabMdtV1.length
  else if version = 2 then 6 + 3 * optabMdtV1.length
  else 6 + 3 * optabMdtV3.length

def lmtMdtDecodeV1V2V3 (s : Text) (version : ℕ) : Option MdtMetric :=
  match parseAndSkipMdsInfoV1 s with
  | none => none
  | some ((mdsname, pctCpu, pctMem), s) =>
    let groups := strskipcpyAll (mdtfields version) ';' s
    if 0 < groups.2.length then none
    else some { mdsname, pctCpu, pctMem, mdtinfo := groups.1 }

/-- The results of `_lmt_mdt_decode_mdtinfo_helper`. -/
structure MdtInfo where
  mdtname : Text
  inodesFree : UInt64
  inodesTotal : UInt64
  kbytesFree : UInt64
  kbytesTotal : UInt64
  /-- not set by version 1 -/
  recoveryStatus : Option Text
  mdops : List Text
deriving DecidableEq

/-- Append to each group the name at its position in the table; `none` when
there are too many groups. -/
def labelMdops : List Text → List Text → Option (List Text)
  | [], _ => some []
  | _ :: _, [] => none
  | cpy :: cpys, op :: ops => (labelMdops cpys ops).map (strappendfield cpy op ';' :: ·)

def decodeRecoveryStatus (s : Text) (version : ℕ) : Option (Option Text × Text) :=
  if version = 2 ∨ version = 3 then
    match sscanf [upToSemicolon] s with
    | [.text recoveryStatus] =>
      (strskip s 1 ';').map fun s => (some recoveryStatus, s)
    | _ => none
  else some (none, s)

/-- `"%[^;];%lu;%lu;%lu;%lu;"` -/
def mdtinfoFormat : List Directive :=
  [upToSemicolon, .lit ';', .uint64, .lit ';', .uint64, .lit ';', .uint64, .lit ';', .uint64,
    .lit ';']

def lmtMdtDecodeMdtinfoHelper (s : Text) (version : ℕ) : Option MdtInfo :=
  match sscanf mdtinfoFormat s with
  | [.text mdtname, .uint64 inodesFree, .uint64 inodesTotal, .uint64 kbytesFree,
      .uint64 kbytesTotal] => do
    let s ← strskip s 5 ';'
    let (recoveryStatus, s) ← decodeRecoveryStatus s version
    let groups := strskipcpyAll 3 ';' s
    let mdops ← labelMdops groups.1 (if version = 3 then optabMdtV3 else optabMdtV1)
    if 0 < groups.2.length then none
    else some { mdtname, inodesFree, inodesTotal, kbytesFree, kbytesTotal, recoveryStatus, mdops }
  | _ => none

def lmtMdtDecodeV1Mdtinfo (s : Text) : Option MdtInfo := lmtMdtDecodeMdtinfoHelper s 1

def lmtMdtDecodeV2Mdtinfo (s : Text) : Option MdtInfo := lmtMdtDecodeMdtinfoHelper s 2

def lmtMdtDecodeV3Mdtinfo (s : Text) : Option MdtInfo := lmtMdtDecodeMdtinfoHelper s 3

/-- The results of `lmt_mdt_decode_v1_mdops`. -/
structure MdtOp where
  opname : Text
  samples : UInt64
  sum : UInt64
  sumsquares : UInt64
deriving DecidableEq

/-- `"%lu;%lu;%lu;%[^;]"` -/
def mdopsFormat : List Directive :=
  [.uint64, .lit ';', .uint64, .lit ';', .uint64, .lit ';', upToSemicolon]

def lmtMdtDecodeV1Mdops (s : Text) : Option MdtOp :=
  match sscanf mdopsFormat s with
  | [.uint64 samples, .uint64 sum, .uint64 sumsquares, .text opname] =>
    some { opname, samples, sum, sumsquares }
  | _ => none

end Lmt
