import Lmt.Metrics.Header

/-!
# The OST metric of `ost.c`

`lmtOstStringV2` writes one line for a server with all its targets, and
`lmtOstDecodeV2` with `lmtOstDecodeV2Ostinfo` reads it. Percentages are the
decimals `%f` prints, so the writer takes them as counts of millionths.
-/

namespace Lmt

open FormattedText SeparatedFields

/-- What `_get_oststring_v2` reads for one target before it formats it. -/
structure OstReading where
  uuid : Text
  filesfree : UInt64
  filestotal : UInt64
  kbytesfree : UInt64
  kbytestotal : UInt64
  readBytes : UInt64
  writeBytes : UInt64
  iops : UInt64
  numExports : UInt64
  lockCount : UInt64
  grantRate : UInt64
  cancelRate : UInt64
  connect : UInt64
  reconnect : UInt64
  recovStr : Text
deriving DecidableEq

/-- The results of the calls `lmt_ost_string_v2` makes; `none` is a failure. -/
structure OstServer where
  /-- `proc_lustre_ostlist` -/
  ostlist : Option (List Text)
  /-- `uname` -/
  nodename : Option Text
  /-- `proc_stat2`, in millionths of a percent -/
  cpupct : Option ℕ
  /-- `_get_mem_usage`, in millionths of a percent -/
  mempct : Option ℕ
  /-- everything read for one target -/
  target : Text → Option OstReading

/-- The arguments of the format of `_get_oststring_v2`, in its order. -/
def OstReading.fields (r : OstReading) : List Text :=
  [r.uuid, printUInt64 r.filesfree, printUInt64 r.filestotal, printUInt64 r.kbytesfree,
    printUInt64 r.kbytestotal, printUInt64 r.readBytes, printUInt64 r.writeBytes,
    printUInt64 r.iops, printUInt64 r.numExports, printUInt64 r.lockCount,
    printUInt64 r.grantRate, printUInt64 r.cancelRate, printUInt64 r.connect,
    printUInt64 r.reconnect, r.recovStr]

/-- Print the fields of one target, each with a `;` after it. -/
def getOststringV2 (r : OstReading) (len : ℤ) : Option Text :=
  snprintfChecked len (terminate ';' r.fields)

/-- One turn of the loop over the targets, which prints after the text so far. -/
def appendOst (ctx : OstServer) (len : ℤ) (s name : Text) : Option Text := do
  let r ← ctx.target name
  let t ← getOststringV2 r (len - s.length)
  pure (s ++ t)

/-- The metric in a buffer of `len` bytes; `none` for a return value of -1. -/
def lmtOstStringV2 (ctx : OstServer) (len : ℤ) : Option Text := do
  let ostlist ← ctx.ostlist
  if ostlist = [] then none
  let nodename ← ctx.nodename
  let cpupct ← ctx.cpupct
  let mempct ← ctx.mempct
  let s ← snprintfChecked len (terminate ';' (serverHeader ['2'] nodename cpupct mempct))
  ostlist.foldlM (appendOst ctx len) s

/-- The results of `lmt_ost_decode_v2`. -/
structure OstMetric where
  ossname : Text
  pctCpu : ℚ
  pctMem : ℚ
  ostinfo : List Text
deriving DecidableEq

def lmtOstDecodeV2 (s : Text) : Option OstMetric :=
  match sscanf serverFormat s with
  | [.text ossname, .float pctCpu, .float pctMem] =>
    match strskip s 4 ';' with
    | none => none
    | some s =>
      let groups := strskipcpyAll 15 ';' s
      if 0 < groups.2.length then none
      else some { ossname, pctCpu, pctMem, ostinfo := groups.1 }
  | _ => none

/-- `"%[^;];%lu;%lu;%lu;%lu;%lu;%lu;%lu;%lu;%lu;%lu;%lu;%lu;%lu;%[^;];"` -/
def ostinfoFormat : List Directive :=
  [upToSemicolon, .lit ';', .uint64, .lit ';', .uint64, .lit ';', .uint64, .lit ';', .uint64,
    .lit ';', .uint64, .lit ';', .uint64, .lit ';', .uint64, .lit ';', .uint64, .lit ';',
    .uint64, .lit ';', .uint64, .lit ';', .uint64, .lit ';', .uint64, .lit ';', .uint64,
    .lit ';', upToSemicolon, .lit ';']

/-- The results of `lmt_ost_decode_v2_ostinfo`. -/
structure OstInfo where
  ostname : Text
  readBytes : UInt64
  writeBytes : UInt64
  kbytesFree : UInt64
  kbytesTotal : UInt64
  inodesFree : UInt64
  inodesTotal : UInt64
  iops : UInt64
  numExports : UInt64
  lockCount : UInt64
  grantRate : UInt64
  cancelRate : UInt64
  connect : UInt64
  reconnect : UInt64
  recovStatus : Text
deriving DecidableEq

def lmtOstDecodeV2Ostinfo (s : Text) : Option OstInfo :=
  match sscanf ostinfoFormat s with
  | [.text ostname, .uint64 inodesFree, .uint64 inodesTotal, .uint64 kbytesFree,
      .uint64 kbytesTotal, .uint64 readBytes, .uint64 writeBytes, .uint64 iops,
      .uint64 numExports, .uint64 lockCount, .uint64 grantRate, .uint64 cancelRate,
      .uint64 connect, .uint64 reconnect, .text recovStatus] =>
    some { ostname, readBytes, writeBytes, kbytesFree, kbytesTotal, inodesFree, inodesTotal,
           iops, numExports, lockCount, grantRate, cancelRate, connect, reconnect, recovStatus }
  | _ => none

/-- The results of `lmt_oss_decode_v1`. -/
structure OssMetric where
  ossname : Text
  pctCpu : ℚ
  pctMem : ℚ
deriving DecidableEq

/-- `"%*f;%[^;];%f;%f"` -/
def lmtOssDecodeV1 (s : Text) : Option OssMetric :=
  match sscanf [.skip .float, .lit ';', upToSemicolon, .lit ';', .float, .lit ';', .float] s with
  | [.text ossname, .float pctCpu, .float pctMem] => some { ossname, pctCpu, pctMem }
  | _ => none

/-- The results of `lmt_ost_decode_v1`. -/
structure OstV1Metric where
  ossname : Text
  ostname : Text
  readBytes : UInt64
  writeBytes : UInt64
  kbytesFree : UInt64
  kbytesTotal : UInt64
  inodesFree : UInt64
  inodesTotal : UInt64
deriving DecidableEq

/-- `"%*f;%[^;];%[^;];%lu;%lu;%lu;%lu;%lu;%lu"` -/
def ostV1Format : List Directive :=
  [.skip .float, .lit ';', upToSemicolon, .lit ';', upToSemicolon, .lit ';', .uint64, .lit ';',
    .uint64, .lit ';', .uint64, .lit ';', .uint64, .lit ';', .uint64, .lit ';', .uint64]

def lmtOstDecodeV1 (s : Text) : Option OstV1Metric :=
  match sscanf ostV1Format s with
  | [.text ossname, .text ostname, .uint64 inodesFree, .uint64 inodesTotal, .uint64 kbytesFree,
      .uint64 kbytesTotal, .uint64 readBytes, .uint64 writeBytes] =>
    some { ossname, ostname, readBytes, writeBytes, kbytesFree, kbytesTotal, inodesFree,
           inodesTotal }
  | _ => none

/-- A target name and a recovery string as the metric can carry them. -/
structure OstReading.Valid (r : OstReading) : Prop where
  uuid : IsField ';' r.uuid
  recovStr : IsField ';' r.recovStr

theorem OstReading.length_fields (r : OstReading) : r.fields.length = 15 := rfl

theorem OstReading.isField_fields {r : OstReading} (h : r.Valid) :
    ∀ f ∈ r.fields, IsField ';' f := by
  simp [OstReading.fields, isField_printUInt64, h.uuid, h.recovStr]

/-- The slots in which the decoder returns what the encoder read. -/
def OstReading.info (r : OstReading) : OstInfo where
  ostname := r.uuid
  readBytes := r.readBytes
  writeBytes := r.writeBytes
  kbytesFree := r.kbytesfree
  kbytesTotal := r.kbytestotal
  inodesFree := r.filesfree
  inodesTotal := r.filestotal
  iops := r.iops
  numExports := r.numExports
  lockCount := r.lockCount
  grantRate := r.grantRate
  cancelRate := r.cancelRate
  connect := r.connect
  reconnect := r.reconnect
  recovStatus := r.recovStr

theorem lmtOstDecodeV2Ostinfo_fields {r : OstReading} (h : r.Valid) :
    lmtOstDecodeV2Ostinfo (joined ';' r.fields) = some r.info := by
  have hrecov (ds : List Directive) :
      sscanf (upToSemicolon :: ds) r.recovStr = .text r.recovStr :: sscanf ds [] := by
    simpa using sscanf_upToSemicolon h.recovStr (stopsAt_nil _) ds
  have hscan : sscanf ostinfoFormat (joined ';' r.fields) =
      [.text r.uuid, .uint64 r.filesfree, .uint64 r.filestotal, .uint64 r.kbytesfree,
        .uint64 r.kbytestotal, .uint64 r.readBytes, .uint64 r.writeBytes, .uint64 r.iops,
        .uint64 r.numExports, .uint64 r.lockCount, .uint64 r.grantRate, .uint64 r.cancelRate,
        .uint64 r.connect, .uint64 r.reconnect, .text r.recovStr] := by
    simp only [ostinfoFormat, OstReading.fields, joined]
    rw [sscanf_upToSemicolon h.uuid (by simp), sscanf_lit]
    repeat rw [sscanf_uint64 _ (by simp), sscanf_lit]
    rw [hrecov]
    rfl
  simp only [lmtOstDecodeV2Ostinfo, hscan]
  rfl

end Lmt
