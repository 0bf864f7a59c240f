import Lmt.Ltop.Decode

/-!
# Polling, recording and playback in `ltop.c`

`_poll_cerebro` takes the current metrics from cerebro and can write each of them
to a line of a file. `_play_file` reads such a file again, one batch of lines
with the same time at a call. It finds the end of a batch by reading one line
too many and seeking back, and keeps the offsets by which `_rewind_file` goes
back.

Reading and writing succeed; a call that ends the program is `none`.
-/

namespace Lmt

open FormattedText

/-- One entry of a metric's node list; `value` is `none` unless it is a string. -/
structure CbrEntry where
  nodename : Text
  time : UInt32
  value : Option Text

/-- What cerebro returns for the name of a metric. -/
abbrev Cerebro := Text → Option (List CbrEntry)

/-- `cmetric_struct` -/
structure Cmetric where
  name : Text
  nodename : Text
  time : UInt32
  value : Option Text

def lmtCbrGetMetrics (names : List Text) (cerebro : Cerebro) : Option (List Cmetric) :=
  (names.mapM fun name =>
    (cerebro name).map fun entries =>
      entries.map fun e => { name, nodename := e.nodename, time := e.time, value := e.value }).map
    List.flatten

def toTime (t : UInt64) : ℤ := t.toInt64.toInt

def ofTime (t : ℤ) : UInt64 := (Int64.ofInt t).toUInt64

/-- `"%lu %lu %s %s %s\n"` -/
def recordLine (tnow trcv : UInt64) (node name s : Text) : Text :=
  printUInt64 tnow ++ ' ' :: (printUInt64 trcv ++ ' ' :: (node ++ ' ' :: (name ++ ' ' ::
    (s ++ ['\n']))))

def recordFile (f : Text) (tnow trcv : ℤ) (node name s : Text) : Text :=
  f ++ recordLine (ofTime tnow) (ofTime trcv) node name s

section

variable {V : Type*} [Inhabited V] (point : Text → Reading → V)

/-- The choice of the decoder in `_poll_cerebro`. -/
def pollDecode (fs : Option Text) (staleSecs tnow trcv : ℤ) (name s : Text) (vers : ℚ)
    (st : TargetLists V) : TargetLists V :=
  if name = "lmt_mdt".toList ∧ versionEq vers 2 then
    { st with mdtData := decodeMdtV2 point s fs st.mdtData trcv staleSecs }
  else if name = "lmt_mdt".toList ∧ versionEq vers 3 then
    { st with mdtData := decodeMdtV3 point s fs st.mdtData trcv staleSecs }
  else if name = "lmt_ost".toList ∧ versionEq vers 2 then
    { st with ostData := decodeOstV2 point s fs st.ostData trcv staleSecs }
  else if name = "lmt_osc".toList ∧ versionEq vers 1 then
    { st with ostData := decodeOscV1 s fs st.ostData tnow trcv staleSecs }
  else st

/-- What `_poll_cerebro` works on: the lists, the recording and `*tp`. -/
structure Poller (V : Type*) where
  lists : TargetLists V
  /-- the recording so far, if there is one -/
  recf : Option Text
  tp : ℤ

def pollMetric (fs : Option Text) (staleSecs tnow : ℤ) (p : Poller V) (c : Cmetric) : Poller V :=
  match c.value with
  | none => p
  | some s =>
    match scanVersion s with
    | none => p
    | some vers =>
      let trcv : ℤ := c.time.toNat
      { p with
        recf := p.recf.map fun f => recordFile f tnow trcv c.nodename c.name s
        lists := pollDecode point fs staleSecs tnow trcv c.name s vers p.lists }

/-- The names that `_poll_cerebro` asks for. -/
def polledMetrics : List Text := ["lmt_mdt".toList, "lmt_ost".toList, "lmt_osc".toList]

def pollCerebro (fs : Option Text) (staleSecs tnow : ℤ) (cerebro : Cerebro) (p : Poller V) :
    Poller V :=
  match lmtCbrGetMetrics polledMetrics cerebro with
  | none => p
  | some l => { l.foldl (pollMetric point fs staleSecs tnow) p with tp := tnow }

/-- A `FILE` open for reading. -/
structure PlayFile where
  content : Text
  pos : ℕ
  eof : Bool
deriving DecidableEq

/-- Scan from the current position. A format that ends in white space looks past
everything it reads, so that reaching the end of the file sets the end-of-file
indicator. -/
def fscanf (format : List Directive) (f : PlayFile) : List Scanned × PlayFile :=
  let r := scanf format (f.content.drop f.pos)
  (r.1, { f with pos := f.content.length - r.2.length, eof := f.eof || r.2.isEmpty })

/-- `fseek` with `SEEK_SET`, which clears the end-of-file indicator. -/
def fseek (f : PlayFile) (pos : ℕ) : PlayFile := { f with pos, eof := false }

structure Ts where
  p : ℕ
  t : UInt64
deriving DecidableEq

/-- `"%lu %lu %64s %16s %65536[^\n]\n"` -/
def playFormat : List Directive :=
  [.uint64, .space, .uint64, .space, .word 64, .space, .word 16, .space,
    .set (some 65536) (· != '\n'), .space]

/-- The choice of the decoder in `_play_file`. -/
def playDecode (fs : Option Text) (staleSecs tnow trcv : ℤ) (name s : Text) (vers : ℚ)
    (st : TargetLists V) : TargetLists V :=
  let st :=
    if name = "lmt_mdt".toList ∧ versionEq vers 2 then
      { st with mdtData := decodeMdtV2 point s fs st.mdtData trcv staleSecs }
    else st
  if name = "lmt_mdt".toList ∧ versionEq vers 3 then
    { st with mdtData := decodeMdtV3 point s fs st.mdtData trcv staleSecs }
  else if name = "lmt_ost".toList ∧ versionEq vers 2 then
    { st with ostData := decodeOstV2 point s fs st.ostData trcv staleSecs }
  else if name = "lmt_osc".toList ∧ versionEq vers 1 then
    { st with ostData := decodeOscV1 s fs st.ostData tnow trcv staleSecs }
  else st

/-- The local variables of `_play_file`, with the lists and the file. -/
structure PlayLoop (V : Type*) where
  lists : TargetLists V
  file : PlayFile
  tmark : UInt64
  pos : ℕ
  tdiff : ℤ
  ts : Option Ts

/-- `int tdiff = tnow - tmark` -/
def timeDiff (tnow tmark : UInt64) : ℤ := (tnow - tmark).toUInt32.toInt32.toInt

/-- The loop of `_play_file`; `timeSeries` says whether offsets are wanted. -/
def playLoop (fs : Option Text) (staleSecs : ℤ) (timeSeries : Bool) :
    ℕ → PlayLoop V → Option (PlayLoop V)
  | 0, st => some st
  | fuel + 1, st =>
    let r := fscanf playFormat st.file
    match r.1 with
    | [.uint64 tnow, .uint64 trcv, .text _, .text name, .text s] =>
      if st.tmark ≠ 0 ∧ st.tmark ≠ tnow then
        -- the line of the next batch is given back
        some { st with file := fseek r.2 st.pos, tdiff := timeDiff tnow st.tmark }
      else
        match scanVersion s with
        | none => none
        | some vers =>
          playLoop fs staleSecs timeSeries fuel
            { st with
              lists := playDecode point fs staleSecs (toTime tnow) (toTime trcv) name s vers
                st.lists
              file := r.2
              pos := r.2.pos
              ts := if st.ts.isNone && timeSeries then some ⟨r.2.pos, tnow⟩ else st.ts
              tmark := tnow }
    | _ => some { st with file := r.2 }

/-- What `_play_file` works on: the lists, the offsets, the file, `*tp` and `*tdiffp`. -/
structure Player (V : Type*) where
  lists : TargetLists V
  timeSeries : Option (List Ts)
  file : PlayFile
  tp : ℤ
  tdiff : ℤ

/-- Read one batch. Each turn of the loop reads a character or is the last one,
so that the length of the file is enough fuel. -/
def playFile (fs : Option Text) (staleSecs : ℤ) (p : Player V) : Option (Player V) :=
  if p.file.eof then some p
  else
    match playLoop point fs staleSecs p.timeSeries.isSome (p.file.content.length + 1)
        { lists := p.lists, file := p.file, tmark := 0, pos := 0, tdiff := 0, ts := none } with
    | none => none
    | some st =>
      if st.tmark = 0 then none
      else
        some { lists := st.lists
               file := st.file
               timeSeries := p.timeSeries.map fun l => st.ts.toList ++ l
               tp := toTime st.tmark
               tdiff := if st.file.eof then p.tdiff else st.tdiff }

/-- Successive calls of `_play_file`. -/
def playTimes (fs : Option Text) (staleSecs : ℤ) : ℕ → Player V → Option (Player V)
  | 0, p => some p
  | n + 1, p => (playTimes fs staleSecs n p).bind (playFile point fs staleSecs)

end

/-- Seek to the offset of `count` batches ago; also the number of batches. -/
def rewindFile : ℕ → List Ts → PlayFile → ℕ × List Ts × PlayFile
  | 0, timeSeries, f => (0, timeSeries, f)
  | _ + 1, [], f => (0, [], f)
  | count + 1, ts :: timeSeries, f =>
    let r := rewindFile count timeSeries (fseek f ts.p)
    (r.1 + 1, r.2)

/-- Seek to earlier offsets until the target time; the comparison is unsigned. -/
def rewindFileTo (target : ℤ) : List Ts → PlayFile → List Ts × PlayFile
  | [], f => ([], f)
  | ts :: timeSeries, f =>
    if ts.t ≤ ofTime target then (timeSeries, fseek f ts.p)
    else rewindFileTo target timeSeries (fseek f ts.p)

end Lmt
