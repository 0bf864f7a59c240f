import Lmt.Library.Grouping
import Lmt.Proc.Lustre

/-!
# Histograms of bulk I/O (`brw_stats`)

The file has a section for each kind of histogram. A section is looked for by
its heading, and read until something does not look like a row.
-/

namespace Lmt

open Attempts FormattedText Grouping

/-- A bin: its value, and the numbers of reads and writes. -/
structure Histent where
  x : UInt64
  yr : UInt64
  yw : UInt64
deriving DecidableEq

abbrev Histogram := List Histent

def Histent.add (yr yw : UInt64) (e : Histent) : Histent := ⟨e.x, e.yr + yr, e.yw + yw⟩

def histogramAdd (h : Histogram) (x yr yw : UInt64) : Histogram :=
  mergeOrAppend (·.x == x) (Histent.add yr yw) ⟨x, yr, yw⟩ h

/-- `histogram_sort`; no two bins have the same value. -/
def histogramSort (h : Histogram) : Histogram := h.mergeSort fun e1 e2 => e1.x ≤ e2.x

inductive Brw where
  | rpc | dispages | disblocks | frag | flight | iotime | iosize
deriving DecidableEq

def Brw.heading : Brw → Text
  | .rpc => "pages per bulk r/w".toList
  | .dispages => "discontiguous pages".toList
  | .disblocks => "discontiguous blocks".toList
  | .frag => "disk fragmented I/Os".toList
  | .flight => "disk I/Os in flight".toList
  | .iotime => "I/O time (1/1000s)".toList
  | .iosize => "disk I/O size".toList

/-- The body of the loop of `_brw_seek`, which the heading ends. -/
def brwSeekLine (t : Brw) (_ : Unit) (line : Text) : Except Unit Unit :=
  if t.heading.isPrefixOf line then .error () else .ok ()

/-- `_brw_seek`: whether there is such a heading. -/
def brwSeek (t : Brw) : ProcM Bool := do
  match ← procGetsLoop 256 (brwSeekLine t) () with
  | .error () => pure true
  | .ok () => pure false

/-- `"%15[^:]: %lu %*d %*d | %lu %*d %*d"`, where `%*d` passes over what `%*lu`
passes over. -/
def brwFormat : List Directive :=
  [.set (some 15) (· != ':'), .lit ':', .space, .uint64, .space, .skip .uint64, .space,
    .skip .uint64, .space, .lit '|', .space, .uint64, .space, .skip .uint64, .space, .skip .uint64]

/-- The value of a bin from its label; `strtoul` gives 0 to a label without digits. -/
def binValue (s : Text) : UInt64 :=
  match scanUInt64 s with
  | none => 0
  | some (x, 'K' :: _) => x * 1024
  | some (x, 'M' :: _) => x * (1024 * 1024)
  | some (x, _) => x

def brwParseLoop : ℕ → Histogram → Text → Histogram × Text
  | 0, h, text => (h, text)
  | fuel + 1, h, text =>
    match scanf brwFormat text with
    | ([.text s, .uint64 r, .uint64 w], rest) =>
      brwParseLoop fuel (histogramAdd h (binValue s) r w) rest
    | (_, rest) => (h, rest)

/-- `_brw_parse`. Each row takes characters, so the loop has ended when the fuel
has. Its result is 0 whatever ends it. -/
def brwParse : ProcM Histogram :=
  histogramSort <$> reading fun text => brwParseLoop text.length [] text

def brwStatsPaths : List Text :=
  ["fs/lustre/obdfilter/%s/brw_stats".toList,
    "fs/lustre/osd-ldiskfs/%s/brw_stats".toList,
    "fs/lustre/osd-zfs/%s/brw_stats".toList,
    "kernel/debug/lustre/osd-ldiskfs/%s/brw_stats".toList,
    "kernel/debug/lustre/osd-zfs/%s/brw_stats".toList]

/-- Open the first of the paths that opens; otherwise the last error stays. -/
def openFirst (fs : ProcFs) (name : Text) : List Text → Errno → ProcM (Except Errno Unit)
  | [], e => pure (.error e)
  | path :: paths, _ => do
    match ← procOpenf fs path [name] with
    | .ok () => pure (.ok ())
    | .error e => openFirst fs name paths e

def procLustreBrwstats (fs : ProcFs) (name : Text) (t : Brw) : ProcM (Except Errno Histogram) :=
  if occurs name "-OST" then do
    match ← openFirst fs name brwStatsPaths .ok with
    | .error e => pure (.error e)
    | .ok () =>
      let found ← brwSeek t
      if found then
        let h ← brwParse
        procClose
        pure (.ok h)
      else
        procClose
        pure (.error .ok)
  else pure (.error .inval)

/-- `_get_iops`: all reads and writes of the first histogram. -/
def getIops (fs : ProcFs) (name : Text) : ProcM (Except Errno UInt64) := do
  match ← procLustreBrwstats fs name .rpc with
  | .error e => pure (.error e)
  | .ok h => pure (.ok (h.foldl (fun iops e => iops + (e.yr + e.yw)) 0))

end Lmt
