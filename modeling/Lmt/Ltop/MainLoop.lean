import Lmt.Ltop.Navigation
import Lmt.Ltop.OneRecord
import Lmt.Ltop.Playback
import Lmt.Ltop.Tags

/-!
# The main loop of `ltop`

A pass waits for a key, takes new samples when they are due, computes the counts
and the heights of the windows, summarises the servers and sorts the lists. What
is drawn before the next key are these windows and lists.

Files can be opened, and a call that ends the program is `none`. The samples are
values here. What is merged into an MDS is merged into the MDT that it shares the
samples of the space with; when that MDT is destroyed, so are these samples.
-/

namespace Lmt

open FormattedText

section

variable {V : Type*} [Inhabited V] (point : Text → Reading → V) (fs : Option Text) (staleSecs : ℤ)

/-- `KEY_LEFT`. The lists stay when there is nothing to go back to, and are left
empty when there is one batch only. -/
def Player.left (p : Player V) : Option (Player V) :=
  let r := rewindFile 3 (p.timeSeries.getD []) p.file
  playTimes point fs staleSecs (r.1 - 1)
    { p with
      lists := if 0 < r.1 then .empty else p.lists
      timeSeries := some r.2.1
      file := r.2.2 }

def Player.backspace (p : Player V) : Option (Player V) :=
  let r := rewindFileTo (p.tp - 60) (p.timeSeries.getD []) p.file
  let r := rewindFile 1 r.1 r.2
  playTimes point fs staleSecs 2
    { p with lists := .empty, timeSeries := some r.2.1, file := r.2.2 }

def Player.right (p : Player V) : Option (Player V) :=
  playFile point fs staleSecs { p with lists := .empty }

/-- Play until the time `t1` or the end of the file. -/
def Player.playUntil (t1 : ℤ) : ℕ → Player V → Option (Player V)
  | 0, p => some p
  | fuel + 1, p =>
    (playFile point fs staleSecs p).bind fun p =>
      if p.tp < t1 ∧ p.file.eof = false then p.playUntil t1 fuel else some p

/-- `'\t'`. A batch has at least one character. -/
def Player.tab (p : Player V) : Option (Player V) :=
  p.playUntil point fs staleSecs (p.tp + 60) (p.file.content.length + 1)

end

/-- The keys of the menu of file systems. -/
inductive MenuKey where
  | up | down | enter | timeout | other
deriving DecidableEq

/-- `_choose_fs`, with the record `selfs` of the menu highlighted. -/
def chooseFs (fsl : List Fsstat) : ℕ → List MenuKey → Option Text
  | _, [] => none
  | selfs, k :: keys =>
    if fsl = [] then none
    else
      match k with
      | .up => chooseFs fsl (selfs - 1) keys
      | .down => chooseFs fsl (if selfs < fsl.length - 1 then selfs + 1 else selfs) keys
      | .enter => fsl[selfs]?.map Fsstat.fsname
      | .timeout => chooseFs fsl selfs keys
      | .other => none

/-- What `getch` returns. The menu polls for itself, and has its own keys. -/
inductive LtopKey where
  | nav (k : NavKey)
  | proportional
  | delete
  | quit
  | compress
  | tag
  | fs (tnow : ℤ) (cerebro : Cerebro) (keys : List MenuKey)
  | sort (k : Char)
  | record
  | pause
  | left
  | backspace
  | right
  | tab
  | help
  | timeout
  | other

def sortKeys : List Char :=
  ['>', '<', 't', 's', 'r', 'w', 'i', 'x', 'l', 'g', 'L', 'C', 'u', 'm', 'S']

/-- What a pass reads: the key, the readings of the clock, the metrics, and `LINES`. -/
structure LtopInput where
  key : LtopKey
  /-- when a key has played the file -/
  keyTime : ℤ
  /-- when it is checked whether new samples are due -/
  checkTime : ℤ
  pollTime : ℤ
  cerebro : Cerebro
  /-- when the new samples are there -/
  sampleTime : ℤ
  lines : ℤ

/-- The variables of `main`. -/
structure Ltop where
  fs : Text
  staleSecs : ℤ
  samplePeriod : ℤ
  lists : TargetLists ℚ
  ossData : List (Oststat ℚ)
  mdsData : List (Mdtstat ℚ)
  /-- the samples of the space in `mdsData` were destroyed with the MDTs of the file
  system before -/
  mdsDestroyed : Bool
  timeSeries : List Ts
  tcycle : ℤ
  lastSample : ℤ
  nav : Nav
  totalSize : ℤ
  ostcount : ℕ
  mdtcount : ℕ
  ostview : Bool
  mdtview : Bool
  ostFp : ℕ
  mdtFp : ℕ
  resort : Bool
  recompute : Bool
  repoll : Bool
  recf : Option Text
  playf : Option PlayFile
  pause : Bool
  showhelp : Bool
  /-- the program has ended, or `isendwin` says so after this pass -/
  ended : Bool

namespace Ltop

def displayedOsts (s : Ltop) : List (Oststat ℚ) := if s.ostview then s.lists.ostData else s.ossData

def displayedMdts (s : Ltop) : List (Mdtstat ℚ) := if s.mdtview then s.lists.mdtData else s.mdsData

section

variable (number : Reading → ℚ)

def player (f : PlayFile) (s : Ltop) : Player ℚ where
  lists := s.lists
  timeSeries := some s.timeSeries
  file := f
  tp := s.tcycle
  tdiff := s.samplePeriod

def setPlayer (p : Player ℚ) (s : Ltop) : Ltop :=
  { s with
    lists := p.lists
    timeSeries := p.timeSeries.getD s.timeSeries
    playf := some p.file
    tcycle := p.tp
    samplePeriod := p.tdiff }

def sample (tnow : ℤ) (cerebro : Cerebro) (s : Ltop) : Option Ltop :=
  match s.playf with
  | some f => (playFile (fun _ => number) (some s.fs) s.staleSecs (s.player f)).map (s.setPlayer ·)
  | none =>
    let p := pollCerebro (fun _ => number) (some s.fs) s.staleSecs tnow cerebro
      ⟨s.lists, s.recf, s.tcycle⟩
    some { s with lists := p.lists, recf := p.recf, tcycle := p.tp }

/-- `_find_all_fs`. It reads a batch of the file that is played. -/
def peek (tnow : ℤ) (cerebro : Cerebro) (s : Ltop) : Option (List Fsstat × Option PlayFile) :=
  match s.playf with
  | some f =>
    (playFile (fun _ => number) none s.staleSecs
      { s.player f with lists := .empty, timeSeries := none }).map
      fun p => (findAllFs p.lists, some p.file)
  | none =>
    let p := pollCerebro (fun _ => number) none s.staleSecs tnow cerebro ⟨.empty, none, s.tcycle⟩
    some (findAllFs p.lists, none)

def playKey (play : Player ℚ → Option (Player ℚ)) (keyTime : ℤ) (s : Ltop) : Option Ltop :=
  match s.playf with
  | none => some s
  | some f =>
    (play (s.player f)).map fun p => { s.setPlayer p with lastSample := keyTime, recompute := true }

/-- `z` and the keys that move in a window. -/
def navKey (k : NavKey) (s : Ltop) : Ltop :=
  let r := s.nav.key s.mdtcount s.ostcount k
  { s with nav := r.1, recompute := s.recompute || r.2 }

def compressKey (s : Ltop) : Ltop :=
  if s.nav.inOstwin then
    { s with ostview := !s.ostview, recompute := true, nav := s.nav.setSelected ⟨-1, 0⟩ }
  else { s with mdtview := !s.mdtview, recompute := true, nav := s.nav.setSelected ⟨-1, 0⟩ }

def deleteKey (s : Ltop) : Ltop :=
  { s with
    nav.ost.seltgt := -1
    nav.mdt.seltgt := -1
    lists.ostData := clearTags s.lists.ostData
    ossData := clearTags s.ossData }

def tagKey (s : Ltop) : Ltop :=
  if s.ostview then
    { s with lists.ostData := (tagNthOst s.lists.ostData s.nav.ost.seltgt none).1 }
  else
    let r := tagNthOst s.ossData s.nav.ost.seltgt (some s.lists.ostData)
    { s with ossData := r.1, lists.ostData := r.2.getD s.lists.ostData }

/-- Show another file system: the selection starts anew in the OST window. -/
def setFs (newfs : Text) (s : Ltop) : Ltop :=
  if newfs = s.fs then s
  else
    { s with
      fs := newfs
      repoll := true
      nav.ost := ⟨-1, 0⟩
      nav.mdt := ⟨-1, 0⟩
      nav.inOstwin := true }

def fsKey (tnow : ℤ) (cerebro : Cerebro) (keys : List MenuKey) (s : Ltop) : Option Ltop :=
  (s.peek number tnow cerebro).map fun r =>
    let s := { s with playf := r.2 }
    ((chooseFs r.1 0 keys).map s.setFs).getD s

/-- Sort the lists of the selected window by another column. -/
def sortKey (k : Char) (s : Ltop) : Ltop :=
  if k ∉ sortKeys then s
  else if s.nav.inOstwin then
    let ostFp := getSortIndex k s.ostFp ostCol
    { s with
      ostFp
      lists.ostData := sortTgtlist ostCol ostFp s.tcycle s.lists.ostData
      ossData := sortTgtlist ostCol ostFp s.tcycle s.ossData }
  else
    let mdtFp := getSortIndex k s.mdtFp mdtCol
    { s with
      mdtFp
      lists.mdtData := sortTgtlist mdtCol mdtFp s.tcycle s.lists.mdtData
      mdsData := sortTgtlist mdtCol mdtFp s.tcycle s.mdsData }

/-- Toggle record mode. The file is written anew. -/
def recordKey (s : Ltop) : Ltop :=
  if s.playf.isSome then s else { s with recf := if s.recf.isSome then none else some [] }

/-- The `switch` over the key. -/
def key (k : LtopKey) (keyTime : ℤ) (s : Ltop) : Option Ltop :=
  match k with
  | .nav k => some (s.navKey k)
  | .proportional =>
    some { s with nav.proportionalView := !s.nav.proportionalView, recompute := true }
  | .delete => some s.deleteKey
  | .quit => some { s with ended := true }
  | .compress => some s.compressKey
  | .tag => some s.tagKey
  | .fs tnow cerebro keys => s.fsKey number tnow cerebro keys
  | .sort k => some (s.sortKey k)
  | .record => some s.recordKey
  | .pause => some (if s.playf.isSome then { s with pause := !s.pause } else s)
  | .left => s.playKey (Player.left (fun _ => number) (some s.fs) s.staleSecs) keyTime
  | .backspace => s.playKey (Player.backspace (fun _ => number) (some s.fs) s.staleSecs) keyTime
  | .right => s.playKey (Player.right (fun _ => number) (some s.fs) s.staleSecs) keyTime
  | .tab => s.playKey (Player.tab (fun _ => number) (some s.fs) s.staleSecs) keyTime
  | .help => some { s with showhelp := true }
  | .timeout => some s
  | .other => some s

/-- Any key but `?` ends the help. -/
def endHelp (k : LtopKey) (s : Ltop) : Ltop :=
  match k with
  | .help => s
  | .timeout => s
  | _ => { s with showhelp := false }

def keyed (i : LtopInput) (s : Ltop) : Option Ltop :=
  (s.key number i.key i.keyTime).map (endHelp i.key)

/-- Forget the samples of the file system before, so that new ones are due. -/
def emptyOut (s : Ltop) : Ltop :=
  if s.repoll then
    { s with lists := .empty, mdsDestroyed := true, repoll := false, lastSample := 0 }
  else s

/-- Take new samples when they are due. -/
def resample (i : LtopInput) (s : Ltop) : Option Ltop :=
  if i.checkTime - s.lastSample ≥ s.samplePeriod ∧ s.pause = false then
    (s.sample number i.pollTime i.cerebro).map fun s =>
      { s with lastSample := i.sampleTime, recompute := true }
  else some s

def count (s : Ltop) : Ltop :=
  if s.recompute then
    { s with mdtcount := s.displayedMdts.length, ostcount := s.displayedOsts.length }
  else s

def resize (lines : ℤ) (s : Ltop) : Ltop :=
  { s with totalSize := lines, nav := s.nav.resize lines s.mdtcount s.ostcount }

/-- Make the windows, and summarise the servers that are displayed. -/
def summarize (s : Ltop) : Ltop :=
  if s.recompute then
    { s with
      nav := s.nav.createWindows
      ossData := if s.ostview then s.ossData else summarizeOst s.lists.ostData s.tcycle s.staleSecs
      mdsData := if s.mdtview then s.mdsData else summarizeMdt s.lists.mdtData s.tcycle s.staleSecs
      lists.mdtData :=
        if s.mdtview then s.lists.mdtData
        else shareSpace s.tcycle s.staleSecs
          (summarizeMdt s.lists.mdtData s.tcycle s.staleSecs) [] s.lists.mdtData
      mdsDestroyed := s.mdtview && s.mdsDestroyed
      resort := true
      recompute := false }
  else s

def sortLists (s : Ltop) : Ltop :=
  if s.resort then
    { s with
      lists :=
        { mdtData := sortTgtlist mdtCol s.mdtFp s.tcycle s.lists.mdtData
          ostData := sortTgtlist ostCol s.ostFp s.tcycle s.lists.ostData }
      ossData := sortTgtlist ostCol s.ostFp s.tcycle s.ossData
      mdsData := sortTgtlist mdtCol s.mdtFp s.tcycle s.mdsData
      resort := false }
  else s

def relayout (lines : ℤ) (s : Ltop) : Ltop := ((s.count.resize lines).summarize).sortLists

/-- The part of a pass up to the new samples. -/
def sampled (i : LtopInput) (s : Ltop) : Option Ltop :=
  (s.keyed number i).bind fun s => s.emptyOut.resample number i

def pass (s : Ltop) (i : LtopInput) : Ltop :=
  if s.ended then s
  else
    match s.sampled number i with
    | none => { s with ended := true }
    | some s => s.relayout i.lines

/-- What the options say; the file to play is given with its content. -/
structure Options where
  fs : Option Text
  samplePeriod : ℤ
  staleSecs : ℤ
  recording : Bool
  playf : Option Text

def findFirstFs (fsl : List Fsstat) : Option Text :=
  (fsl.find? fun f => 0 < f.numOst || 0 < f.numMdt).map Fsstat.fsname

def init (o : Options) : Ltop where
  fs := o.fs.getD []
  staleSecs := o.staleSecs
  samplePeriod := o.samplePeriod
  lists := .empty
  ossData := []
  mdsData := []
  mdsDestroyed := false
  timeSeries := []
  tcycle := 0
  lastSample := 0
  nav := ⟨false, true, ⟨-1, 0⟩, ⟨-1, 0⟩, ⟨0, 0⟩, false⟩
  totalSize := 0
  ostcount := 0
  mdtcount := 0
  ostview := true
  mdtview := true
  ostFp := 0
  mdtFp := 0
  resort := false
  recompute := false
  repoll := false
  recf := if o.recording then some [] else none
  playf := o.playf.map (⟨·, 0, false⟩)
  pause := false
  showhelp := false
  ended := false

/-- Choose the first file system, unless one is given. -/
def initFs (o : Options) (tnow : ℤ) (cerebro : Cerebro) : Option Ltop :=
  if o.fs.isSome then some (init o)
  else
    ((init o).peek number tnow cerebro).bind fun r =>
      (findFirstFs r.1).map fun fs => { init o with fs, playf := r.2 }

def begin (lines : ℤ) (s : Ltop) : Ltop :=
  let s := { s with
    lists :=
      { mdtData := sortTgtlist mdtCol s.mdtFp s.tcycle s.lists.mdtData
        ostData := sortTgtlist ostCol s.ostFp s.tcycle s.lists.ostData } }
  let s := { s with mdtcount := s.lists.mdtData.length, ostcount := s.lists.ostData.length }
  let s := s.resize lines
  { s with nav := s.nav.createWindows }

/-- `main` up to the main loop. The program ends when there is no data. -/
def start (o : Options) (findTime : ℤ) (findCerebro : Cerebro) (pollTime : ℤ) (cerebro : Cerebro)
    (lines : ℤ) : Option Ltop :=
  (initFs number o findTime findCerebro).bind fun s =>
    (s.sample number pollTime cerebro).bind fun s =>
      if s.playf.any (·.eof) then none
      else if s.lists.mdtData = [] ∧ s.lists.ostData = [] then none
      else some (s.begin lines)

end

end Ltop

end Lmt
