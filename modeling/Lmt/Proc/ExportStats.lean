import Mathlib.Algebra.BigOperators.Group.List.Basic
import Lmt.Proc.Paths

/-!
# Stats of the exports of an MDT

Before 2.0.56 the stats of an MDT are completed with those of its exports. The
loop over the exports ends at the first one without a stats file, so what is
missing from the sums are the exports after it.
-/

namespace Lmt

open Attempts FormattedText HashTables

@[simp] theorem StatNode.count_add (m n : StatNode) : (m + n).count = m.count + n.count := rfl

@[simp] theorem StatNode.min_add (m n : StatNode) : (m + n).min = m.min + n.min := rfl

@[simp] theorem StatNode.max_add (m n : StatNode) : (m + n).max = m.max + n.max := rfl

@[simp] theorem StatNode.sum_add (m n : StatNode) : (m + n).sum = m.sum + n.sum := rfl

@[simp] theorem StatNode.sumsq_add (m n : StatNode) : (m + n).sumsq = m.sumsq + n.sumsq := rfl

theorem StatNode.add_comm' (m n : StatNode) : m + n = n + m := by
  ext1 <;> exact UInt64.add_comm _ _

theorem StatNode.add_assoc' (l m n : StatNode) : l + m + n = l + (m + n) := by
  ext1 <;> exact UInt64.add_assoc _ _ _

theorem StatNode.zero_add' (m : StatNode) : 0 + m = m := by
  ext1 <;> exact UInt64.zero_add _

theorem StatNode.add_zero' (m : StatNode) : m + 0 = m := by
  ext1 <;> exact UInt64.add_zero _

instance : AddCommMonoid StatNode where
  add_assoc := StatNode.add_assoc'
  zero_add := StatNode.zero_add'
  add_zero := StatNode.add_zero'
  add_comm := StatNode.add_comm'
  nsmul := nsmulRec

/-- The numbers that add up; a least or greatest value does not. -/
def StatNode.totals (n : StatNode) : UInt64 × UInt64 × UInt64 := (n.count, n.sum, n.sumsq)

theorem StatNode.totals_add_eq_iff (m n : StatNode) :
    m.totals = (m + n).totals ↔ n.totals = (0, 0, 0) := by
  have hcancel (a b : UInt64) : a = a + b ↔ b = 0 := by
    constructor
    · intro h
      exact (UInt64.add_right_inj a).mp (h.symm.trans (UInt64.add_zero a).symm)
    · rintro rfl
      exact (UInt64.add_zero a).symm
  simp only [totals, Prod.mk.injEq, count_add, sum_add, sumsq_add, hcancel]

def lineStat (key line : Text) : StatNode :=
  match parseStat line with
  | some (k, val) => if k = key ∧ k ≠ snapshotTime then statOf (some val) else 0
  | none => 0

def statSum (lines : List Text) (key : Text) : StatNode := (lines.map (lineStat key)).sum

@[simp] theorem statSum_nil (key : Text) : statSum [] key = 0 := rfl

theorem statSum_cons (line : Text) (lines : List Text) (key : Text) :
    statSum (line :: lines) key = lineStat key line + statSum lines key := by
  rw [statSum, List.map_cons, List.sum_cons]
  rfl

theorem statSum_append (lines lines' : List Text) (key : Text) :
    statSum (lines ++ lines') key = statSum lines key + statSum lines' key := by
  rw [statSum, List.map_append, List.sum_append]
  rfl

theorem statSum_perm {lines lines' : List Text} (h : lines.Perm lines') (key : Text) :
    statSum lines key = statSum lines' key :=
  (h.map _).sum_eq

/-- The keys of the table whose values are not stats are those of the file it was
made from. -/
def SameEnds (base : Text → Option Text) (h : StatsTable) : Prop :=
  ∀ k, (h.find slot k).any notStat = (base k).any notStat

theorem endsAggregation_congr {base : Text → Option Text} {h : StatsTable} (hends : SameEnds base h)
    (line : Text) : endsAggregation (h.find slot) line = endsAggregation base line := by
  unfold endsAggregation
  cases parseStat line with
  | none => rfl
  | some n =>
    dsimp only
    rw [hends]

section

variable {base : Text → Option Text} {h : StatsTable} {line : Text} {lines : List Text}

theorem hashAggregateLine_step (hv : h.Valid slot) (hends : SameEnds base h)
    (hline : (parseStat line).isSome) (hgoes : endsAggregation base line = false) :
    ∃ h', hashAggregateLine h line = .ok h' ∧ h'.Valid slot ∧ SameEnds base h' ∧
      ∀ k, statOf (h'.find slot k) = statOf (h.find slot k) + lineStat k line := by
  obtain ⟨⟨key, val⟩, hparse⟩ := Option.isSome_iff_exists.mp hline
  by_cases hkey : key = snapshotTime
  · subst hkey
    refine ⟨h, hashAggregateLine_snapshot hparse, hv, hends, ?_⟩
    intro k
    rw [lineStat, hparse]
    dsimp only
    rw [if_neg (fun hk => hk.2 rfl), add_zero]
  · obtain ⟨h', hstep, hv', hfind⟩ := hashAggregateLine_adds hv hparse hkey
      ((endsAggregation_congr hends line).trans hgoes)
    refine ⟨h', hstep, hv', ?_, ?_⟩
    · intro k
      rw [hfind]
      split_ifs with hk
      · have hbase : (base key).any notStat = false := by
          unfold endsAggregation at hgoes
          rw [hparse] at hgoes
          simp only [Bool.and_eq_false_iff, Bool.or_eq_false_iff, bne_eq_false_iff_eq, hkey,
            false_or] at hgoes
          exact hgoes.2
        rw [hk, hbase, Option.any_some, notStat, parseStatNode_printStatNode]
        rfl
      · exact hends k
    · intro k
      rw [hfind, lineStat, hparse]
      dsimp only
      by_cases hk : k = key
      · rw [if_pos hk, if_pos ⟨hk.symm, hkey⟩, hk]
        rw [statOf, Option.bind_some, parseStatNode_printStatNode, Option.getD_some]
      · rw [if_neg hk, if_neg (fun h => hk h.1.symm), add_zero]

def addedLines (base : Text → Option Text) (lines : List Text) : List Text :=
  lines.takeWhile fun line => !endsAggregation base line

theorem addedLines_cons (line : Text) (lines : List Text) :
    addedLines base (line :: lines) =
      if endsAggregation base line then [] else line :: addedLines base lines := by
  unfold addedLines
  rw [List.takeWhile_cons]
  cases endsAggregation base line <;> rfl

theorem foldlM_hashAggregateLine (hv : h.Valid slot) (hends : SameEnds base h)
    (hlines : ∀ line ∈ addedLines base lines, (parseStat line).isSome) :
    ∃ h', aggregateResult (lines.foldlM hashAggregateLine h) = (.ok (), h') ∧ h'.Valid slot ∧
      SameEnds base h' ∧
      ∀ k, statOf (h'.find slot k) =
        statOf (h.find slot k) + statSum (addedLines base lines) k := by
  induction lines generalizing h with
  | nil => exact ⟨h, rfl, hv, hends, fun k => (add_zero _).symm⟩
  | cons line lines ih =>
    rw [addedLines_cons] at hlines ⊢
    split_ifs at hlines ⊢ with hgoes
    · have hstop := hashAggregateLine_ends ((endsAggregation_congr hends line).trans hgoes)
      refine ⟨h, ?_, hv, hends, fun k => (add_zero _).symm⟩
      rw [List.foldlM_cons, hstop]
      rfl
    · obtain ⟨h₁, hstep, hv₁, hends₁, hstat₁⟩ := hashAggregateLine_step hv hends
        (hlines line List.mem_cons_self) (Bool.eq_false_iff.mpr hgoes)
      obtain ⟨h', hrun, hv', hends', hstat'⟩ :=
        ih hv₁ hends₁ fun l hl => hlines l (List.mem_cons_of_mem _ hl)
      refine ⟨h', ?_, hv', hends', ?_⟩
      · rw [List.foldlM_cons, hstep]
        exact hrun
      · intro k
        rw [hstat', hstat₁, add_assoc, statSum_cons]

/-- A line without a value that is reached makes the aggregation fail. -/
theorem foldlM_hashAggregateLine_error (hv : h.Valid slot) (hends : SameEnds base h)
    (hlines : ¬∀ line ∈ addedLines base lines, (parseStat line).isSome) :
    ∃ h' e, aggregateResult (lines.foldlM hashAggregateLine h) = (.error e, h') := by
  induction lines generalizing h with
  | nil => simp [addedLines] at hlines
  | cons line lines ih =>
    rw [addedLines_cons] at hlines
    split_ifs at hlines with hgoes
    · simp at hlines
    · rw [List.foldlM_cons]
      cases hline : parseStat line with
      | none =>
        rw [hashAggregateLine_none hline]
        exact ⟨h, .io, rfl⟩
      | some n =>
        obtain ⟨h₁, hstep, hv₁, hends₁, -⟩ :=
          hashAggregateLine_step hv hends (by rw [hline]; rfl) (Bool.eq_false_iff.mpr hgoes)
        rw [hstep]
        apply ih hv₁ hends₁
        simpa [hline] using hlines

end

/-- A line of another key than `snapshot_time` without a value, or with one that
is not a stat. -/
def malformed (line : Text) : Bool :=
  (line.takeWhile fun c => !isSpace c) != snapshotTime &&
    (parseStat line).all fun n => notStat n.2

/-- The lines before the first one without a value. -/
def valuedLines (lines : List Text) : List Text :=
  lines.takeWhile fun line => (parseStat line).isSome

/-- Malformed lines are reported, and success means that all lines were added. -/
def ReportsMalformed (h : StatsTable) (content : Text) : Prop :=
  ∃ r h' ctx, exec (hashAggregateStats h) (.file content) = (some (r, h'), ctx) ∧
    ((∃ line ∈ linesOf 256 content, malformed line = true) → ∃ e, r = .error e) ∧
    (r = .ok () → (linesOf 256 content).foldlM hashAggregateLine h = .ok h')

theorem key_of_parseStat {line key val : Text} (h : parseStat line = some (key, val)) :
    key = line.takeWhile fun c => !isSpace c := by
  unfold parseStat at h
  dsimp only at h
  split_ifs at h
  simpa using congrArg (Option.map Prod.fst) h.symm

theorem valuedLines_cons_of_some {line : Text} (hline : (parseStat line).isSome)
    (lines : List Text) : valuedLines (line :: lines) = line :: valuedLines lines := by
  unfold valuedLines
  rw [List.takeWhile_cons, if_pos hline]

section

variable {base : Text → Option Text} {h : StatsTable} {line : Text} {lines : List Text}

theorem not_malformed (hline : (parseStat line).isSome)
    (hgoes : endsAggregation base line = false) : malformed line = false := by
  obtain ⟨⟨key, val⟩, hparse⟩ := Option.isSome_iff_exists.mp hline
  have hkey := key_of_parseStat hparse
  unfold endsAggregation at hgoes
  unfold malformed
  rw [hparse] at hgoes ⊢
  simp only [← hkey, Bool.and_eq_false_iff, Bool.or_eq_false_iff, Option.all_some] at hgoes ⊢
  exact hgoes.imp_right And.left

theorem foldlM_hashAggregateLine_stops (hv : h.Valid slot) (hends : SameEnds base h)
    (hlines : ¬∀ line ∈ valuedLines lines, endsAggregation base line = false) :
    ∃ h', lines.foldlM hashAggregateLine h = .error (h', none) := by
  induction lines generalizing h with
  | nil => simp [valuedLines] at hlines
  | cons line lines ih =>
    have hsome : (parseStat line).isSome := by
      by_contra hnone
      simp [valuedLines, hnone] at hlines
    rw [valuedLines_cons_of_some hsome, List.forall_mem_cons, not_and_or] at hlines
    rw [List.foldlM_cons]
    by_cases hgoes : endsAggregation base line = false
    · obtain ⟨h₁, hstep, hv₁, hends₁, -⟩ := hashAggregateLine_step hv hends hsome hgoes
      obtain ⟨h', hrun⟩ := ih hv₁ hends₁ (hlines.resolve_left (not_not.mpr hgoes))
      rw [hstep]
      exact ⟨h', hrun⟩
    · rw [Bool.not_eq_false] at hgoes
      rw [hashAggregateLine_ends ((endsAggregation_congr hends line).trans hgoes)]
      exact ⟨h, rfl⟩

/-- Otherwise all lines are added, or a line without a value is reported. -/
theorem foldlM_hashAggregateLine_reports (hv : h.Valid slot) (hends : SameEnds base h)
    (hlines : ∀ line ∈ valuedLines lines, endsAggregation base line = false) :
    (∃ h', lines.foldlM hashAggregateLine h = .ok h' ∧ ∀ line ∈ lines, malformed line = false) ∨
      ∃ h' e, lines.foldlM hashAggregateLine h = .error (h', some e) := by
  induction lines generalizing h with
  | nil => exact .inl ⟨h, rfl, by simp⟩
  | cons line lines ih =>
    rw [List.foldlM_cons]
    cases hline : parseStat line with
    | none =>
      rw [hashAggregateLine_none hline]
      exact .inr ⟨h, .io, rfl⟩
    | some n =>
      have hsome : (parseStat line).isSome := by rw [hline]; rfl
      rw [valuedLines_cons_of_some hsome, List.forall_mem_cons] at hlines
      obtain ⟨hgoes, hrest⟩ := hlines
      obtain ⟨h₁, hstep, hv₁, hends₁, -⟩ := hashAggregateLine_step hv hends hsome hgoes
      rw [hstep]
      rcases ih hv₁ hends₁ hrest with ⟨h', hrun, hgood⟩ | ⟨h', e, hrun⟩
      · exact .inl ⟨h', hrun, List.forall_mem_cons.mpr ⟨not_malformed hsome hgoes, hgood⟩⟩
      · exact .inr ⟨h', e, hrun⟩

/-- Malformed lines are reported exactly when no line before the first one without
a value ends the aggregation. -/
theorem reportsMalformed_iff {content : Text} (hv : h.Valid slot) :
    ReportsMalformed h content ↔
      ∀ line ∈ valuedLines (linesOf 256 content),
        endsAggregation (h.find slot) line = false := by
  have hexec : exec (hashAggregateStats h) (.file content) =
      (some (aggregateResult ((linesOf 256 content).foldlM hashAggregateLine h)),
        .file (getsLoop 256 hashAggregateLine content.length h content).2) := by
    rw [hashAggregateStats, exec_map, exec_procGetsLoop]
    rfl
  unfold ReportsMalformed
  rw [hexec]
  constructor
  · rintro ⟨r, h', ctx, heq, -, hall⟩
    by_contra hlines
    obtain ⟨h₁, hrun⟩ := foldlM_hashAggregateLine_stops hv (fun _ => rfl) hlines
    rw [hrun] at heq hall
    have hr : Except.ok () = r := congrArg (fun x => (x.1.map Prod.fst).getD r) heq
    exact absurd (hall hr.symm) (by simp)
  · intro hlines
    rcases foldlM_hashAggregateLine_reports hv (fun _ => rfl) hlines with
      ⟨h', hrun, hgood⟩ | ⟨h', e, hrun⟩
    · rw [hrun]
      refine ⟨.ok (), h', _, rfl, ?_, fun _ => rfl⟩
      rintro ⟨line, hmem, hbad⟩
      rw [hgood line hmem] at hbad
      exact absurd hbad Bool.false_ne_true
    · rw [hrun]
      exact ⟨.error e, h', _, rfl, fun _ => ⟨e, rfl⟩, fun hok => absurd hok (by simp)⟩

end

theorem reportsMalformed_iff_snapshot :
    ReportsMalformed HashTable.empty "snapshot_time 1\nopen\n".toList :=
  (reportsMalformed_iff (HashTable.valid_empty slot)).mpr (by
    have hlines : valuedLines (linesOf 256 "snapshot_time 1\nopen\n".toList) =
        ["snapshot_time 1".toList] := by decide
    rw [hlines]
    intro line hline
    rw [List.mem_singleton.mp hline]
    decide)

/-- A value that is not one of a stat is not reported. -/
theorem not_reportsMalformed_open : ¬ReportsMalformed HashTable.empty "open x\n".toList := by
  rintro ⟨r, h', ctx, hexec, hbad, -⟩
  obtain ⟨e, rfl⟩ := hbad ⟨"open x".toList, by decide, by decide⟩
  have hrun : (exec (hashAggregateStats HashTable.empty) (.file "open x\n".toList)).1.map
      Prod.fst = some (.ok ()) := rfl
  rw [hexec] at hrun
  simp at hrun

def exportStats (fs : ProcFs) (mdtName export_ : Text) : Node :=
  fs.node (fmtArgs "%s/%s/exports/%s/stats".toList [mdtDir fs, mdtName, export_])

def Node.isMissing : Node → Bool
  | .missing _ => true
  | _ => false

def Node.lines : Node → List Text
  | .file content => linesOf 256 content
  | _ => []

def countedExports (fs : ProcFs) (mdtName : Text) (names : List Text) : List Text :=
  names.takeWhile fun e => !(exportStats fs mdtName e).isMissing

def Aggregable (base : Text → Option Text) (n : Node) : Prop :=
  ∃ content, n = .file content ∧
    ∀ line ∈ addedLines base (linesOf 256 content), (parseStat line).isSome

section

variable {fs : ProcFs} {mdtName : Text} {base : Text → Option Text} {h : StatsTable}
  {names : List Text}

theorem wp_hashAggregateStats_file (Q : Except Errno Unit × StatsTable → Ctx → Prop)
    (content : Text) :
    wp (hashAggregateStats h) Q (.file content) ↔
      Q (aggregateResult ((linesOf 256 content).foldlM hashAggregateLine h))
        (.file (getsLoop 256 hashAggregateLine content.length h content).2) := by
  rw [hashAggregateStats, wp_map, wp_procGetsLoop_file]

theorem countedExports_cons (name : Text) (names : List Text) :
    countedExports fs mdtName (name :: names) =
      if (exportStats fs mdtName name).isMissing then []
      else name :: countedExports fs mdtName names := by
  unfold countedExports
  rw [List.takeWhile_cons]
  cases (exportStats fs mdtName name).isMissing <;> rfl

theorem aggregateExports_spec (hv : h.Valid slot) (hends : SameEnds base h)
    (hnames : ∀ e ∈ countedExports fs mdtName names, Aggregable base (exportStats fs mdtName e)) :
    ∃ ret h', exec (aggregateExports fs (mdtDir fs) mdtName names h) .closed =
        (some (ret, h'), .closed) ∧
      ((∀ e ∈ names, ∀ errno, exportStats fs mdtName e = .missing errno → errno = .noent) →
        ret = .ok ()) ∧
      ∀ k, statOf (h'.find slot k) = statOf (h.find slot k) +
        statSum ((countedExports fs mdtName names).flatMap fun e =>
          addedLines base (exportStats fs mdtName e).lines) k := by
  induction names generalizing h with
  | nil => exact ⟨.ok (), h, rfl, fun _ => rfl, fun k => (add_zero _).symm⟩
  | cons name names ih =>
    rw [countedExports_cons] at hnames ⊢
    cases hnode : exportStats fs mdtName name with
    | missing e =>
      refine ⟨if e = .noent then .ok () else .error e, h, ?_, ?_, fun k => (add_zero _).symm⟩
      · rw [aggregateExports, procOpenf, exec_bind_some (exec_procOpen_missing hnode)]
        rfl
      · intro hnoent
        rw [if_pos (hnoent name List.mem_cons_self e hnode)]
    | dir entries =>
      rw [hnode] at hnames
      obtain ⟨content, hfile, -⟩ := hnames name List.mem_cons_self
      rw [hnode] at hfile
      exact absurd hfile (by simp)
    | file content =>
      rw [hnode] at hnames
      obtain ⟨content', hfile, hlines⟩ := hnames name List.mem_cons_self
      rw [hnode, Node.file.injEq] at hfile
      subst hfile
      obtain ⟨h₁, hagg, hv₁, hends₁, hstat₁⟩ := foldlM_hashAggregateLine hv hends hlines
      obtain ⟨ret, h', hrun, hret, hstat'⟩ :=
        ih hv₁ hends₁ fun e he => hnames e (List.mem_cons_of_mem _ he)
      refine ⟨ret, h', ?_, ?_, ?_⟩
      · have hexec : exec (hashAggregateStats h) (.file content) = (some (.ok (), h₁),
            .file (getsLoop 256 hashAggregateLine content.length h content).2) := by
          rw [hashAggregateStats, exec_map, exec_procGetsLoop, ← hagg]
          rfl
        rw [aggregateExports, procOpenf, exec_bind_some (exec_procOpen_file hnode),
          exec_bind_some hexec, exec_bind_some (exec_procClose_file _)]
        exact hrun
      · exact fun hnoent => hret fun e he => hnoent e (List.mem_cons_of_mem _ he)
      · intro k
        rw [hstat', hstat₁, add_assoc]
        change _ = _ + statSum ((name :: _).flatMap _) k
        rw [List.flatMap_cons, statSum_append, hnode]
        rfl

end

/-- A directory that `_subdirlist` lists. -/
def isExport (d : Dirent) : Bool := !ReaddirFlag.skips ⟨false, true⟩ d && !isClientOsc d.name

theorem subdirNames_perm (entries : List Dirent) :
    (subdirNames entries).Perm ((entries.filter isExport).map Dirent.name) := by
  have hfilter : (entries.filter isExport).map Dirent.name =
      ((entries.filter fun d => !ReaddirFlag.skips ⟨false, true⟩ d).map Dirent.name).filter
        fun name => !isClientOsc name := by
    rw [List.filter_map, List.filter_filter]
    congr 2
    funext d
    exact Bool.and_comm _ _
  rw [subdirNames, readdirLoop_eq _ le_rfl, hfilter]
  exact perm_listSort _ _

def exportsOf (fs : ProcFs) (mdtName : Text) : List Dirent :=
  match fs.node (exportsPath fs mdtName) with
  | .dir entries => entries.filter isExport
  | _ => []

def exportNames (fs : ProcFs) (mdtName : Text) : List Text :=
  match fs.node (exportsPath fs mdtName) with
  | .dir entries => subdirNames entries
  | _ => []

def exportLines (fs : ProcFs) (mdtName : Text) : List Text :=
  (exportsOf fs mdtName).flatMap fun d => (exportStats fs mdtName d.name).lines

/-- The lines that are not added: those behind a line whose key has something in
the table that is not a stat, and those of the exports behind one without stats. -/
def skippedLines (fs : ProcFs) (mdtName : Text) (base : Text → Option Text) : List Text :=
  ((countedExports fs mdtName (exportNames fs mdtName)).flatMap fun e =>
      (exportStats fs mdtName e).lines.dropWhile fun line => !endsAggregation base line) ++
    ((exportNames fs mdtName).dropWhile fun e => !(exportStats fs mdtName e).isMissing).flatMap
      fun e => (exportStats fs mdtName e).lines

def IsExportStats (n : Node) : Prop :=
  n = .missing .noent ∨
    ∃ content, n = .file content ∧ ∀ line ∈ linesOf 256 content, ∃ key val,
      parseStat line = some (key, val) ∧ (key = snapshotTime ∨ (parseStatNode val).isSome)

/-- Success, and sums over all lines of all stats files. -/
def AggregatesAll (fs : ProcFs) (mdtName : Text) (h : StatsTable) : Prop :=
  ∃ h', exec (aggregateMdtExportStats fs mdtName h) .closed = (some (.ok (), h'), .closed) ∧
    ∀ key, key ≠ snapshotTime → (statOf (h'.find slot key)).totals =
      (statOf (h.find slot key) + statSum (exportLines fs mdtName) key).totals

section

variable {fs : ProcFs} {mdtName : Text} {h : StatsTable}

theorem exportNames_perm (fs : ProcFs) (mdtName : Text) :
    (exportNames fs mdtName).Perm ((exportsOf fs mdtName).map Dirent.name) := by
  unfold exportNames exportsOf
  cases fs.node (exportsPath fs mdtName) with
  | missing e => rfl
  | file content => rfl
  | dir entries => exact subdirNames_perm entries

theorem statSum_flatMap_append {α : Type} (f g : α → List Text) (as : List α) (key : Text) :
    statSum (as.flatMap fun a => f a ++ g a) key =
      statSum (as.flatMap f) key + statSum (as.flatMap g) key := by
  induction as with
  | nil => exact (add_zero _).symm
  | cons a as ih =>
    rw [List.flatMap_cons, List.flatMap_cons, List.flatMap_cons, statSum_append, statSum_append,
      statSum_append, statSum_append, ih, add_add_add_comm]

theorem statSum_exportLines (base : Text → Option Text) (key : Text) :
    statSum (exportLines fs mdtName) key =
      statSum ((countedExports fs mdtName (exportNames fs mdtName)).flatMap fun e =>
        addedLines base (exportStats fs mdtName e).lines) key +
      statSum (skippedLines fs mdtName base) key := by
  have hperm : (exportLines fs mdtName).Perm
      ((exportNames fs mdtName).flatMap fun e => (exportStats fs mdtName e).lines) := by
    have hmap : exportLines fs mdtName = ((exportsOf fs mdtName).map Dirent.name).flatMap
        fun e => (exportStats fs mdtName e).lines := by
      rw [List.flatMap_map]
      rfl
    rw [hmap]
    exact (exportNames_perm fs mdtName).symm.flatMap_right _
  have hlines : (countedExports fs mdtName (exportNames fs mdtName)).flatMap
      (fun e => (exportStats fs mdtName e).lines) =
      (countedExports fs mdtName (exportNames fs mdtName)).flatMap fun e =>
        addedLines base (exportStats fs mdtName e).lines ++
          (exportStats fs mdtName e).lines.dropWhile fun line => !endsAggregation base line :=
    List.flatMap_congr fun e _ => List.takeWhile_append_dropWhile.symm
  have hsplit : exportNames fs mdtName = countedExports fs mdtName (exportNames fs mdtName) ++
      (exportNames fs mdtName).dropWhile fun e => !(exportStats fs mdtName e).isMissing :=
    List.takeWhile_append_dropWhile.symm
  have hnames : (exportNames fs mdtName).flatMap (fun e => (exportStats fs mdtName e).lines) =
      (countedExports fs mdtName (exportNames fs mdtName)).flatMap
          (fun e => (exportStats fs mdtName e).lines) ++
        ((exportNames fs mdtName).dropWhile fun e =>
          !(exportStats fs mdtName e).isMissing).flatMap
            fun e => (exportStats fs mdtName e).lines := by
    rw [← List.flatMap_append, ← hsplit]
  rw [statSum_perm hperm, hnames, statSum_append, hlines, statSum_flatMap_append, skippedLines,
    statSum_append, add_assoc]

theorem exec_aggregateMdtExportStats (hversion : VersionReadable fs)
    (hexports : (fs.node (exportsPath fs mdtName)).isFile = false) :
    exec (aggregateMdtExportStats fs mdtName h) .closed =
      exec (aggregateExports fs (mdtDir fs) mdtName (exportNames fs mdtName) h) .closed := by
  have hdir : exec (findMdtDir fs) .closed = (some (mdtDir fs), .closed) :=
    exec_of_wp ((wp_findMdtDir _).mpr ⟨hversion, rfl, rfl⟩)
  obtain ⟨ret, hlist, hnames⟩ : ∃ ret,
      exec (procLustreMdtExportlist fs mdtName) .closed = (some ret, .closed) ∧
        listed ret = exportNames fs mdtName := by
    unfold exportNames
    cases hnode : fs.node (exportsPath fs mdtName) with
    | missing e =>
      refine ⟨.error e, exec_of_wp ?_, rfl⟩
      rw [wp_procLustreMdtExportlist, wp_subdirlist, hnode]
      exact ⟨hversion, rfl, rfl⟩
    | file content =>
      rw [hnode] at hexports
      exact absurd hexports (by simp [Node.isFile])
    | dir entries =>
      refine ⟨.ok (subdirNames entries), exec_of_wp ?_, rfl⟩
      rw [wp_procLustreMdtExportlist, wp_subdirlist, hnode]
      exact ⟨hversion, rfl, rfl⟩
  rw [aggregateMdtExportStats, exec_bind_some hdir, exec_bind_some hlist, hnames]
  split_ifs with hempty
  · rw [List.length_eq_zero_iff.mp hempty]
    rfl
  · rfl

/-- The sums are complete exactly when what was skipped adds up to nothing. -/
theorem aggregateMdtExportStats_iff (hversion : VersionReadable fs) (hv : h.Valid slot)
    (hexports : (fs.node (exportsPath fs mdtName)).isFile = false)
    (hfiles : ∀ d ∈ exportsOf fs mdtName, IsExportStats (exportStats fs mdtName d.name)) :
    AggregatesAll fs mdtName h ↔
      ∀ key, key ≠ snapshotTime →
        (statSum (skippedLines fs mdtName (h.find slot)) key).totals = (0, 0, 0) := by
  have hnames : ∀ e ∈ exportNames fs mdtName, IsExportStats (exportStats fs mdtName e) := by
    intro e he
    obtain ⟨d, hd, rfl⟩ := List.mem_map.mp ((exportNames_perm fs mdtName).mem_iff.mp he)
    exact hfiles d hd
  have hcounted : ∀ e ∈ countedExports fs mdtName (exportNames fs mdtName),
      Aggregable (h.find slot) (exportStats fs mdtName e) := by
    intro e he
    have hthere := List.mem_takeWhile_imp he
    rcases hnames e ((List.takeWhile_sublist _).subset he) with hmissing | ⟨content, hfile, hlines⟩
    · simp [hmissing, Node.isMissing] at hthere
    · refine ⟨content, hfile, ?_⟩
      intro line hline
      obtain ⟨key, val, hparse, -⟩ := hlines line ((List.takeWhile_sublist _).subset hline)
      rw [hparse]
      rfl
  obtain ⟨ret, h', hexec, hret, hstat⟩ := aggregateExports_spec hv (fun _ => rfl) hcounted
  have hok : ret = .ok () := by
    apply hret
    intro e he errno hmissing
    rcases hnames e he with hnoent | ⟨content, hfile, -⟩
    · rw [hmissing, Node.missing.injEq] at hnoent
      exact hnoent
    · rw [hmissing] at hfile
      exact absurd hfile (by simp)
  subst hok
  rw [← exec_aggregateMdtExportStats hversion hexports] at hexec
  have htotals (key : Text) : (statOf (h'.find slot key)).totals =
      (statOf (h.find slot key) + statSum (exportLines fs mdtName) key).totals ↔
        (statSum (skippedLines fs mdtName (h.find slot)) key).totals = (0, 0, 0) := by
    rw [hstat, statSum_exportLines (h.find slot), ← add_assoc]
    exact StatNode.totals_add_eq_iff _ _
  unfold AggregatesAll
  rw [hexec]
  constructor
  · rintro ⟨h'', heq, hall⟩ key hkey
    obtain rfl : h' = h'' := by simpa using heq
    exact (htotals key).mp (hall key hkey)
  · intro hall
    exact ⟨h', rfl, fun key hkey => (htotals key).mpr (hall key hkey)⟩

end

def exportTree (exports : List Text) : ProcFs where
  sys _ := .missing .noent
  proc path :=
    if path = versionPath then .file "lustre: 2.0.50\n".toList
    else if path = "fs/lustre/mdt/lc1-MDT0000/exports".toList then
      .dir (exports.map fun e => ⟨e, .dir⟩)
    else if path = "fs/lustre/mdt/lc1-MDT0000/exports/b/stats".toList then
      .file "open 5 samples [reqs] 1 1 5 25\n".toList
    else .missing .noent
  garbage := []

theorem isExportStats_open :
    IsExportStats (.file "open 5 samples [reqs] 1 1 5 25\n".toList) := by
  refine .inr ⟨_, rfl, ?_⟩
  intro line hline
  have hlines : linesOf 256 "open 5 samples [reqs] 1 1 5 25\n".toList =
      ["open 5 samples [reqs] 1 1 5 25".toList] := by decide
  rw [hlines, List.mem_singleton] at hline
  subst hline
  exact ⟨"open".toList, "5 samples [reqs] 1 1 5 25".toList, by decide, .inr (by decide)⟩

/-- The export without stats is behind the other one. -/
theorem aggregateMdtExportStats_iff_last :
    AggregatesAll (exportTree ["b".toList, "c".toList]) "lc1-MDT0000".toList .empty := by
  have hversion : VersionReadable (exportTree ["b".toList, "c".toList]) := rfl
  apply (aggregateMdtExportStats_iff hversion (HashTable.valid_empty slot) rfl _).mpr
  · intro key _
    have hskipped : skippedLines (exportTree ["b".toList, "c".toList]) "lc1-MDT0000".toList
        (HashTable.empty.find slot) = [] := by decide
    rw [hskipped]
    rfl
  · intro d hd
    have hexports : exportsOf (exportTree ["b".toList, "c".toList]) "lc1-MDT0000".toList =
        [⟨"b".toList, .dir⟩, ⟨"c".toList, .dir⟩] := rfl
    rw [hexports, List.mem_pair] at hd
    rcases hd with rfl | rfl
    · exact isExportStats_open
    · exact .inl rfl

/-- An export without stats ends the loop, and the stats of the next one are lost. -/
theorem aggregateMdtExportStats_stops :
    (lustre20 ≤ lustreVersion (exportTree ["a".toList, "b".toList]) ∧
      lustreVersion (exportTree ["a".toList, "b".toList]) < packedVersion 2 0 56 0) ∧
    (∀ d ∈ exportsOf (exportTree ["a".toList, "b".toList]) "lc1-MDT0000".toList,
      IsExportStats (exportStats (exportTree ["a".toList, "b".toList]) "lc1-MDT0000".toList
        d.name)) ∧
    ¬AggregatesAll (exportTree ["a".toList, "b".toList]) "lc1-MDT0000".toList .empty := by
  refine ⟨by decide, ?_, ?_⟩
  · intro d hd
    have hexports : exportsOf (exportTree ["a".toList, "b".toList]) "lc1-MDT0000".toList =
        [⟨"a".toList, .dir⟩, ⟨"b".toList, .dir⟩] := rfl
    rw [hexports, List.mem_pair] at hd
    rcases hd with rfl | rfl
    · exact .inl rfl
    · exact isExportStats_open
  · rintro ⟨h', hexec, hstat⟩
    have hrun : exec (aggregateMdtExportStats (exportTree ["a".toList, "b".toList])
        "lc1-MDT0000".toList .empty) .closed = (some (.ok (), .empty), .closed) := rfl
    rw [hrun] at hexec
    obtain rfl : HashTable.empty = h' := by simpa using hexec
    exact absurd (hstat "open".toList (by decide)) (by decide)

end Lmt
