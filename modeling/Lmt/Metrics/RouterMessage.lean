import Lmt.Database.Inserter
import Lmt.Metrics.OstMessage

/-!
# From the files of a router to the database

A router whose routing is enabled prints its load and the bytes that it has
routed. Its version is printed with a fraction, which the monitor reads as the
version 1. What the files hold is what the databases get.
-/

namespace Lmt

open Attempts FormattedText SeparatedFields

def routerVersion : Text := "1.0".toList

/-- The arguments of `"1.0;%s;%f;%f;%lu"`. -/
def routerFields (nodename : Text) (cpupct mempct : ℕ) (newbytes : UInt64) : List Text :=
  [routerVersion, nodename, printMillionths cpupct, printMillionths mempct, printUInt64 newbytes]

/-- `lmt_router_string_v1` with the node name that `uname` gives, and the usage and the total that
the call before has left; `none` for a return value of -1. -/
def lmtRouterStringV1 (pct : Percentages) (fs : ProcFs) (nodename : Option Text)
    (usage total : UInt64) (len : ℤ) : ProcM (Option Text) :=
  orDone (procLustreLnetRoutingEnabled fs) fun ena =>
  if ena then
    match nodename with
    | none => pure none
    | some node =>
      orDone (procStat2 fs usage total) fun cpu =>
      orDone (procMeminfo fs) fun mem =>
      orDone (procLustreLnetNewbytes fs) fun newbytes =>
      pure (snprintfChecked len
        (joined ';' (routerFields node (pct.cpu cpu.pct) (pct.mem mem.1 mem.2) newbytes)))
  else pure none

def insertRouter (site : Site) (name : Text) (row : RouterDataRow) (s : Inserter) : Inserter :=
  final (do
    initDbIfneeded site
    let s ← get
    each (fun db => withDb db (lmtDbInsertRouterData site name row)) s.positions) s

section

variable {node rest s : Text} {cpu mem : ℕ} {newbytes : UInt64} {fs : ProcFs} {pct : Percentages}
  {usage total : UInt64} {len : ℤ} {ctx : Ctx}

theorem scanFloat_routerVersion (rest : Text) :
    scanFloat (routerVersion ++ ';' :: rest) = some (1, ';' :: rest) := by
  have hspace : skipSpace (routerVersion ++ ';' :: rest) = routerVersion ++ ';' :: rest := rfl
  have hsign : scanSign (routerVersion ++ ';' :: rest) = (false, routerVersion ++ ';' :: rest) :=
    rfl
  have hwhole : (routerVersion ++ ';' :: rest).takeWhile Char.isDigit = ['1'] := rfl
  have hdot : (routerVersion ++ ';' :: rest).dropWhile Char.isDigit = '.' :: '0' :: ';' :: rest :=
    rfl
  have hfraction : scanFraction ('.' :: '0' :: ';' :: rest) = (['0'], ';' :: rest) := rfl
  have hexponent : scanExponent (';' :: rest) = some (0, ';' :: rest) := rfl
  have hvalue : digitsValue ['1', '0'] = 10 := by decide
  simp [scanFloat, hspace, hsign, hwhole, hdot, hfraction, hexponent, hvalue]

theorem lmtRouterDecodeV1_fields (hnode : IsField ';' node) :
    lmtRouterDecodeV1 (joined ';' (routerFields node cpu mem newbytes)) =
      some { name := node, pctCpu := (cpu : ℚ) / 10 ^ 6, pctMem := (mem : ℚ) / 10 ^ 6,
             bytes := newbytes } := by
  have hversion (rest : Text) (ds : List Directive) :
      sscanf (.skip .float :: ds) (routerVersion ++ ';' :: rest) = sscanf ds (';' :: rest) := by
    have hread : (Directive.skip .float).read (routerVersion ++ ';' :: rest) =
        some ([], ';' :: rest) := by
      simp [Directive.read, scanFloat_routerVersion]
    simpa using sscanf_cons hread ds
  have hbytes : sscanf [.uint64] (printUInt64 newbytes) = [.uint64 newbytes] := by
    simpa using sscanf_uint64 newbytes (stopsAt_nil _) []
  have hscan : sscanf routerFormat (joined ';' (routerFields node cpu mem newbytes)) =
      [.text node, .float ((cpu : ℚ) / 10 ^ 6), .float ((mem : ℚ) / 10 ^ 6),
        .uint64 newbytes] := by
    simp only [routerFormat, routerFields, joined]
    rw [hversion, sscanf_lit, sscanf_upToSemicolon hnode (by simp), sscanf_lit,
      sscanf_float cpu ((stopsAt_cons _ _ _).mpr (by decide)), sscanf_lit,
      sscanf_float mem ((stopsAt_cons _ _ _).mpr (by decide)), sscanf_lit, hbytes]
  unfold lmtRouterDecodeV1
  rw [hscan]

theorem metricUpdate_of_handler {site : Site} {name text : Text}
    {handler : Inserter → Text → Inserter}
    (h : (scanVersion text).bind (metricHandler site name) = some handler) (st : Inserter) :
    metricUpdate site st { name, value := some text } = handler st text := by
  unfold metricUpdate
  dsimp only
  rw [h]

theorem metricUpdate_routerFields (hnode : IsField ';' node) (site : Site) (st : Inserter) :
    metricUpdate site st { name := "lmt_router".toList,
                           value := some (joined ';' (routerFields node cpu mem newbytes)) } =
      insertRouter site node { bytes := newbytes, pctCpu := (cpu : ℚ) / 10 ^ 6 } st := by
  have hversion : scanVersion (joined ';' (routerFields node cpu mem newbytes)) = some 1 := by
    have hread : Directive.float.read (joined ';' (routerFields node cpu mem newbytes)) =
        some ([.float 1], ';' :: joined ';'
          [node, printMillionths cpu, printMillionths mem, printUInt64 newbytes]) := by
      simp [Directive.read, routerFields, joined, scanFloat_routerVersion]
    have hscan : sscanf [.float, .lit ';'] (joined ';' (routerFields node cpu mem newbytes)) =
        [.float 1] := by
      rw [sscanf_cons hread, sscanf_lit]
      rfl
    unfold scanVersion
    rw [hscan]
  have hhandler : metricHandler site "lmt_router".toList 1 = some (lmtDbInsertRouterV1 site) := by
    have hone : versionEq 1 1 = true := versionEq_self 1
    unfold metricHandler
    rw [if_neg (by decide), if_neg (by decide), if_pos ⟨rfl, hone⟩]
  have hbind : (scanVersion (joined ';' (routerFields node cpu mem newbytes))).bind
      (metricHandler site "lmt_router".toList) = some (lmtDbInsertRouterV1 site) := by
    rw [hversion, Option.bind_some, hhandler]
  rw [metricUpdate_of_handler hbind]
  unfold lmtDbInsertRouterV1 insertRouter
  rw [lmtRouterDecodeV1_fields hnode]
  rfl

/-- Whatever the trees hold, a metric that a router has written has the values of its files, routing
is enabled in them, and every monitor inserts these values. -/
theorem router_values_arrive (hnode : IsField ';' node)
    (hrun : exec (lmtRouterStringV1 pct fs (some node) usage total len) .closed =
      (some (some s), ctx)) :
    ctx = .closed ∧ routingOf fs.lnetRoutes = .ok true ∧
    ∃ cpu mem newbytes, fs.cpupct pct usage total = .ok cpu ∧ fs.mempct pct = .ok mem ∧
      newbytesOf fs.lnetStats = .ok newbytes ∧
      lmtRouterDecodeV1 s = some { name := node, pctCpu := (cpu : ℚ) / 10 ^ 6,
                                   pctMem := (mem : ℚ) / 10 ^ 6, bytes := newbytes } ∧
      ∀ (site : Site) (st : Inserter),
        metricUpdate site st { name := "lmt_router".toList, value := some s } =
          insertRouter site node { bytes := newbytes, pctCpu := (cpu : ℚ) / 10 ^ 6 } st := by
  unfold lmtRouterStringV1 at hrun
  obtain ⟨ena, hena, hrun⟩ := reads_procLustreLnetRoutingEnabled.orDone hrun
  cases ena with
  | false => simp at hrun
  | true =>
    rw [if_pos rfl] at hrun
    obtain ⟨cpu, hcpu, hrun⟩ := (reads_procStat2 usage total).orDone hrun
    obtain ⟨mem, hmem, hrun⟩ := reads_procMeminfo.orDone hrun
    obtain ⟨newbytes, hnewbytes, hrun⟩ := reads_procLustreLnetNewbytes.orDone hrun
    rw [exec_pure, Prod.mk.injEq, Option.some_inj, snprintfChecked_eq] at hrun
    obtain ⟨hprint, rfl⟩ := hrun
    split_ifs at hprint with hfits
    obtain rfl := Option.some.inj hprint
    exact ⟨rfl, hena, pct.cpu cpu.pct, pct.mem mem.1 mem.2, newbytes, cpupct_eq_ok hcpu,
      mempct_eq_ok hmem, hnewbytes, lmtRouterDecodeV1_fields hnode,
      fun site st => metricUpdate_routerFields hnode site st⟩

end

def routerTree : ProcFs where
  sys _ := .missing .noent
  proc path :=
    if path = "sys/lnet/routes".toList then .file "Routing enabled\n".toList
    else if path = "sys/lnet/stats".toList then
      .file "0 1 2 3 4 5 6 7 8 1048576 0\n".toList
    else if path = "stat".toList then .file "cpu  10 0 5 85 0 0 0\n".toList
    else if path = "meminfo".toList then
      .file "MemTotal: 1000 kB\nMemFree: 250 kB\n".toList
    else .missing .noent
  garbage := []

theorem router_values_arrive_routerTree :
    routingOf routerTree.lnetRoutes = .ok true ∧
    ∃ cpu mem newbytes, routerTree.cpupct wholePercentages 0 0 = .ok cpu ∧
      routerTree.mempct wholePercentages = .ok mem ∧
      newbytesOf routerTree.lnetStats = .ok newbytes ∧
      lmtRouterDecodeV1 "1.0;router1;15.000000;75.000000;1048576".toList =
        some { name := "router1".toList, pctCpu := (cpu : ℚ) / 10 ^ 6,
               pctMem := (mem : ℚ) / 10 ^ 6, bytes := newbytes } ∧
      ∀ (site : Site) (st : Inserter),
        metricUpdate site st { name := "lmt_router".toList,
                               value := some "1.0;router1;15.000000;75.000000;1048576".toList } =
          insertRouter site "router1".toList
            { bytes := newbytes, pctCpu := (cpu : ℚ) / 10 ^ 6 } st := by
  have hnode : IsField ';' "router1".toList := by constructor <;> decide
  have hrun : (exec (lmtRouterStringV1 wholePercentages routerTree (some "router1".toList) 0 0 256)
      .closed).1 = some (some "1.0;router1;15.000000;75.000000;1048576".toList) := by
    decide +kernel
  rcases hexec : exec
      (lmtRouterStringV1 wholePercentages routerTree (some "router1".toList) 0 0 256)
    .closed with ⟨r, ctx⟩
  rw [hexec] at hrun
  cases hrun
  exact (router_values_arrive hnode hexec).2

end Lmt
