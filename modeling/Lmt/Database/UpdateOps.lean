import Lmt.Metrics.Mdt
import Lmt.Library.FirstMatch
import Lmt.Database.Names

/-!
# Adding the operation names: `lmtinit -o`

`lmt_db_update_ops` connects, looks for a database whose name starts with that of
the file system, and adds every operation name of the MDT metrics that is
missing. The result variable starts at 0, and the exits before the first name
leave it there: no connection, no list of databases and no such database are
reported as success.
-/

namespace Lmt

open Attempts FirstMatch FormattedText

/-- `get_all_opnames`, which lists most names twice. -/
def getAllOpnames : List Text := optabMdtV1 ++ optabMdtV3

/-- `"filesystem_%s"` -/
def fsName (fs : Text) : Text := "filesystem_".toList ++ fs

/-- The column `OPERATION_NAME` of `OPERATION_INFO`. -/
def Tables.operationNames (t : Tables) : List Text := t.operationInfo.rows.map Prod.snd

def Tables.insertOperation? (t : Tables) (opname : Text) : Option Tables :=
  if opname ∈ t.operationNames then none
  else some { t with operationInfo := t.operationInfo.insert opname }

section

variable (site : Site)

/-- `sql_check_for_operation`: the query, which needs a selected database, and its
result. -/
def checkForOperation (selected : Option Text) (opname : Text) : Attempt World Bool := do
  mysqlCall site
  let dbname ← ofOption selected
  mysqlCall site
  let w ← get
  pure (decide (opname ∈ (w.tables dbname).operationNames))

def insertOperationInfo (selected : Option Text) (opname : Text) : Attempt World Unit := do
  mysqlCall site
  let dbname ← ofOption selected
  let w ← get
  let t ← ofOption ((w.tables dbname).insertOperation? opname)
  set (w.update dbname fun _ => t)

/-- `_add_new_op`; of the error numbers only the sign is used, which is negative. -/
def addNewOp (selected : Option Text) (opname : Text) : Attempt World ℤ := do
  match ← attempt (checkForOperation site selected opname) with
  | none => pure (-1)
  | some true => pure 0
  | some false =>
    let r ← attempt (insertOperationInfo site selected opname)
    pure (if r.isSome then 0 else -1)

/-- The loop over the names, which ends with the first that cannot be added. -/
def addOps (selected : Option Text) : List Text → ℤ → Attempt World ℤ
  | [], retval => pure retval
  | opname :: opnames, _ => do
    let retval ← addNewOp site selected opname
    if retval < 0 then pure retval else addOps selected opnames retval

/-- `mysql_list_dbs` with the pattern `filesystem_%`. -/
def mysqlListDbs : Attempt World (List Text) := do
  mysqlCall site
  pure (site.databases.filter isLmtDatabase)

def mysqlSelectDb (dbname : Text) : Attempt World Text := do
  mysqlCall site
  if dbname ∈ site.databases then pure dbname else failure

/-- `lmt_db_update_ops`, which never looks at the result of `mysql_select_db`. -/
def lmtDbUpdateOps (fs : Text) : Attempt World ℤ := do
  match ← attempt (mysqlRealConnect site) with
  | none => pure 0
  | some _ =>
    match ← attempt (mysqlListDbs site) with
    | none => pure 0
    | some dbs =>
      if dbs.any ((fsName fs).isPrefixOf ·) then
        let selected ← attempt (mysqlSelectDb site (fsName fs))
        addOps site selected getAllOpnames 0
      else pure 0

/-- One run of the command: its result and the server after it. -/
def updateOps (fs : Text) (w : World) : Option ℤ × World := exec (lmtDbUpdateOps site fs) w

/-- The server after a number of runs. -/
def updateOpsTimes (fs : Text) (w : World) (n : ℕ) : World :=
  (fun w => (updateOps site fs w).2)^[n] w

/-- The names in `OPERATION_INFO` of the file system's database. -/
def World.opnames (w : World) (fs : Text) : List Text := (w.tables (fsName fs)).operationNames

/-- The database of the file system exists, with every operation name. -/
def OpsPresent (fs : Text) (w : World) : Prop :=
  fsName fs ∈ site.databases ∧ ∀ opname ∈ optabMdtV1 ++ optabMdtV3, opname ∈ w.opnames fs

/-- The connection and the list of databases succeed, and some database has a name
that starts with that of the file system's. -/
def ReachesTables (fs : Text) (w : World) : Prop :=
  site.fails w.calls = false ∧ site.fails (w.calls + 1) = false ∧
    ∃ db ∈ site.databases, isLmtDatabase db ∧ fsName fs <+: db

/-- The table after a name is added that was missing. -/
def Tables.addOperation (t : Tables) (opname : Text) : Tables := (t.insertOperation? opname).getD t

theorem operationNames_addOperation (t : Tables) (opname : Text) :
    (t.addOperation opname).operationNames = addKey t.operationNames opname := by
  unfold Tables.addOperation Tables.insertOperation? addKey
  split_ifs with hmem
  · rfl
  · simp [Tables.operationNames]

theorem operationNames_foldl_addOperation (t : Tables) (opnames : List Text) :
    (opnames.foldl Tables.addOperation t).operationNames =
      opnames.foldl addKey t.operationNames := by
  induction opnames generalizing t with
  | nil => rfl
  | cons opname opnames ih => rw [List.foldl_cons, ih, operationNames_addOperation, List.foldl_cons]

theorem checkForOperation_cases (selected : Option Text) (opname : Text) (w : World) :
    ∃ o t, exec (checkForOperation site selected opname) w = (o, t) ∧ t.tables = w.tables ∧
      ((o = none ∧ ¬(site.NoFailure ∧ selected.isSome)) ∨
        ∃ db, selected = some db ∧ o = some (decide (opname ∈ (w.tables db).operationNames))) := by
  simp only [checkForOperation, exec_bind, exec_mysqlCall]
  cases hquery : site.fails w.calls with
  | true => exact ⟨none, _, rfl, rfl, .inl ⟨rfl, fun h => by simp [h.1 _] at hquery⟩⟩
  | false =>
    cases selected with
    | none => exact ⟨none, _, rfl, rfl, .inl ⟨rfl, by simp⟩⟩
    | some db =>
      simp only [Bool.false_eq_true, if_false, ofOption_some, exec_pure, exec_get]
      cases hresult : site.fails (w.calls + 1) with
      | true => exact ⟨none, _, rfl, rfl, .inl ⟨rfl, fun h => by simp [h.1 _] at hresult⟩⟩
      | false => exact ⟨_, _, rfl, rfl, .inr ⟨db, rfl, rfl⟩⟩

theorem insertOperationInfo_cases {db opname : Text} {w : World}
    (hnew : opname ∉ (w.tables db).operationNames) :
    ∃ o t, exec (insertOperationInfo site (some db) opname) w = (o, t) ∧
      ((o = none ∧ t.tables = w.tables ∧ ¬site.NoFailure) ∨
        (o = some () ∧
          t.tables = Function.update w.tables db ((w.tables db).addOperation opname))) := by
  simp only [insertOperationInfo, exec_bind, exec_mysqlCall]
  cases hquery : site.fails w.calls with
  | true => exact ⟨none, _, rfl, .inl ⟨rfl, rfl, fun h => by simp [h _] at hquery⟩⟩
  | false =>
    have hinsert : (w.tables db).insertOperation? opname =
        some ((w.tables db).addOperation opname) := by
      simp [Tables.addOperation, Tables.insertOperation?, hnew]
    simp only [Bool.false_eq_true, if_false, ofOption_some, exec_pure, exec_get, hinsert, exec_set]
    exact ⟨some (), _, rfl, .inr ⟨rfl, rfl⟩⟩

/-- A name is reported as added exactly when it is in the table afterwards. -/
theorem addNewOp_cases (selected : Option Text) (opname : Text) (w : World) :
    ∃ r t, exec (addNewOp site selected opname) w = (some r, t) ∧
      ((r < 0 ∧ t.tables = w.tables ∧ ¬(site.NoFailure ∧ selected.isSome)) ∨
        (r = 0 ∧ ∃ db, selected = some db ∧
          t.tables = Function.update w.tables db ((w.tables db).addOperation opname))) := by
  obtain ⟨o, t, hcheck, htables, ⟨rfl, hfail⟩ | ⟨db, rfl, rfl⟩⟩ :=
    checkForOperation_cases site selected opname w
  · refine ⟨-1, t, ?_, .inl ⟨by omega, htables, hfail⟩⟩
    simp [addNewOp, exec_bind, hcheck]
  · by_cases hmem : opname ∈ (w.tables db).operationNames
    · refine ⟨0, t, ?_, .inr ⟨rfl, db, rfl, ?_⟩⟩
      · simp [addNewOp, exec_bind, hcheck, hmem]
      · have hkeep : (w.tables db).addOperation opname = w.tables db := by
          simp [Tables.addOperation, Tables.insertOperation?, hmem]
        rw [hkeep, Function.update_eq_self, htables]
    · have hnew : opname ∉ (t.tables db).operationNames := by rwa [htables]
      obtain ⟨o, u, hinsert, ⟨rfl, hu, hfail⟩ | ⟨rfl, hu⟩⟩ := insertOperationInfo_cases site hnew
      · refine ⟨-1, u, ?_, .inl ⟨by omega, hu.trans htables, fun h => hfail h.1⟩⟩
        simp [addNewOp, exec_bind, hcheck, hmem, hinsert]
      · refine ⟨0, u, ?_, .inr ⟨rfl, db, rfl, by rw [hu, htables]⟩⟩
        simp [addNewOp, exec_bind, hcheck, hmem, hinsert]

/-- The loop succeeds only when it has added every name to the selected database. -/
theorem addOps_cases (selected : Option Text) (opnames : List Text) (w : World) :
    ∃ r t, exec (addOps site selected opnames 0) w = (some r, t) ∧
      ((r < 0 ∧ ¬(site.NoFailure ∧ selected.isSome)) ∨
        (r = 0 ∧ (opnames ≠ [] → selected.isSome) ∧ ∀ db ∈ selected,
          t.tables = Function.update w.tables db
            (opnames.foldl Tables.addOperation (w.tables db)))) := by
  induction opnames generalizing w with
  | nil =>
    refine ⟨0, w, rfl, .inr ⟨rfl, fun h => absurd rfl h, fun db _ => ?_⟩⟩
    rw [List.foldl_nil, Function.update_eq_self]
  | cons opname opnames ih =>
    obtain ⟨r, t, hadd, ⟨hneg, -, hfail⟩ | ⟨rfl, db, rfl, htables⟩⟩ :=
      addNewOp_cases site selected opname w
    · refine ⟨r, t, ?_, .inl ⟨hneg, hfail⟩⟩
      simp [addOps, exec_bind, hadd, hneg]
    · obtain ⟨r, u, hrest, hcases⟩ := ih t
      refine ⟨r, u, ?_, ?_⟩
      · simp [addOps, exec_bind, hadd, hrest]
      · rcases hcases with ⟨hneg, hfail⟩ | ⟨rfl, -, hu⟩
        · exact .inl ⟨hneg, hfail⟩
        · refine .inr ⟨rfl, fun _ => rfl, fun db' hdb' => ?_⟩
          obtain rfl := Option.some.inj hdb'
          rw [hu db rfl, htables, Function.update_self, Function.update_idem, List.foldl_cons]

theorem isLmtDatabase_fsName (fs : Text) : isLmtDatabase (fsName fs) = true := by
  have hname : "filesystem_".toList = "filesystem".toList ++ ['_'] := by decide
  have hlength : "filesystem".length < "filesystem_".toList.length := by decide
  unfold isLmtDatabase fsName
  rw [Bool.and_eq_true, decide_eq_true_iff, List.isPrefixOf_iff_prefix, List.length_append]
  constructor
  · rw [hname, List.append_assoc]
    exact List.prefix_append _ _
  · exact Nat.lt_add_right _ hlength

theorem exec_mysqlRealConnect (w : World) :
    ∃ t, exec (mysqlRealConnect site) w =
        (if site.fails w.calls then none else some w.connections, t) ∧
      t.tables = w.tables ∧ t.calls = w.calls + 1 := by
  simp only [mysqlRealConnect, exec_bind, exec_get, exec_set, exec_mysqlCall]
  split_ifs <;> exact ⟨_, rfl, rfl, rfl⟩

theorem exec_mysqlListDbs (w : World) :
    ∃ t, exec (mysqlListDbs site) w =
        (if site.fails w.calls then none else some (site.databases.filter isLmtDatabase), t) ∧
      t.tables = w.tables := by
  simp only [mysqlListDbs, exec_bind, exec_mysqlCall]
  split_ifs <;> exact ⟨_, rfl, rfl⟩

theorem mysqlSelectDb_cases (dbname : Text) (w : World) :
    ∃ o t, exec (mysqlSelectDb site dbname) w = (o, t) ∧ t.tables = w.tables ∧
      ((o = some dbname ∧ dbname ∈ site.databases) ∨
        (o = none ∧ ¬(site.NoFailure ∧ dbname ∈ site.databases))) := by
  simp only [mysqlSelectDb, exec_bind, exec_mysqlCall]
  cases hselect : site.fails w.calls with
  | true => exact ⟨none, _, rfl, rfl, .inr ⟨rfl, fun h => by simp [h.1 _] at hselect⟩⟩
  | false =>
    by_cases hmem : dbname ∈ site.databases
    · simp only [Bool.false_eq_true, if_false, if_pos hmem, exec_pure]
      exact ⟨some dbname, _, rfl, rfl, .inl ⟨rfl, hmem⟩⟩
    · simp only [Bool.false_eq_true, if_false, if_neg hmem, exec_failure]
      exact ⟨none, _, rfl, rfl, .inr ⟨rfl, fun h => hmem h.2⟩⟩

/-- The file system is looked for among the databases that are listed. -/
theorem any_isPrefixOf_iff (fs : Text) :
    ((site.databases.filter isLmtDatabase).any fun db => (fsName fs).isPrefixOf db) ↔
      ∃ db ∈ site.databases, isLmtDatabase db ∧ fsName fs <+: db := by
  simp [List.any_filter, List.any_eq_true]

/-- The early exits leave the tables alone and report success. -/
theorem updateOps_of_not_reachesTables {fs : Text} {w : World} (h : ¬ReachesTables site fs w) :
    ∃ t, updateOps site fs w = (some 0, t) ∧ t.tables = w.tables := by
  obtain ⟨t, hconnect, ht, hcalls⟩ := exec_mysqlRealConnect site w
  obtain ⟨u, hlist, hu⟩ := exec_mysqlListDbs site t
  rw [hcalls] at hlist
  unfold updateOps
  cases hf : site.fails w.calls with
  | true =>
    rw [hf, if_pos rfl] at hconnect
    exact ⟨t, by simp [lmtDbUpdateOps, exec_bind, hconnect], ht⟩
  | false =>
    rw [hf, if_neg Bool.false_ne_true] at hconnect
    refine ⟨u, ?_, hu.trans ht⟩
    cases hf' : site.fails (w.calls + 1) with
    | true =>
      rw [hf', if_pos rfl] at hlist
      simp [lmtDbUpdateOps, exec_bind, hconnect, hlist]
    | false =>
      rw [hf', if_neg Bool.false_ne_true] at hlist
      have hnone : ¬(site.databases.filter isLmtDatabase).any fun db => (fsName fs).isPrefixOf db :=
        fun hany => h ⟨hf, hf', (any_isPrefixOf_iff site fs).mp hany⟩
      simp only [lmtDbUpdateOps, exec_bind, exec_attempt, hconnect, hlist, if_neg hnone, exec_pure]

/-- Past the early exits, success means that every name was added. -/
theorem updateOps_of_reachesTables {fs : Text} {w : World} (h : ReachesTables site fs w) :
    ∃ r t, updateOps site fs w = (some r, t) ∧
      ((r < 0 ∧ ¬(site.NoFailure ∧ fsName fs ∈ site.databases)) ∨
        (r = 0 ∧ fsName fs ∈ site.databases ∧
          t.tables = Function.update w.tables (fsName fs)
            (getAllOpnames.foldl Tables.addOperation (w.tables (fsName fs))))) := by
  obtain ⟨hf, hf', hany⟩ := h
  obtain ⟨t, hconnect, ht, hcalls⟩ := exec_mysqlRealConnect site w
  obtain ⟨u, hlist, hu⟩ := exec_mysqlListDbs site t
  rw [hf, if_neg Bool.false_ne_true] at hconnect
  rw [hcalls, hf', if_neg Bool.false_ne_true] at hlist
  obtain ⟨selected, v, hselect, hv, hselected⟩ := mysqlSelectDb_cases site (fsName fs) u
  obtain ⟨r, x, hadd, hcases⟩ := addOps_cases site selected getAllOpnames v
  refine ⟨r, x, ?_, ?_⟩
  · simp only [updateOps, lmtDbUpdateOps, exec_bind, exec_attempt, hconnect, hlist,
      if_pos ((any_isPrefixOf_iff site fs).mpr hany), hselect, hadd]
  have htables : v.tables = w.tables := by rw [hv, hu, ht]
  rw [htables] at hcases
  rcases hselected with ⟨rfl, hmem⟩ | ⟨rfl, hfail⟩
  · rcases hcases with ⟨hneg, hfail⟩ | ⟨rfl, -, hx⟩
    · exact .inl ⟨hneg, fun h => hfail ⟨h.1, rfl⟩⟩
    · exact .inr ⟨rfl, hmem, hx _ rfl⟩
  · rcases hcases with ⟨hneg, -⟩ | ⟨-, hsome, -⟩
    · exact .inl ⟨hneg, hfail⟩
    · exact absurd (hsome (by simp [getAllOpnames, optabMdtV1])) (by simp)

theorem opnames_of_tables_eq {fs : Text} {w t : World}
    (h : t.tables = Function.update w.tables (fsName fs)
      (getAllOpnames.foldl Tables.addOperation (w.tables (fsName fs)))) :
    t.opnames fs = getAllOpnames.foldl addKey (w.opnames fs) := by
  rw [World.opnames, h, Function.update_self, operationNames_foldl_addOperation]
  rfl

/-- A run that reports success has left every name in the table, unless it never
came to the table and they were not there. -/
theorem updateOps_success_iff (fs : Text) (w : World) :
    ((updateOps site fs w).1 = some 0 → OpsPresent site fs (updateOps site fs w).2) ↔
      ReachesTables site fs w ∨ OpsPresent site fs w := by
  by_cases h : ReachesTables site fs w
  · refine iff_of_true ?_ (.inl h)
    obtain ⟨r, t, hrun, ⟨hneg, -⟩ | ⟨rfl, hmem, htables⟩⟩ := updateOps_of_reachesTables site h
    · intro hzero
      rw [hrun] at hzero
      exact absurd (Option.some.inj hzero) hneg.ne
    · rw [hrun]
      refine fun _ => ⟨hmem, fun opname hop => ?_⟩
      rw [opnames_of_tables_eq htables, mem_foldl_addKey]
      exact .inr hop
  · obtain ⟨t, hrun, htables⟩ := updateOps_of_not_reachesTables site h
    have hsame : OpsPresent site fs t ↔ OpsPresent site fs w := by
      rw [OpsPresent, OpsPresent, World.opnames, World.opnames, htables]
    rw [hrun, hsame]
    simp [h]

theorem reachesTables_of_noFailure (hno : site.NoFailure) {fs : Text}
    (hmem : fsName fs ∈ site.databases) (w : World) : ReachesTables site fs w :=
  ⟨hno _, hno _, fsName fs, hmem, isLmtDatabase_fsName fs, List.prefix_rfl⟩

/-- Without a failure, a run succeeds and adds the names. -/
theorem updateOps_of_noFailure (hno : site.NoFailure) {fs : Text}
    (hmem : fsName fs ∈ site.databases) (w : World) :
    (updateOps site fs w).1 = some 0 ∧
      (updateOps site fs w).2.opnames fs = getAllOpnames.foldl addKey (w.opnames fs) := by
  obtain ⟨r, t, hrun, ⟨-, hfail⟩ | ⟨rfl, -, htables⟩⟩ :=
    updateOps_of_reachesTables site (reachesTables_of_noFailure site hno hmem w)
  · exact absurd ⟨hno, hmem⟩ hfail
  · rw [hrun]
    exact ⟨rfl, opnames_of_tables_eq htables⟩

/-- Every run after the first one finds all names and adds none. -/
theorem opnames_updateOpsTimes (hno : site.NoFailure) {fs : Text}
    (hmem : fsName fs ∈ site.databases) (w : World) (n : ℕ) :
    (updateOpsTimes site fs w (n + 1)).opnames fs = getAllOpnames.foldl addKey (w.opnames fs) := by
  induction n with
  | zero => exact (updateOps_of_noFailure site hno hmem w).2
  | succ n ih =>
    rw [updateOpsTimes, Function.iterate_succ_apply', (updateOps_of_noFailure site hno hmem _).2]
    rw [updateOpsTimes] at ih
    rw [ih]
    exact foldl_addKey_of_subset fun opname hop => (mem_foldl_addKey _ _ _).mpr (.inr hop)

/-- Each missing name is added once, however often the command is run. -/
def AddsMissingOnce (fs : Text) (w : World) : Prop :=
  site.NoFailure → fsName fs ∈ site.databases → ∀ n,
    (updateOps site fs (updateOpsTimes site fs w n)).1 = some 0 ∧
      ∃ added, (updateOpsTimes site fs w (n + 1)).opnames fs = w.opnames fs ++ added ∧
        added.Nodup ∧
        ∀ opname, opname ∈ added ↔
          opname ∈ optabMdtV1 ++ optabMdtV3 ∧ opname ∉ w.opnames fs

theorem addsMissingOnce (fs : Text) (w : World) : AddsMissingOnce site fs w := by
  intro hno hmem n
  refine ⟨(updateOps_of_noFailure site hno hmem _).1, ?_⟩
  rw [opnames_updateOpsTimes site hno hmem]
  exact exists_foldl_addKey _ _

/-- The result can be trusted exactly when the run comes to the table or had
nothing to add. -/
theorem updateOps_reports_iff (fs : Text) (w : World) :
    (((updateOps site fs w).1 = some 0 → OpsPresent site fs (updateOps site fs w).2) ∧
        AddsMissingOnce site fs w) ↔
      ReachesTables site fs w ∨ OpsPresent site fs w := by
  rw [and_iff_left (addsMissingOnce site fs w)]
  exact updateOps_success_iff site fs w

end

def unreachableSite : Site where
  databases := lc1Databases
  nodup_databases := nodup_lc1Databases
  autoconf := false
  clock _ := none
  fails _ := true

/-- No connection is made, and that is reported as success. -/
theorem updateOps_unreachable :
    (updateOps unreachableSite "lc1".toList .empty).1 = some 0 ∧
      ¬OpsPresent unreachableSite "lc1".toList
        (updateOps unreachableSite "lc1".toList .empty).2 := by
  refine ⟨rfl, fun h => ?_⟩
  have hopen : "open".toList ∈ optabMdtV1 ++ optabMdtV3 := by
    rw [optabMdtV1, List.map_cons]
    exact List.mem_cons_self
  have hmem := h.2 _ hopen
  have hnone : (updateOps unreachableSite "lc1".toList .empty).2.opnames "lc1".toList = [] := rfl
  rw [hnone] at hmem
  exact absurd hmem List.not_mem_nil

end Lmt
