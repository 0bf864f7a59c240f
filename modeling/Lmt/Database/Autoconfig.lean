import Lmt.Database.MdtRuns

/-!
# Adding MDTs to the database automatically

With `db_autoconf`, an MDT without an id gets a row of `MDS_INFO`, and the ids
of its host and of itself are cached. The host's key is inserted even when the
host is known from another MDT: then the insertion fails, the second row with
this host stays, and no handle can be opened any more.
-/

namespace Lmt

open Attempts FormattedText Runs

/-- A handle that is ready for insertions and knows all names. -/
structure Handle.Ready (h : Handle) (t : Tables) : Prop where
  prepared : h.prepared = true
  agrees : h.Agrees t

/-- The names and the cached ids are the same. -/
structure SameNames (s t : Db) : Prop where
  prepared : t.handle.prepared = s.handle.prepared
  idhash : t.handle.idhash = s.handle.idhash
  select : ∀ svc, t.tables.select svc = s.tables.select svc

instance : IsPreorder Db SameNames where
  refl _ := ⟨rfl, rfl, fun _ => rfl⟩
  trans _ _ _ hst htu := ⟨htu.prepared.trans hst.prepared, htu.idhash.trans hst.idhash,
    fun svc => (htu.select svc).trans (hst.select svc)⟩

theorem SameNames.usable {s t : Db} (h : SameNames s t) (hs : s.tables.Usable) :
    t.tables.Usable := by
  intro svc
  rw [h.select]
  exact hs svc

theorem SameNames.ready {s t : Db} (h : SameNames s t) (hs : s.handle.Ready s.tables) :
    t.handle.Ready t.tables := by
  refine ⟨h.prepared.trans hs.prepared, fun svc name id => ?_⟩
  rw [lookupIdhash, h.idhash, h.select]
  exact hs.agrees svc name id

theorem sameNames_called (s : Db) (n : ℕ) : SameNames s (s.called n) := ⟨rfl, rfl, fun _ => rfl⟩

theorem sameNames_tick (site : Site) (s : Db) : SameNames s (s.tick site) :=
  ⟨rfl, rfl, fun _ => rfl⟩

theorem sameNames_stamp (s : Db) (now : ℕ) : SameNames s (s.stamp now) := ⟨rfl, rfl, fun _ => rfl⟩

theorem sameNames_update (s : Db) {f : Tables → Tables}
    (h : ∀ t svc, (f t).select svc = t.select svc) : SameNames s (s.update f) := by
  refine ⟨rfl, rfl, fun svc => ?_⟩
  rw [Db.tables_update, h]

theorem sameNames_insertTimestamp (s : Db) (now : ℕ) : SameNames s (s.insertTimestamp now) := by
  have h : SameNames s (s.update fun t => { t with timestampInfo := t.timestampInfo.insert now }) :=
    sameNames_update s fun t svc => by cases svc <;> rfl
  exact ⟨rfl, rfl, h.select⟩

variable (site : Site)

theorem sameNames_mysqlExecute : Moves SameNames (mysqlExecute site) := by
  intro s
  obtain ⟨o, n, h, -⟩ := exec_mysqlExecute site s
  rw [h]
  exact sameNames_called s n

theorem sameNames_updateTimestamp : Moves SameNames (updateTimestamp site) := by
  intro s
  rcases h : exec (updateTimestamp site) s with ⟨o, t⟩
  have htick := sameNames_tick site s
  rcases updateTimestamp_cases site s h with
    ⟨-, n, rfl | rfl⟩ | ⟨-, now, -, ⟨-, rfl⟩ | ⟨-, n, rfl⟩⟩
  · exact sameNames_called s n
  · exact trans_of SameNames htick (sameNames_called _ n)
  · exact trans_of SameNames htick (sameNames_stamp _ _)
  · refine trans_of SameNames (trans_of SameNames htick (sameNames_called _ n)) ?_
    exact trans_of SameNames (sameNames_insertTimestamp _ _) (sameNames_stamp _ _)

theorem sameNames_insertRow (table : DataTable) (key : ℕ × ℕ) {insert? : Tables → Option Tables}
    (h : ∀ t svc, ((insert? t).getD t).select svc = t.select svc) :
    Moves SameNames (insertRow site table key insert?) := by
  refine (sameNames_mysqlExecute site).bind fun _ => moves_modify fun s => ?_
  have hupdate := sameNames_update s h
  exact ⟨rfl, rfl, hupdate.select⟩

theorem sameNames_lmtDbInsertMdsOpsData (mdtname opname : Text)
    (samples sum sumsquares : UInt64) :
    Moves SameNames (lmtDbInsertMdsOpsData site mdtname opname samples sum sumsquares) := by
  refine Moves.bind (moves_get.bind fun _ => moves_ite (moves_pure ()) moves_failure) fun _ =>
    moves_get.bind fun s => ?_
  cases lookupIdhash s.handle .mdt mdtname with
  | none => exact moves_pure ()
  | some id =>
    cases lookupIdhash s.handle .op opname with
    | none => exact moves_pure ()
    | some op => exact sameNames_insertRow site _ _ fun t svc => by cases svc <;> rfl

theorem sameNames_opOnDb (mdtname : Text) (db : Db) (op : Text) :
    SameNames db (opOnDb site mdtname db op) := by
  rw [opOnDb]
  cases lmtMdtDecodeV1Mdops op with
  | none => exact refl_of SameNames db
  | some o => exact sameNames_lmtDbInsertMdsOpsData site _ _ _ _ _ db

/-- Auto-configuration is on and neither the server nor the clock fails. -/
structure Site.Healthy : Prop where
  autoconf : site.autoconf = true
  noFailure : site.NoFailure
  clock : ∀ n, (site.clock n).isSome

variable {site} (hsite : site.Healthy)

include hsite

theorem updateTimestamp_succeeds {s : Db} (hs : s.handle.prepared = true) :
    (exec (updateTimestamp site) s).1 = some () := by
  obtain ⟨now, hnow⟩ := Option.isSome_iff_exists.mp (hsite.clock s.world.clockReads)
  obtain ⟨o, n, hexec, ho⟩ := exec_mysqlExecute site (s.tick site)
  obtain rfl := ho hsite.noFailure
  simp only [updateTimestamp, ifPrepared, exec_bind, exec_get, hs, if_true, exec_pure,
    exec_readClock, hnow]
  split_ifs
  · rfl
  · rw [exec_bind_some hexec]
    rfl

theorem insertRow_succeeds (table : DataTable) (key : ℕ × ℕ) (insert? : Tables → Option Tables)
    (s : Db) : (exec (insertRow site table key insert?) s).1 = some () := by
  obtain ⟨o, n, hexec, ho⟩ := exec_mysqlExecute site s
  obtain rfl := ho hsite.noFailure
  rw [insertRow, exec_bind_some hexec]
  rfl

theorem exec_populateIdhashOne (svc : Svc) (a1 : Text) (s : Db) :
    ∃ n, exec (populateIdhashOne site svc a1) s =
      match (s.tables.select svc).find? (·.2 = a1) with
      | none => (none, s.called n)
      | some row =>
        match s.handle.idhash.insert? (svcidKey svc row.2) row.1 with
        | none => (none, s.called n)
        | some idhash => (some row.1, { s.called n with handle := { s.handle with idhash } }) := by
  obtain ⟨o, n, hexec, -, ho⟩ := exec_mysqlSelect site svc s
  obtain rfl := ho hsite.noFailure
  refine ⟨n, ?_⟩
  rw [populateIdhashOne, exec_bind_some hexec]
  cases (s.tables.select svc).find? (·.2 = a1) with
  | none => rfl
  | some row =>
    simp only [ofOption_some, pure_bind, exec_bind, exec_hashInsert, Db.handle_called]
    cases s.handle.idhash.insert? (svcidKey svc row.2) row.1 <;> rfl

omit hsite

theorem Handle.Agrees.ne_of_lookup {h : Handle} {t : Tables} (hagrees : h.Agrees t) {svc : Svc}
    {name : Text} (hname : lookupIdhash h svc name = none) : ∀ r ∈ t.select svc, r.2 ≠ name := by
  rintro ⟨id, n⟩ hr rfl
  rw [(hagrees svc n id).mpr hr] at hname
  cases hname

def Addable (m : MdtMetric) (info : MdtInfo) (db : Db) : Prop :=
  lookupIdhash db.handle .mdt info.mdtname ≠ none ∨ lookupIdhash db.handle .mds m.mdsname = none

instance (m : MdtMetric) (info : MdtInfo) (db : Db) : Decidable (Addable m info db) := by
  unfold Addable
  infer_instance

/-- The tables with a new row of `MDS_INFO`. -/
def Tables.addMds (t : Tables) (mdsname mdtname : Text) : Tables :=
  { t with mdsInfo := t.mdsInfo.insert { mdsName := mdtname, hostname := mdsname } }

def newNames (mdsname mdtname : Text) : Svc → List Text
  | .mds => [mdsname]
  | .mdt => [mdtname]
  | _ => []

theorem select_addMds (t : Tables) (mdsname mdtname : Text) (svc : Svc) :
    (t.addMds mdsname mdtname).select svc =
      t.select svc ++ (newNames mdsname mdtname svc).map fun name => (t.mdsInfo.next, name) := by
  cases svc <;> simp [Tables.select, Tables.addMds, newNames]

theorem usable_addMds {t : Tables} (ht : t.Usable) {mdsname mdtname : Text}
    (hmds : ∀ r ∈ t.select .mds, r.2 ≠ mdsname) (hmdt : ∀ r ∈ t.select .mdt, r.2 ≠ mdtname) :
    (t.addMds mdsname mdtname).Usable := by
  intro svc
  rw [select_addMds, List.map_append, List.nodup_append]
  refine ⟨ht svc, ?_, ?_⟩
  · cases svc <;> simp [newNames]
  · intro name hname name' hname' heq
    obtain ⟨r, hr, rfl⟩ := List.mem_map.mp hname
    cases svc with
    | mds =>
      simp only [newNames, List.map_cons, List.map_nil, List.mem_singleton] at hname'
      exact hmds r hr (heq.trans hname')
    | mdt =>
      simp only [newNames, List.map_cons, List.map_nil, List.mem_singleton] at hname'
      exact hmdt r hr (heq.trans hname')
    | _ => simp [newNames] at hname'

theorem find?_new {rows : List (ℕ × Text)} {name : Text} (h : ∀ r ∈ rows, r.2 ≠ name) (id : ℕ) :
    (rows ++ [(id, name)]).find? (·.2 = name) = some (id, name) := by
  have hnone : rows.find? (fun r => decide (r.2 = name)) = none :=
    List.find?_eq_none.mpr fun r hr => by simpa using h r hr
  simp [List.find?_append, hnone]

include hsite

theorem exec_insertMdsInfo (mdsname mdtname : Text) (s : Db) :
    ∃ n, exec (insertMdsInfo site mdsname mdtname) s =
      exec (populateIdhashOne site .mds mdsname >>= fun _ => populateIdhashOne site .mdt mdtname)
        ((s.called n).update fun t => t.addMds mdsname mdtname) := by
  refine ⟨1, ?_⟩
  have hcall : exec (onWorld (mysqlCall site)) s = (some (), s.called 1) := by
    rw [exec_onWorld_mysqlCall, hsite.noFailure]
    rfl
  rw [insertMdsInfo, mysqlInsert, bind_assoc, exec_bind_some hcall]
  rfl

theorem insertMdsInfo_fails {s : Db} {mdsname : Text}
    (hmds : lookupIdhash s.handle .mds mdsname ≠ none) (mdtname : Text) :
    (exec (insertMdsInfo site mdsname mdtname) s).1 = none := by
  obtain ⟨n, h⟩ := exec_insertMdsInfo hsite mdsname mdtname s
  obtain ⟨n', hone⟩ := exec_populateIdhashOne hsite .mds mdsname
    ((s.called n).update fun t => t.addMds mdsname mdtname)
  have hinsert (id : ℕ) : s.handle.idhash.insert? (svcidKey .mds mdsname) id = none := by
    rw [KeyedTable.insert?_eq_none]
    by_contra hnot
    exact hmds (KeyedTable.find?_eq_none.mpr hnot)
  rw [h]
  rcases hfind : (((s.called n).update fun t => t.addMds mdsname mdtname).tables.select .mds).find?
      (·.2 = mdsname) with _ | row
  · rw [hfind] at hone
    rw [exec_bind_none hone]
  · have hrow : row.2 = mdsname := by simpa using List.find?_some hfind
    simp only [hfind, hrow, Db.handle_update, Db.handle_called, hinsert] at hone
    rw [exec_bind_none hone]

theorem populateIdhashOne_new {s : Db} {svc : Svc} {rows : List (ℕ × Text)} {id : ℕ} {name : Text}
    (hselect : s.tables.select svc = rows ++ [(id, name)]) (hrows : ∀ r ∈ rows, r.2 ≠ name)
    (hname : lookupIdhash s.handle svc name = none) :
    ∃ n idhash, s.handle.idhash.insert? (svcidKey svc name) id = some idhash ∧
      exec (populateIdhashOne site svc name) s =
        (some id, { s.called n with handle := { s.handle with idhash } }) := by
  obtain ⟨n, h⟩ := exec_populateIdhashOne hsite svc name s
  obtain ⟨idhash, hinsert⟩ : ∃ idhash,
      s.handle.idhash.insert? (svcidKey svc name) id = some idhash :=
    Option.ne_none_iff_exists'.mp fun hnone =>
      KeyedTable.find?_eq_none.mp hname (KeyedTable.insert?_eq_none.mp hnone)
  rw [hselect, find?_new hrows] at h
  simp only [hinsert] at h
  exact ⟨n, idhash, hinsert, h⟩

theorem insertMdsInfo_succeeds {s : Db} (husable : s.tables.Usable)
    (hready : s.handle.Ready s.tables) {mdsname mdtname : Text}
    (hmds : lookupIdhash s.handle .mds mdsname = none)
    (hmdt : lookupIdhash s.handle .mdt mdtname = none) :
    ∃ id u, exec (insertMdsInfo site mdsname mdtname) s = (some id, u) ∧ u.tables.Usable ∧
      u.handle.Ready u.tables := by
  obtain ⟨n, h⟩ := exec_insertMdsInfo hsite mdsname mdtname s
  set v := (s.called n).update fun t => t.addMds mdsname mdtname with hv
  have htables : v.tables = s.tables.addMds mdsname mdtname := by rw [hv, Db.tables_update]; rfl
  have hhandle : v.handle = s.handle := rfl
  have hnewMds := hready.agrees.ne_of_lookup hmds
  have hnewMdt := hready.agrees.ne_of_lookup hmdt
  have hselect (svc : Svc) := select_addMds s.tables mdsname mdtname svc
  obtain ⟨n₁, idhash₁, hinsert₁, h₁⟩ := populateIdhashOne_new hsite (s := v)
    (by rw [htables, hselect]; rfl) hnewMds (by rwa [hhandle])
  set u₁ : Db := { v.called n₁ with handle := { v.handle with idhash := idhash₁ } } with hu₁
  have hmdt₁ : lookupIdhash u₁.handle .mdt mdtname = none := by
    rw [lookupIdhash, hu₁]
    simp only [KeyedTable.find?_of_insert? hinsert₁, svcidKey_inj]
    rw [if_neg (by simp)]
    exact hmdt
  obtain ⟨n₂, idhash₂, hinsert₂, h₂⟩ := populateIdhashOne_new hsite (s := u₁)
    (show u₁.tables.select .mdt = _ by
      rw [show u₁.tables = v.tables from rfl, htables, hselect]; rfl) hnewMdt hmdt₁
  refine ⟨_, _, h.trans ((exec_bind_some h₁ _).trans h₂), ?_, ?_, ?_⟩
  · change v.tables.Usable
    rw [htables]
    exact usable_addMds husable hnewMds hnewMdt
  · exact hready.prepared
  · intro svc name id
    change idhash₂.find? (svcidKey svc name) = some id ↔ (id, name) ∈ v.tables.select svc
    rw [KeyedTable.find?_of_insert? hinsert₂, KeyedTable.find?_of_insert? hinsert₁, htables,
      hselect,
      List.mem_append, ← hready.agrees, hhandle]
    rw [lookupIdhash] at hmds hmdt ⊢
    cases svc with
    | mdt =>
      by_cases hn : name = mdtname
      · subst hn
        simp [newNames, hmdt, eq_comm]
      · simp [newNames, hn]
    | mds =>
      by_cases hn : name = mdsname
      · subst hn
        simp [newNames, hmds, eq_comm]
      · simp [newNames, hn]
    | _ => simp [newNames]

theorem lookupOrInsert_addable {m : MdtMetric} {info : MdtInfo} {db : Db}
    (husable : db.tables.Usable) (hready : db.handle.Ready db.tables) (h : Addable m info db) :
    ∃ id u, exec (lookupOrInsert site .mdt info.mdtname
        (insertMdsInfo site m.mdsname info.mdtname)) db = (some (some id), u) ∧
      u.tables.Usable ∧ u.handle.Ready u.tables := by
  rw [lookupOrInsert, exec_bind_some (exec_get db)]
  cases hmdt : lookupIdhash db.handle .mdt info.mdtname with
  | some id => exact ⟨id, db, rfl, husable, hready⟩
  | none =>
    have hmds := h.resolve_left fun hne => hne hmdt
    obtain ⟨id, u, hexec, hu⟩ := insertMdsInfo_succeeds hsite husable hready hmds hmdt
    refine ⟨id, u, ?_, hu⟩
    simp only [hsite.autoconf, if_true, exec_map, hexec]
    rfl

theorem insertMdsData_succeeds {m : MdtMetric} {info : MdtInfo} {db : Db}
    (husable : db.tables.Usable) (hready : db.handle.Ready db.tables) (h : Addable m info db) :
    ∃ t, exec (insertMdsData site m info) db = (some (), t) ∧ t.tables.Usable ∧
      t.handle.Ready t.tables := by
  obtain ⟨id, u, hlookup, hu, hu'⟩ := lookupOrInsert_addable hsite husable hready h
  have hprepared : exec ifPrepared db = (some (), db) := by
    simp [ifPrepared, exec_bind, hready.prepared]
  have hstamp := updateTimestamp_succeeds hsite hu'.prepared
  rcases hv : exec (updateTimestamp site) u with ⟨o, v⟩
  obtain rfl : o = some () := by simpa [hv] using hstamp
  let row : MdsDataRow :=
    { pctCpu := m.pctCpu, kbytesFree := info.kbytesFree,
      kbytesUsed := info.kbytesTotal - info.kbytesFree, inodesFree := info.inodesFree,
      inodesUsed := info.inodesTotal - info.inodesFree }
  let insert? : Tables → Option Tables := fun t =>
    (t.mdsData.insert? (id, v.handle.timestampId) row).map fun mdsData => { t with mdsData }
  have hselect (t : Tables) (svc : Svc) : ((insert? t).getD t).select svc = t.select svc := by
    simp only [insert?]
    cases t.mdsData.insert? (id, v.handle.timestampId) row <;> cases svc <;> rfl
  have hinsert := insertRow_succeeds hsite .mds (id, v.handle.timestampId) insert? v
  rcases ht : exec (insertRow site .mds (id, v.handle.timestampId) insert?) v with ⟨o, t⟩
  obtain rfl : o = some () := by simpa [ht] using hinsert
  have hsame : SameNames u t := trans_of SameNames ((sameNames_updateTimestamp site).of_exec hv)
    ((sameNames_insertRow site _ _ hselect).of_exec ht)
  refine ⟨t, ?_, hsame.usable hu, hsame.ready hu'⟩
  rw [insertMdsData, lmtDbInsertMdsData, insertSample, exec_bind_some hprepared,
    exec_bind_some hlookup]
  simp only
  rw [exec_bind_some hv, exec_bind_some (exec_get v)]
  exact ht

theorem insertMdsData_fails {m : MdtMetric} {info : MdtInfo} {db : Db}
    (h : ¬Addable m info db) : (exec (insertMdsData site m info) db).1 = none := by
  rw [Addable, not_or, not_not] at h
  obtain ⟨hmdt, hmds⟩ := h
  have hlookup : (exec (lookupOrInsert site .mdt info.mdtname
      (insertMdsInfo site m.mdsname info.mdtname)) db).1 = none := by
    rw [lookupOrInsert, exec_bind_some (exec_get db), hmdt]
    simp only [hsite.autoconf, if_true, exec_map, insertMdsInfo_fails hsite hmds]
    rfl
  rcases hexec : exec (lookupOrInsert site .mdt info.mdtname
      (insertMdsInfo site m.mdsname info.mdtname)) db with ⟨_ | _, u⟩
  · rw [insertMdsData, lmtDbInsertMdsData, insertSample]
    by_cases hprepared : db.handle.prepared
    · have hok : exec ifPrepared db = (some (), db) := by simp [ifPrepared, exec_bind, hprepared]
      rw [exec_bind_some hok, exec_bind_none hexec]
    · have hfail : exec ifPrepared db = (none, db) := by simp [ifPrepared, exec_bind, hprepared]
      rw [exec_bind_none hfail]
  · simp [hexec] at hlookup

theorem ready_mdtOnDb {m : MdtMetric} {info : MdtInfo} {db : Db} (husable : db.tables.Usable)
    (hready : db.handle.Ready db.tables) (h : Addable m info db) :
    (mdtOnDb site m info db).tables.Usable ∧
      (mdtOnDb site m info db).handle.Ready (mdtOnDb site m info db).tables := by
  obtain ⟨t, hexec, ht, ht'⟩ := insertMdsData_succeeds hsite husable hready h
  have hstep (u : Db) (op : Text) (hu : SameNames t u) (_ : True) :
      SameNames t (opOnDb site info.mdtname u op) :=
    trans_of SameNames hu (sameNames_opOnDb site info.mdtname u op)
  have hsame : SameNames t (run (opOnDb site info.mdtname) t info.mdops) :=
    invariant_run hstep (refl_of SameNames t) (by simp)
  rw [mdtOnDb, hexec]
  exact ⟨hsame.usable ht, hsame.ready ht'⟩

omit hsite

variable (site) in
/-- The call of `lmt_db_insert_mds_data` returns 0. -/
def ReturnsZero (m : MdtMetric) (info : MdtInfo) (db : Db) : Prop :=
  (exec (insertMdsData site m info) db).1 = some ()

instance (m : MdtMetric) (info : MdtInfo) (db : Db) : Decidable (ReturnsZero site m info db) := by
  unfold ReturnsZero
  infer_instance

variable (site) in
/-- `lmt_db_create` opens every database, and the new handle has the `MDS_ID` of
every MDT. -/
def DatabasesOpen (w : World) : Prop :=
  ∀ d, ∃ h v, exec (lmtDbCreate site false d) w = (some h, v) ∧
    ∀ r ∈ (w.tables d).mdsInfo.rows, lookupIdhash h .mdt r.2.mdsName = some r.1

variable (site) in
/-- The call returns 0, and before and after the MDT all databases can be opened. -/
def KeepsUsable (m : MdtMetric) (info : MdtInfo) (db : Db) : Prop :=
  ReturnsZero site m info db ∧ DatabasesOpen site db.world ∧
    DatabasesOpen site (mdtOnDb site m info db).world

include hsite

theorem databasesOpen_of_usable {w : World} (hw : ∀ d, (w.tables d).Usable) :
    DatabasesOpen site w := by
  intro d
  obtain ⟨h, v, hcreate⟩ := lmtDbCreate_succeeds site hsite.noFailure (hw d)
  obtain ⟨hname, hfresh, -⟩ := fresh_of_lmtDbCreate site hcreate
  refine ⟨h, v, hcreate, fun r hr => ?_⟩
  rw [hfresh.agrees, hname]
  exact List.mem_map.mpr ⟨r, hr, rfl⟩

theorem addable_of_returnsZero {m : MdtMetric} {info : MdtInfo} {db : Db}
    (h : ReturnsZero site m info db) : Addable m info db := by
  by_contra hnot
  rw [ReturnsZero, insertMdsData_fails hsite hnot] at h
  cases h

theorem keepsUsable_of_addable {m : MdtMetric} {info : MdtInfo} {db : Db}
    (husable : ∀ d, (db.world.tables d).Usable) (hready : db.handle.Ready db.tables)
    (h : Addable m info db) : KeepsUsable site m info db := by
  obtain ⟨t, hexec, -⟩ := insertMdsData_succeeds hsite (husable _) hready h
  refine ⟨by rw [ReturnsZero, hexec], databasesOpen_of_usable hsite husable,
    databasesOpen_of_usable hsite fun d => ?_⟩
  by_cases hd : d = db.handle.name
  · have hlocal := local_of_effects (effects_mdtOnDb site m info db)
    rw [hd, ← hlocal.name]
    exact (ready_mdtOnDb hsite (husable _) hready h).1
  · rw [(local_of_effects (effects_mdtOnDb site m info db)).tables d hd]
    exact husable d

omit hsite in
theorem Handle.Fresh.ready {h : Handle} {w : World} (hfresh : h.Fresh w) :
    h.Ready (w.tables h.name) := ⟨hfresh.prepared, hfresh.agrees⟩

/-- The databases stay usable if and only if, whenever the inserter meets an MDT
without an id, its host is not known from another MDT. -/
theorem autoconfiguration_usable_iff {w : World} (hw : ∀ d, (w.tables d).Usable)
    (msgs : List (Text × ℕ)) :
    StepsMeet (mdtUpdate site) (MdtsMeet site Addable) (.start w) msgs ↔
      StepsMeet (mdtUpdate site) (MdtsMeet site (KeepsUsable site)) (.start w) msgs ∧
        DatabasesOpen site (run (mdtUpdate site) (.start w) msgs).world := by
  have hfresh {h : Handle} {w : World} (_ : ∀ d, (w.tables d).Usable) (h : h.Fresh w) := h.ready
  constructor
  · intro h
    have hready {m : MdtMetric} {info : MdtInfo} {db : Db} (_ : info.Decoded)
        (husable : db.tables.Usable) (hready : db.handle.Ready db.tables)
        (h : Addable m info db) := ready_mdtOnDb hsite husable hready h
    have hrun := holdsTables_run site hfresh hready (holds_start hw) h
    refine ⟨?_, databasesOpen_of_usable hsite hrun.1⟩
    exact stepsMeet_mdts site hfresh hready (keepsUsable_of_addable hsite) (holds_start hw) h
  · rintro ⟨h, -⟩
    have hready {m : MdtMetric} {info : MdtInfo} {db : Db} (_ : info.Decoded)
        (husable : db.tables.Usable) (hready : db.handle.Ready db.tables)
        (h : KeepsUsable site m info db) :=
      ready_mdtOnDb hsite husable hready (addable_of_returnsZero hsite h.1)
    exact stepsMeet_mdts site hfresh hready (fun _ _ h => addable_of_returnsZero hsite h.1)
      (holds_start hw) h

omit hsite

section

theorem healthy_tickingSite : tickingSite.Healthy := ⟨rfl, fun _ => rfl, fun _ => rfl⟩

theorem usable_empty (d : Text) : (World.empty.tables d).Usable := by
  intro svc
  cases svc <;> exact List.nodup_nil

def twoMdts : List (Text × ℕ) := [mdsMessage "mds1" ["lc1-MDT0000", "lc1-MDT0001"]]

/-- The second call fails, and the database cannot be opened any more. -/
theorem second_mdt_breaks_database :
    tickingSite.Healthy ∧ (∀ d, (World.empty.tables d).Usable) ∧
      ¬StepsMeet (mdtUpdate tickingSite) (MdtsMeet tickingSite (ReturnsZero tickingSite))
        (.start .empty) twoMdts ∧
      ¬DatabasesOpen tickingSite (run (mdtUpdate tickingSite) (.start .empty) twoMdts).world := by
  refine ⟨healthy_tickingSite, usable_empty, by decide +kernel, fun hopen => ?_⟩
  obtain ⟨h, v, hcreate, -⟩ := hopen "filesystem_lc1".toList
  have hnone : (exec (lmtDbCreate tickingSite false "filesystem_lc1".toList)
      (run (mdtUpdate tickingSite) (.start .empty) twoMdts).world).1.isNone := by
    decide +kernel
  rw [hcreate] at hnone
  cases hnone

/-- Two MDTs on hosts of their own, one of which moves to the other host. -/
def movingMdt : List (Text × ℕ) :=
  [mdsMessage "mds1" ["lc1-MDT0000"], mdsMessage "mds2" ["lc1-MDT0001"],
    mdsMessage "mds2" ["lc1-MDT0000", "lc1-MDT0001"]]

theorem autoconfiguration_usable_moving_mdt :
    StepsMeet (mdtUpdate tickingSite) (MdtsMeet tickingSite (KeepsUsable tickingSite))
        (.start .empty) movingMdt ∧
      DatabasesOpen tickingSite (run (mdtUpdate tickingSite) (.start .empty) movingMdt).world :=
  (autoconfiguration_usable_iff healthy_tickingSite usable_empty movingMdt).mp (by decide +kernel)

end

end Lmt
