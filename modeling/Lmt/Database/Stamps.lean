import Lmt.Database.EventLog

/-!
# The stamps of the data rows

A handle caches the `TIMESTAMP_INFO` row it inserted last, and the rows of the
data tables carry its `TS_ID`. The functions that insert samples read the clock
and refresh it first; the one for operations relies on the sample before. So in the
history of every run each row is stamped by the reading that was made for it.
-/

namespace Lmt

open Attempts FormattedText Runs

/-- A row is stamped by the history of its handle: its `TS_ID` is that of a row of
`TIMESTAMP_INFO` not earlier than the latest clock reading, and equal to it unless
the clock was set back. At most an insert into `TIMESTAMP_INFO` is between the
reading and a sample; operations follow their sample and have its `TS_ID`. -/
structure Stamped (past : List Event) (table : DataTable) (id tsId : ℕ) : Prop where
  pos : 0 < tsId
  timestamp : ∃ now earlier timestamp, readings past = now :: earlier ∧
    .timestamp tsId timestamp ∈ past ∧ roundTimestamp now ≤ timestamp ∧
    ((∀ r ∈ earlier, r ≤ now) → timestamp = roundTimestamp now)
  reading : table ≠ .mdsOps →
    ∃ now, (past.dropWhile Event.isTimestamp).head? = some (.reading now)
  mdsOps : table = .mdsOps → (past.dropWhile Event.isMdsOps).head? = some (.row .mds id tsId)

/-- Every row of a history, which is given with the newest event first. -/
def RowsStamped : List Event → Prop
  | [] => True
  | .row table id tsId :: past => Stamped past table id tsId ∧ RowsStamped past
  | _ :: past => RowsStamped past

variable (site : Site)

def Handle.Knows (h : Handle) (past : List Event) : Prop :=
  h.timestamp = 0 ∨
    0 < h.timestampId ∧ .timestamp h.timestampId h.timestamp ∈ past ∧
      ∃ r ∈ readings past, roundTimestamp r = h.timestamp

theorem Handle.Knows.append {h : Handle} {past : List Event} (hk : h.Knows past)
    (events : List Event) : h.Knows (events ++ past) := by
  rcases hk with hzero | ⟨hpos, htimestamp, r, hr, hround⟩
  · exact Or.inl hzero
  · refine Or.inr ⟨hpos, List.mem_append_right _ htimestamp, r, ?_, hround⟩
    rw [readings_append]
    exact List.mem_append_right _ hr

def Handle.Current (h : Handle) (past : List Event) : Prop :=
  ∃ now earlier, readings past = now :: earlier ∧ lmtUpdateInterval ≤ now ∧
    roundTimestamp now ≤ h.timestamp

theorem roundTimestamp_mono {a b : ℕ} (h : a ≤ b) : roundTimestamp a ≤ roundTimestamp b := by
  simp only [roundTimestamp, lmtUpdateInterval]
  omega

theorem roundTimestamp_pos {now : ℕ} (h : lmtUpdateInterval ≤ now) : 0 < roundTimestamp now := by
  simp only [roundTimestamp, lmtUpdateInterval] at h ⊢
  omega

theorem stamped_of_current {h : Handle} {past : List Event} (hk : h.Knows past)
    (hc : h.Current past) {table : DataTable} {id : ℕ}
    (hreading : table ≠ .mdsOps →
      ∃ now, (past.dropWhile Event.isTimestamp).head? = some (.reading now))
    (hops : table = .mdsOps →
      (past.dropWhile Event.isMdsOps).head? = some (.row .mds id h.timestampId)) :
    Stamped past table id h.timestampId := by
  obtain ⟨now, earlier, hreadings, hnow, hle⟩ := hc
  have hpos := roundTimestamp_pos hnow
  rcases hk with hzero | ⟨hid, htimestamp, r, hr, hround⟩
  · omega
  · refine ⟨hid, ⟨now, earlier, h.timestamp, hreadings, htimestamp, hle, fun hclock => ?_⟩,
      hreading, hops⟩
    rw [hreadings] at hr
    have hrle : r ≤ now := by
      rcases List.mem_cons.mp hr with rfl | hr
      · exact le_rfl
      · exact hclock r hr
    have := roundTimestamp_mono hrle
    omega

/-- The clock is at least one update interval after the epoch. -/
def Site.ClockStarted : Prop := ∀ n, ∀ now ∈ site.clock n, lmtUpdateInterval ≤ now

theorem Quiet.refl (s : Db) : Quiet s s :=
  ⟨rfl, rfl, rfl, rfl, rfl, ⟨rfl, fun _ => rfl⟩, fun _ _ => rfl⟩

theorem Quiet.trans {s t u : Db} (hst : Quiet s t) (htu : Quiet t u) : Quiet s u where
  key := htu.key.trans hst.key
  timestamp := htu.timestamp.trans hst.timestamp
  timestampId := htu.timestampId.trans hst.timestampId
  clockReads := htu.clockReads.trans hst.clockReads
  events := htu.events.trans hst.events
  tables := ⟨htu.tables.timestampInfo.trans hst.tables.timestampInfo,
    fun table => (htu.tables.stamps table).trans (hst.tables.stamps table)⟩
  others d hd := by
    have hname : t.handle.name = s.handle.name := congrArg Prod.fst hst.key
    rw [htu.others d (by rwa [hname]), hst.others d hd]

instance : IsPreorder Db Quiet where
  refl := Quiet.refl
  trans _ _ _ := Quiet.trans

theorem quiet_called (s : Db) (n : ℕ) : Quiet s (s.called n) :=
  ⟨rfl, rfl, rfl, rfl, rfl, ⟨rfl, fun _ => rfl⟩, fun _ _ => rfl⟩

theorem quiet_stamp (s : Db) (timestamp : ℕ) : Quiet s (s.stamp timestamp) :=
  ⟨rfl, rfl, rfl, rfl, rfl, ⟨rfl, fun _ => rfl⟩, fun _ _ => rfl⟩

theorem Cached.quiet {s t : Db} (h : Cached s t) : Quiet s t := by
  obtain ⟨n, hw⟩ := h.world
  refine ⟨?_, ?_, ?_, by rw [hw], by rw [hw], ?_, fun d _ => by rw [hw]⟩
  · rw [h.handle]
    rfl
  · rw [h.handle]
  · rw [h.handle]
  · rw [h.tables]
    exact ⟨rfl, fun _ => rfl⟩

theorem quiet_update (s : Db) {f : Tables → Tables} (h : ∀ t : Tables, t.SameStamps (f t)) :
    Quiet s (s.update f) := by
  refine ⟨rfl, rfl, rfl, rfl, rfl, ?_, fun d hd => by simp [Db.update, hd]⟩
  rw [Db.tables_update]
  exact h _

theorem quiet_mysqlCall : Moves Quiet (onWorld (mysqlCall site)) := by
  intro s
  rw [exec_onWorld_mysqlCall]
  exact quiet_called s 1

theorem quiet_populateIdhashOne (svc : Svc) (a1 : Text) :
    Moves Quiet (populateIdhashOne site svc a1) :=
  fun s => (moves_populateIdhashOne site svc a1 s).quiet

theorem quiet_mysqlInsert {f : Tables → Tables} (h : ∀ t : Tables, t.SameStamps (f t)) :
    Moves Quiet (mysqlInsert site f) :=
  (quiet_mysqlCall site).bind fun _ => moves_modify fun s => quiet_update s h

theorem quiet_insertMdsInfo (mdsname mdtname : Text) :
    Moves Quiet (insertMdsInfo site mdsname mdtname) := by
  refine Moves.bind (quiet_mysqlInsert site ?_) fun _ =>
    (quiet_populateIdhashOne site _ _).bind fun _ => quiet_populateIdhashOne site _ _
  exact fun t => ⟨rfl, fun table => by cases table <;> rfl⟩

theorem quiet_insertOssInfo (ossname : Text) : Moves Quiet (insertOssInfo site ossname) := by
  refine Moves.bind (quiet_mysqlInsert site ?_) fun _ => quiet_populateIdhashOne site _ _
  exact fun t => ⟨rfl, fun table => by cases table <;> rfl⟩

theorem quiet_ossIdOrInsert (ossname : Text) : Moves Quiet (ossIdOrInsert site ossname) := by
  refine moves_get.bind fun s => ?_
  cases lookupIdhash s.handle .oss ossname with
  | some id => exact moves_pure id
  | none => exact quiet_insertOssInfo site ossname

theorem quiet_insertOstInfo (ossname ostname : Text) :
    Moves Quiet (insertOstInfo site ossname ostname) := by
  refine (quiet_ossIdOrInsert site ossname).bind fun _ =>
    Moves.bind (quiet_mysqlInsert site ?_) fun _ => quiet_populateIdhashOne site _ _
  exact fun t => ⟨rfl, fun table => by cases table <;> rfl⟩

theorem quiet_insertRouterInfo (rtrname : Text) : Moves Quiet (insertRouterInfo site rtrname) := by
  refine Moves.bind (quiet_mysqlInsert site ?_) fun _ => quiet_populateIdhashOne site _ _
  exact fun t => ⟨rfl, fun table => by cases table <;> rfl⟩

theorem quiet_lookupOrInsert {insertInfo : DbM ℕ} (hinfo : Moves Quiet insertInfo) (svc : Svc)
    (name : Text) : Moves Quiet (lookupOrInsert site svc name insertInfo) := by
  refine moves_get.bind fun s => ?_
  cases lookupIdhash s.handle svc name with
  | some id => exact moves_pure _
  | none => exact moves_ite (hinfo.map some) (moves_pure none)

/-- The steps of a function are logged, and what is known of the handle and of the
rows stays known. -/
def Db.Logs (s t : Db) : Prop :=
  ∀ past, s.handle.Knows past → RowsStamped past →
    ∃ events, HandleLog site s events t ∧ t.handle.Knows (events ++ past) ∧
      RowsStamped (events ++ past)

instance : IsPreorder Db (Db.Logs site) where
  refl s _ hk hrows := ⟨[], .quiet (Quiet.refl s), hk, hrows⟩
  trans _ _ _ hst htu := by
    intro past hk hrows
    obtain ⟨events, hlog, hk, hrows⟩ := hst past hk hrows
    obtain ⟨events', hlog', hk, hrows⟩ := htu _ hk hrows
    exact ⟨events' ++ events, hlog.trans hlog', by rwa [List.append_assoc],
      by rwa [List.append_assoc]⟩

variable {site}

theorem Quiet.knows {s t : Db} (h : Quiet s t) {past : List Event} (hk : s.handle.Knows past) :
    t.handle.Knows past := by
  rwa [Handle.Knows, h.timestamp, h.timestampId]

theorem Quiet.logs {s t : Db} (h : Quiet s t) : Db.Logs site s t :=
  fun _ hk hrows => ⟨[], .quiet h, h.knows hk, hrows⟩

theorem Handle.Current.of_readings {h : Handle} {past : List Event} (hc : h.Current past)
    {events : List Event} (he : readings events = []) : h.Current (events ++ past) := by
  obtain ⟨now, earlier, hreadings, hnow, hle⟩ := hc
  refine ⟨now, earlier, ?_, hnow, hle⟩
  rw [readings_append, he, List.nil_append, hreadings]

/-- Each call of `_update_timestamp` that succeeds reads the clock and makes the
handle current. -/
theorem logs_updateTimestamp (hclock : site.ClockStarted) {s t : Db} {o : Option Unit}
    (h : exec (updateTimestamp site) s = (o, t)) {past : List Event} (hk : s.handle.Knows past)
    (hrows : RowsStamped past) :
    ∃ events, HandleLog site s events t ∧ t.handle.Knows (events ++ past) ∧
      RowsStamped (events ++ past) ∧
      (o = some () → t.handle.Current (events ++ past) ∧
        ∃ now, ((events ++ past).dropWhile Event.isTimestamp).head? = some (.reading now)) := by
  have hread := @HandleLog.read site s
  rcases updateTimestamp_cases site s h with
    ⟨rfl, n, rfl | rfl⟩ | ⟨-, now, hnow, ⟨hle, rfl⟩ | ⟨hlt, n, rfl⟩⟩
  · exact ⟨[], .quiet (quiet_called s n), hk, hrows, by simp⟩
  · refine ⟨_, hread.trans (.quiet (quiet_called (s.tick site) n)), hk.append _, ?_, by simp⟩
    cases site.clock s.world.clockReads <;> exact hrows
  · rw [hnow] at hread
    refine ⟨_, hread.trans (.quiet (quiet_stamp (s.tick site) _)), hk.append _, hrows, fun _ => ?_⟩
    exact ⟨⟨now, readings past, rfl, hclock _ _ hnow, hle⟩, now, rfl⟩
  · rw [hnow] at hread
    have hquiet := hread.trans (.quiet (quiet_called (s.tick site) n))
    have hinsert := hquiet.trans (.timestamp ((s.tick site).called n) (roundTimestamp now))
    refine ⟨_, hinsert.trans (.quiet (quiet_stamp _ _)), Or.inr ⟨?_, ?_, now, ?_, rfl⟩, hrows,
      fun _ => ⟨⟨now, readings past, rfl, hclock _ _ hnow, le_rfl⟩, now, rfl⟩⟩
    · exact s.tables.timestampInfo.next_pos
    · exact List.mem_cons_self
    · exact List.mem_cons_self

theorem rowsStamped_row {past : List Event} (hrows : RowsStamped past) {table : DataTable}
    {id tsId : ℕ} (h : Stamped past table id tsId) : RowsStamped (.row table id tsId :: past) :=
  ⟨h, hrows⟩

theorem handleLog_insertRow {table : DataTable} {id : ℕ} {insert? : Tables → Option Tables}
    {s t : Db} {o : Option Unit}
    (h : exec (insertRow site table (id, s.handle.timestampId) insert?) s = (o, t))
    (hrow : ∀ t : Tables, t.AddsRow table (id, s.handle.timestampId) ((insert? t).getD t)) :
    t.handle = s.handle ∧ ((o = none ∧ HandleLog site s [] t) ∨
      (o = some () ∧ HandleLog site s [.row table id s.handle.timestampId] t)) := by
  rcases insertRow_cases site h with ⟨n, ⟨rfl, rfl⟩ | ⟨rfl, rfl⟩⟩
  · exact ⟨rfl, Or.inl ⟨rfl, .quiet (quiet_called s n)⟩⟩
  · have hcalled : HandleLog site s [] (s.called n) := .quiet (quiet_called s n)
    exact ⟨rfl, Or.inr ⟨rfl, hcalled.trans (HandleLog.row (hrow _))⟩⟩

theorem logs_insertSample (hclock : site.ClockStarted) {table : DataTable} {svc : Svc}
    {name : Text} {insertInfo : DbM ℕ} {insert? : ℕ × ℕ → Tables → Option Tables} {s t : Db}
    {o : Option Unit} (h : exec (insertSample site table svc name insertInfo insert?) s = (o, t))
    (hinfo : Moves Quiet insertInfo) (htable : table ≠ .mdsOps)
    (hrow : ∀ key (t : Tables), t.AddsRow table key ((insert? key t).getD t)) {past : List Event}
    (hk : s.handle.Knows past) (hrows : RowsStamped past) :
    ∃ events, HandleLog site s events t ∧ t.handle.Knows (events ++ past) ∧
      RowsStamped (events ++ past) ∧
      (o = some () →
        exec (lookupOrInsert site svc name insertInfo) s = (some none, t) ∨
          ∃ id u v, exec (lookupOrInsert site svc name insertInfo) s = (some (some id), u) ∧
            exec (updateTimestamp site) u = (some (), v) ∧ t.handle = v.handle ∧
            t.handle.Current (events ++ past) ∧
            Event.row table id t.handle.timestampId ∈ (events ++ past).head?) := by
  have hquiet := quiet_lookupOrInsert site hinfo svc name
  rcases insertSample_cases site h with
    ⟨rfl, rfl⟩ | ⟨hlookup, rfl⟩ | ⟨hlookup, -⟩ | ⟨id, u, hlookup, hrest⟩
  · exact ⟨[], .quiet (Quiet.refl _), hk, hrows, by simp⟩
  · obtain ⟨events, hlog, hk', hrows'⟩ := (hquiet.of_exec hlookup).logs past hk hrows
    exact ⟨events, hlog, hk', hrows', by simp⟩
  · obtain ⟨events, hlog, hk', hrows'⟩ := (hquiet.of_exec hlookup).logs past hk hrows
    exact ⟨events, hlog, hk', hrows', fun _ => Or.inl hlookup⟩
  have hu := hquiet.of_exec hlookup
  rcases hrest with ⟨rfl, hupdate⟩ | ⟨v, hupdate, h⟩
  · obtain ⟨events, hlog, hk', hrows', -⟩ :=
      logs_updateTimestamp hclock hupdate (hu.knows hk) hrows
    exact ⟨events ++ [], (HandleLog.quiet hu).trans hlog, by simpa using hk', by simpa using hrows',
      by simp⟩
  obtain ⟨events, hlog, hk', hrows', hsome⟩ :=
    logs_updateTimestamp hclock hupdate (hu.knows hk) hrows
  obtain ⟨hcurrent, hreading⟩ := hsome rfl
  have hlog := (HandleLog.quiet hu).trans hlog
  rw [List.append_nil] at hlog
  obtain ⟨hhandle, ⟨rfl, hrowlog⟩ | ⟨rfl, hrowlog⟩⟩ := handleLog_insertRow h (hrow _)
  · refine ⟨events, hlog.trans hrowlog, by rwa [hhandle], hrows', by simp⟩
  · refine ⟨_, hlog.trans hrowlog, ?_, ?_,
      fun _ => Or.inr ⟨id, u, v, hlookup, hupdate, hhandle, ?_, ?_⟩⟩
    · rw [hhandle]
      exact hk'.append [_]
    · apply rowsStamped_row hrows'
      exact stamped_of_current hk' hcurrent (fun _ => hreading) fun hops => absurd hops htable
    · rw [hhandle]
      exact @Handle.Current.of_readings _ _ hcurrent [_] rfl
    · rw [hhandle]
      rfl

theorem addsRow_keyed {ρ : Type} {table : DataTable} {key : ℕ × ℕ} {t : Tables} {row : ρ}
    {keyed : KeyedTable (ℕ × ℕ) ρ} {set : KeyedTable (ℕ × ℕ) ρ → Tables}
    (hkeys : t.stamps table = keyed.keys) (hset : ∀ u, (set u).stamps table = u.keys)
    (hinfo : ∀ u, (set u).timestampInfo = t.timestampInfo)
    (hothers : ∀ u other, other ≠ table → (set u).stamps other = t.stamps other) :
    t.AddsRow table key (((keyed.insert? key row).map set).getD t) := by
  cases hinsert : keyed.insert? key row with
  | none =>
    refine ⟨rfl, Or.inr ⟨?_, rfl⟩, fun _ _ => rfl⟩
    rw [hkeys]
    exact KeyedTable.insert?_eq_none.mp hinsert
  | some u =>
    refine ⟨hinfo u, Or.inl ?_, hothers u⟩
    change (set u).stamps table = _
    rw [hset, hkeys, KeyedTable.keys, KeyedTable.keys, (KeyedTable.insert?_eq_some.mp hinsert).2,
      List.map_append]
    rfl

theorem addsRow_ost (t : Tables) (key : ℕ × ℕ) (row : OstDataRow) :
    t.AddsRow .ost key
      (((t.ostData.insert? key row).map fun ostData => { t with ostData }).getD t) := by
  apply addsRow_keyed
  · rfl
  · exact fun u => rfl
  · exact fun u => rfl
  · intro u other hother
    cases other <;> first | rfl | exact absurd rfl hother

theorem addsRow_oss (t : Tables) (key : ℕ × ℕ) (row : OssDataRow) :
    t.AddsRow .oss key
      (((t.ossData.insert? key row).map fun ossData => { t with ossData }).getD t) := by
  apply addsRow_keyed
  · rfl
  · exact fun u => rfl
  · exact fun u => rfl
  · intro u other hother
    cases other <;> first | rfl | exact absurd rfl hother

theorem addsRow_mds (t : Tables) (key : ℕ × ℕ) (row : MdsDataRow) :
    t.AddsRow .mds key
      (((t.mdsData.insert? key row).map fun mdsData => { t with mdsData }).getD t) := by
  apply addsRow_keyed
  · rfl
  · exact fun u => rfl
  · exact fun u => rfl
  · intro u other hother
    cases other <;> first | rfl | exact absurd rfl hother

theorem addsRow_router (t : Tables) (key : ℕ × ℕ) (row : RouterDataRow) :
    t.AddsRow .router key
      (((t.routerData.insert? key row).map fun routerData => { t with routerData }).getD t) := by
  apply addsRow_keyed
  · rfl
  · exact fun u => rfl
  · exact fun u => rfl
  · intro u other hother
    cases other <;> first | rfl | exact absurd rfl hother

theorem addsRow_mdsOps (t : Tables) (row : MdsOpsRow) :
    t.AddsRow .mdsOps (row.mdsId, row.tsId) { t with mdsOpsData := t.mdsOpsData ++ [row] } := by
  refine ⟨rfl, Or.inl ?_, fun other hother => ?_⟩
  · exact List.map_append
  · cases other <;> first | rfl | exact absurd rfl hother

section

variable (hclock : site.ClockStarted)

include hclock

theorem logs_sample {table : DataTable} {svc : Svc} {name : Text} {insertInfo : DbM ℕ}
    {insert? : ℕ × ℕ → Tables → Option Tables} (hinfo : Moves Quiet insertInfo)
    (htable : table ≠ .mdsOps)
    (hrow : ∀ key (t : Tables), t.AddsRow table key ((insert? key t).getD t)) :
    Moves (Db.Logs site) (insertSample site table svc name insertInfo insert?) := by
  intro s past hk hrows
  rcases h : exec (insertSample site table svc name insertInfo insert?) s with ⟨o, t⟩
  obtain ⟨events, hlog, hk', hrows', -⟩ :=
    logs_insertSample hclock h hinfo htable hrow hk hrows
  exact ⟨events, hlog, hk', hrows'⟩

theorem logs_lmtDbInsertOssData (ossname : Text) (row : OssDataRow) :
    Moves (Db.Logs site) (lmtDbInsertOssData site ossname row) :=
  logs_sample hclock (quiet_insertOssInfo site _) (by simp) fun key t => addsRow_oss t key row

theorem logs_lmtDbInsertOstData (ossname ostname : Text) (row : OstDataRow) :
    Moves (Db.Logs site) (lmtDbInsertOstData site ossname ostname row) :=
  logs_sample hclock (quiet_insertOstInfo site _ _) (by simp) fun key t => addsRow_ost t key row

theorem logs_lmtDbInsertRouterData (rtrname : Text) (row : RouterDataRow) :
    Moves (Db.Logs site) (lmtDbInsertRouterData site rtrname row) :=
  logs_sample hclock (quiet_insertRouterInfo site _) (by simp) fun key t =>
    addsRow_router t key row

/-- The sample of an MDT with an id was inserted under the cached timestamp, and
after it only its operations. -/
def Sampled (mdtname : Text) (h : Handle) (past : List Event) : Prop :=
  ∀ id, lookupIdhash h .mdt mdtname = some id →
    h.Current past ∧
      (past.dropWhile Event.isMdsOps).head? = some (.row .mds id h.timestampId)

omit hclock in
theorem lookupIdhash_of_populateIdhashOne {svc : Svc} {a1 : Text} {s t : Db} {id : ℕ}
    (h : exec (populateIdhashOne site svc a1) s = (some id, t)) :
    lookupIdhash t.handle svc a1 = some id := by
  rcases populateIdhashOne_cases site h with ⟨ho, -⟩ | ⟨n, id', idhash, ho, -, hinsert, rfl⟩
  · cases ho
  obtain rfl := Option.some.inj ho
  change lookupIdhash { s.handle with idhash } svc a1 = some id
  rw [lookupIdhash_insert hinsert, if_pos ⟨rfl, rfl⟩]

omit hclock in
theorem lookupIdhash_of_lookupOrInsert {mdsname mdtname : Text} {s u : Db} {id : ℕ}
    (h : exec (lookupOrInsert site .mdt mdtname (insertMdsInfo site mdsname mdtname)) s =
      (some (some id), u)) : lookupIdhash u.handle .mdt mdtname = some id := by
  rw [lookupOrInsert, exec_bind_some (exec_get s)] at h
  cases hmdt : lookupIdhash s.handle .mdt mdtname with
  | some id' =>
    simp only [hmdt, exec_pure, Prod.mk.injEq, Option.some.injEq] at h
    obtain ⟨rfl, rfl⟩ := h
    exact hmdt
  | none =>
    simp only [hmdt] at h
    split_ifs at h
    · rw [map_eq_pure_bind] at h
      obtain ⟨id', u', hinfo, hpure⟩ := exec_bind_eq_some.mp h
      obtain ⟨hid, rfl⟩ := Prod.mk.inj hpure
      obtain rfl := Option.some.inj (Option.some.inj hid)
      obtain ⟨_, v, -, hrest⟩ := exec_bind_eq_some.mp hinfo
      obtain ⟨_, v', -, hlast⟩ := exec_bind_eq_some.mp hrest
      exact lookupIdhash_of_populateIdhashOne hlast
    · cases h

omit hclock in
theorem idhash_updateTimestamp {s t : Db} {o : Option Unit}
    (h : exec (updateTimestamp site) s = (o, t)) : t.handle.idhash = s.handle.idhash := by
  rcases updateTimestamp_cases site s h with
    ⟨-, n, rfl | rfl⟩ | ⟨-, now, -, ⟨-, rfl⟩ | ⟨-, n, rfl⟩⟩ <;> rfl

theorem logs_insertMdsData {m : MdtMetric} {info : MdtInfo} {s t : Db} {o : Option Unit}
    (h : exec (insertMdsData site m info) s = (o, t)) {past : List Event}
    (hk : s.handle.Knows past) (hrows : RowsStamped past) :
    ∃ events, HandleLog site s events t ∧ t.handle.Knows (events ++ past) ∧
      RowsStamped (events ++ past) ∧
      (o = some () → Sampled info.mdtname t.handle (events ++ past)) := by
  rw [insertMdsData, lmtDbInsertMdsData] at h
  obtain ⟨events, hlog, hk', hrows', hsome⟩ := logs_insertSample hclock h
    (quiet_insertMdsInfo site _ _) (show DataTable.mds ≠ .mdsOps by simp)
    (fun key t => addsRow_mds t key _) hk hrows
  refine ⟨events, hlog, hk', hrows', fun ho id hid => ?_⟩
  rcases hsome ho with hnone | ⟨id', u, v, hlookup, hupdate, hhandle, hcurrent, hhead⟩
  · obtain ⟨rfl, hnone⟩ := lookupOrInsert_none site hnone
    rw [hnone] at hid
    cases hid
  · have hid' := lookupIdhash_of_lookupOrInsert hlookup
    rw [hhandle, lookupIdhash, idhash_updateTimestamp hupdate] at hid
    obtain rfl := Option.some.inj (hid'.symm.trans hid)
    refine ⟨hcurrent, ?_⟩
    cases hpast : events ++ past with
    | nil => simp [hpast] at hhead
    | cons e rest =>
      obtain rfl : e = .row .mds id' t.handle.timestampId := by simpa [hpast] using hhead
      rfl

omit hclock in
/-- An operation is stamped like its sample, and stays under it. -/
theorem logs_opOnDb {mdtname op : Text} {s : Db} {past : List Event} (hk : s.handle.Knows past)
    (hrows : RowsStamped past) (hsampled : Sampled mdtname s.handle past) :
    ∃ events, HandleLog site s events (opOnDb site mdtname s op) ∧
      (opOnDb site mdtname s op).handle.Knows (events ++ past) ∧ RowsStamped (events ++ past) ∧
      Sampled mdtname (opOnDb site mdtname s op).handle (events ++ past) := by
  rcases opOnDb_cases site mdtname s op with ⟨n, h⟩ | ⟨n, name, r, -, hmdt, -, hts, h⟩
  · rw [h]
    exact ⟨[], .quiet (quiet_called s n), hk, hrows, hsampled⟩
  · obtain ⟨hcurrent, hhead⟩ := hsampled r.mdsId hmdt
    have hadds := addsRow_mdsOps s.tables r
    rw [hts] at hadds
    have hcalled : HandleLog site s [] (s.called n) := .quiet (quiet_called s n)
    rw [h]
    refine ⟨_, hcalled.trans (HandleLog.row hadds), hk.append [_], rowsStamped_row hrows ?_,
      fun id hid => ?_⟩
    · exact stamped_of_current hk hcurrent (fun hops => absurd rfl hops) fun _ => hhead
    · obtain ⟨hcurrent', hhead'⟩ := hsampled id hid
      exact ⟨@Handle.Current.of_readings _ _ hcurrent' [_] rfl, hhead'⟩

theorem logs_mdtOnDb (m : MdtMetric) (info : MdtInfo) (s : Db) :
    Db.Logs site s (mdtOnDb site m info s) := by
  intro past hk hrows
  rw [mdtOnDb]
  rcases h : exec (insertMdsData site m info) s with ⟨_ | _, t⟩
  · obtain ⟨events, hlog, hk', hrows', -⟩ := logs_insertMdsData hclock h hk hrows
    exact ⟨events, hlog, hk', hrows'⟩
  · obtain ⟨events, hlog, hk', hrows', hsampled⟩ := logs_insertMdsData hclock h hk hrows
    have hstep (u : Db) (op : Text)
        (hu : ∃ events, HandleLog site s events u ∧ u.handle.Knows (events ++ past) ∧
          RowsStamped (events ++ past) ∧ Sampled info.mdtname u.handle (events ++ past))
        (_ : True) :
        ∃ events, HandleLog site s events (opOnDb site info.mdtname u op) ∧
          (opOnDb site info.mdtname u op).handle.Knows (events ++ past) ∧
          RowsStamped (events ++ past) ∧
          Sampled info.mdtname (opOnDb site info.mdtname u op).handle (events ++ past) := by
      obtain ⟨events, hlog, hk, hrows, hsampled⟩ := hu
      obtain ⟨events', hlog', hk', hrows', hsampled'⟩ :=
        @logs_opOnDb _ info.mdtname op u _ hk hrows hsampled
      rw [← List.append_assoc] at hk' hrows' hsampled'
      exact ⟨events' ++ events, hlog.trans hlog', hk', hrows', hsampled'⟩
    obtain ⟨events, hlog, hk, hrows, -⟩ :=
      invariant_run hstep ⟨events, hlog, hk', hrows', hsampled rfl⟩
        (show ∀ op ∈ info.mdops, True by simp)
    exact ⟨events, hlog, hk, hrows⟩

end

/-- Each open handle has a history with its timestamp. -/
def Inserter.Knows (s : Inserter) (past : Log) : Prop :=
  ∀ dbs, s.dbs = some dbs → ∀ h ∈ dbs, h.Knows (past.of h.key)

def Log.Stamped (log : Log) : Prop := ∀ key, RowsStamped (log.of key)

variable (site) in
/-- The steps of the inserter are logged, and what is known stays known. -/
def Inserter.Logs (s t : Inserter) : Prop :=
  ∀ past, s.Knows past → past.Stamped →
    ∃ log, Noted site s.world log t.world ∧ t.Knows (log ++ past) ∧ (log ++ past).Stamped

instance : IsPreorder Inserter (Inserter.Logs site) where
  refl s _ hk hstamped := ⟨[], (refl_of World.Opened s.world).noted, hk, hstamped⟩
  trans _ _ _ hst htu := by
    intro past hk hstamped
    obtain ⟨log, hlog, hk, hstamped⟩ := hst past hk hstamped
    obtain ⟨log', hlog', hk, hstamped⟩ := htu _ hk hstamped
    exact ⟨log' ++ log, hlog.trans hlog', by rwa [List.append_assoc], by rwa [List.append_assoc]⟩

theorem logs_quiet {s t : Inserter} (hworld : s.world.Opened t.world)
    (hdbs : t.dbs = s.dbs ∨ t.dbs = none) : Inserter.Logs site s t := by
  refine fun past hk hstamped => ⟨[], hworld.noted, fun dbs ht => ?_, hstamped⟩
  rcases hdbs with hdbs | hdbs
  · exact hk dbs (hdbs ▸ ht)
  · rw [hdbs] at ht
    cases ht

/-- One handle goes on, and the histories of the others stay. -/
theorem logs_setDb {s : Inserter} {i : ℕ} {db t : Db} (hdb : s.db? i = some db)
    (h : Db.Logs site db t) : Inserter.Logs site s (s.setDb i t) := by
  intro past hk hstamped
  obtain ⟨dbs, hdbs, hi, hw⟩ := db?_eq_some.mp hdb
  obtain ⟨events, hlog, hk', hrows⟩ :=
    h (past.of db.handle.key) (hk dbs hdbs _ (List.mem_of_getElem? hi)) (hstamped _)
  have hself : Log.of (events.map (db.handle.key, ·) ++ past) db.handle.key =
      events ++ past.of db.handle.key := by
    rw [Log.of_append, Log.of_map_self]
  refine ⟨_, hw.symm ▸ hlog.noted, fun dbs' hdbs' k hmem => ?_, fun key => ?_⟩
  · simp only [Inserter.setDb, hdbs, Option.map_some, Option.some.injEq] at hdbs'
    subst hdbs'
    rcases List.mem_or_eq_of_mem_set hmem with hmem | rfl
    · rw [Log.of_append]
      exact (hk dbs hdbs k hmem).append _
    · rw [hlog.key, hself]
      exact hk'
  · by_cases hkey : db.handle.key = key
    · rw [← hkey, hself]
      exact hrows
    · rw [Log.of_append, Log.of_map_of_ne events hkey]
      exact hstamped key

theorem logs_triggerDbReconnect (s : Inserter) : Inserter.Logs site s (triggerDbReconnect s) :=
  logs_quiet (refl_of World.Opened s.world) (Or.inl rfl)

theorem logs_withDb {x : DbM Unit} (hx : Moves (Db.Logs site) x) (i : ℕ) :
    Moves (Inserter.Logs site) (withDb i x) := by
  intro s
  rw [exec_withDb]
  cases hdb : s.db? i with
  | none => exact refl_of _ s
  | some db =>
    have hset := logs_setDb hdb (hx db)
    rcases h : exec x db with ⟨_ | _, t⟩
    · simp only [h] at hset ⊢
      exact trans_of _ hset (logs_triggerDbReconnect _)
    · simp only [h] at hset ⊢
      exact hset

theorem logs_inWorld {α : Type} {x : Attempt World α} (hx : Moves World.Opened x) :
    Moves (Inserter.Logs site) (inWorld x) :=
  Moves.zoom hx fun _ _ hw => logs_quiet hw (Or.inl rfl)

theorem invariant_unstamped :
    Invariant (fun _ => True) (fun (h : Handle) _ => h.timestamp = 0) where
  aside _ hQ := hQ
  opened _ hP := hP
  fresh _ hfresh _ _ := hfresh.timestamp

theorem logs_connect : Moves (Inserter.Logs site) (connect site) := by
  intro s
  rcases hexec : exec (lmtDbCreateAll site false) s.world with ⟨_ | dbs, v⟩
  · rw [connect, inWorld, exec_bind, exec_zoom, hexec]
    exact logs_quiet ((opened_lmtDbCreateAll site).of_exec hexec) (Or.inl rfl)
  · obtain ⟨l, u, hlist, hcollect⟩ := exec_bind_eq_some.mp hexec
    obtain ⟨-, -, hall⟩ := handles_of_collect site invariant_unstamped trivial hcollect
    rw [connect, inWorld, exec_bind, exec_zoom, hexec]
    refine fun past hk hstamped =>
      ⟨[], ((opened_lmtDbCreateAll site).of_exec hexec).noted, ?_, hstamped⟩
    intro dbs' hdbs' h hh
    obtain rfl := Option.some.inj hdbs'
    exact Or.inl (hall h hh)

theorem logs_initDbIfneeded : Moves (Inserter.Logs site) (initDbIfneeded site) := by
  refine moves_get.bind fun _ => moves_ite ?_ (moves_pure ())
  refine Moves.bind (moves_modify fun s => ?_) fun _ => ?_
  · exact logs_quiet (refl_of World.Opened s.world) (Or.inr rfl)
  refine (logs_inWorld (opened_gettimeofday site)).bind fun now => ?_
  refine Moves.bind ?_ fun _ => logs_connect
  refine moves_get.bind fun _ => moves_ite moves_failure (moves_modify fun s => ?_)
  exact logs_quiet (refl_of World.Opened s.world) (Or.inl rfl)

/-- A message for one of the functions that insert samples. -/
inductive Message where
  | ostV2 (text : Text)
  | mdtV1 (text : Text)
  | mdtV2 (text : Text)
  | mdtV3 (text : Text)
  | routerV1 (text : Text)
  | ossV1 (text : Text)
  | ostV1 (text : Text)

variable (site) in
def insertMessage (s : Inserter) : Message → Inserter
  | .ostV2 text => lmtDbInsertOstV2 site s text
  | .mdtV1 text => lmtDbInsertMdtV1 site s text
  | .mdtV2 text => lmtDbInsertMdtV2 site s text
  | .mdtV3 text => lmtDbInsertMdtV3 site s text
  | .routerV1 text => lmtDbInsertRouterV1 site s text
  | .ossV1 text => lmtDbInsertOssV1 site s text
  | .ostV1 text => lmtDbInsertOstV1 site s text

theorem logs_run {α : Type} {step : Inserter → α → Inserter}
    (hstep : ∀ s a, Inserter.Logs site s (step s a)) (s : Inserter) (as : List α) :
    Inserter.Logs site s (run step s as) := by
  have hnext (t : Inserter) (a : α) (ht : Inserter.Logs site s t) (_ : True) :
      Inserter.Logs site s (step t a) := trans_of _ ht (hstep t a)
  exact invariant_run hnext (refl_of _ s) (by simp)

theorem logs_final {x : Attempt Inserter Unit} (hx : Moves (Inserter.Logs site) x)
    (s : Inserter) : Inserter.Logs site s (final x s) := hx s

theorem logs_findDb (name : Text) : Moves (Inserter.Logs site) (findDb name) :=
  moves_get.bind fun _ => moves_ofOption _

section

variable (hclock : site.ClockStarted)

include hclock

theorem logs_insertOstinfo (m : OstMetric) (s : Inserter) (ostr : Text) :
    Inserter.Logs site s (insertOstinfo site m s ostr) := by
  refine logs_final ?_ s
  refine (moves_ofOption _).bind fun o => (logs_findDb o.ostname).bind fun db => ?_
  refine Moves.bind (logs_withDb ?_ db) fun _ => logs_withDb ?_ db
  · exact logs_lmtDbInsertOstData hclock _ _ _
  · exact logs_lmtDbInsertOssData hclock _ _

theorem logs_lmtDbInsertOstV2 (s : Inserter) (text : Text) :
    Inserter.Logs site s (lmtDbInsertOstV2 site s text) := by
  have hinit : Inserter.Logs site s (exec (initDbIfneeded site) s).2 := logs_initDbIfneeded s
  rw [lmtDbInsertOstV2]
  rcases h : exec (initDbIfneeded site) s with ⟨_ | _, t⟩ <;> rw [h] at hinit
  · exact hinit
  cases lmtOstDecodeV2 text with
  | none => exact hinit
  | some m => exact trans_of _ hinit (logs_run (logs_insertOstinfo hclock m) t m.ostinfo)

theorem logs_insertMds (m : MdtMetric) (ver : ℕ) (s : Inserter) (mdt : Text) :
    Inserter.Logs site s (insertMds site m ver s mdt) := by
  rcases insertMds_cases site m ver s mdt with h | ⟨info, -, i, -, db, hdb, b, h⟩
  · rw [h]
    exact refl_of _ s
  · rw [h]
    refine trans_of _ (logs_setDb hdb (logs_mdtOnDb hclock m info db)) ?_
    exact logs_quiet (refl_of World.Opened _) (Or.inl rfl)

theorem logs_lmtDbInsertMdtV1V2V3 (s : Inserter) (text : Text) (ver : ℕ) :
    Inserter.Logs site s (lmtDbInsertMdtV1V2V3 site s text ver) := by
  have hinit : Inserter.Logs site s (exec (initDbIfneeded site) s).2 := logs_initDbIfneeded s
  rcases mdtUpdate_cases site s (text, ver) with h | ⟨_, -, m, -, h⟩ <;> rw [mdtUpdate] at h
  · rw [h]
    exact hinit
  · rw [h]
    exact trans_of _ hinit (logs_run (logs_insertMds hclock m ver) _ m.mdtinfo)

theorem logs_lmtDbInsertRouterV1 (s : Inserter) (text : Text) :
    Inserter.Logs site s (lmtDbInsertRouterV1 site s text) := by
  refine logs_final ?_ s
  refine logs_initDbIfneeded.bind fun _ => (moves_ofOption _).bind fun m => ?_
  refine moves_get.bind fun _ => moves_each (fun db => logs_withDb ?_ db) _
  exact logs_lmtDbInsertRouterData hclock _ _

theorem logs_insertKnownOss (m : OssMetric) (db : ℕ) :
    Moves (Inserter.Logs site) (insertKnownOss site m db) := by
  refine moves_get.bind fun s => ?_
  cases s.db? db with
  | none => exact moves_pure ()
  | some h =>
    refine moves_ite (logs_withDb ?_ db) (moves_pure ())
    exact logs_lmtDbInsertOssData hclock _ _

theorem logs_lmtDbInsertOssV1 (s : Inserter) (text : Text) :
    Inserter.Logs site s (lmtDbInsertOssV1 site s text) := by
  refine logs_final ?_ s
  refine logs_initDbIfneeded.bind fun _ => (moves_ofOption _).bind fun m => ?_
  exact moves_get.bind fun _ => moves_each (logs_insertKnownOss hclock m) _

theorem logs_lmtDbInsertOstV1 (s : Inserter) (text : Text) :
    Inserter.Logs site s (lmtDbInsertOstV1 site s text) := by
  refine logs_final ?_ s
  refine logs_initDbIfneeded.bind fun _ => (moves_ofOption _).bind fun m => ?_
  refine (logs_findDb m.ostname).bind fun db => logs_withDb ?_ db
  exact logs_lmtDbInsertOstData hclock _ _ _

theorem logs_insertMessage (s : Inserter) (msg : Message) :
    Inserter.Logs site s (insertMessage site s msg) := by
  cases msg with
  | ostV2 text => exact logs_lmtDbInsertOstV2 hclock s text
  | mdtV1 text => exact logs_lmtDbInsertMdtV1V2V3 hclock s text 1
  | mdtV2 text => exact logs_lmtDbInsertMdtV1V2V3 hclock s text 2
  | mdtV3 text => exact logs_lmtDbInsertMdtV1V2V3 hclock s text 3
  | routerV1 text => exact logs_lmtDbInsertRouterV1 hclock s text
  | ossV1 text => exact logs_lmtDbInsertOssV1 hclock s text
  | ostV1 text => exact logs_lmtDbInsertOstV1 hclock s text

variable (site) in
def runLog (w : World) (msgs : List Message) : Log :=
  (run (insertMessage site) (.start w) msgs).world.events

theorem noted_runLog (w : World) (msgs : List Message) :
    Noted site (Inserter.start w).world (runLog site w msgs)
        (run (insertMessage site) (.start w) msgs).world ∧
      (runLog site w msgs).Stamped := by
  have hstart : (Inserter.start w).Knows [] := by simp [Inserter.Knows, Inserter.start]
  obtain ⟨log, hlog, -, hstamped⟩ :=
    logs_run (logs_insertMessage hclock) (.start w) msgs [] hstart fun key => trivial
  have hevents : runLog site w msgs = log := by
    rw [runLog, hlog.events]
    exact List.append_nil log
  rw [List.append_nil] at hstamped
  rw [hevents]
  exact ⟨hlog, hstamped⟩

end

theorem clockStarted_tickingSite : tickingSite.ClockStarted := by
  rintro n now ⟨⟩
  simp only [lmtUpdateInterval]
  omega

def firstMessages : List Message :=
  [.routerV1 "1.0;rtr1;0.500000;10.000000;1000".toList,
    .mdtV3 (mdsMessage "mds1" ["lc1-MDT0000"]).1]

end Lmt
