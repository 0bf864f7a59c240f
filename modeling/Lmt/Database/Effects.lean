import Mathlib.Logic.Relation
import Lmt.Database.Names

/-!
# What a function of a handle can do

Every function on a handle is a sequence of a few effects. What is said about a
handle and the server is proved for each effect and holds after each function,
whether it succeeds or not.
-/

namespace Lmt

open Attempts FormattedText

inductive Effect : Db → Db → Prop
  /-- calls of the client library and readings of the clock -/
  | call (s : Db) (n : ℕ) : Effect s (s.called n)
  | tick (s : Db) (site : Site) : Effect s (s.tick site)
  /-- an event is noted in the history -/
  | note (s : Db) (event : Event) : Effect s (s.note event)
  /-- the ids in the cache change -/
  | cache (s : Db) (idhash : KeyedTable Text ℕ) :
      Effect s { s with handle := { s.handle with idhash } }
  /-- a row is inserted into another table than `TIMESTAMP_INFO` -/
  | insert (s : Db) (f : Tables → Tables)
      (h : ∀ t, (f t).timestampInfo = t.timestampInfo) : Effect s (s.update f)
  /-- a clock reading that is not later than the cached timestamp -/
  | accept (s : Db) (timestamp : ℕ) (h : timestamp ≤ s.handle.timestamp) :
      Effect s (s.stamp timestamp)
  /-- a later clock reading gets a row of `TIMESTAMP_INFO` -/
  | insertTimestamp (s : Db) (timestamp : ℕ) (h : s.handle.timestamp < timestamp) :
      Effect s ((s.insertTimestamp timestamp).stamp timestamp)

abbrev Effects : Db → Db → Prop := Relation.ReflTransGen Effect

instance : IsPreorder Db Effects where
  refl _ := .refl
  trans _ _ _ := .trans

variable (site : Site)

theorem moves_mysqlCall : Moves Effects (onWorld (mysqlCall site)) := by
  intro s
  rw [exec_onWorld_mysqlCall]
  exact .single (.call s 1)

theorem moves_mysqlExecute : Moves Effects (mysqlExecute site) :=
  (moves_mysqlCall site).bind fun _ => moves_mysqlCall site

theorem Cached.effects {s t : Db} (h : Cached s t) : Effects s t := by
  obtain ⟨n, hw⟩ := h.world
  have ht : t = { s.called n with handle := { s.handle with idhash := t.handle.idhash } } := by
    rw [← h.handle, Db.called, ← hw]
  rw [ht]
  exact .tail (.single (.call s n)) (.cache _ _)

theorem effects_populateIdhashOne (svc : Svc) (a1 : Text) :
    Moves Effects (populateIdhashOne site svc a1) :=
  fun s => (moves_populateIdhashOne site svc a1 s).effects

theorem moves_ifPrepared : Moves Effects ifPrepared :=
  moves_get.bind fun _ => moves_ite (moves_pure ()) moves_failure

section

variable {f : Tables → Tables}

theorem moves_mysqlInsert (h : ∀ t, (f t).timestampInfo = t.timestampInfo) :
    Moves Effects (mysqlInsert site f) :=
  (moves_mysqlCall site).bind fun _ => moves_modify fun s => .single (.insert s f h)

end

theorem moves_insertMdsInfo (mdsname mdtname : Text) :
    Moves Effects (insertMdsInfo site mdsname mdtname) := by
  refine Moves.bind (moves_mysqlInsert site ?_) fun _ =>
    (effects_populateIdhashOne site _ _).bind fun _ => effects_populateIdhashOne site _ _
  exact fun t => rfl

theorem moves_insertOssInfo (ossname : Text) : Moves Effects (insertOssInfo site ossname) := by
  refine Moves.bind (moves_mysqlInsert site ?_) fun _ => effects_populateIdhashOne site _ _
  exact fun t => rfl

theorem moves_ossIdOrInsert (ossname : Text) : Moves Effects (ossIdOrInsert site ossname) := by
  refine moves_get.bind fun s => ?_
  cases lookupIdhash s.handle .oss ossname with
  | some id => exact moves_pure id
  | none => exact moves_insertOssInfo site ossname

theorem moves_insertOstInfo (ossname ostname : Text) :
    Moves Effects (insertOstInfo site ossname ostname) := by
  refine (moves_ossIdOrInsert site ossname).bind fun _ =>
    Moves.bind (moves_mysqlInsert site ?_) fun _ => effects_populateIdhashOne site _ _
  exact fun t => rfl

theorem moves_insertRouterInfo (rtrname : Text) :
    Moves Effects (insertRouterInfo site rtrname) := by
  refine Moves.bind (moves_mysqlInsert site ?_) fun _ => effects_populateIdhashOne site _ _
  exact fun t => rfl

/-- The clock is read once. Without an error, the timestamp is accepted or gets
a row. -/
theorem updateTimestamp_cases (s : Db) {o : Option Unit} {t : Db}
    (h : exec (updateTimestamp site) s = (o, t)) :
    (o = none ∧ ∃ n, t = s.called n ∨ t = (s.tick site).called n) ∨
      (o = some () ∧ ∃ now, site.clock s.world.clockReads = some now ∧
        ((roundTimestamp now ≤ s.handle.timestamp ∧ t = (s.tick site).stamp (roundTimestamp now)) ∨
          (s.handle.timestamp < roundTimestamp now ∧ ∃ n,
            t = (((s.tick site).called n).insertTimestamp (roundTimestamp now)).stamp
              (roundTimestamp now)))) := by
  simp only [updateTimestamp, ifPrepared, exec_bind, exec_get] at h
  split_ifs at h with hprepared
  · simp only [exec_pure, exec_readClock] at h
    cases hclock : site.clock s.world.clockReads with
    | none =>
      simp only [hclock] at h
      obtain ⟨rfl, rfl⟩ := Prod.mk.inj h
      exact Or.inl ⟨rfl, 0, Or.inr rfl⟩
    | some now =>
      simp only [hclock] at h
      split_ifs at h with hlate
      · obtain ⟨rfl, rfl⟩ := Prod.mk.inj h
        exact Or.inr ⟨rfl, now, rfl, Or.inl ⟨hlate, rfl⟩⟩
      · obtain ⟨o', n, hexec, -⟩ := exec_mysqlExecute site (s.tick site)
        rw [exec_bind, hexec] at h
        cases o' with
        | none =>
          obtain ⟨rfl, rfl⟩ := Prod.mk.inj h
          exact Or.inl ⟨rfl, n, Or.inr rfl⟩
        | some _ =>
          obtain ⟨rfl, rfl⟩ := Prod.mk.inj h
          exact Or.inr ⟨rfl, now, rfl, Or.inr ⟨Nat.lt_of_not_le hlate, n, rfl⟩⟩
  · simp only [exec_failure] at h
    obtain ⟨rfl, rfl⟩ := Prod.mk.inj h
    exact Or.inl ⟨rfl, 0, Or.inl rfl⟩

theorem lookupOrInsert_none {svc : Svc} {name : Text} {insertInfo : DbM ℕ} {s u : Db}
    (h : exec (lookupOrInsert site svc name insertInfo) s = (some none, u)) :
    u = s ∧ lookupIdhash s.handle svc name = none := by
  rw [lookupOrInsert, exec_bind_some (exec_get s)] at h
  cases hname : lookupIdhash s.handle svc name with
  | some id => simp [hname] at h
  | none =>
    simp only [hname] at h
    split_ifs at h
    · rw [exec_map] at h
      have := congrArg Prod.fst h
      simp at this
    · exact ⟨(Prod.mk.inj h).2.symm, rfl⟩

theorem insertRow_cases {table : DataTable} {key : ℕ × ℕ} {insert? : Tables → Option Tables}
    {s t : Db} {o : Option Unit} (h : exec (insertRow site table key insert?) s = (o, t)) :
    ∃ n, (o = none ∧ t = s.called n) ∨
      (o = some () ∧ t = (s.called n).insertRow table key insert?) := by
  obtain ⟨o', n, hexec, -⟩ := exec_mysqlExecute site s
  refine ⟨n, ?_⟩
  rw [insertRow, exec_bind, hexec] at h
  cases o' with
  | none =>
    obtain ⟨rfl, rfl⟩ := Prod.mk.inj h
    exact Or.inl ⟨rfl, rfl⟩
  | some _ =>
    obtain ⟨rfl, rfl⟩ := Prod.mk.inj h
    exact Or.inr ⟨rfl, rfl⟩

/-- The handle can insert, or it fails at once. -/
theorem exec_ifPrepared (s : Db) :
    exec ifPrepared s = (if s.handle.prepared then some () else none, s) := by
  simp only [ifPrepared, exec_bind, exec_get]
  split_ifs <;> rfl

/-- How far the insertion of a sample goes: it has no statements, no id is made or
none is wanted, or the row is inserted when there is a timestamp for it. -/
theorem insertSample_cases {table : DataTable} {svc : Svc} {name : Text} {insertInfo : DbM ℕ}
    {insert? : ℕ × ℕ → Tables → Option Tables} {s t : Db} {o : Option Unit}
    (h : exec (insertSample site table svc name insertInfo insert?) s = (o, t)) :
    (o = none ∧ t = s) ∨
      (exec (lookupOrInsert site svc name insertInfo) s = (none, t) ∧ o = none) ∨
      (exec (lookupOrInsert site svc name insertInfo) s = (some none, t) ∧ o = some ()) ∨
      ∃ id u, exec (lookupOrInsert site svc name insertInfo) s = (some (some id), u) ∧
        ((o = none ∧ exec (updateTimestamp site) u = (none, t)) ∨
          ∃ v, exec (updateTimestamp site) u = (some (), v) ∧
            exec (insertRow site table (id, v.handle.timestampId)
              (insert? (id, v.handle.timestampId))) v = (o, t)) := by
  rw [insertSample, exec_bind, exec_ifPrepared] at h
  split_ifs at h with hprepared
  · simp only at h
    rcases hlookup : exec (lookupOrInsert site svc name insertInfo) s with ⟨_ | _ | id, u⟩
    · rw [exec_bind_none hlookup] at h
      obtain ⟨rfl, rfl⟩ := Prod.mk.inj h
      exact Or.inr (Or.inl ⟨rfl, rfl⟩)
    · rw [exec_bind_some hlookup] at h
      obtain ⟨rfl, rfl⟩ := Prod.mk.inj h
      exact Or.inr (Or.inr (Or.inl ⟨rfl, rfl⟩))
    · rw [exec_bind_some hlookup] at h
      refine Or.inr (Or.inr (Or.inr ⟨id, u, rfl, ?_⟩))
      rcases hupdate : exec (updateTimestamp site) u with ⟨_ | _, v⟩
      · rw [exec_bind_none hupdate] at h
        obtain ⟨rfl, rfl⟩ := Prod.mk.inj h
        exact Or.inl ⟨rfl, rfl⟩
      · rw [exec_bind_some hupdate, exec_bind_some (exec_get v)] at h
        exact Or.inr ⟨v, rfl, h⟩
  · obtain ⟨rfl, rfl⟩ := Prod.mk.inj h
    exact Or.inl ⟨rfl, rfl⟩

theorem effects_called (s : Db) (n : ℕ) : Effects s (s.called n) := .single (.call s n)

theorem effects_tick (s : Db) : Effects s (s.tick site) := .single (.tick s site)

theorem moves_updateTimestamp : Moves Effects (updateTimestamp site) := by
  intro s
  rcases h : exec (updateTimestamp site) s with ⟨o, t⟩
  rcases updateTimestamp_cases site s h with
    ⟨-, n, rfl | rfl⟩ | ⟨-, now, -, ⟨hle, rfl⟩ | ⟨hlt, n, rfl⟩⟩
  · exact effects_called s n
  · exact (effects_tick site s).trans (effects_called _ n)
  · exact (effects_tick site s).tail (.accept _ _ hle)
  · exact ((effects_tick site s).trans (effects_called _ n)).tail (.insertTimestamp _ _ hlt)

section

variable {insertInfo : DbM ℕ} (hinfo : Moves Effects insertInfo)

include hinfo

theorem moves_lookupOrInsert (svc : Svc) (name : Text) :
    Moves Effects (lookupOrInsert site svc name insertInfo) := by
  refine moves_get.bind fun s => ?_
  cases lookupIdhash s.handle svc name with
  | some id => exact moves_pure _
  | none => exact moves_ite (hinfo.map some) (moves_pure none)

omit hinfo in
theorem moves_insertRow (table : DataTable) (key : ℕ × ℕ) {insert? : Tables → Option Tables}
    (h : ∀ t, ((insert? t).getD t).timestampInfo = t.timestampInfo) :
    Moves Effects (insertRow site table key insert?) :=
  (moves_mysqlExecute site).bind fun _ => moves_modify fun s =>
    .tail (.single (.insert s _ h)) (.note _ _)

theorem moves_insertSample (table : DataTable) (svc : Svc) (name : Text)
    {insert? : ℕ × ℕ → Tables → Option Tables}
    (h : ∀ key t, ((insert? key t).getD t).timestampInfo = t.timestampInfo) :
    Moves Effects (insertSample site table svc name insertInfo insert?) := by
  refine moves_ifPrepared.bind fun _ => (moves_lookupOrInsert site hinfo svc name).bind fun id => ?_
  cases id with
  | none => exact moves_pure ()
  | some id =>
    exact (moves_updateTimestamp site).bind fun _ => moves_get.bind fun s =>
      moves_insertRow site _ _ (h _)

end

theorem moves_lmtDbInsertMdsData (mdsname mdtname : Text) (row : MdsDataRow) :
    Moves Effects (lmtDbInsertMdsData site mdsname mdtname row) := by
  refine moves_insertSample site (moves_insertMdsInfo site _ _) _ _ _ fun key t => ?_
  cases t.mdsData.insert? key row <;> rfl

theorem moves_lmtDbInsertOssData (ossname : Text) (row : OssDataRow) :
    Moves Effects (lmtDbInsertOssData site ossname row) := by
  refine moves_insertSample site (moves_insertOssInfo site _) _ _ _ fun key t => ?_
  cases t.ossData.insert? key row <;> rfl

theorem moves_lmtDbInsertOstData (ossname ostname : Text) (row : OstDataRow) :
    Moves Effects (lmtDbInsertOstData site ossname ostname row) := by
  refine moves_insertSample site (moves_insertOstInfo site _ _) _ _ _ fun key t => ?_
  cases t.ostData.insert? key row <;> rfl

theorem moves_lmtDbInsertRouterData (rtrname : Text) (row : RouterDataRow) :
    Moves Effects (lmtDbInsertRouterData site rtrname row) := by
  refine moves_insertSample site (moves_insertRouterInfo site _) _ _ _ fun key t => ?_
  cases t.routerData.insert? key row <;> rfl

theorem moves_lmtDbInsertMdsOpsData (mdtname opname : Text) (samples sum sumsquares : UInt64) :
    Moves Effects (lmtDbInsertMdsOpsData site mdtname opname samples sum sumsquares) := by
  refine moves_ifPrepared.bind fun _ => moves_get.bind fun s => ?_
  cases lookupIdhash s.handle .mdt mdtname with
  | none => exact moves_pure ()
  | some id =>
    cases lookupIdhash s.handle .op opname with
    | none => exact moves_pure ()
    | some op => exact moves_insertRow site _ _ fun _ => rfl

end Lmt
