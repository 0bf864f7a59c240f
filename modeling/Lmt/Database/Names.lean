import Lmt.Database.Mysql

/-!
# The cached ids of a handle

A handle is opened with the ids of all names of its database. Opening fails when
two names have one key, so the names of each kind have to be unique. Then the
cache of an open handle agrees with the tables.
-/

namespace Lmt

open Attempts FormattedText

theorem underscore_notMem_pfx (svc : Svc) : ∀ c ∈ svc.pfx, (c != '_') = true :=
  List.all_eq_true.mp (by cases svc <;> rfl)

@[simp] theorem svcidKey_inj {a b : Svc} {n m : Text} :
    svcidKey a n = svcidKey b m ↔ a = b ∧ n = m := by
  constructor
  · intro h
    have hpfx (svc : Svc) (name : Text) :
        (svcidKey svc name).takeWhile (· != '_') = svc.pfx :=
      takeWhile_append_stop (underscore_notMem_pfx svc) (by simp)
    have hab : a.pfx = b.pfx := by rw [← hpfx a n, h, hpfx]
    have hsvc : a = b := by
      revert hab
      cases a <;> cases b <;> decide
    subst hsvc
    simpa [svcidKey] using h
  · rintro ⟨rfl, rfl⟩
    rfl

/-- What `_populate_idhash_all` inserts for one kind. -/
def Tables.entries (t : Tables) (svc : Svc) : List (Text × ℕ) :=
  (t.select svc).map fun r => (svcidKey svc r.2, r.1)

def Tables.Usable (t : Tables) : Prop := ∀ svc, ((t.select svc).map Prod.snd).Nodup

/-- The cache has the ids of exactly the names in the tables. -/
def Handle.Agrees (h : Handle) (t : Tables) : Prop :=
  ∀ svc name id, lookupIdhash h svc name = some id ↔ (id, name) ∈ t.select svc

/-- All kinds of names, in the order in which `_populate_idhash` reads them. -/
def allSvcs : List Svc := [.mds, .mdt, .oss, .ost, .router, .op]

theorem mem_allSvcs (svc : Svc) : svc ∈ allSvcs := by
  cases svc <;> decide

theorem Tables.Usable.nodup_entries {t : Tables} (h : t.Usable) :
    ((allSvcs.flatMap t.entries).map Prod.fst).Nodup := by
  have hkeys (svc : Svc) : (t.entries svc).map Prod.fst =
      ((t.select svc).map Prod.snd).map (svcidKey svc) := by
    simp [Tables.entries, Function.comp_def]
  rw [List.map_flatMap, List.nodup_flatMap]
  constructor
  · intro svc _
    rw [hkeys]
    exact (h svc).map fun n m hnm => (svcidKey_inj.mp hnm).2
  · have hsvcs : allSvcs.Nodup := by decide
    refine hsvcs.imp fun {a b} hab k ha hb => ?_
    simp only [hkeys, List.mem_map] at ha hb
    obtain ⟨n, -, rfl⟩ := ha
    obtain ⟨m, -, hm⟩ := hb
    exact hab (svcidKey_inj.mp hm).1.symm

variable (site : Site)

/-- The state after some calls of the client library. -/
def Db.called (s : Db) (n : ℕ) : Db :=
  { s with world := { s.world with calls := s.world.calls + n } }

def Db.tick (s : Db) : Db :=
  { s with
    world :=
      { s.world with
        clockReads := s.world.clockReads + 1
        events := (site.clock s.world.clockReads).toList.map
          (fun now => (s.handle.key, .reading now)) ++
          s.world.events } }

@[simp] theorem Db.handle_called (s : Db) (n : ℕ) : (s.called n).handle = s.handle := rfl

@[simp] theorem Db.tables_called (s : Db) (n : ℕ) : (s.called n).tables = s.tables := rfl

@[simp] theorem Db.handle_tick (s : Db) : (s.tick site).handle = s.handle := rfl

@[simp] theorem Db.tables_tick (s : Db) : (s.tick site).tables = s.tables := rfl

@[simp] theorem Db.handle_note (s : Db) (event : Event) : (s.note event).handle = s.handle := rfl

@[simp] theorem Db.tables_note (s : Db) (event : Event) : (s.note event).tables = s.tables := rfl

@[simp] theorem Db.tables_update (s : Db) (f : Tables → Tables) :
    (s.update f).tables = f s.tables := by
  simp [Db.tables, Db.update]

@[simp] theorem Db.handle_update (s : Db) (f : Tables → Tables) : (s.update f).handle = s.handle :=
  rfl

@[simp] theorem Db.tables_insertRow (s : Db) (table : DataTable) (key : ℕ × ℕ)
    (insert? : Tables → Option Tables) :
    (s.insertRow table key insert?).tables = (insert? s.tables).getD s.tables :=
  Db.tables_update s fun t => (insert? t).getD t

theorem exec_onWorld_mysqlCall (s : Db) :
    exec (onWorld (mysqlCall site)) s =
      (if site.fails s.world.calls then none else some (), s.called 1) := by
  simp [onWorld, exec_mysqlCall, Db.called]

theorem exec_readClock (s : Db) :
    exec (readClock site) s = (site.clock s.world.clockReads, s.tick site) := by
  simp only [readClock, onWorld, exec_bind, exec_zoom, exec_gettimeofday]
  cases hclock : site.clock s.world.clockReads <;> simp [Db.tick, Db.note, hclock]

def Site.NoFailure : Prop := ∀ n, site.fails n = false

theorem exec_mysqlExecute (s : Db) :
    ∃ o n, exec (mysqlExecute site) s = (o, s.called n) ∧ (site.NoFailure → o = some ()) := by
  simp only [mysqlExecute, exec_bind, exec_onWorld_mysqlCall]
  split_ifs with h
  · exact ⟨none, 1, rfl, fun hno => by simp [hno _] at h⟩
  · exact ⟨_, 2, rfl, fun hno => by simp [hno _]⟩

theorem exec_mysqlSelect (svc : Svc) (s : Db) :
    ∃ o n, exec (mysqlSelect site svc) s = (o, s.called n) ∧
      (∀ rows ∈ o, rows = s.tables.select svc) ∧
      (site.NoFailure → o = some (s.tables.select svc)) := by
  simp only [mysqlSelect, exec_bind, exec_onWorld_mysqlCall]
  split_ifs with h
  · exact ⟨none, 1, rfl, by simp, fun hno => by simp [hno _] at h⟩
  · simp only
    split_ifs with h'
    · exact ⟨none, 2, rfl, by simp, fun hno => by simp [hno _] at h'⟩
    · exact ⟨some (s.tables.select svc), 2, rfl, by simp, fun _ => rfl⟩

theorem exec_hashInsert (svc : Svc) (row : ℕ × Text) (s : Db) :
    exec (hashInsert svc row) s =
      match s.handle.idhash.insert? (svcidKey svc row.2) row.1 with
      | none => (none, s)
      | some idhash => (some (), { s with handle := { s.handle with idhash } }) := by
  simp only [hashInsert, exec_bind, exec_get]
  cases s.handle.idhash.insert? (svcidKey svc row.2) row.1 <;> simp

theorem populateIdhashOne_cases {svc : Svc} {a1 : Text} {s t : Db} {o : Option ℕ}
    (h : exec (populateIdhashOne site svc a1) s = (o, t)) :
    (o = none ∧ ∃ n, t = s.called n) ∨
      ∃ n id idhash, o = some id ∧ (id, a1) ∈ s.tables.select svc ∧
        s.handle.idhash.insert? (svcidKey svc a1) id = some idhash ∧
        t = { s.called n with handle := { s.handle with idhash } } := by
  obtain ⟨o', n, hselect, hrows, -⟩ := exec_mysqlSelect site svc s
  rw [populateIdhashOne, exec_bind, hselect] at h
  cases o' with
  | none =>
    obtain ⟨rfl, rfl⟩ := Prod.mk.inj h
    exact Or.inl ⟨rfl, n, rfl⟩
  | some rows =>
    obtain rfl := hrows rows rfl
    cases hfind : (s.tables.select svc).find? (·.2 = a1) with
    | none =>
      simp only [hfind] at h
      obtain ⟨rfl, rfl⟩ := Prod.mk.inj h
      exact Or.inl ⟨rfl, n, rfl⟩
    | some row =>
      obtain ⟨id, name⟩ := row
      have hmem := List.mem_of_find?_eq_some hfind
      obtain rfl : name = a1 := by simpa using List.find?_some hfind
      simp only [hfind, ofOption_some, pure_bind, exec_bind, exec_hashInsert, Db.handle_called] at h
      cases hinsert : s.handle.idhash.insert? (svcidKey svc name) id with
      | none =>
        simp only [hinsert] at h
        obtain ⟨rfl, rfl⟩ := Prod.mk.inj h
        exact Or.inl ⟨rfl, n, rfl⟩
      | some idhash =>
        simp only [hinsert] at h
        obtain ⟨rfl, rfl⟩ := Prod.mk.inj h
        exact Or.inr ⟨n, id, idhash, rfl, hmem, hinsert, rfl⟩

section

variable {h : Handle} {svc : Svc} {name : Text} {id : ℕ} {idhash : KeyedTable Text ℕ}
variable (hinsert : h.idhash.insert? (svcidKey svc name) id = some idhash)

include hinsert

theorem lookupIdhash_insert (svc' : Svc) (name' : Text) :
    lookupIdhash { h with idhash } svc' name' =
      if svc' = svc ∧ name' = name then some id else lookupIdhash h svc' name' := by
  simp only [lookupIdhash, KeyedTable.find?_of_insert? hinsert, svcidKey_inj]

theorem lookupIdhash_before_insert : lookupIdhash h svc name = none :=
  KeyedTable.find?_eq_none.mpr (KeyedTable.insert?_eq_some.mp hinsert).1

theorem lookupIdhash_insert_of_some {svc' : Svc} {name' : Text} {id' : ℕ}
    (hid : lookupIdhash h svc' name' = some id') :
    lookupIdhash { h with idhash } svc' name' = some id' := by
  rw [lookupIdhash_insert hinsert, if_neg, hid]
  rintro ⟨rfl, rfl⟩
  rw [lookupIdhash_before_insert hinsert] at hid
  cases hid

end

/-- Only the cache and the number of calls changed. -/
structure Cached (s t : Db) : Prop where
  handle : t.handle = { s.handle with idhash := t.handle.idhash }
  world : ∃ n, t.world = { s.world with calls := s.world.calls + n }

theorem Cached.tables {s t : Db} (h : Cached s t) : t.tables = s.tables := by
  obtain ⟨n, hw⟩ := h.world
  rw [Db.tables, Db.tables, hw, h.handle]

instance : IsPreorder Db Cached where
  refl s := ⟨rfl, 0, rfl⟩
  trans s t u hst htu := by
    obtain ⟨n, hn⟩ := hst.world
    obtain ⟨m, hm⟩ := htu.world
    refine ⟨?_, n + m, ?_⟩
    · rw [htu.handle, hst.handle]
    · rw [hm, hn, Nat.add_assoc]

theorem cached_called (s : Db) (n : ℕ) : Cached s (s.called n) := ⟨rfl, n, rfl⟩

theorem moves_hashInsert (svc : Svc) (row : ℕ × Text) : Moves Cached (hashInsert svc row) := by
  intro s
  rw [exec_hashInsert]
  split
  · exact refl_of Cached s
  · exact ⟨rfl, 0, rfl⟩

theorem moves_mysqlSelect (svc : Svc) : Moves Cached (mysqlSelect site svc) := by
  intro s
  obtain ⟨o, n, h, -⟩ := exec_mysqlSelect site svc s
  rw [h]
  exact cached_called s n

theorem moves_populateIdhashAll (svc : Svc) : Moves Cached (populateIdhashAll site svc) :=
  (moves_mysqlSelect site svc).bind fun rows => moves_each (moves_hashInsert svc) rows

theorem moves_populateIdhashOne (svc : Svc) (a1 : Text) :
    Moves Cached (populateIdhashOne site svc a1) :=
  (moves_mysqlSelect site svc).bind fun _ => (moves_ofOption _).bind fun row =>
    (moves_hashInsert svc row).bind fun _ => moves_pure _

theorem moves_populateIdhash : Moves Cached (populateIdhash site) :=
  moves_each (moves_populateIdhashAll site) _

theorem rows_of_each_hashInsert {svc : Svc} {rows : List (ℕ × Text)} {s t : Db}
    (h : exec (each (hashInsert svc) rows) s = (some (), t)) :
    t.handle.idhash.rows =
      s.handle.idhash.rows ++ rows.map fun r => (svcidKey svc r.2, r.1) := by
  induction rows generalizing s with
  | nil =>
    obtain ⟨-, rfl⟩ := Prod.mk.inj h
    simp
  | cons row rows ih =>
    obtain ⟨_, u, hu, ht⟩ := exec_bind_eq_some.mp h
    rw [exec_hashInsert] at hu
    split at hu
    · cases hu
    · next idhash hinsert =>
      obtain ⟨-, rfl⟩ := Prod.mk.inj hu
      rw [ih ht, (KeyedTable.insert?_eq_some.mp hinsert).2, List.map_cons, List.append_assoc]
      rfl

theorem each_hashInsert_succeeds {svc : Svc} {rows : List (ℕ × Text)} {s : Db}
    (h : (s.handle.idhash.keys ++ rows.map fun r => svcidKey svc r.2).Nodup) :
    (exec (each (hashInsert svc) rows) s).1 = some () := by
  induction rows generalizing s with
  | nil => rfl
  | cons row rows ih =>
    rw [List.map_cons, List.append_cons, List.nodup_append] at h
    obtain ⟨hkeys, hrows, hne⟩ := h
    have hnot : svcidKey svc row.2 ∉ s.handle.idhash.keys := fun hmem =>
      (List.nodup_append.mp hkeys).2.2 _ hmem _ (List.mem_singleton_self _) rfl
    obtain ⟨idhash, hinsert⟩ : ∃ idhash,
        s.handle.idhash.insert? (svcidKey svc row.2) row.1 = some idhash :=
      Option.ne_none_iff_exists'.mp fun hnone => hnot (KeyedTable.insert?_eq_none.mp hnone)
    have hexec : exec (hashInsert svc row) s =
        (some (), { s with handle := { s.handle with idhash } }) := by
      rw [exec_hashInsert, hinsert]
    rw [each, exec_bind_some hexec]
    apply ih
    simp only [KeyedTable.keys, (KeyedTable.insert?_eq_some.mp hinsert).2, List.map_append,
      List.map_cons, List.map_nil]
    exact List.nodup_append.mpr ⟨hkeys, hrows, hne⟩

theorem rows_of_populateIdhashAll {svc : Svc} {s t : Db}
    (h : exec (populateIdhashAll site svc) s = (some (), t)) :
    t.handle.idhash.rows = s.handle.idhash.rows ++ s.tables.entries svc := by
  obtain ⟨rows, u, hselect, hinsert⟩ := exec_bind_eq_some.mp h
  obtain ⟨o, n, hexec, hrows, -⟩ := exec_mysqlSelect site svc s
  rw [hexec] at hselect
  obtain ⟨rfl, rfl⟩ := Prod.mk.inj hselect
  obtain rfl := hrows rows rfl
  have h := rows_of_each_hashInsert hinsert
  rwa [Db.handle_called] at h

theorem populateIdhashAll_succeeds (hsite : site.NoFailure) {svc : Svc} {s : Db}
    (h : (s.handle.idhash.keys ++ (s.tables.entries svc).map Prod.fst).Nodup) :
    (exec (populateIdhashAll site svc) s).1 = some () := by
  obtain ⟨o, n, hexec, -, ho⟩ := exec_mysqlSelect site svc s
  obtain rfl := ho hsite
  rw [populateIdhashAll, exec_bind_some hexec]
  apply each_hashInsert_succeeds
  simpa [Tables.entries, Function.comp_def] using h

theorem rows_of_each_populateIdhashAll {svcs : List Svc} {s t : Db}
    (h : exec (each (populateIdhashAll site) svcs) s = (some (), t)) :
    t.handle.idhash.rows = s.handle.idhash.rows ++ svcs.flatMap s.tables.entries := by
  induction svcs generalizing s with
  | nil =>
    obtain ⟨-, rfl⟩ := Prod.mk.inj h
    simp
  | cons svc svcs ih =>
    obtain ⟨_, u, hu, ht⟩ := exec_bind_eq_some.mp h
    have htables := ((moves_populateIdhashAll site svc).of_exec hu).tables
    rw [ih ht, rows_of_populateIdhashAll site hu, htables, List.flatMap_cons, List.append_assoc]

theorem each_populateIdhashAll_succeeds (hsite : site.NoFailure) {svcs : List Svc} {s : Db}
    (h : (s.handle.idhash.keys ++ (svcs.flatMap s.tables.entries).map Prod.fst).Nodup) :
    (exec (each (populateIdhashAll site) svcs) s).1 = some () := by
  induction svcs generalizing s with
  | nil => rfl
  | cons svc svcs ih =>
    rw [List.flatMap_cons, List.map_append, ← List.append_assoc] at h
    have hsome := populateIdhashAll_succeeds site hsite (List.nodup_append.mp h).1
    rcases hu : exec (populateIdhashAll site svc) s with ⟨o, u⟩
    obtain rfl : o = some () := by simpa [hu] using hsome
    have htables := ((moves_populateIdhashAll site svc).of_exec hu).tables
    rw [each, exec_bind_some hu]
    apply ih
    rw [htables, KeyedTable.keys, rows_of_populateIdhashAll site hu, List.map_append]
    exact h

theorem agrees_of_populateIdhash {s t : Db} (hs : s.handle.idhash = .empty)
    (h : exec (populateIdhash site) s = (some (), t)) : t.handle.Agrees t.tables := by
  have hrows := rows_of_each_populateIdhashAll site h
  rw [hs, KeyedTable.rows_empty, List.nil_append] at hrows
  rw [((moves_populateIdhash site).of_exec h).tables]
  intro svc name id
  rw [lookupIdhash, KeyedTable.find?_eq_some, hrows, List.mem_flatMap]
  simp only [Tables.entries, List.mem_map, Prod.mk.injEq, svcidKey_inj]
  constructor
  · rintro ⟨_, -, r, hr, ⟨rfl, rfl⟩, rfl⟩
    exact hr
  · intro hr
    exact ⟨svc, mem_allSvcs svc, (id, name), hr, ⟨rfl, rfl⟩, rfl⟩

theorem populateIdhash_succeeds (hsite : site.NoFailure) {s : Db}
    (hs : s.handle.idhash = .empty) (h : s.tables.Usable) :
    (exec (populateIdhash site) s).1 = some () := by
  apply each_populateIdhashAll_succeeds site hsite
  rw [hs, KeyedTable.keys_empty, List.nil_append]
  exact h.nodup_entries

end Lmt
