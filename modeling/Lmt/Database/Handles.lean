import Lmt.Database.Effects
import Lmt.Database.Inserter

/-!
# Invariants of the open handles

A function on a handle stays in the handle's database and under its connection,
so what is known of another handle stays true. An invariant of the world and of
every open handle is shown for a new handle and for the functions on one handle;
it then holds in every state of the inserter.
-/

namespace Lmt

open Attempts FormattedText Runs

/-- A change of the database, the history and the cached ids of one handle. -/
structure Local (s t : Db) : Prop where
  name : t.handle.name = s.handle.name
  conn : t.handle.conn = s.handle.conn
  prepared : t.handle.prepared = s.handle.prepared
  connections : t.world.connections = s.world.connections
  tables : ∀ d, d ≠ s.handle.name → t.world.tables d = s.world.tables d
  stamped : ∃ new, t.world.stamped = new ++ s.world.stamped ∧
    ∀ e ∈ new, e.1 = (s.handle.name, s.handle.conn)

theorem Local.refl (s : Db) : Local s s :=
  ⟨rfl, rfl, rfl, rfl, fun _ _ => rfl, [], rfl, by simp⟩

theorem Local.trans {s t u : Db} (hst : Local s t) (htu : Local t u) : Local s u := by
  obtain ⟨new, hnew, hkeys⟩ := hst.stamped
  obtain ⟨new', hnew', hkeys'⟩ := htu.stamped
  refine ⟨htu.name.trans hst.name, htu.conn.trans hst.conn, htu.prepared.trans hst.prepared,
    htu.connections.trans hst.connections, fun d hd => ?_, new' ++ new, ?_, fun e he => ?_⟩
  · rw [htu.tables d (by rwa [hst.name]), hst.tables d hd]
  · rw [hnew', hnew, List.append_assoc]
  · rcases List.mem_append.mp he with he | he
    · rw [hkeys' e he, hst.name, hst.conn]
    · exact hkeys e he

theorem Effect.local {s t : Db} (h : Effect s t) : Local s t := by
  cases h with
  | call n => exact ⟨rfl, rfl, rfl, rfl, fun _ _ => rfl, [], rfl, by simp⟩
  | tick => exact ⟨rfl, rfl, rfl, rfl, fun _ _ => rfl, [], rfl, by simp⟩
  | note event => exact ⟨rfl, rfl, rfl, rfl, fun _ _ => rfl, [], rfl, by simp⟩
  | cache idhash => exact ⟨rfl, rfl, rfl, rfl, fun _ _ => rfl, [], rfl, by simp⟩
  | insert f hf => exact ⟨rfl, rfl, rfl, rfl, fun d hd => by simp [Db.update, hd], [], rfl, by simp⟩
  | accept now hnow => exact ⟨rfl, rfl, rfl, rfl, fun _ _ => rfl, [_], rfl, by simp⟩
  | insertTimestamp now hnow =>
    refine ⟨rfl, rfl, rfl, rfl, fun d hd => ?_, [_], rfl, fun e he => ?_⟩
    · simp [Db.stamp, Db.insertTimestamp, Db.note, Db.update, hd]
    · rw [List.mem_singleton.mp he]
      rfl

theorem local_of_effects {s t : Db} (h : Effects s t) : Local s t := by
  induction h with
  | refl => exact .refl s
  | tail _ heffect ih => exact ih.trans heffect.local

/-- A change of the world beside a handle. -/
structure World.Aside (h : Handle) (w v : World) : Prop where
  tables : v.tables h.name = w.tables h.name
  connections : w.connections ≤ v.connections
  stamped : ∃ new, v.stamped = new ++ w.stamped ∧ ∀ e ∈ new, e.1 ≠ (h.name, h.conn)

theorem Local.aside {s t : Db} (h : Local s t) {k : Handle} (hk : k.name ≠ s.handle.name) :
    World.Aside k s.world t.world := by
  obtain ⟨new, hnew, hkeys⟩ := h.stamped
  refine ⟨h.tables _ hk, h.connections.ge, new, hnew, fun e he heq => hk ?_⟩
  rw [hkeys e he] at heq
  exact (congrArg Prod.fst heq).symm

/-- Databases are opened without a change of their tables and of the histories. -/
structure World.Opened (w v : World) : Prop where
  tables : v.tables = w.tables
  stamped : v.stamped = w.stamped
  events : v.events = w.events
  clockReads : w.clockReads ≤ v.clockReads
  connections : w.connections ≤ v.connections

theorem World.Opened.aside {w v : World} (h : w.Opened v) (k : Handle) : World.Aside k w v :=
  ⟨by rw [h.tables], h.connections, [], h.stamped, by simp⟩

instance : IsPreorder World World.Opened where
  refl _ := ⟨rfl, rfl, rfl, le_rfl, le_rfl⟩
  trans _ _ _ huv hvw := ⟨hvw.tables.trans huv.tables, hvw.stamped.trans huv.stamped,
    hvw.events.trans huv.events, huv.clockReads.trans hvw.clockReads,
    huv.connections.trans hvw.connections⟩

theorem Cached.opened {s t : Db} (h : Cached s t) : s.world.Opened t.world := by
  obtain ⟨n, hw⟩ := h.world
  rw [hw]
  exact ⟨rfl, rfl, rfl, le_rfl, le_rfl⟩

variable (site : Site)

theorem opened_mysqlCall : Moves World.Opened (mysqlCall site) := by
  intro w
  rw [exec_mysqlCall]
  exact ⟨rfl, rfl, rfl, le_rfl, le_rfl⟩

theorem opened_gettimeofday : Moves World.Opened (gettimeofday site) := by
  intro w
  rw [exec_gettimeofday]
  exact ⟨rfl, rfl, rfl, Nat.le_succ _, le_rfl⟩

theorem opened_prepareStmts : ∀ n, Moves World.Opened (prepareStmts site n)
  | 0 => moves_pure ()
  | n + 1 => (opened_mysqlCall site).attempt.bind fun _ =>
    (opened_prepareStmts n).bind fun _ => moves_ofOption _

theorem opened_mysqlRealConnect : Moves World.Opened (mysqlRealConnect site) := by
  intro w
  simp only [mysqlRealConnect, exec_bind, exec_get, exec_set, exec_mysqlCall]
  split_ifs <;> exact ⟨rfl, rfl, rfl, le_rfl, Nat.le_succ _⟩

theorem opened_populateHandle (h : Handle) : Moves World.Opened (populateHandle site h) := by
  refine Moves.zoom (r := Cached) ?_ fun w s hs => hs.opened
  exact (moves_populateIdhash site).bind fun _ => moves_get.bind fun _ => moves_pure _

theorem opened_lmtDbCreate (dbname : Text) : Moves World.Opened (lmtDbCreate site false dbname) :=
  (opened_mysqlRealConnect site).bind fun _ => (opened_prepareStmts site 6).bind fun _ =>
    opened_populateHandle site _

theorem opened_lmtDbList : Moves World.Opened (lmtDbList site) :=
  (opened_mysqlCall site).bind fun _ => (opened_mysqlCall site).bind fun _ => moves_pure _

theorem opened_lmtDbCreateAll : Moves World.Opened (lmtDbCreateAll site false) :=
  (opened_lmtDbList site).bind fun l => moves_collect (opened_lmtDbCreate site) l

structure Handle.Fresh (h : Handle) (w : World) : Prop where
  conn : h.conn = w.connections
  prepared : h.prepared = true
  timestamp : h.timestamp = 0
  timestampId : h.timestampId = 0
  agrees : h.Agrees (w.tables h.name)

theorem prepareStmts_succeeds (hsite : site.NoFailure) :
    ∀ n w, (exec (prepareStmts site n) w).1 = some ()
  | 0, _ => rfl
  | n + 1, w => by
    have hcall : (exec (mysqlCall site) w).1 = some () := by simp [exec_mysqlCall, hsite _]
    have ih := prepareStmts_succeeds hsite n (exec (mysqlCall site) w).2
    rcases h : exec (prepareStmts site n) (exec (mysqlCall site) w).2 with ⟨o, u⟩
    obtain rfl : o = some () := by simpa [h] using ih
    rw [prepareStmts, exec_bind_some (exec_attempt _ _), exec_bind_some h, hcall]
    rfl

theorem fresh_of_lmtDbCreate {dbname : Text} {w v : World} {h : Handle}
    (hcreate : exec (lmtDbCreate site false dbname) w = (some h, v)) :
    h.name = dbname ∧ h.Fresh w ∧ w.connections < v.connections := by
  obtain ⟨conn, w₁, hconnect, hrest⟩ := exec_bind_eq_some.mp hcreate
  obtain ⟨_, w₂, hprepare, hpopulate⟩ := exec_bind_eq_some.mp hrest
  have h₁ : conn = w.connections ∧ w₁.tables = w.tables ∧ w₁.connections = w.connections + 1 := by
    simp only [mysqlRealConnect, exec_bind, exec_get, exec_set, exec_mysqlCall] at hconnect
    split_ifs at hconnect
    · cases hconnect
    · obtain ⟨hconn, rfl⟩ := Prod.mk.inj hconnect
      exact ⟨(Option.some.inj hconn).symm, rfl, rfl⟩
  obtain ⟨rfl, htables, hconnections⟩ := h₁
  have h₂ := (opened_prepareStmts site 6).of_exec hprepare
  simp only [populateHandle, exec_zoom] at hpopulate
  obtain ⟨hresult, rfl⟩ := Prod.mk.inj hpopulate
  rcases hexec : exec (populateIdhash site) ⟨.new false dbname w.connections, w₂⟩ with ⟨_ | _, t⟩
  · simp [exec_bind_none hexec] at hresult
  simp only [exec_bind_some hexec, exec_bind_some (exec_get t), exec_pure] at hresult ⊢
  obtain rfl := Option.some.inj hresult
  have hcached := (moves_populateIdhash site).of_exec hexec
  have hagrees := agrees_of_populateIdhash site rfl hexec
  have hopened := hcached.opened
  have hname : t.handle.name = dbname := by rw [hcached.handle]; rfl
  rw [Db.tables, hname, hopened.tables, h₂.tables, htables] at hagrees
  refine ⟨hname, ⟨?_, ?_, ?_, ?_, by rwa [hname]⟩, ?_⟩
  · rw [hcached.handle]; rfl
  · rw [hcached.handle]; rfl
  · rw [hcached.handle]; rfl
  · rw [hcached.handle]; rfl
  · have := h₂.connections
    have := hopened.connections
    simp only at this
    omega

theorem lmtDbCreate_succeeds (hsite : site.NoFailure) {dbname : Text} {w : World}
    (h : (w.tables dbname).Usable) :
    ∃ db v, exec (lmtDbCreate site false dbname) w = (some db, v) := by
  have hconnect : ∃ w₁, exec (mysqlRealConnect site) w = (some w.connections, w₁) := by
    simp [mysqlRealConnect, exec_bind, exec_mysqlCall, hsite _]
  obtain ⟨w₁, hconnect⟩ := hconnect
  have hprepare := prepareStmts_succeeds site hsite 6 w₁
  rcases hw₂ : exec (prepareStmts site 6) w₁ with ⟨o, w₂⟩
  obtain rfl : o = some () := by simpa [hw₂] using hprepare
  have htables : w₂.tables = w.tables :=
    ((opened_prepareStmts site 6).of_exec hw₂).tables.trans
      ((opened_mysqlRealConnect site).of_exec hconnect).tables
  have hpopulate := populateIdhash_succeeds site hsite
    (s := ⟨.new false dbname w.connections, w₂⟩) rfl (by rwa [Db.tables, htables])
  rcases ht : exec (populateIdhash site) ⟨.new false dbname w.connections, w₂⟩ with ⟨o, t⟩
  obtain rfl : o = some () := by simpa [ht] using hpopulate
  refine ⟨t.handle, t.world, ?_⟩
  rw [lmtDbCreate, exec_bind_some hconnect]
  simp only [Bool.false_eq_true, if_false]
  rw [exec_bind_some hw₂, populateHandle, exec_zoom, exec_bind_some ht]
  rfl

/-- What an invariant of the world and of every handle needs, apart from the
functions on a handle: it looks at a handle's own database and connection, and
opening a database establishes it. -/
structure Invariant (P : World → Prop) (Q : Handle → World → Prop) : Prop where
  aside : ∀ {h : Handle} {w v : World}, World.Aside h w v → Q h w → Q h v
  opened : ∀ {w v : World}, w.Opened v → P w → P v
  fresh : ∀ {h : Handle} {w v : World}, P w → h.Fresh w → w.Opened v →
    w.connections < v.connections → Q h v

/-- The invariant holds of the world and of every open handle; the handles are
for different databases. -/
def Inserter.Holds (P : World → Prop) (Q : Handle → World → Prop) (s : Inserter) : Prop :=
  P s.world ∧
    ∀ dbs, s.dbs = some dbs → (dbs.map Handle.name).Nodup ∧ ∀ h ∈ dbs, Q h s.world

theorem db?_eq_some {s : Inserter} {i : ℕ} {db : Db} :
    s.db? i = some db ↔
      ∃ dbs, s.dbs = some dbs ∧ dbs[i]? = some db.handle ∧ s.world = db.world := by
  simp only [Inserter.db?, Option.bind_eq_bind, Option.bind_eq_some_iff, Option.pure_def,
    Option.some.injEq]
  constructor
  · rintro ⟨dbs, hdbs, h, hh, rfl⟩
    exact ⟨dbs, hdbs, hh, rfl⟩
  · rintro ⟨dbs, hdbs, hh, hw⟩
    exact ⟨dbs, hdbs, db.handle, hh, by rw [hw]⟩

theorem exec_findDb (name : Text) (s : Inserter) :
    exec (findDb name) s = (svcToDb s.dbs name, s) := by
  simp only [findDb, exec_bind, exec_get]
  cases svcToDb s.dbs name <;> rfl

theorem map_name_set {dbs : List Handle} {i : ℕ} {h k : Handle} (hi : dbs[i]? = some h)
    (hname : k.name = h.name) : (dbs.set i k).map Handle.name = dbs.map Handle.name := by
  have hget : (dbs.map Handle.name)[i]? = some k.name := by
    rw [List.getElem?_map, hi, hname]
    rfl
  obtain ⟨_, hget⟩ := List.getElem?_eq_some_iff.mp hget
  rw [List.map_set, ← hget, List.set_getElem_self]

theorem exec_withDb (i : ℕ) (x : DbM Unit) (s : Inserter) :
    exec (withDb i x) s =
      match s.db? i with
      | none => (none, s)
      | some db =>
        match exec x db with
        | (none, t) => (none, triggerDbReconnect (s.setDb i t))
        | (some _, t) => (some (), s.setDb i t) := by
  simp only [withDb, exec_bind, exec_get]
  cases s.db? i with
  | none => rfl
  | some db =>
    rcases h : exec x db with ⟨_ | _, t⟩ <;> simp [exec_onFailure, h]

section

variable {P : World → Prop} {Q : Handle → World → Prop}

theorem Inserter.Holds.db {s : Inserter} (hs : s.Holds P Q) {i : ℕ} {db : Db}
    (hdb : s.db? i = some db) : P db.world ∧ Q db.handle db.world := by
  obtain ⟨dbs, hdbs, hi, hw⟩ := db?_eq_some.mp hdb
  have hQ := (hs.2 dbs hdbs).2 db.handle (List.mem_of_getElem? hi)
  rw [hw] at hQ
  exact ⟨hw ▸ hs.1, hQ⟩

variable (hinv : Invariant P Q)

include hinv

/-- One handle changes, and the others see a change beside them. -/
theorem holds_setDb {s : Inserter} (hs : s.Holds P Q) {i : ℕ} {db t : Db}
    (hdb : s.db? i = some db) (hlocal : Local db t) (hP : P t.world)
    (hQ : Q t.handle t.world) : (s.setDb i t).Holds P Q := by
  obtain ⟨dbs, hdbs, hi, hw⟩ := db?_eq_some.mp hdb
  obtain ⟨hnodup, hall⟩ := hs.2 dbs hdbs
  refine ⟨hP, fun dbs' hdbs' => ?_⟩
  simp only [Inserter.setDb, hdbs, Option.map_some, Option.some.injEq] at hdbs'
  subst hdbs'
  refine ⟨by rwa [map_name_set hi hlocal.name], fun k hk => ?_⟩
  obtain ⟨j, hj⟩ := List.mem_iff_getElem?.mp hk
  by_cases hij : i = j
  · subst hij
    obtain ⟨hlt, -⟩ := List.getElem?_eq_some_iff.mp hi
    rw [List.getElem?_set_self hlt] at hj
    obtain rfl := Option.some.inj hj
    exact hQ
  · rw [List.getElem?_set_ne hij] at hj
    have hne : k.name ≠ db.handle.name := by
      intro heq
      apply hij
      have hi' : (dbs.map Handle.name)[i]? = some db.handle.name := by simp [hi]
      have hj' : (dbs.map Handle.name)[j]? = some db.handle.name := by simp [hj, heq]
      obtain ⟨hlt, -⟩ := List.getElem?_eq_some_iff.mp hi'
      exact (List.getElem?_inj hlt hnodup).mp (hi'.trans hj'.symm)
    have haside := hlocal.aside hne
    rw [← hw] at haside
    exact hinv.aside haside (hall k (List.mem_of_getElem? hj))

theorem holds_withDb {s : Inserter} (hs : s.Holds P Q) {i : ℕ} {x : DbM Unit}
    (hx : ∀ db, s.db? i = some db → P db.world → Q db.handle db.world →
      Local db (exec x db).2 ∧ P (exec x db).2.world ∧
        Q (exec x db).2.handle (exec x db).2.world) :
    (exec (withDb i x) s).2.Holds P Q := by
  rw [exec_withDb]
  cases hdb : s.db? i with
  | none => exact hs
  | some db =>
    obtain ⟨hP, hQ⟩ := hs.db hdb
    obtain ⟨hlocal, hP', hQ'⟩ := hx db hdb hP hQ
    have hset := holds_setDb hinv hs hdb hlocal hP' hQ'
    rcases h : exec x db with ⟨_ | _, t⟩
    · simp only [h] at hset ⊢
      exact hset
    · simp only [h] at hset ⊢
      exact hset

theorem holds_inWorld {α : Type} {x : Attempt World α} (hx : Moves World.Opened x) :
    Moves (Preserves (Inserter.Holds P Q)) (inWorld x) := by
  refine Moves.zoom (r := World.Opened) hx fun s w hw hs => ?_
  exact ⟨hinv.opened hw hs.1, fun dbs hdbs =>
    ⟨(hs.2 dbs hdbs).1, fun h hh => hinv.aside (hw.aside h) ((hs.2 dbs hdbs).2 h hh)⟩⟩

theorem handles_of_collect {l : List Text} {w v : World} {dbs : List Handle} (hw : P w)
    (h : exec (collect (lmtDbCreate site false) l) w = (some dbs, v)) :
    dbs.map Handle.name = l ∧ P v ∧ ∀ db ∈ dbs, Q db v := by
  induction l generalizing w dbs with
  | nil =>
    obtain ⟨hdbs, rfl⟩ := Prod.mk.inj h
    obtain rfl := Option.some.inj hdbs
    exact ⟨rfl, hw, by simp⟩
  | cons d l ih =>
    obtain ⟨db, u, hcreate, hrest⟩ := exec_bind_eq_some.mp h
    obtain ⟨dbs', v', hcollect, hpure⟩ := exec_bind_eq_some.mp hrest
    obtain ⟨hdbs, rfl⟩ := Prod.mk.inj hpure
    obtain rfl := Option.some.inj hdbs
    obtain ⟨hname, hfresh, hlt⟩ := fresh_of_lmtDbCreate site hcreate
    have hopened := (opened_lmtDbCreate site d).of_exec hcreate
    obtain ⟨hnames, hv, hall⟩ := ih (hinv.opened hopened hw) hcollect
    have hlater := (moves_collect (opened_lmtDbCreate site) l).of_exec hcollect
    have hQ := hinv.aside (hlater.aside db) (hinv.fresh hw hfresh hopened hlt)
    refine ⟨by rw [List.map_cons, hname, hnames], hv, fun k hk => ?_⟩
    rcases List.mem_cons.mp hk with rfl | hk
    · exact hQ
    · exact hall k hk

theorem holds_connect : Moves (Preserves (Inserter.Holds P Q)) (connect site) := by
  intro s hs
  rcases hexec : exec (lmtDbCreateAll site false) s.world with ⟨_ | dbs, v⟩
  · have h := holds_inWorld hinv (opened_lmtDbCreateAll site) s hs
    rw [inWorld, exec_zoom, hexec] at h
    rw [connect, inWorld, exec_bind, exec_zoom, hexec]
    exact h
  · obtain ⟨l, u, hlist, hcollect⟩ := exec_bind_eq_some.mp hexec
    have hl : l.Nodup := by
      obtain ⟨_, _, -, hrest⟩ := exec_bind_eq_some.mp hlist
      obtain ⟨_, _, -, hpure⟩ := exec_bind_eq_some.mp hrest
      obtain rfl := Option.some.inj (Prod.mk.inj hpure).1
      exact site.nodup_databases.filter _
    have hu := hinv.opened ((opened_lmtDbList site).of_exec hlist) hs.1
    obtain ⟨hnames, hv, hall⟩ := handles_of_collect site hinv hu hcollect
    rw [connect, inWorld, exec_bind, exec_zoom, hexec]
    refine ⟨hv, fun dbs' hdbs' => ?_⟩
    obtain rfl := Option.some.inj hdbs'
    exact ⟨by rwa [hnames], hall⟩

theorem holds_initDbIfneeded : Moves (Preserves (Inserter.Holds P Q)) (initDbIfneeded site) := by
  refine moves_get.bind fun _ => moves_ite ?_ (moves_pure ())
  refine Moves.bind (moves_modify fun s hs => ⟨hs.1, by simp⟩) fun _ => ?_
  refine (holds_inWorld hinv (opened_gettimeofday site)).bind fun now => ?_
  refine Moves.bind ?_ fun _ => holds_connect site hinv
  exact moves_get.bind fun _ => moves_ite moves_failure (moves_modify fun s hs => hs)

variable (heffect : ∀ {s t : Db}, Effect s t → P s.world → Q s.handle s.world →
  P t.world ∧ Q t.handle t.world)

include heffect

omit hinv in
theorem of_effects {s t : Db} (h : Effects s t) (hP : P s.world) (hQ : Q s.handle s.world) :
    P t.world ∧ Q t.handle t.world := by
  induction h with
  | refl => exact ⟨hP, hQ⟩
  | tail _ h ih => exact heffect h ih.1 ih.2

theorem moves_withDb {x : DbM Unit} (hx : Moves Effects x) (i : ℕ) :
    Moves (Preserves (Inserter.Holds P Q)) (withDb i x) :=
  fun _ hs => holds_withDb hinv hs fun db _ hP hQ =>
    ⟨local_of_effects (hx db), of_effects heffect (hx db) hP hQ⟩

omit hinv heffect in
theorem moves_findDb (name : Text) : Moves (Preserves (Inserter.Holds P Q)) (findDb name) :=
  moves_get.bind fun _ => moves_ofOption _

omit hinv heffect in
theorem holds_final {x : Attempt Inserter Unit} (hx : Moves (Preserves (Inserter.Holds P Q)) x)
    {s : Inserter} (hs : s.Holds P Q) : (final x s).Holds P Q := hx s hs

theorem holds_insertOstinfo {m : OstMetric} {s : Inserter} (hs : s.Holds P Q) (ostr : Text) :
    (insertOstinfo site m s ostr).Holds P Q := by
  refine holds_final ?_ hs
  refine (moves_ofOption _).bind fun o => (moves_findDb o.ostname).bind fun db => ?_
  refine Moves.bind (moves_withDb hinv heffect ?_ db) fun _ => moves_withDb hinv heffect ?_ db
  · exact moves_lmtDbInsertOstData site _ _ _
  · exact moves_lmtDbInsertOssData site _ _

theorem holds_lmtDbInsertOstV2 {s : Inserter} (hs : s.Holds P Q) (text : Text) :
    (lmtDbInsertOstV2 site s text).Holds P Q := by
  have hinit := holds_initDbIfneeded site hinv s hs
  rw [lmtDbInsertOstV2]
  rcases h : exec (initDbIfneeded site) s with ⟨_ | _, t⟩ <;> rw [h] at hinit
  · exact hinit
  cases lmtOstDecodeV2 text with
  | none => exact hinit
  | some m =>
    have hstep (s : Inserter) (ostr : Text) (hs : s.Holds P Q) (_ : True) :
        (insertOstinfo site m s ostr).Holds P Q := holds_insertOstinfo site hinv heffect hs ostr
    exact invariant_run hstep hinit (by simp)

theorem holds_insertMdsOps {db : ℕ} {mdtname : Text} {s : Inserter} (hs : s.Holds P Q)
    (op : Text) : (insertMdsOps site db mdtname s op).Holds P Q := by
  refine holds_final ?_ hs
  refine (moves_ofOption _).bind fun _ => moves_withDb hinv heffect ?_ db
  exact moves_lmtDbInsertMdsOpsData site _ _ _ _ _

theorem holds_insertMds {m : MdtMetric} {ver : ℕ} {s : Inserter} (hs : s.Holds P Q)
    (mdt : Text) : (insertMds site m ver s mdt).Holds P Q := by
  refine holds_final ?_ hs
  refine (moves_ofOption _).bind fun i => (moves_findDb i.mdtname).bind fun db => ?_
  refine Moves.bind (moves_withDb hinv heffect ?_ db) fun _ => moves_modify fun s hs => ?_
  · exact moves_lmtDbInsertMdsData site _ _ _
  · have hstep (s : Inserter) (op : Text) (hs : s.Holds P Q) (_ : True) :
        (insertMdsOps site db i.mdtname s op).Holds P Q :=
      holds_insertMdsOps site hinv heffect hs op
    exact invariant_run hstep hs (by simp)

theorem holds_lmtDbInsertMdtV1V2V3 {s : Inserter} (hs : s.Holds P Q) (text : Text) (ver : ℕ) :
    (lmtDbInsertMdtV1V2V3 site s text ver).Holds P Q := by
  have hinit := holds_initDbIfneeded site hinv s hs
  rw [lmtDbInsertMdtV1V2V3]
  rcases h : exec (initDbIfneeded site) s with ⟨_ | _, t⟩ <;> rw [h] at hinit
  · exact hinit
  cases lmtMdtDecodeV1V2V3 text ver with
  | none => exact hinit
  | some m =>
    have hstep (s : Inserter) (mdt : Text) (hs : s.Holds P Q) (_ : True) :
        (insertMds site m ver s mdt).Holds P Q := holds_insertMds site hinv heffect hs mdt
    exact invariant_run hstep hinit (by simp)

theorem holds_lmtDbInsertRouterV1 {s : Inserter} (hs : s.Holds P Q) (text : Text) :
    (lmtDbInsertRouterV1 site s text).Holds P Q := by
  refine holds_final ?_ hs
  refine (holds_initDbIfneeded site hinv).bind fun _ => (moves_ofOption _).bind fun m => ?_
  refine moves_get.bind fun _ => moves_each (fun db => moves_withDb hinv heffect ?_ db) _
  exact moves_lmtDbInsertRouterData site _ _

theorem moves_insertKnownOss (m : OssMetric) (db : ℕ) :
    Moves (Preserves (Inserter.Holds P Q)) (insertKnownOss site m db) := by
  refine moves_get.bind fun s => ?_
  cases s.db? db with
  | none => exact moves_pure ()
  | some h =>
    refine moves_ite (moves_withDb hinv heffect ?_ db) (moves_pure ())
    exact moves_lmtDbInsertOssData site _ _

theorem holds_lmtDbInsertOssV1 {s : Inserter} (hs : s.Holds P Q) (text : Text) :
    (lmtDbInsertOssV1 site s text).Holds P Q := by
  refine holds_final ?_ hs
  refine (holds_initDbIfneeded site hinv).bind fun _ => (moves_ofOption _).bind fun m => ?_
  exact moves_get.bind fun _ => moves_each (moves_insertKnownOss site hinv heffect m) _

theorem holds_lmtDbInsertOstV1 {s : Inserter} (hs : s.Holds P Q) (text : Text) :
    (lmtDbInsertOstV1 site s text).Holds P Q := by
  refine holds_final ?_ hs
  refine (holds_initDbIfneeded site hinv).bind fun _ => (moves_ofOption _).bind fun m => ?_
  refine (moves_findDb m.ostname).bind fun db => moves_withDb hinv heffect ?_ db
  exact moves_lmtDbInsertOstData site _ _ _

/-- An invariant that every effect keeps holds after every metric. -/
theorem holds_metricUpdate {s : Inserter} (hs : s.Holds P Q) (m : Metric) :
    (metricUpdate site s m).Holds P Q := by
  cases hvalue : m.value with
  | none => simpa only [metricUpdate, hvalue] using hs
  | some text =>
    cases hhandler : (scanVersion text).bind (metricHandler site m.name) with
    | none => simpa only [metricUpdate, hvalue, hhandler] using hs
    | some handler =>
      simp only [metricUpdate, hvalue, hhandler]
      obtain ⟨vers, -, hhandler⟩ := Option.bind_eq_some_iff.mp hhandler
      simp only [metricHandler] at hhandler
      split_ifs at hhandler <;> obtain rfl := Option.some.inj hhandler
      · exact holds_lmtDbInsertOstV2 site hinv heffect hs text
      · exact holds_lmtDbInsertMdtV1V2V3 site hinv heffect hs text 3
      · exact holds_lmtDbInsertRouterV1 site hinv heffect hs text
      · exact holds_lmtDbInsertMdtV1V2V3 site hinv heffect hs text 2
      · exact holds_lmtDbInsertOssV1 site hinv heffect hs text
      · exact holds_lmtDbInsertOstV1 site hinv heffect hs text

end

end Lmt
