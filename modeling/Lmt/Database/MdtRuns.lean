import Lmt.Metrics.MdtRoundTrip
import Lmt.Metrics.MdtOperations
import Lmt.Database.Handles

/-!
# Runs over MDT messages

Every MDT of a message that is decoded and routed is one step on the handle of
its database: its sample is inserted, and its operations when that succeeds. An
invariant of the tables of each database, and of each handle with them, is shown
for this step and for a new handle, and holds in every state of a run.
-/

namespace Lmt

open Attempts FormattedText Runs

variable (site : Site)

def opOnDb (mdtname : Text) (db : Db) (op : Text) : Db :=
  match lmtMdtDecodeV1Mdops op with
  | none => db
  | some o =>
    final (lmtDbInsertMdsOpsData site mdtname o.opname o.samples o.sum o.sumsquares) db

def mdtOnDb (m : MdtMetric) (info : MdtInfo) (db : Db) : Db :=
  match exec (insertMdsData site m info) db with
  | (none, t) => t
  | (some _, t) => run (opOnDb site info.mdtname) t info.mdops

theorem opOnDb_cases (mdtname : Text) (db : Db) (op : Text) :
    (∃ n, opOnDb site mdtname db op = db.called n) ∨
      ∃ n name r, opname? op = some name ∧
        lookupIdhash db.handle .mdt mdtname = some r.mdsId ∧
        lookupIdhash db.handle .op name = some r.operationId ∧
        r.tsId = db.handle.timestampId ∧
        opOnDb site mdtname db op =
          (db.called n).insertRow .mdsOps (r.mdsId, db.handle.timestampId)
            fun t => some { t with mdsOpsData := t.mdsOpsData ++ [r] } := by
  rw [opOnDb, opname?]
  cases lmtMdtDecodeV1Mdops op with
  | none => exact Or.inl ⟨0, rfl⟩
  | some o =>
    simp only [final, lmtDbInsertMdsOpsData]
    by_cases hprepared : db.handle.prepared
    swap
    · rw [exec_bind, exec_ifPrepared, if_neg hprepared]
      exact Or.inl ⟨0, rfl⟩
    rw [exec_bind, exec_ifPrepared, if_pos hprepared]
    simp only [exec_bind_some (exec_get db)]
    cases hmdt : lookupIdhash db.handle .mdt mdtname with
    | none => exact Or.inl ⟨0, rfl⟩
    | some mdsId =>
      cases hop : lookupIdhash db.handle .op o.opname with
      | none => exact Or.inl ⟨0, rfl⟩
      | some operationId =>
        simp only
        rcases hexec : exec (insertRow site _ _ _) db with ⟨r, t⟩
        rcases insertRow_cases site hexec with ⟨n, ⟨-, rfl⟩ | ⟨-, rfl⟩⟩
        · exact Or.inl ⟨n, rfl⟩
        · let row : MdsOpsRow :=
            { mdsId, operationId, tsId := db.handle.timestampId, samples := o.samples,
              sum := o.sum, sumsquares := o.sumsquares }
          exact Or.inr ⟨n, o.opname, row, rfl, rfl, hop, rfl, rfl⟩

theorem db?_setDb {s : Inserter} {i : ℕ} {db : Db} (h : s.db? i = some db) (t : Db) :
    (s.setDb i t).db? i = some t := by
  obtain ⟨dbs, hdbs, hi, -⟩ := db?_eq_some.mp h
  obtain ⟨hlt, -⟩ := List.getElem?_eq_some_iff.mp hi
  exact db?_eq_some.mpr ⟨dbs.set i t.handle, by simp [Inserter.setDb, hdbs],
    List.getElem?_set_self hlt, rfl⟩

theorem setDb_setDb (s : Inserter) (i : ℕ) (t u : Db) :
    (s.setDb i t).setDb i u = s.setDb i u := by
  simp only [Inserter.setDb, Option.map_map, Function.comp_def, List.set_set]

/-- The inserter with a new handle, up to the need for a reconnect. -/
def SetsDb (s : Inserter) (i : ℕ) (t : Db) (s' : Inserter) : Prop :=
  ∃ reconnectNeeded, s' = { s.setDb i t with reconnectNeeded }

theorem setsDb_withDb {s : Inserter} {i : ℕ} {db : Db} (h : s.db? i = some db) (x : DbM Unit) :
    SetsDb s i (exec x db).2 (exec (withDb i x) s).2 := by
  rw [exec_withDb, h]
  rcases hx : exec x db with ⟨_ | _, t⟩ <;> simp only
  · rw [hx]
    exact ⟨_, rfl⟩
  · rw [hx]
    exact ⟨_, rfl⟩

theorem SetsDb.trans {s s' s'' : Inserter} {i : ℕ} {t u : Db} (h : SetsDb s i t s')
    (h' : SetsDb s' i u s'') : SetsDb s i u s'' := by
  obtain ⟨b, rfl⟩ := h
  obtain ⟨b', rfl⟩ := h'
  refine ⟨b', ?_⟩
  rw [← setDb_setDb s i t u]
  rfl

theorem SetsDb.db? {s s' : Inserter} {i : ℕ} {db t : Db} (hdb : s.db? i = some db)
    (h : SetsDb s i t s') : s'.db? i = some t := by
  obtain ⟨b, rfl⟩ := h
  exact db?_setDb hdb t

theorem setsDb_insertMdsOps {s s' : Inserter} {i : ℕ} {db t : Db} (hdb : s.db? i = some db)
    (h : SetsDb s i t s') (mdtname op : Text) :
    SetsDb s i (opOnDb site mdtname t op) (insertMdsOps site i mdtname s' op) := by
  rw [insertMdsOps, opOnDb]
  cases lmtMdtDecodeV1Mdops op with
  | none => exact h
  | some o => exact h.trans (setsDb_withDb (h.db? hdb) _)

theorem setsDb_run_insertMdsOps {s s' : Inserter} {i : ℕ} {db t : Db} (hdb : s.db? i = some db)
    (h : SetsDb s i t s') (mdtname : Text) (ops : List Text) :
    SetsDb s i (run (opOnDb site mdtname) t ops) (run (insertMdsOps site i mdtname) s' ops) := by
  induction ops generalizing s' t with
  | nil => exact h
  | cons op ops ih => exact ih (setsDb_insertMdsOps site hdb h mdtname op)

/-- An MDT that is not decoded or not routed changes nothing; any other changes
its handle. -/
theorem insertMds_cases (m : MdtMetric) (ver : ℕ) (s : Inserter) (mdt : Text) :
    insertMds site m ver s mdt = s ∨ ∃ info ∈ decodeMdtinfoOf ver mdt,
      ∃ i ∈ svcToDb s.dbs info.mdtname, ∃ db ∈ s.db? i,
        SetsDb s i (mdtOnDb site m info db) (insertMds site m ver s mdt) := by
  rw [insertMds]
  cases hinfo : decodeMdtinfoOf ver mdt with
  | none => exact Or.inl rfl
  | some info =>
    simp only [final, ofOption_some, pure_bind, exec_bind, exec_findDb]
    cases hi : svcToDb s.dbs info.mdtname with
    | none => exact Or.inl rfl
    | some i =>
      cases hdb : s.db? i with
      | none => exact Or.inl (by simp only [exec_withDb, hdb])
      | some db =>
        refine Or.inr ⟨info, rfl, i, hi, db, hdb, ?_⟩
        have hsets := setsDb_withDb hdb (insertMdsData site m info)
        rw [mdtOnDb]
        simp only [exec_withDb, hdb] at hsets ⊢
        rcases hx : exec (insertMdsData site m info) db with ⟨_ | _, t⟩ <;>
          simp only [hx] at hsets ⊢
        · exact hsets
        · exact setsDb_run_insertMdsOps site hdb hsets info.mdtname info.mdops

/-- A message is the text of a `lmt_mdt` metric with its version. -/
def mdtUpdate (s : Inserter) (msg : Text × ℕ) : Inserter :=
  lmtDbInsertMdtV1V2V3 site s msg.1 msg.2

/-- A condition on a decoded MDT and the handle it is routed to. -/
def OnDb (cond : MdtMetric → MdtInfo → Db → Prop) (m : MdtMetric) (ver : ℕ) (s : Inserter)
    (mdt : Text) : Prop :=
  ∀ info ∈ decodeMdtinfoOf ver mdt, ∀ i ∈ svcToDb s.dbs info.mdtname, ∀ db ∈ s.db? i,
    cond m info db

def MdtsMeet (cond : MdtMetric → MdtInfo → Db → Prop) (s : Inserter) (msg : Text × ℕ) : Prop :=
  ∀ _ ∈ (exec (initDbIfneeded site) s).1, ∀ m ∈ lmtMdtDecodeV1V2V3 msg.1 msg.2,
    StepsMeet (insertMds site m msg.2) (OnDb cond m msg.2)
      (exec (initDbIfneeded site) s).2 m.mdtinfo

section

variable (cond : MdtMetric → MdtInfo → Db → Prop) [∀ m info db, Decidable (cond m info db)]

instance (m : MdtMetric) (ver : ℕ) (s : Inserter) (mdt : Text) :
    Decidable (OnDb cond m ver s mdt) := by
  unfold OnDb
  infer_instance

instance (s : Inserter) (msg : Text × ℕ) : Decidable (MdtsMeet site cond s msg) := by
  unfold MdtsMeet
  infer_instance

end

theorem mdtUpdate_cases (s : Inserter) (msg : Text × ℕ) :
    mdtUpdate site s msg = (exec (initDbIfneeded site) s).2 ∨
      ∃ _ ∈ (exec (initDbIfneeded site) s).1, ∃ m ∈ lmtMdtDecodeV1V2V3 msg.1 msg.2,
        mdtUpdate site s msg =
          run (insertMds site m msg.2) (exec (initDbIfneeded site) s).2 m.mdtinfo := by
  rw [mdtUpdate, lmtDbInsertMdtV1V2V3]
  rcases exec (initDbIfneeded site) s with ⟨_ | _, t⟩
  · exact Or.inl rfl
  · cases hm : lmtMdtDecodeV1V2V3 msg.1 msg.2 with
    | none => exact Or.inl rfl
    | some m => exact Or.inr ⟨_, rfl, m, rfl, rfl⟩

theorem moves_opOnDb (mdtname : Text) (db : Db) (op : Text) :
    Effects db (opOnDb site mdtname db op) := by
  rw [opOnDb]
  cases lmtMdtDecodeV1Mdops op with
  | none => exact .refl
  | some o => exact moves_lmtDbInsertMdsOpsData site _ _ _ _ _ db

theorem effects_mdtOnDb (m : MdtMetric) (info : MdtInfo) (db : Db) :
    Effects db (mdtOnDb site m info db) := by
  rw [mdtOnDb]
  have hdata : Moves Effects (insertMdsData site m info) := moves_lmtDbInsertMdsData site _ _ _
  rcases h : exec (insertMdsData site m info) db with ⟨_ | _, t⟩
  · exact hdata.of_exec h
  · have hstep (u : Db) (op : Text) (hu : Effects db u) (_ : True) :
        Effects db (opOnDb site info.mdtname u op) := hu.trans (moves_opOnDb site _ u op)
    exact invariant_run hstep (hdata.of_exec h) (by simp)

def MdtInfo.Decoded (info : MdtInfo) : Prop := ∃ ver mdt, decodeMdtinfoOf ver mdt = some info

/-- What holds of the tables of every database, and of a handle with the tables
of its database. -/
abbrev Inserter.HoldsTables (p : Tables → Prop) (q : Handle → Tables → Prop) (s : Inserter) :
    Prop :=
  s.Holds (fun w => ∀ d, p (w.tables d)) (fun h w => q h (w.tables h.name))

theorem holds_start {p : Tables → Prop} {q : Handle → Tables → Prop} {w : World}
    (hw : ∀ d, p (w.tables d)) : (Inserter.start w).HoldsTables p q :=
  ⟨hw, by simp [Inserter.start]⟩

section

variable {p : Tables → Prop} {q : Handle → Tables → Prop}
variable (hfresh : ∀ {h : Handle} {w : World}, (∀ d, p (w.tables d)) → h.Fresh w →
  q h (w.tables h.name))

include hfresh

theorem invariant_tables :
    Invariant (fun w => ∀ d, p (w.tables d)) (fun h w => q h (w.tables h.name)) where
  aside {h w v} haside hq := by rwa [haside.tables]
  opened {w v} hopened hp d := by
    rw [hopened.tables]
    exact hp d
  fresh {h w v} hp hh hopened _ := by
    rw [hopened.tables]
    exact hfresh hp hh

variable {cond : MdtMetric → MdtInfo → Db → Prop}
variable (hmdt : ∀ {m : MdtMetric} {info : MdtInfo} {db : Db}, info.Decoded → p db.tables →
  q db.handle db.tables → cond m info db →
    p (mdtOnDb site m info db).tables ∧
      q (mdtOnDb site m info db).handle (mdtOnDb site m info db).tables)

include hmdt

theorem holdsTables_insertMds {m : MdtMetric} {ver : ℕ} {s : Inserter}
    (hs : s.HoldsTables p q) {mdt : Text} (hcond : OnDb cond m ver s mdt) :
    (insertMds site m ver s mdt).HoldsTables p q := by
  rcases insertMds_cases site m ver s mdt with h | ⟨info, hinfo, i, hi, db, hdb, b, h⟩
  · rwa [h]
  have hlocal := local_of_effects (effects_mdtOnDb site m info db)
  obtain ⟨hp, hq⟩ := hs.db hdb
  obtain ⟨hp', hq'⟩ :=
    hmdt ⟨ver, mdt, hinfo⟩ (hp db.handle.name) hq (hcond info hinfo i hi db hdb)
  rw [h]
  refine holds_setDb (invariant_tables hfresh) hs hdb hlocal (fun d => ?_) hq'
  by_cases hd : d = db.handle.name
  · rw [hd, ← hlocal.name]
    exact hp'
  · rw [hlocal.tables d hd]
    exact hp d

theorem holdsTables_mdtUpdate {s : Inserter} (hs : s.HoldsTables p q) {msg : Text × ℕ}
    (hcond : MdtsMeet site cond s msg) : (mdtUpdate site s msg).HoldsTables p q := by
  have hinit := holds_initDbIfneeded site (invariant_tables hfresh) s hs
  rcases mdtUpdate_cases site s msg with h | ⟨u, hu, m, hm, h⟩
  · rw [h]
    exact hinit
  · have hstep (t : Inserter) (mdt : Text) (ht : t.HoldsTables p q)
        (hc : OnDb cond m msg.2 t mdt) : (insertMds site m msg.2 t mdt).HoldsTables p q :=
      holdsTables_insertMds site hfresh hmdt ht hc
    rw [h]
    exact invariant_of_stepsMeet hstep hinit (hcond u hu m hm)

theorem holdsTables_run {s : Inserter} (hs : s.HoldsTables p q) {msgs : List (Text × ℕ)}
    (hcond : StepsMeet (mdtUpdate site) (MdtsMeet site cond) s msgs) :
    (run (mdtUpdate site) s msgs).HoldsTables p q := by
  have hstep (t : Inserter) (msg : Text × ℕ) (ht : t.HoldsTables p q)
      (hc : MdtsMeet site cond t msg) : (mdtUpdate site t msg).HoldsTables p q :=
    holdsTables_mdtUpdate site hfresh hmdt ht hc
  exact invariant_of_stepsMeet hstep hs hcond

/-- What follows from the invariant and the condition for one MDT follows for
all MDTs of a run. -/
theorem stepsMeet_mdts {cond' : MdtMetric → MdtInfo → Db → Prop}
    (himp : ∀ {m : MdtMetric} {info : MdtInfo} {db : Db}, (∀ d, p (db.world.tables d)) →
      q db.handle db.tables → cond m info db → cond' m info db)
    {s : Inserter} (hs : s.HoldsTables p q) {msgs : List (Text × ℕ)}
    (hcond : StepsMeet (mdtUpdate site) (MdtsMeet site cond) s msgs) :
    StepsMeet (mdtUpdate site) (MdtsMeet site cond') s msgs := by
  have hstep (t : Inserter) (msg : Text × ℕ) (ht : t.HoldsTables p q)
      (hc : MdtsMeet site cond t msg) : (mdtUpdate site t msg).HoldsTables p q :=
    holdsTables_mdtUpdate site hfresh hmdt ht hc
  refine StepsMeet.imp_of_invariant hstep ?_ hs hcond
  intro t msg ht hc u hu m hm
  have hinit := holds_initDbIfneeded site (invariant_tables hfresh) t ht
  have hstep (t : Inserter) (mdt : Text) (ht : t.HoldsTables p q)
      (hc : OnDb cond m msg.2 t mdt) : (insertMds site m msg.2 t mdt).HoldsTables p q :=
    holdsTables_insertMds site hfresh hmdt ht hc
  refine StepsMeet.imp_of_invariant hstep ?_ hinit (hc u hu m hm)
  intro t mdt ht hc info hinfo i hi db hdb
  obtain ⟨hp, hq⟩ := ht.db hdb
  exact himp hp hq (hc info hinfo i hi db hdb)

end

def mdsMessage (mdsname : String) (mdtnames : List String) : Text × ℕ :=
  ((lmtMdtStringV3 { sampleMds with
      nodename := some mdsname.toList, mdtlist := some (mdtnames.map String.toList) } 4096).getD [],
    3)

def tickingSite : Site where
  databases := lc1Databases
  nodup_databases := nodup_lc1Databases
  autoconf := true
  clock n := some (100 + 15 * n)
  fails _ := false

end Lmt
