import Lmt.Database.MdtRuns

/-!
# The rows of `MDS_OPS_DATA`

A second sample of an MDT within one update interval gets the cached `TS_ID`
again. `MDS_DATA` refuses it, which counts as success, and then the operations
are inserted again, into a table without a key. Where no sample is refused, a
sample comes before its operations, so no row is there twice.
-/

namespace Lmt

open Attempts FormattedText Runs

/-- Operations come under samples, and samples under ids that were given. -/
structure Tables.OpRows (t : Tables) : Prop where
  nodup_ops : (t.mdsOpsData.map MdsOpsRow.key).Nodup
  sampled : ∀ r ∈ t.mdsOpsData, (r.mdsId, r.tsId) ∈ t.mdsData.keys
  known : ∀ k ∈ t.mdsData.keys, ∃ name, (k.1, name) ∈ t.select .mdt
  past : ∀ k ∈ t.mdsData.keys, k.2 < t.timestampInfo.next

/-- The cached ids are those of the tables, and every MDT with a sample is cached. -/
structure Handle.Caches (h : Handle) (t : Tables) : Prop where
  mdt : ∀ {name id}, lookupIdhash h .mdt name = some id → (id, name) ∈ t.select .mdt
  op : ∀ {name id}, lookupIdhash h .op name = some id → (id, name) ∈ t.select .op
  known : ∀ k ∈ t.mdsData.keys, ∃ name, lookupIdhash h .mdt name = some k.1
  timestampId : h.timestampId < t.timestampInfo.next

def OpsHold (s : Db) : Prop := s.tables.OpRows ∧ s.handle.Caches s.tables

theorem caches_of_fresh {h : Handle} {w : World} (hw : ∀ d, (w.tables d).OpRows) (hh : h.Fresh w) :
    h.Caches (w.tables h.name) where
  mdt := (hh.agrees _ _ _).mp
  op := (hh.agrees _ _ _).mp
  known k hk := by
    obtain ⟨name, hname⟩ := (hw h.name).known k hk
    exact ⟨name, (hh.agrees _ _ _).mpr hname⟩
  timestampId := by
    rw [hh.timestampId]
    exact (w.tables h.name).timestampInfo.next_pos

theorem name_unique_mdt {t : Tables} {id : ℕ} {n m : Text} (hn : (id, n) ∈ t.select .mdt)
    (hm : (id, m) ∈ t.select .mdt) : n = m := by
  obtain ⟨⟨i, r⟩, hr, hri⟩ := List.mem_map.mp hn
  obtain ⟨⟨j, r'⟩, hr', hrj⟩ := List.mem_map.mp hm
  obtain ⟨rfl, rfl⟩ := Prod.mk.inj hri
  obtain ⟨rfl, rfl⟩ := Prod.mk.inj hrj
  rw [AutoTable.eq_of_mem hr hr']

/-- No sample and no operation is inserted. -/
structure Prepares (s t : Db) : Prop where
  mdsData : t.tables.mdsData = s.tables.mdsData
  mdsOpsData : t.tables.mdsOpsData = s.tables.mdsOpsData
  holds : OpsHold s → OpsHold t

instance : IsPreorder Db Prepares where
  refl _ := ⟨rfl, rfl, id⟩
  trans _ _ _ hst htu := ⟨htu.mdsData.trans hst.mdsData, htu.mdsOpsData.trans hst.mdsOpsData,
    htu.holds ∘ hst.holds⟩

theorem prepares_called (s : Db) (n : ℕ) : Prepares s (s.called n) := ⟨rfl, rfl, id⟩

theorem prepares_tick (site : Site) (s : Db) : Prepares s (s.tick site) := ⟨rfl, rfl, id⟩

theorem prepares_stamp (s : Db) (now : ℕ) : Prepares s (s.stamp now) := ⟨rfl, rfl, id⟩

theorem prepares_insertMdsRow (s : Db) (row : MdsInfoRow) :
    Prepares s (s.update fun t => { t with mdsInfo := t.mdsInfo.insert row }) := by
  have hselect (t : Tables) {id : ℕ} {name : Text} (h : (id, name) ∈ t.select .mdt) :
      (id, name) ∈ ({ t with mdsInfo := t.mdsInfo.insert row } : Tables).select .mdt := by
    rw [Tables.select, AutoTable.rows_insert, List.map_append]
    exact List.mem_append_left _ h
  refine ⟨by rw [Db.tables_update], by rw [Db.tables_update], fun ⟨hrows, hcaches⟩ => ?_⟩
  rw [OpsHold, Db.tables_update, Db.handle_update]
  refine ⟨⟨hrows.nodup_ops, hrows.sampled, fun k hk => ?_, hrows.past⟩,
    fun h => hselect _ (hcaches.mdt h), hcaches.op, hcaches.known, hcaches.timestampId⟩
  obtain ⟨name, hname⟩ := hrows.known k hk
  exact ⟨name, hselect _ hname⟩

theorem prepares_insertTimestamp (s : Db) (now : ℕ) : Prepares s (s.insertTimestamp now) := by
  have htables : (s.insertTimestamp now).tables =
      { s.tables with timestampInfo := s.tables.timestampInfo.insert now } :=
    Db.tables_update s fun t => { t with timestampInfo := t.timestampInfo.insert now }
  refine ⟨by rw [htables], by rw [htables], fun ⟨hrows, hcaches⟩ => ?_⟩
  rw [OpsHold, htables]
  exact ⟨⟨hrows.nodup_ops, hrows.sampled, hrows.known,
      fun k hk => Nat.lt_succ_of_lt (hrows.past k hk)⟩,
    hcaches.mdt, hcaches.op, hcaches.known, Nat.lt_succ_self _⟩

variable (site : Site)

theorem prepares_mysqlCall : Moves Prepares (onWorld (mysqlCall site)) := by
  intro s
  rw [exec_onWorld_mysqlCall]
  exact prepares_called s 1

theorem prepares_populateIdhashOne (svc : Svc) (a1 : Text) :
    Moves Prepares (populateIdhashOne site svc a1) := by
  intro s
  rcases hexec : exec (populateIdhashOne site svc a1) s with ⟨o, t⟩
  rcases populateIdhashOne_cases site hexec with
    ⟨-, n, rfl⟩ | ⟨n, id, idhash, -, hmem, hinsert, rfl⟩
  · exact prepares_called s n
  refine ⟨rfl, rfl, fun ⟨hrows, hcaches⟩ => ⟨hrows, ?_, ?_, fun k hk => ?_, hcaches.timestampId⟩⟩
  · intro name id' hid
    rw [lookupIdhash_insert hinsert] at hid
    split_ifs at hid with heq
    · obtain ⟨rfl, rfl⟩ := heq
      obtain rfl := Option.some.inj hid
      exact hmem
    · exact hcaches.mdt hid
  · intro name id' hid
    rw [lookupIdhash_insert hinsert] at hid
    split_ifs at hid with heq
    · obtain ⟨rfl, rfl⟩ := heq
      obtain rfl := Option.some.inj hid
      exact hmem
    · exact hcaches.op hid
  · obtain ⟨name, hname⟩ := hcaches.known k hk
    exact ⟨name, lookupIdhash_insert_of_some hinsert hname⟩

theorem prepares_mysqlInsertMds (row : MdsInfoRow) :
    Moves Prepares (mysqlInsert site fun t => { t with mdsInfo := t.mdsInfo.insert row }) :=
  (prepares_mysqlCall site).bind fun _ => moves_modify fun s => prepares_insertMdsRow s row

theorem prepares_insertMdsInfo (mdsname mdtname : Text) :
    Moves Prepares (insertMdsInfo site mdsname mdtname) :=
  (prepares_mysqlInsertMds site _).bind fun _ =>
    (prepares_populateIdhashOne site _ _).bind fun _ => prepares_populateIdhashOne site _ _

theorem prepares_lookupOrInsert (mdsname mdtname : Text) :
    Moves Prepares (lookupOrInsert site .mdt mdtname (insertMdsInfo site mdsname mdtname)) := by
  refine moves_get.bind fun s => ?_
  cases lookupIdhash s.handle .mdt mdtname with
  | some id => exact moves_pure _
  | none => exact moves_ite ((prepares_insertMdsInfo site _ _).map some) (moves_pure none)

theorem prepares_updateTimestamp : Moves Prepares (updateTimestamp site) := by
  intro s
  rcases h : exec (updateTimestamp site) s with ⟨o, t⟩
  have htick := prepares_tick site s
  rcases updateTimestamp_cases site s h with
    ⟨-, n, rfl | rfl⟩ | ⟨-, now, -, ⟨-, rfl⟩ | ⟨-, n, rfl⟩⟩
  · exact prepares_called s n
  · exact trans_of Prepares htick (prepares_called _ n)
  · exact trans_of Prepares htick (prepares_stamp _ _)
  · refine trans_of Prepares (trans_of Prepares htick (prepares_called _ n)) ?_
    exact trans_of Prepares (prepares_insertTimestamp _ _) (prepares_stamp _ _)

/-- A name that is cached gets an id under which there is no sample. -/
theorem populateIdhashOne_new_id {s t : Db} {mdtname : Text} {id : ℕ} (hs : OpsHold s)
    (h : exec (populateIdhashOne site .mdt mdtname) s = (some id, t)) :
    lookupIdhash t.handle .mdt mdtname = some id ∧ ∀ k ∈ t.tables.mdsData.keys, k.1 ≠ id := by
  rcases populateIdhashOne_cases site h with ⟨ho, -⟩ | ⟨n, id', idhash, ho, hmem, hinsert, rfl⟩
  · cases ho
  obtain rfl := Option.some.inj ho
  refine ⟨?_, fun k hk hid => ?_⟩
  · change lookupIdhash { s.handle with idhash } .mdt mdtname = some id
    rw [lookupIdhash_insert hinsert, if_pos ⟨rfl, rfl⟩]
  · obtain ⟨name, hname⟩ := hs.2.known k hk
    have hmdt := hs.2.mdt hname
    rw [hid] at hmdt
    obtain rfl := name_unique_mdt hmdt hmem
    rw [lookupIdhash_before_insert hinsert] at hname
    cases hname

theorem lookupOrInsert_id {s u : Db} {mdsname mdtname : Text} {id : ℕ} (hs : OpsHold s)
    (h : exec (lookupOrInsert site .mdt mdtname (insertMdsInfo site mdsname mdtname)) s =
      (some (some id), u)) :
    lookupIdhash u.handle .mdt mdtname = some id ∧
      (u = s ∨ ∀ k ∈ u.tables.mdsData.keys, k.1 ≠ id) := by
  rw [lookupOrInsert, exec_bind_some (exec_get s)] at h
  cases hmdt : lookupIdhash s.handle .mdt mdtname with
  | some id' =>
    simp only [hmdt, exec_pure, Prod.mk.injEq, Option.some.injEq] at h
    obtain ⟨rfl, rfl⟩ := h
    exact ⟨hmdt, Or.inl rfl⟩
  | none =>
    simp only [hmdt] at h
    split_ifs at h
    · rw [map_eq_pure_bind] at h
      obtain ⟨id', u', hinfo, hpure⟩ := exec_bind_eq_some.mp h
      obtain ⟨hid, rfl⟩ := Prod.mk.inj hpure
      obtain rfl := Option.some.inj (Option.some.inj hid)
      obtain ⟨_, v, hinsert, hrest⟩ := exec_bind_eq_some.mp hinfo
      obtain ⟨_, v', hmds, hlast⟩ := exec_bind_eq_some.mp hrest
      have hv := ((prepares_mysqlInsertMds site _).of_exec hinsert).holds hs
      have hv' := ((prepares_populateIdhashOne site _ _).of_exec hmds).holds hv
      obtain ⟨hlookup, hnew⟩ := populateIdhashOne_new_id site hv' hlast
      exact ⟨hlookup, Or.inr hnew⟩
    · cases h

/-- The cached timestamp is kept, or it is new and there is no sample under it. -/
theorem updateTimestamp_id {s t : Db} (hs : OpsHold s)
    (h : exec (updateTimestamp site) s = (some (), t)) :
    t.handle.idhash = s.handle.idhash ∧
      ((∃ now ∈ site.clock s.world.clockReads, roundTimestamp now ≤ s.handle.timestamp ∧
          t.handle.timestampId = s.handle.timestampId) ∨
        ∀ k ∈ t.tables.mdsData.keys, k.2 ≠ t.handle.timestampId) := by
  have hprepares := (prepares_updateTimestamp site).of_exec h
  rcases updateTimestamp_cases site s h with
    ⟨ho, -⟩ | ⟨-, now, hnow, ⟨hle, rfl⟩ | ⟨-, n, rfl⟩⟩
  · cases ho
  · exact ⟨rfl, Or.inl ⟨now, hnow, hle, rfl⟩⟩
  · refine ⟨rfl, Or.inr fun k hk => ?_⟩
    rw [hprepares.mdsData] at hk
    exact (hs.1.past k hk).ne

def FirstSample (_ : MdtMetric) (info : MdtInfo) (db : Db) : Prop :=
  ∀ now ∈ site.clock db.world.clockReads, roundTimestamp now ≤ db.handle.timestamp →
    ∀ id ∈ lookupIdhash db.handle .mdt info.mdtname,
      (id, db.handle.timestampId) ∉ db.tables.mdsData.keys

instance (m : MdtMetric) (info : MdtInfo) (db : Db) : Decidable (FirstSample site m info db) := by
  unfold FirstSample
  infer_instance

def Inserted (mdtname : Text) (done : List Text) (s : Db) : Prop :=
  ∀ id, lookupIdhash s.handle .mdt mdtname = some id →
    (id, s.handle.timestampId) ∈ s.tables.mdsData.keys ∧
      ∀ r ∈ s.tables.mdsOpsData, r.mdsId = id → r.tsId = s.handle.timestampId →
        ∃ name ∈ done, lookupIdhash s.handle .op name = some r.operationId

theorem ops_of_insert_sample {s : Db} {t : Tables} {mdtname : Text} {id : ℕ} {row : MdsDataRow}
    {mdsData : KeyedTable (ℕ × ℕ) MdsDataRow} (hs : OpsHold s)
    (hid : lookupIdhash s.handle .mdt mdtname = some id)
    (hinsert : s.tables.mdsData.insert? (id, s.handle.timestampId) row = some mdsData)
    (ht : t = { s.tables with mdsData }) :
    t.OpRows ∧ s.handle.Caches t ∧ (id, s.handle.timestampId) ∈ t.mdsData.keys ∧
      ∀ r ∈ t.mdsOpsData, r.mdsId = id → r.tsId ≠ s.handle.timestampId := by
  obtain ⟨hrows, hcaches⟩ := hs
  obtain ⟨hnot, hrows'⟩ := KeyedTable.insert?_eq_some.mp hinsert
  have hkeys (k : ℕ × ℕ) :
      k ∈ mdsData.keys ↔ k ∈ s.tables.mdsData.keys ∨ k = (id, s.handle.timestampId) := by
    simp [KeyedTable.keys, hrows']
  subst ht
  refine ⟨⟨hrows.nodup_ops, fun r hr => (hkeys _).mpr (Or.inl (hrows.sampled r hr)), fun k hk => ?_,
    fun k hk => ?_⟩, ⟨hcaches.mdt, hcaches.op, fun k hk => ?_, hcaches.timestampId⟩,
    (hkeys _).mpr (Or.inr rfl), fun r hr hr₁ hr₂ => ?_⟩
  · rcases (hkeys k).mp hk with hk | rfl
    · exact hrows.known k hk
    · exact ⟨mdtname, hcaches.mdt hid⟩
  · rcases (hkeys k).mp hk with hk | rfl
    · exact hrows.past k hk
    · exact hcaches.timestampId
  · rcases (hkeys k).mp hk with hk | rfl
    · exact hcaches.known k hk
    · exact ⟨mdtname, hid⟩
  · have hsampled := hrows.sampled r hr
    rw [hr₁, hr₂] at hsampled
    exact hnot hsampled

theorem ops_insertMdsData {m : MdtMetric} {info : MdtInfo} {db : Db} (hdb : OpsHold db)
    (hfirst : FirstSample site m info db) {o : Option Unit} {t : Db}
    (h : exec (insertMdsData site m info) db = (o, t)) :
    OpsHold t ∧ (o = some () → Inserted info.mdtname [] t) := by
  rw [insertMdsData, lmtDbInsertMdsData] at h
  rcases insertSample_cases site h with
    ⟨rfl, rfl⟩ | ⟨hlookup, rfl⟩ | ⟨hlookup, -⟩ | ⟨id, u, hlookup, hrest⟩
  · exact ⟨hdb, by simp⟩
  · exact ⟨((prepares_lookupOrInsert site _ _).of_exec hlookup).holds hdb, by simp⟩
  · obtain ⟨rfl, hnone⟩ := lookupOrInsert_none site hlookup
    exact ⟨hdb, fun _ id hid => by simp [hnone] at hid⟩
  have hu := ((prepares_lookupOrInsert site _ _).of_exec hlookup).holds hdb
  obtain ⟨hid, hnew⟩ := lookupOrInsert_id site hdb hlookup
  rcases hrest with ⟨rfl, hupdate⟩ | ⟨v, hupdate, h⟩
  · exact ⟨((prepares_updateTimestamp site).of_exec hupdate).holds hu, by simp⟩
  have hprepares := (prepares_updateTimestamp site).of_exec hupdate
  have hv := hprepares.holds hu
  obtain ⟨hidhash, hstamp⟩ := updateTimestamp_id site hu hupdate
  have hnot : (id, v.handle.timestampId) ∉ v.tables.mdsData.keys := by
    intro hmem
    rcases hstamp with ⟨now, hnow, hle, hts⟩ | hts
    · rw [hprepares.mdsData] at hmem
      rcases hnew with rfl | hnew
      · rw [hts] at hmem
        exact hfirst now hnow hle id hid hmem
      · exact hnew _ hmem rfl
    · exact hts _ hmem rfl
  have hid : lookupIdhash v.handle .mdt info.mdtname = some id := by
    rw [lookupIdhash, hidhash]
    exact hid
  rcases insertRow_cases site h with ⟨n, ⟨rfl, rfl⟩ | ⟨rfl, ht⟩⟩
  · exact ⟨hv, by simp⟩
  obtain ⟨mdsData, hinsert⟩ := Option.ne_none_iff_exists'.mp fun hnone =>
    hnot (KeyedTable.insert?_eq_none.mp hnone)
  obtain ⟨hrows, hcaches, hmem, hnone⟩ := ops_of_insert_sample hv hid hinsert rfl
  have htables : t.tables = { v.tables with mdsData } := by
    rw [ht, Db.tables_insertRow, Db.tables_called, hinsert]
    rfl
  have hhandle : t.handle = v.handle := by rw [ht]; rfl
  refine ⟨⟨by rwa [htables], by rwa [htables, hhandle]⟩, fun _ id' hid' => ?_⟩
  rw [hhandle] at hid' ⊢
  rw [htables]
  obtain rfl := Option.some.inj (hid.symm.trans hid')
  exact ⟨hmem, fun r hr hr₁ hr₂ => absurd hr₂ (hnone r hr hr₁)⟩

theorem ops_opOnDb {mdtname : Text} {done : List Text} {db : Db} {op : Text} (hdb : OpsHold db)
    (hdone : Inserted mdtname done db) (hop : ∀ name ∈ opname? op, name ∉ done) :
    OpsHold (opOnDb site mdtname db op) ∧
      Inserted mdtname (done ++ (opname? op).toList) (opOnDb site mdtname db op) := by
  rcases opOnDb_cases site mdtname db op with ⟨n, h⟩ | ⟨n, name, r, hname, hmdt, hlookup, hts, h⟩
  · rw [h]
    refine ⟨hdb, fun id hid => ⟨(hdone id hid).1, fun r hr hr₁ hr₂ => ?_⟩⟩
    obtain ⟨name, hmem, hlookup⟩ := (hdone id hid).2 r hr hr₁ hr₂
    exact ⟨name, List.mem_append_left _ hmem, hlookup⟩
  obtain ⟨hrows, hcaches⟩ := hdb
  obtain ⟨hsampled, hrest⟩ := hdone r.mdsId hmdt
  have hnew : r.key ∉ db.tables.mdsOpsData.map MdsOpsRow.key := by
    intro hmem
    obtain ⟨r', hr', hkey⟩ := List.mem_map.mp hmem
    simp only [MdsOpsRow.key, Prod.mk.injEq] at hkey
    obtain ⟨name', hname', hlookup'⟩ := hrest r' hr' hkey.1 (hkey.2.1.trans hts)
    rw [hkey.2.2] at hlookup'
    have heq := AutoTable.eq_of_mem (hcaches.op hlookup) (hcaches.op hlookup')
    exact hop name hname (heq ▸ hname')
  have htables : (opOnDb site mdtname db op).tables =
      { db.tables with mdsOpsData := db.tables.mdsOpsData ++ [r] } := by
    rw [h, Db.tables_insertRow, Db.tables_called]
    rfl
  have hhandle : (opOnDb site mdtname db op).handle = db.handle := by rw [h]; rfl
  refine ⟨⟨?_, ?_⟩, fun id hid => ?_⟩
  · rw [htables]
    refine ⟨?_, fun r' hr' => ?_, hrows.known, hrows.past⟩
    · rw [List.map_append, List.nodup_append]
      refine ⟨hrows.nodup_ops, by simp, fun k hk k' hk' heq => hnew ?_⟩
      rwa [← List.mem_singleton.mp hk', ← heq]
    · rcases List.mem_append.mp hr' with hr' | hr'
      · exact hrows.sampled r' hr'
      · rw [List.mem_singleton.mp hr', hts]
        exact hsampled
  · rw [htables, hhandle]
    exact ⟨hcaches.mdt, hcaches.op, hcaches.known, hcaches.timestampId⟩
  · rw [hhandle] at hid ⊢
    rw [htables]
    refine ⟨(hdone id hid).1, fun r' hr' hr₁ hr₂ => ?_⟩
    rcases List.mem_append.mp hr' with hr' | hr'
    · obtain ⟨name', hname', hlookup'⟩ := (hdone id hid).2 r' hr' hr₁ hr₂
      exact ⟨name', List.mem_append_left _ hname', hlookup'⟩
    · rw [List.mem_singleton.mp hr']
      exact ⟨name, by simp [hname], hlookup⟩

theorem ops_run_opOnDb {mdtname : Text} {done ops : List Text} {db : Db} (hdb : OpsHold db)
    (hdone : Inserted mdtname done db) (hnodup : (done ++ ops.filterMap opname?).Nodup) :
    OpsHold (run (opOnDb site mdtname) db ops) := by
  induction ops generalizing db done with
  | nil => exact hdb
  | cons op ops ih =>
    have hfilter : (op :: ops).filterMap opname? =
        (opname? op).toList ++ ops.filterMap opname? := by
      rw [List.filterMap_cons]
      cases opname? op <;> rfl
    rw [hfilter, ← List.append_assoc] at hnodup
    have hop : ∀ name ∈ opname? op, name ∉ done := fun name hname hmem =>
      (List.nodup_append.mp (List.nodup_append.mp hnodup).1).2.2 name hmem name
        (Option.mem_toList.mpr hname) rfl
    obtain ⟨hdb, hdone⟩ := ops_opOnDb site hdb hdone hop
    exact ih hdb hdone hnodup

theorem ops_mdtOnDb {m : MdtMetric} {info : MdtInfo} {db : Db} (hinfo : info.Decoded)
    (hrows : db.tables.OpRows) (hcaches : db.handle.Caches db.tables)
    (hfirst : FirstSample site m info db) :
    (mdtOnDb site m info db).tables.OpRows ∧
      (mdtOnDb site m info db).handle.Caches (mdtOnDb site m info db).tables := by
  rw [mdtOnDb]
  rcases h : exec (insertMdsData site m info) db with ⟨o, t⟩
  obtain ⟨ht, hinserted⟩ := ops_insertMdsData site ⟨hrows, hcaches⟩ hfirst h
  cases o with
  | none => exact ht
  | some _ =>
    obtain ⟨ver, mdt, hdecode⟩ := hinfo
    refine ops_run_opOnDb site ht (hinserted rfl) ?_
    rw [List.nil_append]
    rw [decodeMdtinfoOf] at hdecode
    split_ifs at hdecode
    · exact nodup_opnames hdecode
    · exact nodup_opnames hdecode
    · exact nodup_opnames hdecode

/-- Where no MDT has a second sample under one timestamp, no operation row is
there twice. -/
theorem operation_rows_unique {w : World} (hw : ∀ d, (w.tables d).OpRows)
    {msgs : List (Text × ℕ)}
    (h : StepsMeet (mdtUpdate site) (MdtsMeet site (FirstSample site)) (.start w) msgs)
    (dbname : Text) :
    (((run (mdtUpdate site) (.start w) msgs).world.tables dbname).mdsOpsData.map
        MdsOpsRow.key).Nodup ∧
      ((run (mdtUpdate site) (.start w) msgs).world.tables dbname).mdsData.keys.Nodup := by
  have hfresh {h : Handle} {w : World} (hw : ∀ d, (w.tables d).OpRows) (hh : h.Fresh w) :=
    caches_of_fresh hw hh
  have hrun := holdsTables_run site hfresh (ops_mdtOnDb site) (holds_start hw) h
  exact ⟨(hrun.1 dbname).nodup_ops, KeyedTable.nodup_keys _⟩

section

def stillSite : Site where
  databases := lc1Databases
  nodup_databases := nodup_lc1Databases
  autoconf := true
  clock _ := some 1003
  fails _ := false

/-- A new database with two known operations. -/
def operationsWorld : World :=
  { World.empty with
    tables := fun _ =>
      { (default : Tables) with
        operationInfo := (AutoTable.empty.insert "open".toList).insert "close".toList } }

theorem opRows_operationsWorld (d : Text) : (operationsWorld.tables d).OpRows where
  nodup_ops := List.nodup_nil
  sampled _ hr := absurd hr List.not_mem_nil
  known _ hk := absurd hk List.not_mem_nil
  past _ hk := absurd hk List.not_mem_nil

def sameMessages : List (Text × ℕ) :=
  [mdsMessage "mds1" ["lc1-MDT0000"], mdsMessage "mds1" ["lc1-MDT0000"]]

/-- Within one update interval, its operations are inserted twice. -/
theorem operation_rows_repeated :
    (∀ d, (operationsWorld.tables d).OpRows) ∧
      ¬(((run (mdtUpdate stillSite) (.start operationsWorld) sameMessages).world.tables
        "filesystem_lc1".toList).mdsOpsData.map MdsOpsRow.key).Nodup :=
  ⟨opRows_operationsWorld, by decide +kernel⟩

/-- In two update intervals, they are not. -/
theorem operation_rows_unique_ticking :
    (((run (mdtUpdate tickingSite) (.start operationsWorld) sameMessages).world.tables
        "filesystem_lc1".toList).mdsOpsData.map MdsOpsRow.key).Nodup ∧
      ((run (mdtUpdate tickingSite) (.start operationsWorld) sameMessages).world.tables
        "filesystem_lc1".toList).mdsData.keys.Nodup :=
  operation_rows_unique tickingSite opRows_operationsWorld (by decide +kernel) _

end

end Lmt
