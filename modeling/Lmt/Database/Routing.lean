import Lmt.Library.FirstMatch
import Lmt.Database.Handles

/-!
# Routing a target to its database

`_svc_to_db` takes the first database whose file system name starts with the
part of the target's name before its first hyphen. That is the database of the
target's file system unless another one with this beginning stands before it.
-/

namespace Lmt

open Attempts FormattedText FirstMatch

/-- The part of a file system's name that `_svc_to_db` compares. -/
def comparedPrefix (fs : Text) : Text := fs.takeWhile (· != '-')

theorem svcPrefixLength_eq (name : Text) :
    svcPrefixLength name = (name.takeWhile (· != '-')).length := by
  have hsplit : (name.takeWhile (· != '-')).length + (name.dropWhile (· != '-')).length =
      name.length := by
    rw [← List.length_append, List.takeWhile_append_dropWhile]
  rw [svcPrefixLength, strchr]
  cases h : name.dropWhile (· != '-') with
  | nil =>
    rw [h, List.length_nil] at hsplit
    simp only
    omega
  | cons c t =>
    rw [h] at hsplit
    simp only
    omega

/-- The target's own part of the name does not matter. -/
theorem takeWhile_targetName (fs target : Text) :
    (fs ++ '-' :: target).takeWhile (· != '-') = comparedPrefix fs := by
  rw [List.takeWhile_append]
  split_ifs with h
  · have hall : fs.takeWhile (· != '-') = fs :=
      (List.takeWhile_prefix _).eq_of_length h
    simp [comparedPrefix, hall]
  · rfl

theorem strncmpEq_targetName (fsname fs target : Text) :
    strncmpEq fsname (fs ++ '-' :: target) (svcPrefixLength (fs ++ '-' :: target)) = true ↔
      comparedPrefix fs <+: fsname := by
  have htake : (fs ++ '-' :: target).take (comparedPrefix fs).length = comparedPrefix fs := by
    rw [← takeWhile_targetName fs target]
    exact List.prefix_iff_eq_take.mp (List.takeWhile_prefix _) |>.symm
  rw [svcPrefixLength_eq, takeWhile_targetName, strncmpEq, htake, beq_iff_eq, eq_comm,
    ← List.prefix_iff_eq_take]

/-- The first match is exact unless another match stands before it. -/
theorem svcToDb_eq_findIdx?_iff (dbs : List Handle) (fs target : Text) :
    svcToDb (some dbs) (fs ++ '-' :: target) = dbs.findIdx? (fun db => db.fsname = fs) ↔
      ∀ before db after, dbs = before ++ db :: after → comparedPrefix fs <+: db.fsname →
        db.fsname ≠ fs → ∃ own ∈ before, own.fsname = fs := by
  rw [svcToDb, findIdx?_eq_findIdx?_iff]
  · simp only [strncmpEq_targetName, decide_eq_true_eq]
  · intro db hdb
    rw [strncmpEq_targetName, of_decide_eq_true hdb]
    exact List.takeWhile_prefix _

/-- Only the database of the handle at a position changed. -/
structure OnlyAt (i : ℕ) (s t : Inserter) : Prop where
  names : t.dbs.map (·.map Handle.name) = s.dbs.map (·.map Handle.name)
  tables : ∀ d, (∀ db, s.db? i = some db → db.handle.name ≠ d) →
    t.world.tables d = s.world.tables d

theorem name_of_onlyAt {i j : ℕ} {s t : Inserter} (h : OnlyAt i s t) {db : Db}
    (hdb : t.db? j = some db) : ∃ db', s.db? j = some db' ∧ db'.handle.name = db.handle.name := by
  obtain ⟨dbs, hdbs, hj, -⟩ := db?_eq_some.mp hdb
  have hnames := h.names
  rw [hdbs] at hnames
  obtain ⟨dbs', hdbs', heq⟩ := Option.map_eq_some_iff.mp hnames.symm
  have hj' : (dbs'.map Handle.name)[j]? = some db.handle.name := by
    rw [heq, List.getElem?_map, hj]
    rfl
  rw [List.getElem?_map] at hj'
  obtain ⟨k, hk, hname⟩ := Option.map_eq_some_iff.mp hj'
  exact ⟨⟨k, s.world⟩, db?_eq_some.mpr ⟨dbs', hdbs', hk, rfl⟩, hname⟩

instance (i : ℕ) : IsPreorder Inserter (OnlyAt i) where
  refl _ := ⟨rfl, fun _ _ => rfl⟩
  trans _ _ _ hst htu := by
    refine ⟨htu.names.trans hst.names, fun d hd => ?_⟩
    rw [htu.tables d, hst.tables d hd]
    intro db hdb
    obtain ⟨db', hdb', hname⟩ := name_of_onlyAt hst hdb
    exact hname ▸ hd db' hdb'

theorem onlyAt_setDb {s : Inserter} {i : ℕ} {db t : Db} (hdb : s.db? i = some db)
    (hlocal : Local db t) : OnlyAt i s (s.setDb i t) := by
  obtain ⟨dbs, hdbs, hi, hw⟩ := db?_eq_some.mp hdb
  refine ⟨?_, fun d hd => ?_⟩
  · simp only [Inserter.setDb, hdbs, Option.map_some]
    rw [map_name_set hi hlocal.name]
  · rw [hw]
    exact hlocal.tables d (hd db hdb).symm

theorem onlyAt_withDb {x : DbM Unit} (hx : Moves Effects x) (i : ℕ) :
    Moves (OnlyAt i) (withDb i x) := by
  intro s
  rw [exec_withDb]
  cases hdb : s.db? i with
  | none => exact refl_of (OnlyAt i) s
  | some db =>
    have hset := onlyAt_setDb hdb (local_of_effects (hx db))
    rcases h : exec x db with ⟨_ | _, t⟩ <;> rw [h] at hset <;> simp only [h]
    · exact ⟨hset.names, hset.tables⟩
    · exact hset

variable (site : Site)

/-- A sample that is decoded and routed is inserted at that position only. -/
theorem final_routed {α : Type} {info : Option α} {name : α → Text}
    {x : α → ℕ → Attempt Inserter Unit} (hx : ∀ a i, Moves (OnlyAt i) (x a i)) (s : Inserter) :
    let t := final (do
      let a ← ofOption info
      let i ← findDb (name a)
      x a i) s
    t = s ∨ ∃ a i, info = some a ∧ svcToDb s.dbs (name a) = some i ∧ OnlyAt i s t := by
  cases info with
  | none => exact Or.inl rfl
  | some a =>
    simp only [final, ofOption_some, pure_bind, exec_bind, exec_findDb]
    cases hi : svcToDb s.dbs (name a) with
    | none => exact Or.inl rfl
    | some i => exact Or.inr ⟨a, i, rfl, hi, hx a i s⟩

theorem insertOstinfo_onlyAt (m : OstMetric) (s : Inserter) (ostr : Text) :
    insertOstinfo site m s ostr = s ∨ ∃ o i, lmtOstDecodeV2Ostinfo ostr = some o ∧
      svcToDb s.dbs o.ostname = some i ∧ OnlyAt i s (insertOstinfo site m s ostr) := by
  refine final_routed (fun o i => Moves.bind (onlyAt_withDb ?_ i) fun _ => onlyAt_withDb ?_ i) s
  · exact moves_lmtDbInsertOstData site _ _ _
  · exact moves_lmtDbInsertOssData site _ _

theorem insertMdsOps_onlyAt (i : ℕ) (mdtname : Text) (s : Inserter) (op : Text) :
    OnlyAt i s (insertMdsOps site i mdtname s op) := by
  have hmoves : Moves (OnlyAt i) (do
      let o ← ofOption (lmtMdtDecodeV1Mdops op)
      withDb i (lmtDbInsertMdsOpsData site mdtname o.opname o.samples o.sum o.sumsquares)) :=
    (moves_ofOption _).bind fun o =>
      onlyAt_withDb (moves_lmtDbInsertMdsOpsData site _ _ _ _ _) i
  exact hmoves s

/-- An MDT sample, with its operations, changes the database its MDT is routed to
and no other. -/
theorem insertMds_onlyAt (m : MdtMetric) (ver : ℕ) (s : Inserter) (mdt : Text) :
    insertMds site m ver s mdt = s ∨ ∃ info i, decodeMdtinfoOf ver mdt = some info ∧
      svcToDb s.dbs info.mdtname = some i ∧ OnlyAt i s (insertMds site m ver s mdt) := by
  refine final_routed (fun info i => Moves.bind (onlyAt_withDb ?_ i) fun _ =>
    moves_modify fun s => ?_) s
  · exact moves_lmtDbInsertMdsData site _ _ _
  · have hstep (t : Inserter) (op : Text) (ht : OnlyAt i s t) (_ : True) :
        OnlyAt i s (insertMdsOps site i info.mdtname t op) :=
      trans_of (OnlyAt i) ht (insertMdsOps_onlyAt site i info.mdtname t op)
    exact Runs.invariant_run hstep (refl_of (OnlyAt i) s) (by simp)

/-- Where routing is exact, a change is in the database of the file system. -/
theorem changed_of_onlyAt {s t : Inserter} {dbs : List Handle} {fs : Text} {i : ℕ}
    (hdbs : s.dbs = some dbs) (hi : dbs.findIdx? (fun db => db.fsname = fs) = some i)
    (h : OnlyAt i s t) {d : Text} (hd : t.world.tables d ≠ s.world.tables d) :
    ∃ db ∈ dbs, db.name = d ∧ db.fsname = fs := by
  obtain ⟨hlt, hfs, -⟩ := List.findIdx?_eq_some_iff_getElem.mp hi
  refine ⟨dbs[i], List.getElem_mem hlt, ?_, of_decide_eq_true hfs⟩
  by_contra hname
  refine hd (h.tables d fun db hdb => ?_)
  obtain ⟨dbs', hdbs', hi', -⟩ := db?_eq_some.mp hdb
  obtain rfl := Option.some.inj (hdbs.symm.trans hdbs')
  rw [List.getElem?_eq_getElem hlt] at hi'
  rwa [← Option.some.inj hi']

/-- Only databases of the file system change by a sample of the target. -/
def KeepsOtherDatabases (dbs : List Handle) (fs target : Text) : Prop :=
  ∀ s : Inserter, s.dbs = some dbs → ∀ d,
    (∀ m ostr o, lmtOstDecodeV2Ostinfo ostr = some o → o.ostname = fs ++ '-' :: target →
      (insertOstinfo site m s ostr).world.tables d ≠ s.world.tables d →
        ∃ db ∈ dbs, db.name = d ∧ db.fsname = fs) ∧
    ∀ m ver mdt info, decodeMdtinfoOf ver mdt = some info → info.mdtname = fs ++ '-' :: target →
      (insertMds site m ver s mdt).world.tables d ≠ s.world.tables d →
        ∃ db ∈ dbs, db.name = d ∧ db.fsname = fs

theorem keepsOtherDatabases_of_routed {dbs : List Handle} {fs target : Text}
    (h : svcToDb (some dbs) (fs ++ '-' :: target) = dbs.findIdx? (fun db => db.fsname = fs)) :
    KeepsOtherDatabases site dbs fs target := by
  refine fun s hdbs d => ⟨fun m ostr o ho hname hd => ?_, fun m ver mdt info hinfo hname hd => ?_⟩
  · rcases insertOstinfo_onlyAt site m s ostr with hsame | ⟨o', i, ho', hi, honly⟩
    · exact absurd (by rw [hsame]) hd
    · obtain rfl := Option.some.inj (ho.symm.trans ho')
      rw [hdbs, hname, h] at hi
      exact changed_of_onlyAt hdbs hi honly hd
  · rcases insertMds_onlyAt site m ver s mdt with hsame | ⟨info', i, hinfo', hi, honly⟩
    · exact absurd (by rw [hsame]) hd
    · obtain rfl := Option.some.inj (hinfo.symm.trans hinfo')
      rw [hdbs, hname, h] at hi
      exact changed_of_onlyAt hdbs hi honly hd

/-- A target is routed to the database of its file system, or to none when there
is none, and no other database changes, if and only if every other database
whose file system name starts with the compared part comes after the one of the
file system. -/
theorem routing_exact_iff (dbs : List Handle) (fs target : Text) :
    svcToDb (some dbs) (fs ++ '-' :: target) = dbs.findIdx? (fun db => db.fsname = fs) ∧
        KeepsOtherDatabases site dbs fs target ↔
      ∀ before db after, dbs = before ++ db :: after → comparedPrefix fs <+: db.fsname →
        db.fsname ≠ fs → ∃ own ∈ before, own.fsname = fs := by
  rw [← svcToDb_eq_findIdx?_iff dbs fs target]
  exact ⟨And.left, fun h => ⟨h, keepsOtherDatabases_of_routed site h⟩⟩

def handleFor (dbname : Text) : Handle := .new false dbname 0

/-- A target of `lc1` is sent to the database of `lc10`, which is listed first. -/
theorem svcToDb_prefix_misroutes :
    ¬svcToDb (some [handleFor "filesystem_lc10".toList, handleFor "filesystem_lc1".toList])
        "lc1-OST0000".toList =
      [handleFor "filesystem_lc10".toList, handleFor "filesystem_lc1".toList].findIdx?
        (fun db => db.fsname = "lc1".toList) := by
  decide

end Lmt
