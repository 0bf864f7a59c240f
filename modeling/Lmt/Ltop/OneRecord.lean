import Lmt.Library.Grouping
import Lmt.Ltop.TargetNames

/-!
# One record for each target

The menu of file systems counts the records of a file system. These are its
targets, and each has one record, exactly as long as no file system has a marker
in its name: the records of such a file system are never found again.
-/

namespace Lmt

open FormattedText FirstMatch Grouping

/-- `fsstat_t` -/
structure Fsstat where
  fsname : Text
  numMdt : ℕ
  numOst : ℕ
deriving DecidableEq

def createFsstat (fsname : Text) (mdts osts : ℕ) : Fsstat := ⟨fsname, mdts, osts⟩

def matchFsstat (fsstat : Fsstat) (fsname : Text) : Bool := fsstat.fsname = fsname

section

variable {V : Type*}

def addMdt (fsl : List Fsstat) (m : Mdtstat V) : List Fsstat :=
  mergeOrAppend (matchFsstat · m.common.fsname) (fun f => { f with numMdt := f.numMdt + 1 })
    (createFsstat m.common.fsname 1 0) fsl

def addOst (fsl : List Fsstat) (o : Oststat V) : List Fsstat :=
  mergeOrAppend (matchFsstat · o.common.fsname) (fun f => { f with numOst := f.numOst + 1 })
    (createFsstat o.common.fsname 0 1) fsl

/-- `_find_all_fs`, when the data it has peeked at filled the two lists. -/
def findAllFs (st : TargetLists V) : List Fsstat :=
  st.ostData.foldl addOst (st.mdtData.foldl addMdt [])

/-- The counted records: their file systems, and whether they are MDTs. -/
def TargetLists.counted (st : TargetLists V) : List (Bool × Text) :=
  st.mdtData.map (fun m => (true, m.common.fsname)) ++
    st.ostData.map fun o => (false, o.common.fsname)

def newFsstat (t : Bool × Text) : Fsstat :=
  if t.1 then createFsstat t.2 1 0 else createFsstat t.2 0 1

def countTarget (t : Bool × Text) (f : Fsstat) : Fsstat :=
  if t.1 then { f with numMdt := f.numMdt + 1 } else { f with numOst := f.numOst + 1 }

/-- The two loops group the records by file system. -/
theorem findAllFs_eq_group (st : TargetLists V) :
    findAllFs st = group Prod.snd Fsstat.fsname newFsstat countTarget st.counted := by
  rw [group, TargetLists.counted, List.foldl_append, List.foldl_map, List.foldl_map]
  rfl

theorem fsname_newFsstat (t : Bool × Text) : (newFsstat t).fsname = t.2 := by
  unfold newFsstat createFsstat
  split_ifs <;> rfl

theorem fsname_countTarget (t : Bool × Text) (f : Fsstat) :
    (countTarget t f).fsname = f.fsname := by
  unfold countTarget
  split_ifs <;> rfl

theorem counts_record (ts : List (Bool × Text)) (f : Fsstat)
    (h : record newFsstat countTarget ts = some f) :
    f.numMdt = ts.countP (·.1) ∧ f.numOst = ts.countP (!·.1) := by
  induction ts using List.reverseRecOn generalizing f with
  | nil => simp [record] at h
  | append_singleton ts t ih =>
    rw [record_concat, Option.some_inj] at h
    rw [List.countP_append, List.countP_append]
    cases hts : record newFsstat countTarget ts with
    | none =>
      rw [record_eq_none] at hts
      subst hts h
      cases ht : t.1 <;> simp [record, newFsstat, createFsstat, ht]
    | some f' =>
      obtain ⟨hmdt, host⟩ := ih f' hts
      rw [hts, Option.map_some, Option.getD_some] at h
      subst h
      cases ht : t.1 <;> simp [countTarget, ht, hmdt, host]

theorem nodup_findAllFs (st : TargetLists V) : ((findAllFs st).map Fsstat.fsname).Nodup := by
  rw [findAllFs_eq_group]
  exact nodup_group fsname_newFsstat fsname_countTarget _

theorem mem_findAllFs (st : TargetLists V) (fs : Text) :
    fs ∈ (findAllFs st).map Fsstat.fsname ↔
      (∃ m ∈ st.mdtData, m.common.fsname = fs) ∨ ∃ o ∈ st.ostData, o.common.fsname = fs := by
  rw [findAllFs_eq_group, mem_map_group fsname_newFsstat fsname_countTarget]
  simp [TargetLists.counted]

theorem counts_findAllFs {st : TargetLists V} {f : Fsstat} (h : f ∈ findAllFs st) :
    f.numMdt = (st.mdtData.map (·.common.fsname)).count f.fsname ∧
      f.numOst = (st.ostData.map (·.common.fsname)).count f.fsname := by
  have hfind := (find?_eq_some_iff (nodup_findAllFs st)).mpr ⟨h, rfl⟩
  rw [findAllFs_eq_group, find?_group fsname_newFsstat fsname_countTarget] at hfind
  obtain ⟨hmdt, host⟩ := counts_record _ _ hfind
  rw [hmdt, host]
  constructor
  · rw [List.countP_filter, TargetLists.counted, List.countP_append, List.countP_map,
      List.countP_map, List.count, List.countP_map]
    simp [Function.comp_def, List.countP_false, beq_eq_decide]
  · rw [List.countP_filter, TargetLists.counted, List.countP_append, List.countP_map,
      List.countP_map, List.count, List.countP_map]
    simp [Function.comp_def, List.countP_false, beq_eq_decide]

end

def targetsNamed (marker : Text) (calls : List UpdateCall) : List Text :=
  (calls.filter (·.marker = marker)).map UpdateCall.target

/-- Those of one file system, each once. -/
def distinctTargets (marker fs : Text) (calls : List UpdateCall) : List Text :=
  ((targetsNamed marker calls).filter (fsPart · = fs)).dedup

section

variable {V : Type*}

def TargetLists.ostTargets (st : TargetLists V) : List Text :=
  st.ostData.map (·.common.target "-OST".toList)

def TargetLists.mdtTargets (st : TargetLists V) : List Text :=
  st.mdtData.map (·.common.target "-MDT".toList)

/-- No target has two records, and the menu has every file system once, with the
number of its targets. -/
structure OneRecordEach (calls : List UpdateCall) (st : TargetLists V) : Prop where
  osts : st.ostTargets.Nodup
  mdts : st.mdtTargets.Nodup
  menu : ((findAllFs st).map Fsstat.fsname).Nodup
  listed : ∀ fs, fs ∈ (findAllFs st).map Fsstat.fsname ↔ ∃ c ∈ calls, fsPart c.target = fs
  counts : ∀ f ∈ findAllFs st,
    f.numMdt = (distinctTargets "-MDT".toList f.fsname calls).length ∧
      f.numOst = (distinctTargets "-OST".toList f.fsname calls).length

/-- Only the record of the call's target may differ. -/
def OthersKept (c : UpdateCall) (st st' : TargetLists V) : Prop :=
  match c with
  | .mdt r .. => st'.ostData = st.ostData ∧
      st'.mdtData.filter (fun m => m.common.target "-MDT".toList ≠ r.mdtname) =
        st.mdtData.filter fun m => m.common.target "-MDT".toList ≠ r.mdtname
  | c => st'.mdtData = st.mdtData ∧
      st'.ostData.filter (fun o => o.common.target "-OST".toList ≠ c.target) =
        st.ostData.filter fun o => o.common.target "-OST".toList ≠ c.target

end

section

variable {V R : Type*} {common : R → GenericTarget V} {marker : Text} {p : R → Bool} {new : R}
  {f : R → R} {l : List R}

def GenericTarget.SameNames (g g' : GenericTarget V) : Prop :=
  g.fsname = g'.fsname ∧ g.name = g'.name

theorem GenericTarget.SameNames.target {g g' : GenericTarget V} (h : g.SameNames g') :
    g.target marker = g'.target marker := by
  rw [GenericTarget.target, GenericTarget.target, h.1, h.2]

theorem GenericTarget.SameNames.wellNamed {g g' : GenericTarget V} (h : g.SameNames g')
    (hg : g'.WellNamed marker) : g.WellNamed marker :=
  ⟨h.target ▸ hg.target, h.1 ▸ hg.first⟩

theorem wellNamed_updateFirst (hl : ∀ r ∈ l, (common r).WellNamed marker)
    (hnew : (common new).WellNamed marker) (hf : ∀ r, (common (f r)).SameNames (common r)) :
    ∀ r ∈ updateFirst p new f l, (common r).WellNamed marker := by
  apply forall_mem_updateFirst hl
  exact (hf _).wellNamed (forall_firstOrNew hl hnew)

end

section

variable {V : Type*} {point : Text → Reading → V}

theorem sameNames_setTgtstate (state : Text) (tnow trcv staleSecs : ℤ) (o : Oststat V) :
    (setTgtstate state tnow trcv staleSecs o).common.SameNames o.common := ⟨rfl, rfl⟩

theorem sameNames_reportOst (r : OstReport) (trcv : ℤ) (o : Oststat V) :
    (reportOst point r trcv o).common.SameNames o.common := by
  unfold reportOst
  split_ifs <;> exact ⟨rfl, rfl⟩

theorem sameNames_reportMdt (r : MdtReport) (trcv : ℤ) (version : ℕ) (m : Mdtstat V) :
    (reportMdt point r trcv version m).common.SameNames m.common := by
  unfold reportMdt
  split_ifs
  · rw [common_foldl_sampleMdop]
    exact ⟨rfl, rfl⟩
  · rw [common_foldl_sampleMdop]
    exact ⟨rfl, rfl⟩
  · exact ⟨rfl, rfl⟩

/-- All records have been made for targets. -/
structure TargetLists.WellNamed (st : TargetLists V) : Prop where
  osts : ∀ o ∈ st.ostData, o.common.WellNamed "-OST".toList
  mdts : ∀ m ∈ st.mdtData, m.common.WellNamed "-MDT".toList

variable [Inhabited V]

theorem updateTargets_wellNamed {st : TargetLists V} (h : st.WellNamed) {c : UpdateCall}
    (hc : c.Named) : (updateTargets point st c).WellNamed := by
  obtain ⟨t, ht⟩ := hc
  cases c with
  | osc name state tnow trcv staleSecs =>
    obtain rfl : name = t.text "-OST".toList := ht
    exact ⟨wellNamed_updateFirst h.osts (createTarget_wellNamed isMarker_ost t staleSecs)
      (sameNames_setTgtstate state tnow trcv staleSecs), h.mdts⟩
  | ost r trcv staleSecs =>
    have hnew : (createOststat r.ostname staleSecs : Oststat V).common.WellNamed "-OST".toList := by
      rw [show r.ostname = t.text "-OST".toList from ht]
      exact createTarget_wellNamed isMarker_ost t staleSecs
    exact ⟨wellNamed_updateFirst h.osts hnew (sameNames_reportOst r trcv), h.mdts⟩
  | mdt r trcv staleSecs version =>
    have hnew : (createMdtstat r.mdtname staleSecs : Mdtstat V).common.WellNamed "-MDT".toList := by
      rw [show r.mdtname = t.text "-MDT".toList from ht]
      exact createTarget_wellNamed isMarker_mdt t staleSecs
    exact ⟨h.osts, wellNamed_updateFirst h.mdts hnew (sameNames_reportMdt r trcv version)⟩

theorem run_wellNamed {calls : List UpdateCall} (h : ∀ c ∈ calls, c.Named) :
    (Runs.run (updateTargets point) .empty calls).WellNamed := by
  have hempty : (TargetLists.empty : TargetLists V).WellNamed :=
    ⟨List.forall_mem_nil _, List.forall_mem_nil _⟩
  have hstep (st : TargetLists V) (c : UpdateCall) (hst : st.WellNamed) (hc : c.Named) :
      (updateTargets point st c).WellNamed := updateTargets_wellNamed hst hc
  exact Runs.invariant_run hstep hempty h

end

section

variable {V R : Type*} [Inhabited V] {common : R → GenericTarget V} {marker : Text}
  {p : R → Bool} {new : R} {f : R → R} {l : List R}

/-- Among records made for targets, a plain name finds exactly the record of its
target. -/
theorem target_updateFirst (hm : IsMarker marker) {t : TargetName}
    (hplain : PlainName marker (t.text marker)) (hl : ∀ r ∈ l, (common r).WellNamed marker)
    (hp : ∀ r, p r = (common r).matches marker (t.text marker)) {staleSecs : ℤ}
    (hnew : common new = createTarget marker (t.text marker) staleSecs)
    (hf : ∀ r, (common (f r)).SameNames (common r)) :
    (updateFirst p new f l).map (fun r => (common r).target marker) =
        addKey (l.map fun r => (common r).target marker) (t.text marker) ∧
      (updateFirst p new f l).filter (fun r => (common r).target marker ≠ t.text marker) =
        l.filter fun r => (common r).target marker ≠ t.text marker := by
  have hmatch : ∀ r ∈ l, p r ↔ (common r).target marker = t.text marker := by
    intro r hr
    rw [hp, GenericTarget.matches_iff hm (hl r hr)]
    exact and_iff_right hplain
  have htarget : (common new).target marker = t.text marker := by
    rw [hnew]
    exact target_createTarget hm t staleSecs
  have hkeep (r : R) : (common (f r)).target marker = (common r).target marker := (hf r).target
  exact ⟨map_key_updateFirst hmatch htarget hkeep, filter_ne_updateFirst hmatch htarget hkeep⟩

end

section

variable {V : Type*} [Inhabited V] {point : Text → Reading → V} {st : TargetLists V}

/-- What an update of a plain name does to the names of the records, and what it
leaves alone. -/
theorem targets_updateTargets (hst : st.WellNamed) {c : UpdateCall} (hc : c.Named)
    (hplain : c.Plain) :
    (updateTargets point st c).ostTargets =
        (if c.marker = "-OST".toList then addKey st.ostTargets c.target else st.ostTargets) ∧
      (updateTargets point st c).mdtTargets =
        (if c.marker = "-MDT".toList then addKey st.mdtTargets c.target else st.mdtTargets) ∧
      OthersKept c st (updateTargets point st c) := by
  obtain ⟨t, ht⟩ := hc
  have hmarkers : ¬"-OST".toList = "-MDT".toList := by decide
  cases c with
  | osc name state tnow trcv staleSecs =>
    obtain rfl : name = t.text "-OST".toList := ht
    have hp (o : Oststat V) : matchOststat o (t.text "-OST".toList) =
      o.common.matches "-OST".toList (t.text "-OST".toList) := rfl
    have hnew : (createOststat (t.text "-OST".toList) staleSecs : Oststat V).common =
      createTarget "-OST".toList (t.text "-OST".toList) staleSecs := rfl
    obtain ⟨hnames, hothers⟩ := target_updateFirst isMarker_ost hplain hst.osts hp hnew
      (sameNames_setTgtstate state tnow trcv staleSecs)
    exact ⟨hnames.trans (if_pos rfl).symm, (if_neg hmarkers).symm, rfl, hothers⟩
  | ost r trcv staleSecs =>
    have hname : r.ostname = t.text "-OST".toList := ht
    have hp (o : Oststat V) : matchOststat o r.ostname =
      o.common.matches "-OST".toList (t.text "-OST".toList) := by rw [hname]; rfl
    have hnew : (createOststat r.ostname staleSecs : Oststat V).common =
      createTarget "-OST".toList (t.text "-OST".toList) staleSecs := by rw [hname]; rfl
    obtain ⟨hnames, hothers⟩ := target_updateFirst isMarker_ost (hname ▸ hplain) hst.osts hp hnew
      (sameNames_reportOst r trcv)
    rw [← hname] at hnames hothers
    exact ⟨hnames.trans (if_pos rfl).symm, (if_neg hmarkers).symm, rfl, hothers⟩
  | mdt r trcv staleSecs version =>
    have hname : r.mdtname = t.text "-MDT".toList := ht
    have hp (m : Mdtstat V) : matchMdtstat m r.mdtname =
      m.common.matches "-MDT".toList (t.text "-MDT".toList) := by rw [hname]; rfl
    have hnew : (createMdtstat r.mdtname staleSecs : Mdtstat V).common =
      createTarget "-MDT".toList (t.text "-MDT".toList) staleSecs := by rw [hname]; rfl
    obtain ⟨hnames, hothers⟩ := target_updateFirst isMarker_mdt (hname ▸ hplain) hst.mdts hp hnew
      (sameNames_reportMdt r trcv version)
    rw [← hname] at hnames hothers
    exact ⟨(if_neg fun h => hmarkers h.symm).symm, hnames.trans (if_pos rfl).symm, rfl, hothers⟩

end

theorem mem_targetsNamed_concat (marker : Text) (calls : List UpdateCall) (c : UpdateCall)
    (n : Text) : n ∈ targetsNamed marker (calls ++ [c]) ↔
      n ∈ targetsNamed marker calls ∨ (c.marker = marker ∧ n = c.target) := by
  simp only [targetsNamed, List.mem_map, List.mem_filter, List.mem_append, List.mem_singleton,
    decide_eq_true_eq]
  constructor
  · rintro ⟨c', ⟨hc' | rfl, hmarker⟩, rfl⟩
    · exact .inl ⟨c', ⟨hc', hmarker⟩, rfl⟩
    · exact .inr ⟨hmarker, rfl⟩
  · rintro (⟨c', ⟨hc', hmarker⟩, rfl⟩ | ⟨hmarker, rfl⟩)
    · exact ⟨c', ⟨.inl hc', hmarker⟩, rfl⟩
    · exact ⟨c, ⟨.inr rfl, hmarker⟩, rfl⟩

section

variable {V : Type*} [Inhabited V] {point : Text → Reading → V}

theorem run_targets {calls : List UpdateCall} (hnames : ∀ c ∈ calls, c.Named)
    (hplain : ∀ c ∈ calls, c.Plain) {st : TargetLists V}
    (hrun : Runs.run (updateTargets point) .empty calls = st) :
    (st.ostTargets.Nodup ∧ ∀ n, n ∈ st.ostTargets ↔ n ∈ targetsNamed "-OST".toList calls) ∧
      st.mdtTargets.Nodup ∧ ∀ n, n ∈ st.mdtTargets ↔ n ∈ targetsNamed "-MDT".toList calls := by
  induction calls using List.reverseRecOn generalizing st with
  | nil =>
    subst hrun
    exact ⟨⟨List.nodup_nil, fun _ => Iff.rfl⟩, List.nodup_nil, fun _ => Iff.rfl⟩
  | append_singleton calls c ih =>
    simp only [List.forall_mem_append, List.forall_mem_singleton] at hnames hplain
    obtain ⟨⟨host, hostMem⟩, hmdt, hmdtMem⟩ := ih hnames.1 hplain.1 rfl
    have hwell : (Runs.run (updateTargets point) .empty calls).WellNamed := run_wellNamed hnames.1
    rw [Runs.run_concat] at hrun
    subst hrun
    obtain ⟨hostTargets, hmdtTargets, -⟩ :=
      @targets_updateTargets V _ point _ hwell c hnames.2 hplain.2
    rw [hostTargets, hmdtTargets]
    refine ⟨⟨?_, ?_⟩, ?_, ?_⟩
    · split_ifs
      · exact nodup_addKey host _
      · exact host
    · intro n
      rw [mem_targetsNamed_concat, ← hostMem]
      split_ifs with hmarker
      · rw [mem_addKey]
        exact or_congr_right (and_iff_right hmarker).symm
      · exact (or_iff_left fun h => hmarker h.1).symm
    · split_ifs
      · exact nodup_addKey hmdt _
      · exact hmdt
    · intro n
      rw [mem_targetsNamed_concat, ← hmdtMem]
      split_ifs with hmarker
      · rw [mem_addKey]
        exact or_congr_right (and_iff_right hmarker).symm
      · exact (or_iff_left fun h => hmarker h.1).symm

end

section

variable {V R : Type*} {common : R → GenericTarget V} {marker : Text} {l : List R}

theorem GenericTarget.WellNamed.fsname_eq (hm : IsMarker marker) {g : GenericTarget V}
    (h : g.WellNamed marker) (hplain : PlainName marker (g.target marker)) :
    g.fsname = fsPart (g.target marker) := by
  obtain ⟨t, ht⟩ := h.target
  have hmatch : g.matches marker (t.text marker) :=
    (GenericTarget.matches_iff hm h t).mpr ⟨ht ▸ hplain, ht⟩
  rw [ht]
  exact (fsmatch_iff _ _).mp ((Bool.and_eq_true _ _).mp hmatch).2

theorem map_fsname (hm : IsMarker marker) (hl : ∀ r ∈ l, (common r).WellNamed marker)
    (hplain : ∀ n ∈ l.map (fun r => (common r).target marker), PlainName marker n) :
    l.map (fun r => (common r).fsname) =
      (l.map fun r => (common r).target marker).map fsPart := by
  rw [List.map_map]
  apply List.map_congr_left
  intro r hr
  exact (hl r hr).fsname_eq hm (hplain _ (List.mem_map_of_mem hr))

/-- The records of a file system are as many as its targets. -/
theorem count_fsPart {names : List Text} (hnodup : names.Nodup) {calls : List UpdateCall}
    (hmem : ∀ n, n ∈ names ↔ n ∈ targetsNamed marker calls) (fs : Text) :
    (names.map fsPart).count fs = (distinctTargets marker fs calls).length := by
  have hperm : (names.filter (fsPart · = fs)).Perm (distinctTargets marker fs calls) := by
    rw [distinctTargets, List.perm_ext_iff_of_nodup (hnodup.filter _) (List.nodup_dedup _)]
    intro n
    rw [List.mem_dedup, List.mem_filter, List.mem_filter, hmem]
  rw [← hperm.length_eq, List.count, List.countP_map, List.countP_eq_length_filter]
  congr 1
  apply List.filter_congr
  intro n _
  simp [beq_eq_decide]

/-- No record has a file system whose name has the marker. -/
theorem count_fsname_eq_zero (hl : ∀ r ∈ l, (common r).WellNamed marker) {fs : Text}
    (hfs : marker <:+: fs) : (l.map fun r => (common r).fsname).count fs = 0 := by
  rw [List.count_eq_zero]
  intro hmem
  obtain ⟨r, hr, rfl⟩ := List.mem_map.mp hmem
  exact (hl r hr).first hfs

end

section

variable {V : Type*} [Inhabited V] {point : Text → Reading → V} {calls : List UpdateCall}

theorem plain_of_mem_targetsNamed {marker : Text} (hplain : ∀ c ∈ calls, c.Plain) :
    ∀ n ∈ targetsNamed marker calls, PlainName marker n := by
  intro n hn
  obtain ⟨c, hc, rfl⟩ := List.mem_map.mp hn
  obtain ⟨hc, hmarker⟩ := List.mem_filter.mp hc
  exact of_decide_eq_true hmarker ▸ hplain c hc

theorem oneRecordEach_of_plain (hnames : ∀ c ∈ calls, c.Named) (hplain : ∀ c ∈ calls, c.Plain) :
    OneRecordEach calls (Runs.run (updateTargets point) .empty calls) := by
  obtain ⟨⟨host, hostMem⟩, hmdt, hmdtMem⟩ := @run_targets V _ point calls hnames hplain _ rfl
  have hwell : (Runs.run (updateTargets point) .empty calls).WellNamed := run_wellNamed hnames
  generalize Runs.run (updateTargets point) .empty calls = st at *
  have hostFs : st.ostData.map (·.common.fsname) = st.ostTargets.map fsPart :=
    map_fsname isMarker_ost hwell.osts fun n hn =>
      plain_of_mem_targetsNamed hplain n ((hostMem n).mp hn)
  have hmdtFs : st.mdtData.map (·.common.fsname) = st.mdtTargets.map fsPart :=
    map_fsname isMarker_mdt hwell.mdts fun n hn =>
      plain_of_mem_targetsNamed hplain n ((hmdtMem n).mp hn)
  refine ⟨host, hmdt, nodup_findAllFs st, ?_, ?_⟩
  · intro fs
    have hrecords : fs ∈ (findAllFs st).map Fsstat.fsname ↔
        fs ∈ st.mdtTargets.map fsPart ∨ fs ∈ st.ostTargets.map fsPart := by
      rw [mem_findAllFs, ← hostFs, ← hmdtFs, List.mem_map, List.mem_map]
    rw [hrecords, List.mem_map, List.mem_map]
    constructor
    · rintro (⟨n, hn, rfl⟩ | ⟨n, hn, rfl⟩)
      · obtain ⟨c, hc, rfl⟩ := List.mem_map.mp ((hmdtMem n).mp hn)
        exact ⟨c, List.mem_of_mem_filter hc, rfl⟩
      · obtain ⟨c, hc, rfl⟩ := List.mem_map.mp ((hostMem n).mp hn)
        exact ⟨c, List.mem_of_mem_filter hc, rfl⟩
    · rintro ⟨c, hc, rfl⟩
      have hmem {marker : Text} (hmarker : c.marker = marker) :
          c.target ∈ targetsNamed marker calls :=
        List.mem_map_of_mem (List.mem_filter.mpr ⟨hc, decide_eq_true hmarker⟩)
      rcases c.marker_cases with hmarker | hmarker
      · exact .inr ⟨_, (hostMem _).mpr (hmem hmarker), rfl⟩
      · exact .inl ⟨_, (hmdtMem _).mpr (hmem hmarker), rfl⟩
  · intro f hf
    obtain ⟨hnumMdt, hnumOst⟩ := counts_findAllFs hf
    rw [hnumMdt, hnumOst, hostFs, hmdtFs]
    exact ⟨count_fsPart hmdt hmdtMem f.fsname, count_fsPart host hostMem f.fsname⟩

/-- In every run of updates no target has two records, an update only touches the
record of its own target, and the menu has every file system once with the number
of its targets, if and only if no file system has a marker in its name. -/
theorem updateTargets_oneRecord_iff (hnames : ∀ c ∈ calls, c.Named) :
    (OneRecordEach calls (Runs.run (updateTargets point) .empty calls) ∧
      ∀ before c after, calls = before ++ c :: after →
        OthersKept c (Runs.run (updateTargets point) .empty before)
          (Runs.run (updateTargets point) .empty (before ++ [c]))) ↔
      ∀ c ∈ calls, c.Plain := by
  constructor
  · rintro ⟨hone, -⟩ c hc
    by_contra hplain
    have hwell : (Runs.run (updateTargets point) .empty calls).WellNamed := run_wellNamed hnames
    obtain ⟨f, hf, hfs⟩ := List.mem_map.mp ((hone.listed (fsPart c.target)).mpr ⟨c, hc, rfl⟩)
    have hmarker : c.marker <:+: f.fsname := hfs ▸ not_not.mp hplain
    have hpos : 0 < (distinctTargets c.marker f.fsname calls).length := by
      apply List.length_pos_of_mem (a := c.target)
      rw [distinctTargets, List.mem_dedup, List.mem_filter]
      refine ⟨?_, decide_eq_true hfs.symm⟩
      exact List.mem_map_of_mem (List.mem_filter.mpr ⟨hc, decide_eq_true rfl⟩)
    obtain ⟨hmdts, hosts⟩ := hone.counts f hf
    obtain ⟨hnumMdt, hnumOst⟩ := counts_findAllFs hf
    rcases c.marker_cases with hkind | hkind
    · rw [hkind] at hmarker hpos
      have hzero := count_fsname_eq_zero hwell.osts hmarker
      omega
    · rw [hkind] at hmarker hpos
      have hzero := count_fsname_eq_zero hwell.mdts hmarker
      omega
  · intro hplain
    refine ⟨oneRecordEach_of_plain hnames hplain, ?_⟩
    rintro before c after rfl
    simp only [List.forall_mem_append, List.forall_mem_cons] at hnames hplain
    rw [Runs.run_concat]
    exact (targets_updateTargets (run_wellNamed hnames.1) hnames.2.1 hplain.2.1).2.2

end

/-- Reports of an OST of the file system `a-b`. -/
def hyphenReports : List UpdateCall :=
  [.ost { sampleReport "oss1" 10 with ostname := "a-b-OST0000".toList } 10 60,
    .ost { sampleReport "oss1" 20 with ostname := "a-b-OST0000".toList } 20 60]

theorem updateTargets_oneRecord_iff_hyphen :
    OneRecordEach hyphenReports
      (Runs.run (updateTargets fun _ => Reading.exact) .empty hyphenReports) := by
  have hnames : ∀ c ∈ hyphenReports, c.Named := by
    intro c hc
    refine ⟨⟨"a-b".toList, "0000".toList, by decide, by decide, by decide⟩, ?_⟩
    rcases List.mem_pair.mp hc with rfl | rfl <;> rfl
  exact ((updateTargets_oneRecord_iff hnames).mpr (by decide)).1

/-- Reports of an OST of the file system `x-OSTy`. -/
def markerReports : List UpdateCall :=
  [.ost { sampleReport "oss1" 10 with ostname := "x-OSTy-OST0000".toList } 10 60,
    .ost { sampleReport "oss1" 20 with ostname := "x-OSTy-OST0000".toList } 20 60]

/-- The second report of the OST makes a second record, and the menu has another
file system. -/
theorem updateTargets_two_records :
    (∀ c ∈ markerReports, c.Named) ∧
      (Runs.run (updateTargets fun _ => Reading.exact) .empty markerReports).ostTargets =
        ["x-OSTy-OST0000".toList, "x-OSTy-OST0000".toList] ∧
      findAllFs (Runs.run (updateTargets fun _ => Reading.exact) .empty markerReports) =
        [⟨"x".toList, 0, 2⟩] ∧
      ¬OneRecordEach markerReports
        (Runs.run (updateTargets fun _ => Reading.exact) .empty markerReports) := by
  have htargets : (Runs.run (updateTargets fun _ => Reading.exact) .empty
      markerReports).ostTargets = ["x-OSTy-OST0000".toList, "x-OSTy-OST0000".toList] := by decide
  refine ⟨?_, htargets, by decide, ?_⟩
  · intro c hc
    refine ⟨⟨"x-OSTy".toList, "0000".toList, by decide, by decide, by decide⟩, ?_⟩
    rcases List.mem_pair.mp hc with rfl | rfl <;> rfl
  · intro hone
    have hnodup := hone.osts
    rw [htargets] at hnodup
    exact absurd hnodup (by decide)

end Lmt
