import Lmt.Ltop.Decode
import Lmt.Ltop.OneRecord
import Lmt.Ltop.TargetRuns

/-!
# Metrics that are applied again

A report that is not newer than the record of its target is ignored, so that a
metric has no effect when it is applied again, provided that the records of its
targets are found.
-/

namespace Lmt

open FormattedText FirstMatch

/-- What one group of an OST metric makes `_decode_ost_v2` call `_update_ost` with. -/
def ostReport? (fs : Option Text) (m : OstMetric) (servername s : Text) : Option OstReport :=
  match lmtOstDecodeV2Ostinfo s with
  | none => none
  | some o =>
    if fsSelected fs o.ostname then some (ostReport m servername o) else none

def ostReports (val : Text) (fs : Option Text) : List OstReport :=
  match lmtOstDecodeV2 val with
  | none => []
  | some m => m.ostinfo.filterMap (ostReport? fs m (m.ossname.takeWhile (· != '.')))

/-- What one group of an MDT metric makes `_decode_mdt_v2` or `_decode_mdt_v3` call
`_update_mdt` with. -/
def mdtReport? (version : ℕ) (fs : Option Text) (m : MdtMetric) (s : Text) : Option MdtReport :=
  match lmtMdtDecodeMdtinfoHelper s version with
  | none => none
  | some i =>
    if fsSelected fs i.mdtname then some (mdtReport m i) else none

def mdtReports (version : ℕ) (val : Text) (fs : Option Text) : List MdtReport :=
  match lmtMdtDecodeV1V2V3 val version with
  | none => []
  | some m => m.mdtinfo.filterMap (mdtReport? version fs m)

section

variable {V : Type*} [Inhabited V] (point : Text → Reading → V) (val : Text) (fs : Option Text)
  (trcv staleSecs : ℤ)

theorem decodeOstV2_eq (ostData : List (Oststat V)) :
    decodeOstV2 point val fs ostData trcv staleSecs =
      (ostReports val fs).foldl (fun l r => updateOst point r l trcv staleSecs) ostData := by
  unfold decodeOstV2 ostReports
  cases lmtOstDecodeV2 val with
  | none => rfl
  | some m =>
    dsimp only
    rw [List.foldl_filterMap]
    congr 1
    funext l s
    unfold decodeOstinfo ostReport?
    cases lmtOstDecodeV2Ostinfo s with
    | none => rfl
    | some o => dsimp only; split_ifs <;> rfl

theorem decodeMdt_eq (version : ℕ) (mdtData : List (Mdtstat V)) :
    decodeMdt point version val fs mdtData trcv staleSecs =
      (mdtReports version val fs).foldl
        (fun l r => updateMdt point r l trcv staleSecs version) mdtData := by
  unfold decodeMdt mdtReports
  cases lmtMdtDecodeV1V2V3 val version with
  | none => rfl
  | some m =>
    dsimp only
    rw [List.foldl_filterMap]
    congr 1
    funext l s
    unfold decodeMdtinfo mdtReport?
    cases lmtMdtDecodeMdtinfoHelper s version with
    | none => rfl
    | some i => dsimp only; split_ifs <;> rfl

end

section

variable {V R ρ : Type*}

def Recorded (common : R → GenericTarget V) (marker : Text) (trcv : ℤ) (names : List Text)
    (l : List R) : Prop :=
  ∀ n ∈ names, (∃ r ∈ l, (common r).target marker = n) ∧
    ∀ r ∈ l, (common r).target marker = n → trcv ≤ (common r).tgtMetricTimestamp

/-- Applying the message changes nothing if its targets are recorded already, and
applying it a second time never does. -/
def NoEffect (decode : List R → List R) (recorded : Prop) (l : List R) : Prop :=
  (recorded → decode l = l) ∧ decode (decode l) = decode l

theorem GenericTarget.SameNames.matches {marker name : Text} {g g' : GenericTarget V}
    (h : g.SameNames g') : g.matches marker name = g'.matches marker name := by
  unfold GenericTarget.matches
  rw [h.1, h.2]

variable [Inhabited V] {common : R → GenericTarget V} {marker : Text} {name : ρ → Text}
  {p : ρ → R → Bool} {new : ρ → R} {f : ρ → R → R} {rs : List ρ} {l : List R} {trcv : ℤ}

/-- Reports that are not newer than the records they find have no effect, exactly
if their names are plain. -/
theorem noEffect_iff (hm : IsMarker marker)
    (hnamed : ∀ r ∈ rs, ∃ t : TargetName, name r = t.text marker)
    (hp : ∀ r a, p r a = (common a).matches marker (name r)) {staleSecs : ℤ}
    (hnew : ∀ r, common (new r) = createTarget marker (name r) staleSecs)
    (hf : ∀ r a, (common (f r a)).SameNames (common a))
    (hdone : ∀ r a, trcv ≤ (common (f r a)).tgtMetricTimestamp)
    (hold : ∀ r a, trcv ≤ (common a).tgtMetricTimestamp → f r a = a)
    (hl : ∀ a ∈ l, (common a).WellNamed marker) :
    NoEffect (fun l => rs.foldl (fun l r => updateFirst (p r) (new r) (f r) l) l)
        (Recorded common marker trcv (rs.map name) l) l ↔
      ∀ r ∈ rs, PlainName marker (name r) := by
  let Inv (a : R) : Prop := (common a).WellNamed marker
  have hmatch : ∀ r ∈ rs, ∀ a, (common a).WellNamed marker →
      (p r a ↔ PlainName marker (name r) ∧ (common a).target marker = name r) := by
    intro r hr a ha
    obtain ⟨t, ht⟩ := hnamed r hr
    rw [hp, ht]
    exact GenericTarget.matches_iff hm ha t
  have hnewNamed : ∀ r ∈ rs, (common (new r)).WellNamed marker := by
    intro r hr
    obtain ⟨t, ht⟩ := hnamed r hr
    rw [hnew, ht]
    exact createTarget_wellNamed hm t staleSecs
  have hfNamed : ∀ r a, (common a).WellNamed marker → (common (f r a)).WellNamed marker :=
    fun r a ha => (hf r a).wellNamed ha
  have hplain : ∀ r ∈ rs, ∀ a, (common a).WellNamed marker → p r a → PlainName marker (name r) :=
    fun r hr a ha hpa => ((hmatch r hr a ha).mp hpa).1
  have htwice : (∀ r ∈ rs, PlainName marker (name r) → ∃ a,
      (rs.foldl (fun l r => updateFirst (p r) (new r) (f r) l) l).find? (p r) = some a ∧
        f r a = a) := by
    intro r hr hname
    obtain ⟨t, ht⟩ := hnamed r hr
    have hkeep : ∀ r r' a, p r (f r' a) = p r a := by
      intro r r' a
      rw [hp, hp]
      exact (hf r' a).matches
    have hfirst : p r (new r) := by
      refine (hmatch r hr _ (hnewNamed r hr)).mpr ⟨hname, ?_⟩
      rw [hnew, ht]
      exact target_createTarget hm t staleSecs
    obtain ⟨a, ha, hda⟩ := find?_foldl_updateFirst (l := l)
      (fun a => trcv ≤ (common a).tgtMetricTimestamp) hkeep hdone hr hfirst
    exact ⟨a, ha, hold r a hda⟩
  have hinv := forall_foldl_updateFirst (p := p) Inv hnewNamed hfNamed hl
  constructor
  · intro h
    exact (foldl_updateFirst_eq_self_iff Inv hnewNamed hfNamed hplain hinv htwice).mp h.2
  · intro hall
    refine ⟨?_, (foldl_updateFirst_eq_self_iff Inv hnewNamed hfNamed hplain hinv htwice).mpr hall⟩
    intro hrecorded
    refine (foldl_updateFirst_eq_self_iff Inv hnewNamed hfNamed hplain hl ?_).mpr hall
    intro r hr hname
    obtain ⟨⟨a, ha, htarget⟩, htime⟩ := hrecorded (name r) (List.mem_map_of_mem hr)
    have hsome : (l.find? (p r)).isSome :=
      List.find?_isSome.mpr ⟨a, ha, (hmatch r hr a (hl a ha)).mpr ⟨hname, htarget⟩⟩
    obtain ⟨b, hb⟩ := Option.isSome_iff_exists.mp hsome
    have hmem := List.mem_of_find?_eq_some hb
    have hbtarget := ((hmatch r hr b (hl b hmem)).mp (List.find?_some hb)).2
    exact ⟨b, hb, hold r b (htime b hmem hbtarget)⟩

end

theorem wellNamed_ostInvariant (number : Reading → ℚ) :
    OstInvariant number UpdateCall.Named fun o => o.common.WellNamed "-OST".toList where
  create := by
    rintro c ⟨t, ht⟩ hmarker
    rw [ht, hmarker]
    exact createTarget_wellNamed isMarker_ost t c.staleSecs
  osc h state tnow trcv staleSecs :=
    (sameNames_setTgtstate state tnow trcv staleSecs _).wellNamed h
  report h r trcv := (sameNames_reportOst r trcv _).wellNamed h
  setTag h tagval := by
    have hnames (o : Oststat ℚ) : (o.setTag tagval).common.SameNames o.common := ⟨rfl, rfl⟩
    exact (hnames _).wellNamed h

theorem wellNamed_mdtInvariant (number : Reading → ℚ) :
    MdtInvariant number UpdateCall.Named fun m => m.common.WellNamed "-MDT".toList where
  create := by
    rintro c ⟨t, ht⟩ hmarker
    rw [ht, hmarker]
    exact createTarget_wellNamed isMarker_mdt t c.staleSecs
  report h r trcv version := (sameNames_reportMdt r trcv version _).wellNamed h

section

variable {V : Type*} {point : Text → Reading → V} {trcv : ℤ}

theorem le_timestamp_reportOst (r : OstReport) (o : Oststat V) :
    trcv ≤ (reportOst point r trcv o).common.tgtMetricTimestamp := by
  unfold reportOst
  split_ifs with hlt hsame
  · exact le_rfl
  · exact le_rfl
  · exact not_lt.mp hlt

theorem reportOst_of_le {o : Oststat V} (h : trcv ≤ o.common.tgtMetricTimestamp) (r : OstReport) :
    reportOst point r trcv o = o := by
  unfold reportOst
  rw [if_neg (not_lt.mpr h)]

theorem le_timestamp_reportMdt (r : MdtReport) (version : ℕ) (m : Mdtstat V) :
    trcv ≤ (reportMdt point r trcv version m).common.tgtMetricTimestamp := by
  unfold reportMdt
  split_ifs with hlt hsame
  · rw [common_foldl_sampleMdop]
    exact le_rfl
  · rw [common_foldl_sampleMdop]
    exact le_rfl
  · exact not_lt.mp hlt

theorem reportMdt_of_le {m : Mdtstat V} (h : trcv ≤ m.common.tgtMetricTimestamp) (r : MdtReport)
    (version : ℕ) : reportMdt point r trcv version m = m := by
  unfold reportMdt
  rw [if_neg (not_lt.mpr h)]

end

section

variable {number : Reading → ℚ} {st : TargetLists ℚ} {val : Text} {fs : Option Text}
  {trcv staleSecs : ℤ}

theorem decodeOstV2_noEffect_iff (hst : ∀ o ∈ st.ostData, o.common.WellNamed "-OST".toList)
    (hnamed : ∀ r ∈ ostReports val fs, ∃ t : TargetName, r.ostname = t.text "-OST".toList) :
    NoEffect (decodeOstV2 (fun _ => number) val fs · trcv staleSecs)
        (Recorded Oststat.common "-OST".toList trcv ((ostReports val fs).map OstReport.ostname)
          st.ostData) st.ostData ↔
      ∀ r ∈ ostReports val fs, PlainName "-OST".toList r.ostname := by
  have hdecode : (decodeOstV2 (fun _ => number) val fs · trcv staleSecs) = fun l =>
      (ostReports val fs).foldl (fun l r => updateFirst (matchOststat · r.ostname)
        (createOststat r.ostname staleSecs) (reportOst (fun _ => number) r trcv) l) l :=
    funext fun l => decodeOstV2_eq (fun _ => number) val fs trcv staleSecs l
  rw [hdecode]
  exact noEffect_iff isMarker_ost hnamed (fun _ _ => rfl) (fun _ => rfl)
    (fun r o => sameNames_reportOst r trcv o) (fun r o => le_timestamp_reportOst r o)
    (fun r _ ho => reportOst_of_le ho r) hst

theorem decodeMdt_noEffect_iff (version : ℕ)
    (hst : ∀ m ∈ st.mdtData, m.common.WellNamed "-MDT".toList)
    (hnamed : ∀ r ∈ mdtReports version val fs, ∃ t : TargetName,
      r.mdtname = t.text "-MDT".toList) :
    NoEffect (decodeMdt (fun _ => number) version val fs · trcv staleSecs)
        (Recorded Mdtstat.common "-MDT".toList trcv
          ((mdtReports version val fs).map MdtReport.mdtname) st.mdtData) st.mdtData ↔
      ∀ r ∈ mdtReports version val fs, PlainName "-MDT".toList r.mdtname := by
  have hdecode : (decodeMdt (fun _ => number) version val fs · trcv staleSecs) = fun l =>
      (mdtReports version val fs).foldl (fun l r => updateFirst (matchMdtstat · r.mdtname)
        (createMdtstat r.mdtname staleSecs) (reportMdt (fun _ => number) r trcv version) l) l :=
    funext fun l => decodeMdt_eq (fun _ => number) val fs trcv staleSecs version l
  rw [hdecode]
  exact noEffect_iff isMarker_mdt hnamed (fun _ _ => rfl) (fun _ => rfl)
    (fun r m => sameNames_reportMdt r trcv version m)
    (fun r m => le_timestamp_reportMdt r version m)
    (fun r _ hm => reportMdt_of_le hm r version) hst

/-- In every run, a message whose targets have records that are not older changes
nothing, and no message changes anything when it is applied again, if and only if
the names of its targets are plain. -/
theorem decode_noEffect_iff {actions : List TargetAction}
    (h : ∀ a ∈ actions, a.Meets UpdateCall.Named)
    (hrun : Runs.run (targetStep number) .empty actions = st) :
    ((∀ r ∈ ostReports val fs, ∃ t : TargetName, r.ostname = t.text "-OST".toList) →
      (NoEffect (decodeOstV2 (fun _ => number) val fs · trcv staleSecs)
          (Recorded Oststat.common "-OST".toList trcv ((ostReports val fs).map OstReport.ostname)
            st.ostData) st.ostData ↔
        ∀ r ∈ ostReports val fs, PlainName "-OST".toList r.ostname)) ∧
    ((∀ r ∈ mdtReports 2 val fs, ∃ t : TargetName, r.mdtname = t.text "-MDT".toList) →
      (NoEffect (decodeMdtV2 (fun _ => number) val fs · trcv staleSecs)
          (Recorded Mdtstat.common "-MDT".toList trcv ((mdtReports 2 val fs).map MdtReport.mdtname)
            st.mdtData) st.mdtData ↔
        ∀ r ∈ mdtReports 2 val fs, PlainName "-MDT".toList r.mdtname)) ∧
    ((∀ r ∈ mdtReports 3 val fs, ∃ t : TargetName, r.mdtname = t.text "-MDT".toList) →
      (NoEffect (decodeMdtV3 (fun _ => number) val fs · trcv staleSecs)
          (Recorded Mdtstat.common "-MDT".toList trcv ((mdtReports 3 val fs).map MdtReport.mdtname)
            st.mdtData) st.mdtData ↔
        ∀ r ∈ mdtReports 3 val fs, PlainName "-MDT".toList r.mdtname)) := by
  obtain ⟨hosts, hmdts⟩ :=
    targetRun_forall (wellNamed_ostInvariant number) (wellNamed_mdtInvariant number) h
  rw [hrun] at hosts hmdts
  exact ⟨decodeOstV2_noEffect_iff hosts, decodeMdt_noEffect_iff 2 hmdts,
    decodeMdt_noEffect_iff 3 hmdts⟩

end

def ostMessage (ostname : String) : Text :=
  ("2;oss1;1.0;2.0;" ++ ostname ++ ";1;2;3;4;5;6;7;8;9;10;11;12;13;COMPLETE;").toList

def ostOfRun (ostname : String) : List TargetAction :=
  [.update (.ost { sampleReport "oss1" 10 with ostname := ostname.toList } 20 60)]

def listsOfRun (ostname : String) : TargetLists ℚ :=
  Runs.run (targetStep Reading.exact) .empty (ostOfRun ostname)

/-- An older message about the OST, from another server, changes nothing. -/
theorem decode_noEffect_iff_lc1 :
    decodeOstV2 (fun _ => Reading.exact) (ostMessage "lc1-OST0000") none
      (listsOfRun "lc1-OST0000").ostData 10 60 = (listsOfRun "lc1-OST0000").ostData := by
  let lc1 : TargetName := ⟨"lc1".toList, "0000".toList, by decide, by decide, by decide⟩
  have hnames : (ostReports (ostMessage "lc1-OST0000") none).map OstReport.ostname =
      [lc1.text "-OST".toList] := by decide
  have hreports : ∀ r ∈ ostReports (ostMessage "lc1-OST0000") none,
      r.ostname = lc1.text "-OST".toList := by
    intro r hr
    have hmem := List.mem_map_of_mem (f := OstReport.ostname) hr
    rw [hnames] at hmem
    exact List.mem_singleton.mp hmem
  have hactions : ∀ a ∈ ostOfRun "lc1-OST0000", a.Meets UpdateCall.Named := by
    intro a ha
    obtain rfl := List.mem_singleton.mp ha
    exact ⟨lc1, rfl⟩
  have hplain : ∀ r ∈ ostReports (ostMessage "lc1-OST0000") none,
      PlainName "-OST".toList r.ostname := by
    intro r hr
    rw [hreports r hr]
    decide
  have hiff := (@decode_noEffect_iff Reading.exact _ (ostMessage "lc1-OST0000") none 10 60
    (ostOfRun "lc1-OST0000") hactions rfl).1 fun r hr => ⟨lc1, hreports r hr⟩
  refine (hiff.mpr hplain).1 ?_
  rw [hnames]
  unfold Recorded
  decide

/-- An older message about an OST of the file system `x-OSTy` makes another record. -/
theorem decodeOstV2_second_record :
    (∃ t : TargetName, "x-OSTy-OST0000".toList = t.text "-OST".toList) ∧
      Recorded Oststat.common "-OST".toList 10
        ((ostReports (ostMessage "x-OSTy-OST0000") none).map OstReport.ostname)
        (listsOfRun "x-OSTy-OST0000").ostData ∧
      (listsOfRun "x-OSTy-OST0000").ostData.length = 1 ∧
      (decodeOstV2 (fun _ => Reading.exact) (ostMessage "x-OSTy-OST0000") none
        (listsOfRun "x-OSTy-OST0000").ostData 10 60).length = 2 := by
  have hnames : (ostReports (ostMessage "x-OSTy-OST0000") none).map OstReport.ostname =
      ["x-OSTy-OST0000".toList] := by decide
  refine ⟨⟨⟨"x-OSTy".toList, "0000".toList, by decide, by decide, by decide⟩, rfl⟩, ?_, by decide,
    by decide⟩
  rw [hnames]
  unfold Recorded
  decide

end Lmt
