import Lmt.Ltop.MainLoop

/-!
# The counts of what is drawn

Between two passes of the main loop the counts, and with them the heights of the
windows and the limits of paging, should be those of the lists that are drawn. A
pass counts before it summarises the servers, so that a server view is counted as
the pass before left it. And a pass that takes no samples, because the playback
is paused, does not count lists that a new choice of the file system has emptied.
-/

namespace Lmt

open FormattedText Runs

def TargetKind.servers {R Field : Type*} (kind : TargetKind R Field) (tnow staleSecs : ℤ)
    (targetData : List R) : List Text :=
  ((targetData.filter (kind.Fresh tnow staleSecs)).map kind.servername).dedup

namespace Ltop

/-- The counts are those of the lists displayed, and the heights are computed from them. -/
structure Counted (s : Ltop) : Prop where
  ostcount_eq : s.ostcount = s.displayedOsts.length
  mdtcount_eq : s.mdtcount = s.displayedMdts.length
  lines_eq : s.nav.lines = sizeWindows s.nav.proportionalView s.totalSize s.displayedMdts.length
    s.displayedOsts.length s.nav.inOstwin

/-- As long as the program runs, what is drawn is counted. -/
def Consistent (s : Ltop) : Prop := s.ended = false → s.Counted

/-- The servers of each server view are as many as its summary will have. -/
def ServersCounted (s : Ltop) : Prop :=
  (s.ostview = false →
    s.ossData.length = (ostKind.servers s.tcycle s.staleSecs s.lists.ostData).length) ∧
  (s.mdtview = false →
    s.mdsData.length = (mdtKind.servers s.tcycle s.staleSecs s.lists.mdtData).length)

/-- A new choice of the file system empties no list that is displayed. -/
def EmptiesNothing (s : Ltop) : Prop :=
  s.repoll = true →
    (s.ostview = true → s.lists.ostData = []) ∧ (s.mdtview = true → s.lists.mdtData = [])

section

variable (number : Reading → ℚ)

/-- When the pass counts again, each server view has as many records as there are
servers with fresh targets; otherwise no list that is displayed is emptied. -/
def KeepsCounts (s : Ltop) (i : LtopInput) : Prop :=
  s.ended = false → ∀ k, s.keyed number i = some k → k.ended = false →
    ∀ r, k.emptyOut.resample number i = some r →
      (r.recompute = true → r.ServersCounted) ∧ (r.recompute = false → k.EmptiesNothing)

end

section

variable {lines : ℤ} {s : Ltop}

@[simp] theorem ostcount_sortLists : s.sortLists.ostcount = s.ostcount := by
  unfold sortLists
  split_ifs <;> rfl

@[simp] theorem mdtcount_sortLists : s.sortLists.mdtcount = s.mdtcount := by
  unfold sortLists
  split_ifs <;> rfl

@[simp] theorem nav_sortLists : s.sortLists.nav = s.nav := by
  unfold sortLists
  split_ifs <;> rfl

@[simp] theorem totalSize_sortLists : s.sortLists.totalSize = s.totalSize := by
  unfold sortLists
  split_ifs <;> rfl

@[simp] theorem length_displayedOsts_sortLists :
    s.sortLists.displayedOsts.length = s.displayedOsts.length := by
  unfold sortLists
  split_ifs
  · unfold displayedOsts
    dsimp only
    split_ifs <;> exact length_sortTgtlist _ _ _ _
  · rfl

@[simp] theorem length_displayedMdts_sortLists :
    s.sortLists.displayedMdts.length = s.displayedMdts.length := by
  unfold sortLists
  split_ifs
  · unfold displayedMdts
    dsimp only
    split_ifs <;> exact length_sortTgtlist _ _ _ _
  · rfl

theorem length_summarizeOst (ostData : List (Oststat ℚ)) (tnow staleSecs : ℤ) :
    (summarizeOst ostData tnow staleSecs).length =
      (ostKind.servers tnow staleSecs ostData).length := by
  unfold summarizeOst TargetKind.servers
  rw [length_listSort, TargetKind.length_summarizeTarget]

theorem length_summarizeMdt (mdtData : List (Mdtstat ℚ)) (tnow staleSecs : ℤ) :
    (summarizeMdt mdtData tnow staleSecs).length =
      (mdtKind.servers tnow staleSecs mdtData).length := by
  unfold summarizeMdt TargetKind.servers
  rw [length_listSort, TargetKind.length_summarizeTarget]

theorem ostcount_relayout : (s.relayout lines).ostcount =
    if s.recompute then s.displayedOsts.length else s.ostcount := by
  unfold relayout summarize resize count
  rw [ostcount_sortLists]
  split_ifs <;> rfl

theorem mdtcount_relayout : (s.relayout lines).mdtcount =
    if s.recompute then s.displayedMdts.length else s.mdtcount := by
  unfold relayout summarize resize count
  rw [mdtcount_sortLists]
  split_ifs <;> rfl

theorem length_displayedOsts_relayout : (s.relayout lines).displayedOsts.length =
    if s.recompute = true ∧ s.ostview = false then
      (ostKind.servers s.tcycle s.staleSecs s.lists.ostData).length
    else s.displayedOsts.length := by
  unfold relayout
  rw [length_displayedOsts_sortLists, ← length_summarizeOst]
  unfold summarize resize count displayedOsts
  cases hview : s.ostview <;> cases hcompute : s.recompute <;> simp [hview, hcompute]

theorem length_displayedMdts_relayout : (s.relayout lines).displayedMdts.length =
    if s.recompute = true ∧ s.mdtview = false then
      (mdtKind.servers s.tcycle s.staleSecs s.lists.mdtData).length
    else s.displayedMdts.length := by
  unfold relayout
  rw [length_displayedMdts_sortLists, ← length_summarizeMdt]
  unfold summarize resize count displayedMdts
  cases hview : s.mdtview <;> cases hcompute : s.recompute <;> simp [hview, hcompute]

/-- The heights are computed from the counts, whatever these are. -/
theorem lines_relayout : (s.relayout lines).nav.lines =
    sizeWindows (s.relayout lines).nav.proportionalView (s.relayout lines).totalSize
      (s.relayout lines).mdtcount (s.relayout lines).ostcount (s.relayout lines).nav.inOstwin := by
  unfold relayout
  rw [nav_sortLists, totalSize_sortLists, ostcount_sortLists, mdtcount_sortLists]
  unfold summarize
  split_ifs <;> rfl

theorem counted_relayout : (s.relayout lines).Counted ↔
    (s.relayout lines).ostcount = (s.relayout lines).displayedOsts.length ∧
      (s.relayout lines).mdtcount = (s.relayout lines).displayedMdts.length := by
  constructor
  · intro h
    exact ⟨h.ostcount_eq, h.mdtcount_eq⟩
  · rintro ⟨host, hmdt⟩
    refine ⟨host, hmdt, ?_⟩
    rw [← host, ← hmdt]
    exact lines_relayout

/-- A pass that counts again counts the server views before they are summarised. -/
theorem counted_relayout_of_recompute (h : s.recompute = true) :
    (s.relayout lines).Counted ↔ s.ServersCounted := by
  rw [counted_relayout, ostcount_relayout, mdtcount_relayout, length_displayedOsts_relayout,
    length_displayedMdts_relayout, if_pos h, if_pos h]
  unfold ServersCounted displayedOsts displayedMdts
  apply and_congr
  · cases s.ostview <;> simp [h]
  · cases s.mdtview <;> simp [h]

theorem counted_relayout_of_not_recompute (h : s.recompute = false) :
    (s.relayout lines).Counted ↔
      s.ostcount = s.displayedOsts.length ∧ s.mdtcount = s.displayedMdts.length := by
  rw [counted_relayout, ostcount_relayout, mdtcount_relayout, length_displayedOsts_relayout,
    length_displayedMdts_relayout]
  simp [h]

@[simp] theorem ended_relayout : (s.relayout lines).ended = s.ended := by
  unfold relayout sortLists summarize resize count
  split_ifs <;> rfl

end

/-- What a key does to the counts and the lists, unless it asks for new counts. -/
structure KeyKeeps (s k : Ltop) : Prop where
  ostcount_eq : k.ostcount = s.ostcount
  mdtcount_eq : k.mdtcount = s.mdtcount
  osts_length : k.recompute = false → k.displayedOsts.length = s.displayedOsts.length
  mdts_length : k.recompute = false → k.displayedMdts.length = s.displayedMdts.length

theorem KeyKeeps.refl (s : Ltop) : KeyKeeps s s := ⟨rfl, rfl, fun _ => rfl, fun _ => rfl⟩

@[simp] theorem length_clearTags {V : Type*} (ostData : List (Oststat V)) :
    (clearTags ostData).length = ostData.length := List.length_map _

@[simp] theorem length_toggleNth {V : Type*} (selost n : ℤ) (ostData : List (Oststat V)) :
    (toggleNth selost n ostData).1.length = ostData.length := by
  induction ostData generalizing n with
  | nil => rfl
  | cons o ostData ih =>
    unfold toggleNth
    split_ifs
    · rfl
    · simp [ih]

@[simp] theorem length_tagNthOst {V : Type*} (ostData : List (Oststat V)) (selost : ℤ)
    (ostData2 : Option (List (Oststat V))) :
    (tagNthOst ostData selost ostData2).1.length = ostData.length := by
  unfold tagNthOst
  dsimp only
  split <;> exact length_toggleNth _ _ _

section

variable {number : Reading → ℚ} {s : Ltop}

theorem keyKeeps_navKey (k : NavKey) : KeyKeeps s (s.navKey k) :=
  ⟨rfl, rfl, fun _ => rfl, fun _ => rfl⟩

theorem keyKeeps_deleteKey : KeyKeeps s s.deleteKey := by
  refine ⟨rfl, rfl, fun _ => ?_, fun _ => rfl⟩
  unfold deleteKey displayedOsts
  dsimp only
  split_ifs <;> exact length_clearTags _

theorem keyKeeps_compressKey : KeyKeeps s s.compressKey := by
  unfold compressKey
  split_ifs
  · exact ⟨rfl, rfl, fun h => absurd h (by simp), fun h => absurd h (by simp)⟩
  · exact ⟨rfl, rfl, fun h => absurd h (by simp), fun h => absurd h (by simp)⟩

theorem keyKeeps_tagKey : KeyKeeps s s.tagKey := by
  unfold tagKey
  split_ifs with hview
  · refine ⟨rfl, rfl, fun _ => ?_, fun _ => rfl⟩
    unfold displayedOsts
    simp [hview]
  · refine ⟨rfl, rfl, fun _ => ?_, fun _ => rfl⟩
    unfold displayedOsts
    simp [hview]

theorem keyKeeps_setFs (newfs : Text) : KeyKeeps s (s.setFs newfs) := by
  unfold setFs
  split_ifs
  · exact KeyKeeps.refl s
  · exact ⟨rfl, rfl, fun _ => rfl, fun _ => rfl⟩

theorem keyKeeps_fsKey {tnow : ℤ} {cerebro : Cerebro} {keys : List MenuKey} {k : Ltop}
    (h : s.fsKey number tnow cerebro keys = some k) : KeyKeeps s k := by
  unfold fsKey at h
  obtain ⟨r, -, rfl⟩ := Option.map_eq_some_iff.mp h
  have hplay : KeyKeeps s { s with playf := r.2 } := ⟨rfl, rfl, fun _ => rfl, fun _ => rfl⟩
  cases chooseFs r.1 0 keys with
  | none => exact hplay
  | some fs => 
    have hset := keyKeeps_setFs (s := { s with playf := r.2 }) fs
    exact ⟨hset.ostcount_eq, hset.mdtcount_eq, hset.osts_length, hset.mdts_length⟩

theorem keyKeeps_sortKey (k : Char) : KeyKeeps s (s.sortKey k) := by
  unfold sortKey
  by_cases hk : k ∉ sortKeys
  · rw [if_pos hk]
    exact KeyKeeps.refl s
  · rw [if_neg hk]
    by_cases hwin : s.nav.inOstwin
    · rw [if_pos hwin]
      refine ⟨rfl, rfl, fun _ => ?_, fun _ => rfl⟩
      unfold displayedOsts
      dsimp only
      split_ifs <;> exact length_sortTgtlist _ _ _ _
    · rw [if_neg hwin]
      refine ⟨rfl, rfl, fun _ => rfl, fun _ => ?_⟩
      unfold displayedMdts
      dsimp only
      split_ifs <;> exact length_sortTgtlist _ _ _ _

theorem keyKeeps_recordKey : KeyKeeps s s.recordKey := by
  unfold recordKey
  cases s.playf.isSome with
  | true => exact KeyKeeps.refl s
  | false => exact ⟨rfl, rfl, fun _ => rfl, fun _ => rfl⟩

theorem keyKeeps_playKey {play : Player ℚ → Option (Player ℚ)} {keyTime : ℤ} {k : Ltop}
    (h : s.playKey play keyTime = some k) : KeyKeeps s k := by
  unfold playKey at h
  cases hfile : s.playf with
  | none =>
    rw [hfile] at h
    obtain rfl := Option.some.inj h
    exact KeyKeeps.refl s
  | some f =>
    rw [hfile] at h
    obtain ⟨p, -, rfl⟩ := Option.map_eq_some_iff.mp h
    exact ⟨rfl, rfl, fun h => absurd h (by simp), fun h => absurd h (by simp)⟩

theorem keyKeeps_key {k : LtopKey} {keyTime : ℤ} {t : Ltop}
    (h : s.key number k keyTime = some t) : KeyKeeps s t := by
  cases k with
  | nav k =>
    obtain rfl := Option.some.inj h
    exact keyKeeps_navKey k
  | proportional =>
    obtain rfl := Option.some.inj h
    exact ⟨rfl, rfl, fun _ => rfl, fun _ => rfl⟩
  | delete =>
    obtain rfl := Option.some.inj h
    exact keyKeeps_deleteKey
  | quit =>
    obtain rfl := Option.some.inj h
    exact ⟨rfl, rfl, fun _ => rfl, fun _ => rfl⟩
  | compress =>
    obtain rfl := Option.some.inj h
    exact keyKeeps_compressKey
  | tag =>
    obtain rfl := Option.some.inj h
    exact keyKeeps_tagKey
  | fs tnow cerebro keys => exact keyKeeps_fsKey h
  | sort k =>
    obtain rfl := Option.some.inj h
    exact keyKeeps_sortKey k
  | record =>
    obtain rfl := Option.some.inj h
    exact keyKeeps_recordKey
  | pause =>
    obtain rfl := Option.some.inj h
    split_ifs
    · exact ⟨rfl, rfl, fun _ => rfl, fun _ => rfl⟩
    · exact KeyKeeps.refl s
  | left => exact keyKeeps_playKey h
  | backspace => exact keyKeeps_playKey h
  | right => exact keyKeeps_playKey h
  | tab => exact keyKeeps_playKey h
  | help =>
    obtain rfl := Option.some.inj h
    exact ⟨rfl, rfl, fun _ => rfl, fun _ => rfl⟩
  | timeout =>
    obtain rfl := Option.some.inj h
    exact KeyKeeps.refl s
  | other =>
    obtain rfl := Option.some.inj h
    exact KeyKeeps.refl s

theorem keyKeeps_keyed {i : LtopInput} {k : Ltop} (h : s.keyed number i = some k) :
    KeyKeeps s k := by
  unfold keyed at h
  obtain ⟨t, ht, rfl⟩ := Option.map_eq_some_iff.mp h
  have hkeeps := keyKeeps_key ht
  unfold endHelp
  split
  · exact hkeeps
  · exact hkeeps
  · exact ⟨hkeeps.ostcount_eq, hkeeps.mdtcount_eq, hkeeps.osts_length, hkeeps.mdts_length⟩

end

section

variable {number : Reading → ℚ} {i : LtopInput} {s t : Ltop}

theorem keeps_sample {tnow : ℤ} {cerebro : Cerebro} (h : s.sample number tnow cerebro = some t) :
    t.ended = s.ended ∧ t.ostview = s.ostview ∧ t.mdtview = s.mdtview := by
  unfold sample at h
  cases hfile : s.playf with
  | none =>
    rw [hfile] at h
    obtain rfl := Option.some.inj h
    exact ⟨rfl, rfl, rfl⟩
  | some f =>
    rw [hfile] at h
    obtain ⟨p, -, rfl⟩ := Option.map_eq_some_iff.mp h
    exact ⟨rfl, rfl, rfl⟩

/-- New samples ask for new counts. -/
theorem resample_cases (h : s.resample number i = some t) :
    (t.ended = s.ended ∧ t.ostview = s.ostview ∧ t.mdtview = s.mdtview) ∧
      (t.recompute = true ∨ t = s) := by
  unfold resample at h
  split_ifs at h with hdue
  · obtain ⟨u, hu, rfl⟩ := Option.map_eq_some_iff.mp h
    have hkeeps := keeps_sample hu
    exact ⟨hkeeps, .inl rfl⟩
  · obtain rfl := Option.some.inj h
    exact ⟨⟨rfl, rfl, rfl⟩, .inr rfl⟩

theorem ended_emptyOut : s.emptyOut.ended = s.ended := by
  unfold emptyOut
  split_ifs <;> rfl

theorem recompute_emptyOut : s.emptyOut.recompute = s.recompute := by
  unfold emptyOut
  split_ifs <;> rfl

theorem counts_emptyOut (host : s.ostcount = s.displayedOsts.length)
    (hmdt : s.mdtcount = s.displayedMdts.length) :
    (s.emptyOut.ostcount = s.emptyOut.displayedOsts.length ∧
      s.emptyOut.mdtcount = s.emptyOut.displayedMdts.length) ↔ s.EmptiesNothing := by
  unfold EmptiesNothing
  cases hpoll : s.repoll with
  | false =>
    have hsame : s.emptyOut = s := by
      unfold emptyOut
      rw [hpoll]
      rfl
    simp [hsame, host, hmdt]
  | true =>
    have hempty : s.emptyOut = { s with
        lists := .empty, mdsDestroyed := true, repoll := false, lastSample := 0 } := by
      unfold emptyOut
      rw [hpoll]
      rfl
    rw [hempty]
    dsimp only
    rw [host, hmdt]
    unfold displayedOsts displayedMdts
    cases hostview : s.ostview <;> cases hmdtview : s.mdtview <;> simp [TargetLists.empty]

end

section

variable {number : Reading → ℚ} {i : LtopInput} {s : Ltop}

theorem consistent_pass_iff (h : s.Consistent) (i : LtopInput) :
    (s.pass number i).Consistent ↔ s.KeepsCounts number i := by
  unfold Ltop.pass
  cases hended : s.ended with
  | true =>
    rw [if_pos rfl]
    unfold KeepsCounts
    simp [hended, h]
  | false =>
    rw [if_neg Bool.false_ne_true]
    have hcounted := h hended
    cases hkeyed : s.keyed number i with
    | none =>
      unfold sampled KeepsCounts
      simp [hkeyed, Consistent]
    | some k =>
      have hkeeps := keyKeeps_keyed hkeyed
      cases hr : k.emptyOut.resample number i with
      | none =>
        unfold sampled KeepsCounts
        simp [hkeyed, hr, Consistent]
      | some r =>
        have hsampled : s.sampled number i = some r := by
          unfold sampled
          rw [hkeyed]
          exact hr
        rw [hsampled]
        dsimp only
        obtain ⟨⟨hend, -⟩, hcases⟩ := resample_cases hr
        rw [ended_emptyOut] at hend
        have hstep : (r.relayout i.lines).Counted ↔
            (r.recompute = true → r.ServersCounted) ∧
              (r.recompute = false → k.EmptiesNothing) := by
          cases hcompute : r.recompute with
          | true => simp [counted_relayout_of_recompute hcompute]
          | false =>
            obtain rfl : r = k.emptyOut := hcases.resolve_left (by simp [hcompute])
            rw [recompute_emptyOut] at hcompute
            have host : k.ostcount = k.displayedOsts.length := by
              rw [hkeeps.ostcount_eq, hkeeps.osts_length hcompute, hcounted.ostcount_eq]
            have hmdt : k.mdtcount = k.displayedMdts.length := by
              rw [hkeeps.mdtcount_eq, hkeeps.mdts_length hcompute, hcounted.mdtcount_eq]
            rw [counted_relayout_of_not_recompute (by rw [recompute_emptyOut, hcompute]),
              counts_emptyOut host hmdt]
            simp
        unfold Consistent KeepsCounts
        simp only [ended_relayout, hend, hstep, hended, hkeyed, hr, Option.some_inj, forall_eq',
          forall_const]

theorem counted_begin (lines : ℤ) (s : Ltop) (hostview : s.ostview = true)
    (hmdtview : s.mdtview = true) : (s.begin lines).Counted := by
  have host : (s.begin lines).ostcount = (s.begin lines).displayedOsts.length := by
    have hview : (s.begin lines).ostview = true := hostview
    unfold displayedOsts
    rw [if_pos hview]
    rfl
  have hmdt : (s.begin lines).mdtcount = (s.begin lines).displayedMdts.length := by
    have hview : (s.begin lines).mdtview = true := hmdtview
    unfold displayedMdts
    rw [if_pos hview]
    rfl
  refine ⟨host, hmdt, ?_⟩
  rw [← host, ← hmdt]
  rfl

theorem views_initFs {o : Options} {tnow : ℤ} {cerebro : Cerebro} {s : Ltop}
    (h : initFs number o tnow cerebro = some s) : s.ostview = true ∧ s.mdtview = true := by
  unfold initFs at h
  split_ifs at h
  · obtain rfl := Option.some.inj h
    exact ⟨rfl, rfl⟩
  · obtain ⟨r, -, hr⟩ := Option.bind_eq_some_iff.mp h
    obtain ⟨fs, -, rfl⟩ := Option.map_eq_some_iff.mp hr
    exact ⟨rfl, rfl⟩

theorem counted_start {o : Options} {findTime pollTime lines : ℤ} {findCerebro cerebro : Cerebro}
    {s : Ltop} (h : start number o findTime findCerebro pollTime cerebro lines = some s) :
    s.Counted := by
  unfold start at h
  obtain ⟨t, ht, hsampled⟩ := Option.bind_eq_some_iff.mp h
  obtain ⟨u, hu, hbegin⟩ := Option.bind_eq_some_iff.mp hsampled
  split_ifs at hbegin
  obtain rfl := Option.some.inj hbegin
  obtain ⟨hostview, hmdtview⟩ := views_initFs ht
  obtain ⟨-, hostview', hmdtview'⟩ := keeps_sample hu
  exact counted_begin lines u (hostview'.trans hostview) (hmdtview'.trans hmdtview)

/-- Everything that is drawn in a run is counted if and only if every pass keeps the counts. -/
theorem consistent_run_iff {o : Options} {findTime pollTime lines : ℤ}
    {findCerebro cerebro : Cerebro} {s : Ltop}
    (h : start number o findTime findCerebro pollTime cerebro lines = some s)
    (inputs : List LtopInput) :
    (∀ passes, passes <+: inputs → (run (pass number) s passes).Consistent) ↔
      StepsMeet (pass number) (KeepsCounts number) s inputs := by
  have hstep : ∀ s i, s.Consistent → ((pass number s i).Consistent ↔ s.KeepsCounts number i) :=
    fun s i h => consistent_pass_iff h i
  exact forall_reached_iff hstep (fun _ => counted_start h) inputs

end

/-- A pass without a key keeps the counts of the target views. -/
theorem keepsCounts_timeout {number : Reading → ℚ} {i : LtopInput} {s : Ltop}
    (hkey : i.key = .timeout) (hostview : s.ostview = true) (hmdtview : s.mdtview = true)
    (hrepoll : s.repoll = false) : s.KeepsCounts number i := by
  intro _ k hk _ r hr
  have hkeyed : s.keyed number i = some s := by
    unfold keyed key endHelp
    rw [hkey]
    rfl
  obtain rfl := Option.some.inj (hkeyed.symm.trans hk)
  have hempty : s.emptyOut = s := by
    unfold emptyOut
    rw [hrepoll]
    rfl
  rw [hempty] at hr
  obtain ⟨⟨-, hostview', hmdtview'⟩, -⟩ := resample_cases hr
  constructor
  · intro _
    unfold ServersCounted
    simp [hostview', hmdtview', hostview, hmdtview]
  · intro _ hpoll
    exact absurd hpoll (by simp [hrepoll])

def oneOst (time : UInt32) : Cerebro := fun name =>
  if name = "lmt_ost".toList then
    some [{ nodename := "oss1".toList, time
            value := some ("2;oss1;1.0;2.0;lc1-OST0000;1;2;3;4;5;6;7;8;9;10;11;12;13;" ++
              "COMPLETE").toList }]
  else some []

def oneOstOptions : Options where
  fs := some "lc1".toList
  samplePeriod := 2
  staleSecs := 12
  recording := false
  playf := none

/-- `c` in the first pass. -/
def compressOsts : LtopInput where
  key := .compress
  keyTime := 100
  checkTime := 101
  pollTime := 101
  cerebro := oneOst 101
  sampleTime := 101
  lines := 24

theorem start_oneOst :
    (start Reading.exact oneOstOptions 99 (oneOst 99) 99 (oneOst 99) 24).isSome := by
  decide +kernel

/-- The server view is drawn with one record, of which none is counted. -/
theorem compressOsts_not_counted :
    ∃ s, start Reading.exact oneOstOptions 99 (oneOst 99) 99 (oneOst 99) 24 = some s ∧
      (s.pass Reading.exact compressOsts).showhelp = false ∧
      ¬(s.pass Reading.exact compressOsts).Consistent := by
  have hdrawn : ((start Reading.exact oneOstOptions 99 (oneOst 99) 99 (oneOst 99) 24).map
      (pass Reading.exact · compressOsts)).map
        (fun s => (s.ended, s.showhelp, s.ostcount, s.displayedOsts.length)) =
      some (false, false, 0, 1) := by decide +kernel
  obtain ⟨s, hs⟩ := Option.isSome_iff_exists.mp start_oneOst
  rw [hs] at hdrawn
  simp only [Option.map_some, Option.some_inj, Prod.mk.injEq] at hdrawn
  obtain ⟨hended, hhelp, hcount, hlength⟩ := hdrawn
  refine ⟨s, hs, hhelp, fun h => ?_⟩
  have hcounted := (h hended).ostcount_eq
  rw [hcount, hlength] at hcounted
  exact absurd hcounted (by decide)

def sampleAgain : LtopInput := { compressOsts with key := .timeout }

/-- Passes that only sample draw the targets as they are counted. -/
theorem consistent_run_oneOst :
    ∃ s, start Reading.exact oneOstOptions 99 (oneOst 99) 99 (oneOst 99) 24 = some s ∧
      ∀ passes, passes <+: [sampleAgain] → (run (pass Reading.exact) s passes).Consistent := by
  have hviews : (start Reading.exact oneOstOptions 99 (oneOst 99) 99 (oneOst 99) 24).map
      (fun s => (s.ostview, s.mdtview, s.repoll)) = some (true, true, false) := by decide +kernel
  obtain ⟨s, hs⟩ := Option.isSome_iff_exists.mp start_oneOst
  rw [hs] at hviews
  simp only [Option.map_some, Option.some_inj, Prod.mk.injEq] at hviews
  obtain ⟨hostview, hmdtview, hrepoll⟩ := hviews
  exact ⟨s, hs, (consistent_run_iff hs [sampleAgain]).mpr
    ⟨keepsCounts_timeout rfl hostview hmdtview hrepoll, trivial⟩⟩

end Ltop

end Lmt
