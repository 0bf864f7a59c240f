import Lmt.Ltop.ServerTotals
import Lmt.Ltop.SharedSamples

/-!
# Rebuilding the summaries

However often the summaries are made anew, no call uses a sample that was given
back, and the samples of the OSTs stay as they are. Those of the MDTs stay if and
only if what would be added to the free and the total space of a server's first
MDT adds up to zero.
-/

namespace Lmt

open FormattedText Stores

/-- The data points that `sample_add` would add from these samples amount to zero. -/
def Sample.AddsNothing (s : Sample ℚ) (samples : List (Sample ℚ)) : Prop :=
  (0 < s.valid → ((s.matching samples).map Sample.val1).sum = 0) ∧
  (1 < s.valid → ((s.matching samples).map Sample.val0).sum = 0)

theorem withPoints_eq_self_iff (s : Sample ℚ) (val1 val0 : ℚ) :
    s.withPoints val1 val0 = s ↔
      (0 < s.valid → val1 = s.val1) ∧ (1 < s.valid → val0 = s.val0) := by
  unfold Sample.withPoints
  constructor
  · intro h
    constructor
    · intro hvalid
      have hval := congrArg Sample.val1 h
      rwa [if_pos hvalid] at hval
    · intro hvalid
      have hval := congrArg Sample.val0 h
      rwa [if_pos hvalid] at hval
  · rintro ⟨h1, h0⟩
    have hval1 : (if 0 < s.valid then val1 else s.val1) = s.val1 := by
      split_ifs with hvalid
      · exact h1 hvalid
      · rfl
    have hval0 : (if 1 < s.valid then val0 else s.val0) = s.val0 := by
      split_ifs with hvalid
      · exact h0 hvalid
      · rfl
    rw [hval1, hval0]

theorem foldl_sampleAdd_eq_self_iff (s : Sample ℚ) (samples : List (Sample ℚ)) :
    samples.foldl sampleAdd s = s ↔ s.AddsNothing samples := by
  have hsum (l : List ℚ) (a : ℚ) : l.foldl (· + ·) a = a ↔ l.sum = 0 := by
    rw [foldl_add_eq_sum, List.sum_cons]
    simp
  unfold sampleAdd Sample.AddsNothing
  rw [foldl_sampleCombine, withPoints_eq_self_iff, hsum, hsum]

/-- A list of servers keeps its samples while the other one is made anew. -/
theorem StoredKind.Owns.exchange {F G : Type*} {kind : StoredKind F} {kind' : StoredKind G}
    {T : Set ℕ} {serverData₀ serverData : List (Stored F)} {others : List (Stored G)}
    {s s' : Store (Sample ℚ)} (hold : kind'.Owns (T ∪ kind.copies serverData₀) others s)
    (hnew : kind.Owns (T ∪ kind'.copies others) serverData s') :
    kind'.Owns (T ∪ kind.copies serverData) others s' := by
  refine ⟨?_, ?_, ?_, hold.injOn, hold.disjoint⟩
  · rintro h (hT | ⟨r, hr, f, hf, rfl⟩)
    · exact hnew.mem h (.inl hT)
    · exact hnew.copy_mem r hr f hf
  · intro r hr f hf
    exact hnew.mem _ (.inr ⟨r, hr, f, hf, rfl⟩)
  · rintro r hr f hf (hT | ⟨r', hr', g, hg, heq⟩)
    · exact hold.copy_notMem r hr f hf (.inl hT)
    · exact hnew.copy_notMem r' hr' g hg (.inr ⟨r, hr, f, hf, heq.symm⟩)

namespace StoredTargets

variable (t : StoredTargets)

def handles : Set ℕ :=
  {h | (∃ o ∈ t.ostData, ∃ f, o.handle f = h) ∨ ∃ m ∈ t.mdtData, ∃ f, m.handle f = h}

def sample (h : ℕ) : Sample ℚ := (t.store.lookup h).getD (sampleCreate 0)

/-- Both lists of servers own their copies. -/
structure Sound (s : Summaries) : Prop where
  oss : ostStored.Owns (t.handles ∪ mdtStored.copies s.mdsData) s.ossData s.store
  mds : mdtStored.Owns (t.handles ∪ ostStored.copies s.ossData) s.mdsData s.store

/-- All samples of all targets have the values, times and validity of the beginning. -/
def Unchanged (s : Summaries) : Prop :=
  (∀ o ∈ t.ostData, ∀ f, s.store.lookup (o.handle f) = t.store.lookup (o.handle f)) ∧
  ∀ m ∈ t.mdtData, ∀ f, s.store.lookup (m.handle f) = t.store.lookup (m.handle f)

/-- Nothing is added to the space of a server's first fresh MDT by the others. -/
def Balanced : Rebuild → Prop
  | .oss _ _ => True
  | .mds tnow staleSecs => ∀ servername first others,
    (t.mdtData.filter (·.Fresh tnow staleSecs)).filter (·.servername = servername) =
        first :: others →
      ∀ f ∈ [SampleField.field MdtField.kbytesFree, .field .kbytesTotal],
        (t.sample (first.handle f)).AddsNothing (others.map fun m => t.sample (m.handle f))

section

variable {t} {s : Summaries}

theorem unchanged_iff : t.Unchanged s ↔ ∀ h ∈ t.handles, s.store.lookup h = t.store.lookup h := by
  constructor
  · rintro ⟨host, hmdt⟩ h (⟨o, ho, f, rfl⟩ | ⟨m, hm, f, rfl⟩)
    · exact host o ho f
    · exact hmdt m hm f
  · intro h
    exact ⟨fun o ho f => h _ (.inl ⟨o, ho, f, rfl⟩), fun m hm f => h _ (.inr ⟨m, hm, f, rfl⟩)⟩

theorem mem_store {h : ℕ} (hh : h ∈ t.handles) : h ∈ t.store := by
  rcases hh with ⟨o, ho, f, rfl⟩ | ⟨m, hm, f, rfl⟩
  · exact t.ost_mem o ho f
  · exact t.mdt_mem m hm f

theorem lookup_eq_sample {h : ℕ} (hh : h ∈ t.handles) : t.store.lookup h = some (t.sample h) := by
  obtain ⟨a, ha⟩ := Finmap.mem_iff.mp (mem_store hh)
  unfold sample
  rw [ha]
  rfl

theorem apart_ostData (T : Set ℕ) : StoredKind.Apart (t.handles ∪ T) t.ostData :=
  ⟨fun o ho f => .inl (.inl ⟨o, ho, f, rfl⟩), t.ost_injective, t.ost_disjoint⟩

theorem apart_mdtData (T : Set ℕ) : StoredKind.Apart (t.handles ∪ T) t.mdtData :=
  ⟨fun m hm f => .inl (.inr ⟨m, hm, f, rfl⟩), t.mdt_injective, t.mdt_disjoint⟩

theorem sound_start : t.Sound t.start := by
  have hmem {T : Set ℕ} (hT : T = ∅) : ∀ h ∈ t.handles ∪ T, h ∈ t.store := by
    rintro h (hh | hh)
    · exact mem_store hh
    · rw [hT] at hh
      exact hh.elim
  constructor
  · exact ⟨hmem (by simp [StoredKind.copies, start]), by simp [start], by simp [start],
      by simp [start], List.Pairwise.nil⟩
  · exact ⟨hmem (by simp [StoredKind.copies, start]), by simp [start], by simp [start],
      by simp [start], List.Pairwise.nil⟩

theorem lookup_getD {T : Set ℕ} {s : Store (Sample ℚ)} (h : ∀ h ∈ T, h ∈ s) :
    ∀ h ∈ T, s.lookup h = some ((s.lookup h).getD (sampleCreate 0)) := by
  intro h' hh'
  obtain ⟨a, ha⟩ := Finmap.mem_iff.mp (h h' hh')
  rw [ha]
  rfl

theorem mem_copyOststatFields (f : OstSample) : f ∈ copyOststatFields := by
  rcases f with _ | _ | k
  · decide
  · decide
  · cases k <;> decide

theorem exists_rebuild_oss (A : Allocator (Sample ℚ)) (h : t.Sound s) (tnow staleSecs : ℤ) :
    ∃ s', t.rebuild A s (.oss tnow staleSecs) = some s' ∧ t.Sound s' ∧
      ∀ h ∈ t.handles, s'.store.lookup h = s.store.lookup h := by
  have hread := lookup_getD h.oss.mem
  obtain ⟨ossData, store, hsummarize, hloop⟩ :=
    StoredKind.exists_summarize A tnow staleSecs h.oss (apart_ostData _) hread
  refine ⟨{ s with ossData, store }, ?_, ⟨hloop.owns, h.mds.exchange hloop.owns⟩, ?_⟩
  · unfold rebuild
    dsimp only
    rw [hsummarize]
    rfl
  · intro h' hh'
    rw [hread h' (.inl hh')]
    exact hloop.rest h' (.inl hh') fun r _ f hf => absurd (mem_copyOststatFields f) hf

theorem notMem_copyMdtstatFields (f : MdtSample) :
    f ∉ copyMdtstatFields ↔ f = .field .kbytesFree ∨ f = .field .kbytesTotal := by
  rcases f with _ | _ | k
  · decide
  · decide
  · cases k <;> decide

theorem sampleAdd_of_space {f : MdtSample} (hf : f ∉ copyMdtstatFields) :
    (f, sampleAdd) ∈ singleMdtUpdateOps := by
  unfold singleMdtUpdateOps
  rcases (notMem_copyMdtstatFields f).mp hf with rfl | rfl
  · simp
  · simp

/-- The samples of the targets survive the loop if and only if nothing is added to a shared one. -/
theorem lookup_eq_iff_of_loop {T : Set ℕ} {v : ℕ → Sample ℚ} {ts servers : List (Stored MdtSample)}
    {store : Store (Sample ℚ)} (h : mdtStored.Loop (t.handles ∪ T) v ts servers store)
    (hts : StoredKind.Apart t.handles ts) :
    (∀ h ∈ t.handles, store.lookup h = some (v h)) ↔
      ∀ servername first others, ts.filter (·.servername = servername) = first :: others →
        ∀ f ∉ copyMdtstatFields,
          (v (first.handle f)).AddsNothing (others.map fun m => v (m.handle f)) := by
  constructor
  · intro hsame servername first others hgroup f hf
    have hfirst : first ∈ ts.filter (·.servername = servername) := by
      rw [hgroup]
      exact List.mem_cons_self
    obtain ⟨hmem, hname⟩ := List.mem_filter.mp hfirst
    have hserver : servername ∈ servers.map Stored.servername :=
      (h.names servername).mpr (List.mem_map.mpr ⟨first, hmem, by simpa using hname⟩)
    obtain ⟨r, hr, rfl⟩ := List.mem_map.mp hserver
    obtain ⟨first', others', hgroup', hshared, hsum, -⟩ := h.groups r hr
    obtain ⟨rfl, rfl⟩ := List.cons.inj (hgroup.symm.trans hgroup')
    have htotal : store.lookup (r.handle f) =
        some ((others.map fun m => v (m.handle f)).foldl sampleAdd (v (first.handle f))) :=
      hsum _ (sampleAdd_of_space hf)
    rw [hshared f hf, hsame _ (hts.mem first hmem f), Option.some_inj] at htotal
    exact (foldl_sampleAdd_eq_self_iff _ _).mp htotal.symm
  · intro hbalanced h' hh'
    by_cases hfree : ∀ r ∈ servers, ∀ f ∉ copyMdtstatFields, r.handle f ≠ h'
    · exact h.rest h' (.inl hh') hfree
    · push Not at hfree
      obtain ⟨r, hr, f, hf, rfl⟩ := hfree
      obtain ⟨first, others, hgroup, hshared, hsum, -⟩ := h.groups r hr
      have htotal : store.lookup (r.handle f) =
          some ((others.map fun m => v (m.handle f)).foldl sampleAdd (v (first.handle f))) :=
        hsum _ (sampleAdd_of_space hf)
      have hself := (foldl_sampleAdd_eq_self_iff _ _).mpr
        (hbalanced r.servername first others hgroup f hf)
      rw [htotal, hself, hshared f hf]

theorem exists_rebuild_mds (A : Allocator (Sample ℚ)) (h : t.Sound s) (hs : t.Unchanged s)
    (tnow staleSecs : ℤ) :
    ∃ s', t.rebuild A s (.mds tnow staleSecs) = some s' ∧ t.Sound s' ∧
      (t.Unchanged s' ↔ t.Balanced (.mds tnow staleSecs)) := by
  rw [unchanged_iff] at hs
  have hread := lookup_getD h.mds.mem
  obtain ⟨mdsData, store, hsummarize, hloop⟩ :=
    StoredKind.exists_summarize A tnow staleSecs h.mds (apart_mdtData _) hread
  refine ⟨{ s with mdsData, store }, ?_, ⟨h.oss.exchange hloop.owns, hloop.owns⟩, ?_⟩
  · unfold rebuild
    dsimp only
    rw [hsummarize]
    rfl
  · have happart : StoredKind.Apart t.handles (t.mdtData.filter (·.Fresh tnow staleSecs)) := by
      have hall : StoredKind.Apart t.handles t.mdtData := by simpa using apart_mdtData ∅
      exact hall.sublist List.filter_sublist
    have hsample : ∀ h ∈ t.handles, (s.store.lookup h).getD (sampleCreate 0) = t.sample h := by
      intro h' hh'
      rw [hs h' hh']
      rfl
    have hstays := lookup_eq_iff_of_loop hloop happart
    have hleft : t.Unchanged { s with mdsData, store } ↔
        ∀ h ∈ t.handles, store.lookup h = some ((s.store.lookup h).getD (sampleCreate 0)) := by
      rw [unchanged_iff]
      apply forall₂_congr
      intro h' hh'
      rw [hsample h' hh', lookup_eq_sample hh']
    rw [hleft, hstays]
    unfold Balanced
    apply forall₃_congr
    intro servername first others
    apply imp_congr_right
    intro hgroup
    have hmem : ∀ m ∈ first :: others, ∀ f, m.handle f ∈ t.handles := by
      intro m hm f
      rw [← hgroup] at hm
      exact happart.mem m (List.mem_of_mem_filter hm) f
    have hothers (f : MdtSample) :
        (others.map fun m => (s.store.lookup (m.handle f)).getD (sampleCreate 0)) =
          others.map fun m => t.sample (m.handle f) :=
      List.map_congr_left fun m hm => hsample _ (hmem m (List.mem_cons_of_mem _ hm) f)
    simp only [notMem_copyMdtstatFields, List.mem_cons, List.not_mem_nil, or_false, hothers,
      hsample _ (hmem first List.mem_cons_self _)]

end

variable {t} (A : Allocator (Sample ℚ))

theorem exists_rebuild {s : Summaries} (h : t.Sound s) (hs : t.Unchanged s) (call : Rebuild) :
    ∃ s', t.rebuild A s call = some s' ∧ t.Sound s' ∧ (t.Unchanged s' ↔ t.Balanced call) := by
  cases call with
  | mds tnow staleSecs => exact exists_rebuild_mds A h hs tnow staleSecs
  | oss tnow staleSecs =>
    obtain ⟨s', hrebuild, hsound, hsame⟩ := exists_rebuild_oss A h tnow staleSecs
    refine ⟨s', hrebuild, hsound, ?_⟩
    have hunchanged : t.Unchanged s' := by
      rw [unchanged_iff] at hs ⊢
      intro h' hh'
      rw [hsame h' hh', hs h' hh']
    exact iff_of_true hunchanged trivial

/-- The calls have not failed, and the samples of the targets are those of the beginning. -/
def Undisturbed (s : Option Summaries) : Prop := ∃ s', s = some s' ∧ t.Unchanged s'

theorem undisturbed_foldlM_iff {s : Summaries} (h : t.Sound s) (hs : t.Unchanged s)
    (calls : List Rebuild) :
    (∀ done, done <+: calls → t.Undisturbed (done.foldlM (t.rebuild A) s)) ↔
      ∀ c ∈ calls, t.Balanced c := by
  induction calls generalizing s with
  | nil =>
    refine iff_of_true (fun done hdone => ?_) (by simp)
    obtain rfl := List.prefix_nil.mp hdone
    exact ⟨s, rfl, hs⟩
  | cons c calls ih =>
    obtain ⟨s', hrebuild, hsound, hiff⟩ := exists_rebuild A h hs c
    have hnext (done : List Rebuild) :
        (c :: done).foldlM (t.rebuild A) s = done.foldlM (t.rebuild A) s' := by
      rw [List.foldlM_cons, hrebuild]
      rfl
    rw [List.forall_mem_cons]
    constructor
    · intro hall
      obtain ⟨s'', hs'', hunchanged⟩ := hall [c] (List.prefix_append [c] calls)
      obtain rfl : s' = s'' := Option.some.inj ((hnext []).symm.trans hs'')
      refine ⟨hiff.mp hunchanged, (ih hsound hunchanged).mp fun done hdone => ?_⟩
      rw [← hnext]
      exact hall (c :: done) ((List.prefix_cons_inj c).mpr hdone)
    · rintro ⟨hbalanced, hcalls⟩ done hdone
      rcases List.prefix_cons_iff.mp hdone with rfl | ⟨done', rfl, hdone'⟩
      · exact ⟨s, rfl, hs⟩
      · rw [hnext]
        exact (ih hsound (hiff.mpr hbalanced)).mpr hcalls done' hdone'

/-- The summaries disturb no target, however often they are made, if and only if every summary of
the MDTs finds nothing to add to the space of a first MDT. -/
theorem undisturbed_rebuilt_iff (t : StoredTargets) (calls : List Rebuild) :
    (∀ done, done <+: calls → t.Undisturbed (t.rebuilt A done)) ↔ ∀ c ∈ calls, t.Balanced c :=
  undisturbed_foldlM_iff A sound_start ⟨fun _ _ _ => rfl, fun _ _ _ => rfl⟩ calls

def mdtSamples : List MdtSample :=
  copyMdtstatFields ++ [.field .kbytesFree, .field .kbytesTotal]

theorem mem_mdtSamples (f : MdtSample) : f ∈ mdtSamples := by
  unfold mdtSamples
  rw [List.mem_append]
  by_cases hf : f ∈ copyMdtstatFields
  · exact .inl hf
  · rcases (notMem_copyMdtstatFields f).mp hf with rfl | rfl <;> simp

def mdtAt (name : String) (base : ℕ) : Stored MdtSample where
  info :=
    { fsname := "lc1".toList
      name := name.toList
      servername := "mds1".toList
      tgtMetricTimestamp := 10
      recovStatus := "COMPLETE".toList
      tgtstate := []
      tag := false }
  handle f := base + mdtSamples.idxOf f

theorem mdtAt_injective (name : String) (base : ℕ) :
    Function.Injective (mdtAt name base).handle := by
  intro f g h
  have hidx : mdtSamples.idxOf f = mdtSamples.idxOf g := Nat.add_left_cancel h
  exact (List.idxOf_inj (mem_mdtSamples f)).mp hidx

theorem idxOf_lt (f : MdtSample) : mdtSamples.idxOf f < 19 :=
  List.idxOf_lt_length_of_mem (mem_mdtSamples f)

def fives : Store (Sample ℚ) :=
  (List.range 38).foldl (fun s h => s.insert h ⟨0, 5, 0, 10, 1, 60⟩) ∅

theorem mem_fives : ∀ h < 38, (fives.lookup h).isSome := by decide +kernel

def twoMdts : StoredTargets where
  ostData := []
  mdtData := [mdtAt "0000" 0, mdtAt "0001" 19]
  store := fives
  ost_mem := by simp
  mdt_mem m hm f := by
    have hlt := idxOf_lt f
    apply Finmap.lookup_isSome.mp
    apply mem_fives
    rcases List.mem_pair.mp hm with rfl | rfl
    · change 0 + mdtSamples.idxOf f < 38
      omega
    · change 19 + mdtSamples.idxOf f < 38
      omega
  ost_injective := by simp
  mdt_injective m hm := by
    rcases List.mem_pair.mp hm with rfl | rfl
    · exact mdtAt_injective _ _
    · exact mdtAt_injective _ _
  ost_disjoint := List.Pairwise.nil
  mdt_disjoint := by
    rw [List.pairwise_pair]
    intro f g heq
    have hlt := idxOf_lt f
    have hsum : 0 + mdtSamples.idxOf f = 19 + mdtSamples.idxOf g := heq
    omega
  disjoint := by simp

/-- Two summaries leave the free space of the first MDT at 15. -/
theorem twoMdts_disturbed :
    ((twoMdts.rebuilt (Allocator.above _) [.mds 12 60, .mds 12 60]).bind
        fun s => s.store.lookup ((mdtAt "0000" 0).handle (.field .kbytesFree))) =
      some ⟨0, 15, 0, 10, 1, 60⟩ ∧
    ¬twoMdts.Undisturbed (twoMdts.rebuilt (Allocator.above _) [.mds 12 60, .mds 12 60]) := by
  have hvalue : ((twoMdts.rebuilt (Allocator.above _) [.mds 12 60, .mds 12 60]).bind
        fun s => s.store.lookup ((mdtAt "0000" 0).handle (.field .kbytesFree))) =
      some ⟨0, 15, 0, 10, 1, 60⟩ := by decide +kernel
  refine ⟨hvalue, ?_⟩
  rintro ⟨s, hs, -, hsame⟩
  have hfive : twoMdts.store.lookup ((mdtAt "0000" 0).handle (.field .kbytesFree)) =
      some ⟨0, 5, 0, 10, 1, 60⟩ := by decide +kernel
  rw [hs, Option.bind_some, hsame _ List.mem_cons_self, hfive] at hvalue
  exact absurd hvalue (by decide)

end StoredTargets

end Lmt
