import Lmt.Library.Runs
import Lmt.Ltop.SampleHandles

/-!
# Samples that a summary shares with its targets

A summary owns the samples that were copied for it. Those that were not copied
are still the first target's, and what is added to the summary is added to that
target. No sample of an OST is shared, but an MDS shares the free and the total
space with its first MDT.
-/

namespace Lmt

open FormattedText Grouping Stores

/-- The target's data is not older than `staleSecs`. -/
def Stored.Fresh {F : Type*} (tnow staleSecs : ℤ) (t : Stored F) : Prop :=
  tnow - t.info.tgtMetricTimestamp ≤ staleSecs

instance {F : Type*} (tnow staleSecs : ℤ) (t : Stored F) : Decidable (t.Fresh tnow staleSecs) :=
  inferInstanceAs (Decidable (_ ≤ _))

namespace StoredKind

variable {F : Type*} (kind : StoredKind F)

def copies (serverData : List (Stored F)) : Set ℕ :=
  {h | ∃ r ∈ serverData, ∃ f ∈ kind.copied, r.handle f = h}

/-- The copies of the servers are in the store, each has one owner, and none is in `T`, which is
in the store as well. -/
structure Owns (T : Set ℕ) (serverData : List (Stored F)) (s : Store (Sample ℚ)) : Prop where
  mem : ∀ h ∈ T, h ∈ s
  copy_mem : ∀ r ∈ serverData, ∀ f ∈ kind.copied, r.handle f ∈ s
  copy_notMem : ∀ r ∈ serverData, ∀ f ∈ kind.copied, r.handle f ∉ T
  injOn : ∀ r ∈ serverData, ∀ f ∈ kind.copied, ∀ g ∈ kind.copied, r.handle f = r.handle g → f = g
  disjoint : serverData.Pairwise fun r r' =>
    ∀ f ∈ kind.copied, ∀ g ∈ kind.copied, r.handle f ≠ r'.handle g

/-- The handles of the targets are in `T`, and each has one owner. -/
structure Apart (T : Set ℕ) (targets : List (Stored F)) : Prop where
  mem : ∀ t ∈ targets, ∀ f, t.handle f ∈ T
  injective : ∀ t ∈ targets, Function.Injective t.handle
  disjoint : targets.Pairwise fun t t' => ∀ f g, t.handle f ≠ t'.handle g

/-- The samples of a server: those of the first target, with the others merged into them. -/
def IsTotal (v : ℕ → Sample ℚ) (first : Stored F) (others : List (Stored F))
    (sample : F → Option (Sample ℚ)) : Prop :=
  (∀ m ∈ kind.ops, sample m.1 =
    some ((others.map fun t => v (t.handle m.1)).foldl m.2 (v (first.handle m.1)))) ∧
  ∀ f, f ∉ kind.ops.map Prod.fst → sample f = some (v (first.handle f))

/-- The loop after the targets `ts`, where `v` has the samples of `T` before it. -/
structure Loop (T : Set ℕ) (v : ℕ → Sample ℚ) (ts : List (Stored F))
    (serverData : List (Stored F)) (s : Store (Sample ℚ)) : Prop where
  owns : kind.Owns T serverData s
  names : ∀ n, n ∈ serverData.map Stored.servername ↔ n ∈ ts.map Stored.servername
  nodup_names : (serverData.map Stored.servername).Nodup
  groups : ∀ r ∈ serverData, ∃ first others,
    ts.filter (·.servername = r.servername) = first :: others ∧
      (∀ f ∉ kind.copied, r.handle f = first.handle f) ∧
      kind.IsTotal v first others fun f => s.lookup (r.handle f)
  rest : ∀ h ∈ T, (∀ r ∈ serverData, ∀ f ∉ kind.copied, r.handle f ≠ h) → s.lookup h = some (v h)

section

variable {kind} {T : Set ℕ} {v : ℕ → Sample ℚ} {ts serverData : List (Stored F)}
  {s s' : Store (Sample ℚ)}

theorem Apart.ne_of_ne (h : Apart T ts) {t t' : Stored F} (ht : t ∈ ts) (ht' : t' ∈ ts)
    (hne : t ≠ t') (f g : F) : t.handle f ≠ t'.handle g := by
  have hsymm : Std.Symm fun t t' : Stored F => ∀ f g, t.handle f ≠ t'.handle g :=
    ⟨fun t t' h f g heq => h g f heq.symm⟩
  exact h.disjoint.forall ht ht' hne f g

theorem Apart.sublist {ts' : List (Stored F)} (h : Apart T ts) (hsub : ts'.Sublist ts) :
    Apart T ts' :=
  ⟨fun t ht => h.mem t (hsub.subset ht), fun t ht => h.injective t (hsub.subset ht),
    h.disjoint.sublist hsub⟩

theorem Loop.exists_first (h : kind.Loop T v ts serverData s) {r : Stored F}
    (hr : r ∈ serverData) :
    ∃ first ∈ ts, first.servername = r.servername ∧
      ∀ f ∉ kind.copied, r.handle f = first.handle f := by
  obtain ⟨first, others, hgroup, hshared, -⟩ := h.groups r hr
  have hfirst : first ∈ ts.filter (·.servername = r.servername) := by
    rw [hgroup]
    exact List.mem_cons_self
  obtain ⟨hmem, hname⟩ := List.mem_filter.mp hfirst
  exact ⟨first, hmem, by simpa using hname, hshared⟩

theorem Loop.handle_mem (h : kind.Loop T v ts serverData s) (hts : Apart T ts) {r : Stored F}
    (hr : r ∈ serverData) (f : F) : r.handle f ∈ s := by
  by_cases hf : f ∈ kind.copied
  · exact h.owns.copy_mem r hr f hf
  · obtain ⟨first, hfirst, -, hshared⟩ := h.exists_first hr
    rw [hshared f hf]
    exact h.owns.mem _ (hts.mem first hfirst f)

theorem Loop.handle_injective (h : kind.Loop T v ts serverData s) (hts : Apart T ts)
    {r : Stored F} (hr : r ∈ serverData) : Function.Injective r.handle := by
  obtain ⟨first, hfirst, -, hshared⟩ := h.exists_first hr
  intro f g heq
  by_cases hf : f ∈ kind.copied
  · by_cases hg : g ∈ kind.copied
    · exact h.owns.injOn r hr f hf g hg heq
    · rw [hshared g hg] at heq
      exact absurd (heq ▸ hts.mem first hfirst g) (h.owns.copy_notMem r hr f hf)
  · by_cases hg : g ∈ kind.copied
    · rw [hshared f hf] at heq
      exact absurd (heq ▸ hts.mem first hfirst f) (h.owns.copy_notMem r hr g hg)
    · rw [hshared f hf, hshared g hg] at heq
      exact hts.injective first hfirst heq

theorem Loop.handle_ne (h : kind.Loop T v ts serverData s) (hts : Apart T ts) {r r' : Stored F}
    (hr : r ∈ serverData) (hr' : r' ∈ serverData) (hname : r.servername ≠ r'.servername) (f g : F) :
    r.handle f ≠ r'.handle g := by
  obtain ⟨first, hfirst, hfirstname, hshared⟩ := h.exists_first hr
  obtain ⟨first', hfirst', hfirstname', hshared'⟩ := h.exists_first hr'
  intro heq
  by_cases hf : f ∈ kind.copied
  · by_cases hg : g ∈ kind.copied
    · have hsymm : Std.Symm fun r r' : Stored F =>
          ∀ f ∈ kind.copied, ∀ g ∈ kind.copied, r.handle f ≠ r'.handle g :=
        ⟨fun r r' h f hf g hg heq => h g hg f hf heq.symm⟩
      have hne : r ≠ r' := fun h => hname (h ▸ rfl)
      exact h.owns.disjoint.forall hr hr' hne f hf g hg heq
    · rw [hshared' g hg] at heq
      exact h.owns.copy_notMem r hr f hf (heq ▸ hts.mem first' hfirst' g)
  · by_cases hg : g ∈ kind.copied
    · rw [hshared f hf] at heq
      exact h.owns.copy_notMem r' hr' g hg (heq ▸ hts.mem first hfirst f)
    · rw [hshared f hf, hshared' g hg] at heq
      refine hts.ne_of_ne hfirst hfirst' ?_ f g heq
      rintro rfl
      exact hname (hfirstname.symm.trans hfirstname')

/-- A target that is not merged yet has its samples from before the loop. -/
theorem Loop.lookup_next (h : kind.Loop T v ts serverData s) {t : Stored F}
    (hts : Apart T (ts ++ [t])) (f : F) : s.lookup (t.handle f) = some (v (t.handle f)) := by
  apply h.rest _ (hts.mem t (by simp) f)
  intro r hr g hg heq
  obtain ⟨first, hfirst, -, hshared⟩ := h.exists_first hr
  rw [hshared g hg] at heq
  exact (List.pairwise_append.mp hts.disjoint).2.2 first hfirst t (by simp) g f heq

theorem filter_append_of_ne {t : Stored F} {n : Text} (hne : t.servername ≠ n) :
    (ts ++ [t]).filter (·.servername = n) = ts.filter (·.servername = n) := by
  rw [List.filter_append, List.filter_cons_of_neg (by simpa using hne), List.filter_nil,
    List.append_nil]

theorem filter_append_of_eq {t : Stored F} {n : Text} (heq : t.servername = n) :
    (ts ++ [t]).filter (·.servername = n) = ts.filter (·.servername = n) ++ [t] := by
  rw [List.filter_append, List.filter_cons_of_pos (by simpa using heq), List.filter_nil]

theorem Loop.append (h : kind.Loop T v ts serverData s) {t : Stored F}
    (hts : Apart T (ts ++ [t])) (hnew : t.servername ∉ serverData.map Stored.servername)
    {info : TargetInfo} (hinfo : info.servername = t.servername) {dst : F → ℕ}
    (hcopied : Copied kind.copied t.handle t.handle dst s s') :
    kind.Loop T v (ts ++ [t]) (serverData ++ [⟨info, dst⟩]) s' := by
  have hts' : Apart T ts := hts.sublist (List.sublist_append_left ts [t])
  have hT : ∀ h ∈ T, h ∈ s := h.owns.mem
  have hmem : ∀ h ∈ s, h ∈ s' := fun h hold => mem_of_lookup_eq (hcopied.frame h hold) hold
  have hread : ∀ f, s.lookup (t.handle f) = some (v (t.handle f)) := h.lookup_next hts
  have htotal : ∀ f, s'.lookup (dst f) = some (v (t.handle f)) := by
    intro f
    by_cases hf : f ∈ kind.copied
    · rw [hcopied.lookup f hf, hread]
    · have htarget : t.handle f ∈ s := hT _ (hts.mem t (by simp) f)
      rw [hcopied.others f hf, hcopied.frame _ htarget, hread]
  refine ⟨⟨fun h hh => hmem h (hT h hh), ?_, ?_, ?_, ?_⟩, ?_, ?_, ?_, ?_⟩
  · intro r hr f hf
    rcases List.mem_append.mp hr with hr | hr
    · exact hmem _ (h.owns.copy_mem r hr f hf)
    · obtain rfl := List.mem_singleton.mp hr
      exact Finmap.mem_of_lookup_eq_some (htotal f)
  · intro r hr f hf hfT
    rcases List.mem_append.mp hr with hr | hr
    · exact h.owns.copy_notMem r hr f hf hfT
    · obtain rfl := List.mem_singleton.mp hr
      exact hcopied.fresh f hf (hT _ hfT)
  · intro r hr
    rcases List.mem_append.mp hr with hr | hr
    · exact h.owns.injOn r hr
    · obtain rfl := List.mem_singleton.mp hr
      exact hcopied.injOn
  · rw [List.pairwise_append]
    refine ⟨h.owns.disjoint, List.pairwise_singleton _ _, ?_⟩
    intro r hr r' hr' f hf g hg heq
    obtain rfl := List.mem_singleton.mp hr'
    have hold : r.handle f ∈ s := h.owns.copy_mem r hr f hf
    rw [heq] at hold
    exact hcopied.fresh g hg hold
  · intro n
    rw [List.map_append, List.mem_append, h.names, List.map_append, List.mem_append]
    simp [Stored.servername, hinfo]
  · rw [List.map_append, List.nodup_append]
    refine ⟨h.nodup_names, List.nodup_singleton _, ?_⟩
    rintro n hn m hm rfl
    rw [List.map_singleton, List.mem_singleton] at hm
    exact hnew (by rwa [hm, Stored.servername, hinfo] at hn)
  · intro r hr
    rcases List.mem_append.mp hr with hr | hr
    · have hname : t.servername ≠ r.servername := fun heq =>
        hnew (heq ▸ List.mem_map_of_mem hr)
      obtain ⟨first, others, hgroup, hshared, hsum, hsame⟩ := h.groups r hr
      have hkept : ∀ f, s'.lookup (r.handle f) = s.lookup (r.handle f) := fun f =>
        hcopied.frame _ (h.handle_mem hts' hr f)
      refine ⟨first, others, by rw [filter_append_of_ne hname, hgroup], hshared, ?_, ?_⟩
      · intro m hm
        exact (hkept m.1).trans (hsum m hm)
      · intro f hf
        exact (hkept f).trans (hsame f hf)
    · obtain rfl := List.mem_singleton.mp hr
      have hnone : ts.filter (·.servername = t.servername) = [] := by
        rw [List.filter_eq_nil_iff]
        intro t' ht' heq
        rw [h.names] at hnew
        exact hnew (List.mem_map.mpr ⟨t', ht', by simpa using heq⟩)
      refine ⟨t, [], ?_, hcopied.others, fun m _ => htotal m.1, fun f _ => htotal f⟩
      rw [Stored.servername, hinfo, filter_append_of_eq rfl, hnone]
      rfl
  · intro h' hh' hother
    rw [hcopied.frame h' (hT h' hh')]
    exact h.rest h' hh' fun r hr => hother r (List.mem_append_left _ hr)

theorem Loop.merge (h : kind.Loop T v ts serverData s) {t server : Stored F}
    (hts : Apart T (ts ++ [t])) (hserver : server ∈ serverData)
    (hname : server.servername = t.servername)
    (hcombined : Combined t.handle server.handle kind.ops s s') :
    kind.Loop T v (ts ++ [t]) serverData s' := by
  have hts' : Apart T ts := hts.sublist (List.sublist_append_left ts [t])
  have hinj := h.handle_injective hts' hserver
  refine ⟨⟨fun h' hh' => hcombined.mem h' (h.owns.mem h' hh'), fun r hr f hf =>
    hcombined.mem _ (h.owns.copy_mem r hr f hf), h.owns.copy_notMem, h.owns.injOn,
    h.owns.disjoint⟩, ?_, h.nodup_names, ?_, ?_⟩
  · intro n
    rw [h.names, List.map_append, List.mem_append]
    constructor
    · exact .inl
    · rintro (hn | hn)
      · exact hn
      · obtain rfl : n = t.servername := by simpa using hn
        rw [← h.names, ← hname]
        exact List.mem_map_of_mem hserver
  · intro r hr
    obtain ⟨first, others, hgroup, hshared, hsum, hsame⟩ := h.groups r hr
    by_cases heq : t.servername = r.servername
    · obtain rfl : r = server :=
        List.inj_on_of_nodup_map h.nodup_names hr hserver (heq.symm.trans hname.symm)
      refine ⟨first, others ++ [t], by rw [filter_append_of_eq heq, hgroup, List.cons_append],
        hshared, ?_, ?_⟩
      · intro m hm
        have hserver : s.lookup (r.handle m.1) =
            some ((others.map fun t => v (t.handle m.1)).foldl m.2 (v (first.handle m.1))) :=
          hsum m hm
        refine (hcombined.lookup m hm).trans ?_
        rw [hserver, h.lookup_next hts]
        simp
      · intro f hf
        refine (hcombined.frame _ ?_).trans (hsame f hf)
        intro m hm heq
        exact hf (hinj heq ▸ List.mem_map_of_mem hm)
    · have hkept : ∀ f, s'.lookup (r.handle f) = s.lookup (r.handle f) := fun f =>
        hcombined.frame _ fun m _ =>
          h.handle_ne hts' hserver hr (fun heq' => heq (hname.symm.trans heq')) m.1 f
      refine ⟨first, others, by rw [filter_append_of_ne heq, hgroup], hshared, ?_, ?_⟩
      · intro m hm
        exact (hkept m.1).trans (hsum m hm)
      · intro f hf
        exact (hkept f).trans (hsame f hf)
  · intro h' hh' hother
    rw [hcombined.frame h', h.rest h' hh' hother]
    intro m _ heq
    by_cases hm : m.1 ∈ kind.copied
    · exact h.owns.copy_notMem server hserver m.1 hm (heq ▸ hh')
    · exact hother server hserver m.1 hm heq

/-- What the loop says of a record does not depend on its other fields. -/
theorem Loop.congr {serverData' : List (Stored F)} (h : kind.Loop T v ts serverData s)
    (hperm : (serverData'.map fun r => (r.servername, r.handle)).Perm
      (serverData.map fun r => (r.servername, r.handle))) :
    kind.Loop T v ts serverData' s := by
  have hold : ∀ r' ∈ serverData', ∃ r ∈ serverData,
      r.servername = r'.servername ∧ r.handle = r'.handle := by
    intro r' hr'
    have hmem := hperm.mem_iff.mp (List.mem_map_of_mem hr')
    obtain ⟨r, hr, heq⟩ := List.mem_map.mp hmem
    exact ⟨r, hr, congrArg Prod.fst heq, congrArg Prod.snd heq⟩
  have hnew : ∀ r ∈ serverData, ∃ r' ∈ serverData', r'.handle = r.handle := by
    intro r hr
    have hmem := hperm.mem_iff.mpr (List.mem_map_of_mem hr)
    obtain ⟨r', hr', heq⟩ := List.mem_map.mp hmem
    exact ⟨r', hr', congrArg Prod.snd heq⟩
  have hnames : (serverData'.map Stored.servername).Perm (serverData.map Stored.servername) := by
    simpa [Function.comp_def] using hperm.map Prod.fst
  refine ⟨⟨h.owns.mem, ?_, ?_, ?_, ?_⟩, ?_, hnames.nodup_iff.mpr h.nodup_names, ?_, ?_⟩
  · intro r' hr'
    obtain ⟨r, hr, -, heq⟩ := hold r' hr'
    exact heq ▸ h.owns.copy_mem r hr
  · intro r' hr'
    obtain ⟨r, hr, -, heq⟩ := hold r' hr'
    exact heq ▸ h.owns.copy_notMem r hr
  · intro r' hr'
    obtain ⟨r, hr, -, heq⟩ := hold r' hr'
    exact heq ▸ h.owns.injOn r hr
  · have hpairs := h.owns.disjoint
    rw [← List.pairwise_map (f := fun r : Stored F => (r.servername, r.handle))
      (R := fun k k' => ∀ f ∈ kind.copied, ∀ g ∈ kind.copied, k.2 f ≠ k'.2 g)] at hpairs ⊢
    exact hpairs.perm hperm.symm fun h f hf g hg heq => h g hg f hf heq.symm
  · intro n
    rw [hnames.mem_iff, h.names]
  · intro r' hr'
    obtain ⟨r, hr, hname, heq⟩ := hold r' hr'
    rw [← hname, ← heq]
    exact h.groups r hr
  · intro h' hh' hother
    refine h.rest h' hh' fun r hr => ?_
    obtain ⟨r', hr', heq⟩ := hnew r hr
    exact heq ▸ hother r' hr'

theorem map_mergeOrAppend_of_any {α β : Type*} {p : α → Bool} {f : α → α} {new : α} {g : α → β}
    (hf : ∀ a, g (f a) = g a) {l : List α} (h : ∃ a ∈ l, p a) :
    (mergeOrAppend p f new l).map g = l.map g := by
  induction l with
  | nil => simp at h
  | cons a l ih =>
    rw [mergeOrAppend]
    split_ifs with ha
    · rw [List.map_cons, List.map_cons, hf]
    · rw [List.map_cons, List.map_cons, ih]
      obtain ⟨b, hb, hp⟩ := h
      rcases List.mem_cons.mp hb with rfl | hb
      · exact absurd hp ha
      · exact ⟨b, hb, hp⟩

section

variable [DecidableEq F] {tnow staleSecs : ℤ}

theorem exists_summarizeStep (A : Allocator (Sample ℚ)) (h : kind.Loop T v ts serverData s)
    {t : Stored F} (hts : Apart T (ts ++ [t])) (hfresh : t.Fresh tnow staleSecs) :
    ∃ serverData' s', kind.summarizeStep A tnow staleSecs (serverData, s) t =
        some (serverData', s') ∧
      kind.Loop T v (ts ++ [t]) serverData' s' := by
  have hts' : Apart T ts := hts.sublist (List.sublist_append_left ts [t])
  have htarget : ∀ f, t.handle f ∈ s := fun f => h.owns.mem _ (hts.mem t (by simp) f)
  unfold summarizeStep
  rw [if_neg (not_lt.mpr hfresh)]
  cases hfind : serverData.find? (·.servername = t.servername) with
  | none =>
    have hnew : t.servername ∉ serverData.map Stored.servername := by
      intro hmem
      obtain ⟨r, hr, heq⟩ := List.mem_map.mp hmem
      exact List.find?_eq_none.mp hfind r hr (by simpa using heq)
    obtain ⟨dst, s', hcopy, hcopied⟩ := exists_copyFields A kind.nodup_copied t.handle
      fun f _ => htarget f
    have hinfo : ({ t.info with name := countName 1 } : TargetInfo).servername = t.servername :=
      rfl
    refine ⟨_, s', ?_, h.append hts hnew hinfo hcopied⟩
    dsimp only
    rw [hcopy]
    rfl
  | some server =>
    have hserver : server ∈ serverData := List.mem_of_find?_eq_some hfind
    have hname : server.servername = t.servername := by
      simpa using List.find?_some hfind
    have hne : ∀ f g, t.handle f ≠ server.handle g := by
      intro f g heq
      by_cases hg : g ∈ kind.copied
      · exact h.owns.copy_notMem server hserver g hg (heq ▸ hts.mem t (by simp) f)
      · obtain ⟨first, hfirst, -, hshared⟩ := h.exists_first hserver
        rw [hshared g hg] at heq
        exact (List.pairwise_append.mp hts.disjoint).2.2 first hfirst t (by simp) g f heq.symm
    obtain ⟨s', hcombine, hcombined⟩ := exists_combineFields kind.nodup_ops
      (h.handle_injective hts' hserver) hne (fun m _ => htarget m.1)
      fun m _ => h.handle_mem hts' hserver m.1
    have hmerged := h.merge hts hserver hname hcombined
    have hmatch : ∃ r ∈ serverData, decide (r.servername = t.servername) = true :=
      ⟨server, hserver, by simpa using hname⟩
    have hkeep : ∀ r : Stored F,
        ((kind.mergeInfo t r).servername, (kind.mergeInfo t r).handle) = (r.servername, r.handle) :=
      fun _ => rfl
    have hkeys : ((mergeOrAppend (·.servername = t.servername) (kind.mergeInfo t) t serverData).map
        fun r => (r.servername, r.handle)) = serverData.map fun r => (r.servername, r.handle) :=
      map_mergeOrAppend_of_any hkeep hmatch
    refine ⟨_, s', ?_, hmerged.congr (List.Perm.of_eq hkeys)⟩
    dsimp only
    rw [hcombine]
    rfl

theorem exists_foldlM_summarizeStep (A : Allocator (Sample ℚ)) {targets : List (Stored F)}
    (h : kind.Loop T v ts serverData s)
    (hts : Apart T (ts ++ targets.filter (·.Fresh tnow staleSecs))) :
    ∃ serverData' s', targets.foldlM (kind.summarizeStep A tnow staleSecs) (serverData, s) =
        some (serverData', s') ∧
      kind.Loop T v (ts ++ targets.filter (·.Fresh tnow staleSecs)) serverData' s' := by
  induction targets generalizing ts serverData s with
  | nil => exact ⟨serverData, s, rfl, by simpa using h⟩
  | cons t targets ih =>
    by_cases hfresh : t.Fresh tnow staleSecs
    · rw [List.filter_cons_of_pos (by simpa using hfresh), List.append_cons] at hts ⊢
      have hfirst : Apart T (ts ++ [t]) := hts.sublist (List.sublist_append_left _ _)
      obtain ⟨serverData₁, s₁, hstep, hloop⟩ := exists_summarizeStep A h hfirst hfresh
      obtain ⟨serverData₂, s₂, hrest, hloop₂⟩ := ih hloop hts
      refine ⟨serverData₂, s₂, ?_, hloop₂⟩
      rw [List.foldlM_cons, hstep]
      exact hrest
    · rw [List.filter_cons_of_neg (by simpa using hfresh)] at hts ⊢
      obtain ⟨serverData₂, s₂, hrest, hloop₂⟩ := ih h hts
      refine ⟨serverData₂, s₂, ?_, hloop₂⟩
      have hskip : kind.summarizeStep A tnow staleSecs (serverData, s) t =
          some (serverData, s) := by
        unfold summarizeStep
        rw [if_pos (not_le.mp hfresh)]
      rw [List.foldlM_cons, hskip]
      exact hrest

end

theorem exists_emptyOut (h : kind.Owns T serverData s) :
    ∃ s', kind.emptyOut serverData s = some s' ∧ ∀ h ∈ T, s'.lookup h = s.lookup h := by
  induction serverData generalizing s with
  | nil => exact ⟨s, rfl, fun _ _ => rfl⟩
  | cons r serverData ih =>
    obtain ⟨hfirst, hothers⟩ := List.pairwise_cons.mp h.disjoint
    obtain ⟨s₁, hfree, hkept⟩ := exists_freeFields kind.nodup_destroyed
      (fun f hf g hg => h.injOn r (by simp) f (kind.destroyed_subset hf) g
        (kind.destroyed_subset hg))
      fun f hf => h.copy_mem r (by simp) f (kind.destroyed_subset hf)
    have hT : ∀ h ∈ T, s₁.lookup h = s.lookup h := fun h' hh' =>
      hkept h' fun f hf heq =>
        h.copy_notMem r (by simp) f (kind.destroyed_subset hf) (heq ▸ hh')
    have howns : kind.Owns T serverData s₁ := by
      refine ⟨fun h' hh' => mem_of_lookup_eq (hT h' hh') (h.mem h' hh'), ?_,
        fun r' hr' => h.copy_notMem r' (by simp [hr']), fun r' hr' => h.injOn r' (by simp [hr']),
        hothers⟩
      intro r' hr' f hf
      have hsame : s₁.lookup (r'.handle f) = s.lookup (r'.handle f) :=
        hkept _ fun g hg heq => hfirst r' hr' g (kind.destroyed_subset hg) f hf heq
      exact mem_of_lookup_eq hsame (h.copy_mem r' (by simp [hr']) f hf)
    obtain ⟨s₂, hrest, hkept₂⟩ := ih howns
    refine ⟨s₂, ?_, fun h' hh' => (hkept₂ h' hh').trans (hT h' hh')⟩
    unfold emptyOut at hrest ⊢
    rw [List.foldlM_cons, hfree]
    exact hrest

/-- A summary can always be made again, and every sample it makes use of is in the store. -/
theorem exists_summarize [DecidableEq F] (A : Allocator (Sample ℚ)) (tnow staleSecs : ℤ)
    {targets : List (Stored F)}
    (h : kind.Owns T serverData s) (hts : Apart T targets)
    (hv : ∀ h ∈ T, s.lookup h = some (v h)) :
    ∃ serverData' s', kind.summarize A tnow staleSecs targets serverData s =
        some (serverData', s') ∧
      kind.Loop T v (targets.filter (·.Fresh tnow staleSecs)) serverData' s' := by
  obtain ⟨s₁, hempty, hkept⟩ := exists_emptyOut h
  have hstart : kind.Loop T v [] [] s₁ := by
    refine ⟨⟨fun h' hh' => mem_of_lookup_eq (hkept h' hh') (h.mem h' hh'), by simp, by simp,
      by simp, List.Pairwise.nil⟩, by simp, List.nodup_nil, by simp, ?_⟩
    intro h' hh' _
    rw [hkept h' hh', hv h' hh']
  obtain ⟨serverData', s', hloop, hdone⟩ := exists_foldlM_summarizeStep A hstart
    (hts.sublist List.filter_sublist)
  have hsorted := perm_listSort
    (fun r1 r2 : Stored F => cmpServerNames r1.servername r2.servername) serverData'
  refine ⟨_, s', ?_, hdone.congr (hsorted.map _)⟩
  unfold summarize
  rw [hempty, Option.bind_some, hloop]
  rfl

end

end StoredKind

end Lmt
