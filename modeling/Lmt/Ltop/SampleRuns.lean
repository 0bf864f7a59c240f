import Lmt.Library.Runs
import Lmt.Ltop.Sample

/-!
# Samples under any sequence of calls

The functions of `sample.c` work on a family of samples. Whatever they are
called with, the two times of a sample with two data points are in order. While
a sample is only updated and invalidated, its data points are the last two
updates that were accepted.
-/

namespace Lmt

open Runs

/-- A call of one of the functions of `sample.c`; the result of `sample_create`
or `sample_copy` becomes the sample `i`. -/
inductive SampleCall (ι : Type*) where
  | create (i : ι) (staleSecs : ℤ)
  | copy (i j : ι)
  | invalidate (i : ι)
  | update (i : ι) (val : ℚ) (t : ℤ)
  | add (i j : ι)
  | max (i j : ι)
  | min (i j : ι)

section

variable {ι : Type*} [DecidableEq ι]

/-- The samples that have been created. -/
abbrev SampleFamily (ι : Type*) := ι → Option (Sample ℚ)

def SampleFamily.combine (f : Sample ℚ → Sample ℚ → Sample ℚ) (family : SampleFamily ι) (i j : ι) :
    SampleFamily ι :=
  Function.update family i ((family i).bind fun s1 => (family j).map fun s2 => f s1 s2)

/-- A call with a sample that was not created leaves no sample in its place. -/
def sampleCall (family : SampleFamily ι) : SampleCall ι → SampleFamily ι
  | .create i staleSecs => Function.update family i (some (sampleCreate staleSecs))
  | .copy i j => Function.update family i (family j)
  | .invalidate i => Function.update family i ((family i).map sampleInvalidate)
  | .update i val t => Function.update family i ((family i).map fun s => sampleUpdate s val t)
  | .add i j => family.combine sampleAdd i j
  | .max i j => family.combine sampleMax i j
  | .min i j => family.combine sampleMin i j

/-- At most two data points, the older one with the earlier time. -/
structure Sample.Ordered {V : Type*} (s : Sample V) : Prop where
  valid_le : s.valid ≤ 2
  time_lt : s.valid = 2 → s.time0 < s.time1

theorem sampleCreate_ordered (staleSecs : ℤ) : (sampleCreate staleSecs : Sample ℚ).Ordered :=
  ⟨by simp [sampleCreate], by simp [sampleCreate]⟩

theorem sampleInvalidate_ordered (s : Sample ℚ) : (sampleInvalidate s).Ordered :=
  ⟨by simp [sampleInvalidate], by simp [sampleInvalidate]⟩

theorem sampleUpdate_ordered {s : Sample ℚ} (h : s.Ordered) (val : ℚ) (t : ℤ) :
    (sampleUpdate s val t).Ordered := by
  have hle := h.valid_le
  unfold sampleUpdate
  split_ifs with h0 hlt h2
  · exact ⟨by simp [h0], by simp [h0]⟩
  · exact ⟨by dsimp only; omega, fun _ => hlt⟩
  · exact ⟨hle, fun _ => hlt⟩
  · exact h

theorem sampleCombine_ordered {s1 s2 : Sample ℚ} (h : s1.Ordered) (op : ℚ → ℚ → ℚ) :
    (sampleCombine op s1 s2).Ordered := by
  unfold sampleCombine
  split_ifs
  · exact h
  · exact h
  · exact h
  all_goals exact ⟨h.valid_le, h.time_lt⟩

theorem combine_ordered {family : SampleFamily ι} (h : ∀ i, ∀ s ∈ family i, s.Ordered)
    {f : Sample ℚ → Sample ℚ → Sample ℚ} (hf : ∀ s1 s2, s1.Ordered → (f s1 s2).Ordered) (i j : ι) :
    ∀ k, ∀ s ∈ family.combine f i j k, s.Ordered := by
  intro k s hs
  unfold SampleFamily.combine at hs
  by_cases hk : k = i
  · subst hk
    rw [Function.update_self] at hs
    obtain ⟨s1, hs1, hs⟩ := Option.bind_eq_some_iff.mp hs
    obtain ⟨s2, -, rfl⟩ := Option.map_eq_some_iff.mp hs
    exact hf s1 s2 (h k s1 hs1)
  · rw [Function.update_of_ne hk] at hs
    exact h k s hs

theorem sampleCall_ordered {family : SampleFamily ι} (h : ∀ i, ∀ s ∈ family i, s.Ordered)
    (c : SampleCall ι) : ∀ i, ∀ s ∈ sampleCall family c i, s.Ordered := by
  have hupdate (i : ι) (new : Option (Sample ℚ)) (hnew : ∀ s ∈ new, s.Ordered) :
      ∀ k, ∀ s ∈ Function.update family i new k, s.Ordered := by
    intro k s hs
    by_cases hk : k = i
    · subst hk
      rw [Function.update_self] at hs
      exact hnew s hs
    · rw [Function.update_of_ne hk] at hs
      exact h k s hs
  cases c with
  | create i staleSecs =>
    apply hupdate i
    rintro s ⟨⟩
    exact sampleCreate_ordered staleSecs
  | copy i j => exact hupdate i _ (h j)
  | invalidate i =>
    apply hupdate i
    intro s hs
    obtain ⟨s', -, rfl⟩ := Option.map_eq_some_iff.mp hs
    exact sampleInvalidate_ordered s'
  | update i val t =>
    apply hupdate i
    intro s hs
    obtain ⟨s', hs', rfl⟩ := Option.map_eq_some_iff.mp hs
    exact sampleUpdate_ordered (h i s' hs') val t
  | add i j => exact combine_ordered h (fun _ _ h1 => sampleCombine_ordered h1 _) i j
  | max i j => exact combine_ordered h (fun _ _ h1 => sampleCombine_ordered h1 _) i j
  | min i j => exact combine_ordered h (fun _ _ h1 => sampleCombine_ordered h1 _) i j

theorem sampleRate_nonneg (s : Sample ℚ) (tnow : ℤ) : 0 ≤ sampleRate s tnow := by
  simp only [sampleRate]
  split_ifs with h1 h2 h2
  · exact le_rfl
  · exact not_lt.mp h2
  · exact le_rfl
  · exact le_rfl

/-- What a call does to the updates of a sample that were accepted since it was
last invalidated, newest first: an update is accepted if its time is later than
the time of the last one. -/
def acceptUpdate (i : ι) (points : List (ℚ × ℤ)) : SampleCall ι → List (ℚ × ℤ)
  | .invalidate j => if j = i then [] else points
  | .update j val t =>
    if j = i ∧ ∀ p ∈ points.head?, p.2 < t then (val, t) :: points else points
  | _ => points

def acceptedUpdates (i : ι) (calls : List (SampleCall ι)) : List (ℚ × ℤ) :=
  calls.foldl (acceptUpdate i) []

def SampleCall.OnlyUpdates (i : ι) : SampleCall ι → Prop
  | .create j _ | .copy j _ | .add j _ | .max j _ | .min j _ => j ≠ i
  | .invalidate _ | .update _ _ _ => True

instance (i : ι) (c : SampleCall ι) : Decidable (c.OnlyUpdates i) := by
  cases c <;> unfold SampleCall.OnlyUpdates <;> infer_instance

/-- The data points of the sample are the newest two of the list. -/
def Sample.Holds (s : Sample ℚ) : List (ℚ × ℤ) → Prop
  | [] => s.valid = 0
  | [p] => s.valid = 1 ∧ s.val1 = p.1 ∧ s.time1 = p.2
  | p :: q :: _ => s.valid = 2 ∧ s.val1 = p.1 ∧ s.time1 = p.2 ∧ s.val0 = q.1 ∧ s.time0 = q.2

theorem sampleUpdate_holds {s : Sample ℚ} {points : List (ℚ × ℤ)} (h : s.Holds points) (val : ℚ)
    (t : ℤ) :
    (sampleUpdate s val t).Holds
      (if ∀ p ∈ points.head?, p.2 < t then (val, t) :: points else points) := by
  match points, h with
  | [], h =>
    have h0 : s.valid = 0 := h
    simp [sampleUpdate, h0, Sample.Holds]
  | [p], ⟨hvalid, hval, htime⟩ =>
    by_cases hlt : p.2 < t
    · simp [sampleUpdate, hvalid, hval, htime, hlt, Sample.Holds]
    · simp [sampleUpdate, hvalid, hval, htime, hlt, Sample.Holds]
  | p :: q :: points, ⟨hvalid, hval, htime, hval0, htime0⟩ =>
    by_cases hlt : p.2 < t
    · simp [sampleUpdate, hvalid, hval, htime, hlt, Sample.Holds]
    · simp [sampleUpdate, hvalid, hval, htime, hlt, Sample.Holds, hval0, htime0]

theorem sampleCall_holds {family : SampleFamily ι} {i : ι} {points : List (ℚ × ℤ)} {staleSecs : ℤ}
    (h : ∃ s, family i = some s ∧ s.staleSecs = staleSecs ∧ s.Holds points) {c : SampleCall ι}
    (hc : c.OnlyUpdates i) :
    ∃ s, sampleCall family c i = some s ∧ s.staleSecs = staleSecs ∧
      s.Holds (acceptUpdate i points c) := by
  have hother {j : ι} (hj : j ≠ i) (new : Option (Sample ℚ)) :
      ∃ s, Function.update family j new i = some s ∧ s.staleSecs = staleSecs ∧ s.Holds points := by
    rw [Function.update_of_ne hj.symm]
    exact h
  cases c with
  | create j staleSecs => exact hother hc _
  | copy j k => exact hother hc _
  | add j k => exact hother hc _
  | max j k => exact hother hc _
  | min j k => exact hother hc _
  | invalidate j =>
    simp only [sampleCall, acceptUpdate]
    by_cases hj : j = i
    · subst hj
      obtain ⟨s, hs, hstale, -⟩ := h
      rw [if_pos rfl, Function.update_self, hs]
      exact ⟨sampleInvalidate s, rfl, hstale, rfl⟩
    · rw [if_neg hj]
      exact hother hj _
  | update j val t =>
    simp only [sampleCall, acceptUpdate]
    by_cases hj : j = i
    · subst hj
      obtain ⟨s, hs, hstale, hholds⟩ := h
      simp only [true_and, Function.update_self, hs]
      exact ⟨sampleUpdate s val t, rfl, (staleSecs_sampleUpdate s val t).trans hstale,
        sampleUpdate_holds hholds val t⟩
    · rw [if_neg fun h => hj h.1]
      exact hother hj _

theorem run_sampleCall_holds {family : SampleFamily ι} {i : ι} {points : List (ℚ × ℤ)}
    {staleSecs : ℤ} (h : ∃ s, family i = some s ∧ s.staleSecs = staleSecs ∧ s.Holds points)
    {calls : List (SampleCall ι)} (hcalls : ∀ c ∈ calls, c.OnlyUpdates i) :
    ∃ s, run sampleCall family calls i = some s ∧ s.staleSecs = staleSecs ∧
      s.Holds (calls.foldl (acceptUpdate i) points) := by
  induction calls generalizing family points with
  | nil => exact h
  | cons c calls ih =>
    rw [run_cons, List.foldl_cons]
    apply ih
    · exact sampleCall_holds h (hcalls c List.mem_cons_self)
    · intro c' hc'
      exact hcalls c' (List.mem_cons_of_mem c hc')

/-- In every run of calls a sample with two data points has their times in order
and no rate is negative. If since its creation the sample was only updated and
invalidated, its rate while it is fresh comes from the last two updates that
were accepted since the last invalidation. -/
theorem sample_times_and_rates (calls : List (SampleCall ι)) (i : ι) :
    (∀ s ∈ run sampleCall (fun _ => none) calls i,
      (s.valid = 2 → s.time0 < s.time1) ∧ ∀ tnow, 0 ≤ sampleRate s tnow) ∧
    ∀ before staleSecs after, calls = before ++ .create i staleSecs :: after →
      (∀ c ∈ after, c.OnlyUpdates i) →
      ∃ s ∈ run sampleCall (fun _ => none) calls i,
        ∀ p q earlier, acceptedUpdates i after = p :: q :: earlier →
          ∀ tnow, tnow - p.2 ≤ staleSecs →
          sampleRate s tnow = max 0 ((p.1 - q.1) / ((p.2 - q.2 : ℤ) : ℚ)) := by
  constructor
  · intro s hs
    have hstep : ∀ (family : SampleFamily ι) (c : SampleCall ι),
        (∀ i, ∀ s ∈ family i, s.Ordered) → True → ∀ i, ∀ s ∈ sampleCall family c i, s.Ordered :=
      fun _ c h _ => sampleCall_ordered h c
    have hordered := invariant_run hstep (by simp) (fun _ _ => trivial) i s hs
    exact ⟨hordered.time_lt, sampleRate_nonneg s⟩
  · rintro before staleSecs after rfl hafter
    rw [run_append, run_cons]
    have hcreated : ∃ s,
        sampleCall (run sampleCall (fun _ => none) before) (.create i staleSecs) i =
        some s ∧ s.staleSecs = staleSecs ∧ s.Holds [] :=
      ⟨_, Function.update_self _ _ _, rfl, rfl⟩
    obtain ⟨s, hs, hstale, hholds⟩ := run_sampleCall_holds hcreated hafter
    refine ⟨s, hs, ?_⟩
    intro p q earlier haccepted tnow hfresh
    rw [acceptedUpdates] at haccepted
    rw [haccepted] at hholds
    obtain ⟨hvalid, hval1, htime1, hval0, htime0⟩ := hholds
    subst hstale
    simp only [sampleRate, hvalid, hval1, htime1, hval0, htime0, hfresh, and_self, if_true]
    split_ifs with hneg
    · rw [max_eq_left hneg.le]
    · rw [max_eq_right (not_lt.mp hneg)]

/-- Two updates after an invalidation, and one that comes too late. -/
theorem sample_times_and_rates_after_invalidation :
    ∃ s ∈ run sampleCall (fun _ => none) [.create true 60, .update true 7 1, .invalidate true,
        .update true 10 2, .update true 30 6, .update true 40 6] true, sampleRate s 10 = 5 := by
  obtain ⟨s, hs, hrate⟩ := (sample_times_and_rates [.create true 60, .update true 7 1,
    .invalidate true, .update true 10 2, .update true 30 6, .update true 40 6] true).2 [] 60
    [.update true 7 1, .invalidate true, .update true 10 2, .update true 30 6, .update true 40 6]
    rfl (by decide)
  have haccepted : acceptedUpdates true [.update true 7 1, .invalidate true, .update true 10 2,
      .update true 30 6, .update true 40 6] = [(30, 6), (10, 2)] := by decide
  refine ⟨s, hs, ?_⟩
  rw [hrate (30, 6) (10, 2) [] haccepted 10 (by norm_num)]
  norm_num

end

end Lmt
