import Mathlib.Data.Rat.Defs
import Mathlib.Tactic

/-!
# Two-point samples of `sample.c`

A sample keeps the last two data points of a counter and how many of them are
valid. Its operations never look at the values they store, so a sample is
generic in them: with numbers it is the program's, with numbers and their origin
it also says where each data point came from.
-/

namespace Lmt

/-- `sample_struct`; times are `time_t`. -/
structure Sample (V : Type*) where
  val0 : V
  val1 : V
  time0 : ℤ
  time1 : ℤ
  /-- count of valid data points, 0 to 2 -/
  valid : ℕ
  staleSecs : ℤ
deriving DecidableEq

variable {V W : Type*}

def sampleCreate [Inhabited V] (staleSecs : ℤ) : Sample V :=
  { val0 := default, val1 := default, time0 := 0, time1 := 0, valid := 0, staleSecs }

def sampleInvalidate (s : Sample V) : Sample V := { s with valid := 0 }

def sampleUpdate (s : Sample V) (val : V) (t : ℤ) : Sample V :=
  if s.valid = 0 then { s with time1 := t, val1 := val, valid := s.valid + 1 }
  else if s.time1 < t then
    { s with time0 := s.time1, val0 := s.val1, time1 := t, val1 := val,
             valid := if s.valid < 2 then s.valid + 1 else s.valid }
  else s

/-- The change of the value per second; 0 when expired, or without two points. -/
def sampleRate (s : Sample ℚ) (tnow : ℤ) : ℚ :=
  let val := if s.valid = 2 ∧ tnow - s.time1 ≤ s.staleSecs then
    (s.val1 - s.val0) / ((s.time1 - s.time0 : ℤ) : ℚ) else 0
  if val < 0 then 0 else val

/-- Merge the data points of `s2` into those of `s1`. Only has an effect if the
samples were collected at the same times. -/
def sampleCombine (op : V → V → V) (s1 s2 : Sample V) : Sample V :=
  if s1.valid ≠ s2.valid then s1
  else if 0 < s1.valid ∧ s1.time1 ≠ s2.time1 then s1
  else if 1 < s1.valid ∧ s1.time0 ≠ s2.time0 then s1
  else
    { s1 with
      val1 := if 0 < s1.valid then op s1.val1 s2.val1 else s1.val1
      val0 := if 1 < s1.valid then op s1.val0 s2.val0 else s1.val0 }

def sampleAdd : Sample ℚ → Sample ℚ → Sample ℚ := sampleCombine (· + ·)

def sampleMax : Sample ℚ → Sample ℚ → Sample ℚ := sampleCombine max

def sampleMin : Sample ℚ → Sample ℚ → Sample ℚ := sampleCombine min

/-- The newest data point; 0 when expired, or without a point. -/
def sampleVal (s : Sample ℚ) (tnow : ℤ) : ℚ :=
  if 0 < s.valid ∧ tnow - s.time1 ≤ s.staleSecs then s.val1 else 0

def sampleValCmp (s1 s2 : Sample ℚ) (tnow : ℤ) : ℤ :=
  let v1 := sampleVal s1 tnow
  let v2 := sampleVal s2 tnow
  if v1 = v2 then 0 else if v1 < v2 then -1 else 1

def sampleRateCmp (s1 s2 : Sample ℚ) (tnow : ℤ) : ℤ :=
  let v1 := sampleRate s1 tnow
  let v2 := sampleRate s2 tnow
  if v1 = v2 then 0 else if v1 < v2 then -1 else 1

@[simp] theorem staleSecs_sampleCreate [Inhabited V] (staleSecs : ℤ) :
    (sampleCreate staleSecs : Sample V).staleSecs = staleSecs := rfl

@[simp] theorem staleSecs_sampleInvalidate (s : Sample V) :
    (sampleInvalidate s).staleSecs = s.staleSecs := rfl

@[simp] theorem staleSecs_sampleUpdate (s : Sample V) (val : V) (t : ℤ) :
    (sampleUpdate s val t).staleSecs = s.staleSecs := by
  unfold sampleUpdate
  split_ifs <;> rfl

def Sample.points (s : Sample V) : List V := [s.val1, s.val0].take s.valid

def Sample.map (f : V → W) (s : Sample V) : Sample W :=
  { val0 := f s.val0, val1 := f s.val1, time0 := s.time0, time1 := s.time1, valid := s.valid,
    staleSecs := s.staleSecs }

/-- Every valid data point satisfies `P`. -/
def Sample.All (P : V → Prop) (s : Sample V) : Prop := ∀ v ∈ s.points, P v

theorem sampleCreate_all [Inhabited V] (P : V → Prop) (staleSecs : ℤ) :
    (sampleCreate staleSecs : Sample V).All P := by
  simp [Sample.All, Sample.points, sampleCreate]

theorem sampleInvalidate_all (P : V → Prop) (s : Sample V) : (sampleInvalidate s).All P := by
  simp [Sample.All, Sample.points, sampleInvalidate]

/-- An update adds one data point and may drop the oldest. -/
theorem sampleUpdate_all {P : V → Prop} {s : Sample V} (h : s.All P) {val : V} (hv : P val)
    (t : ℤ) : (sampleUpdate s val t).All P := by
  unfold sampleUpdate
  split_ifs with h0 hlt h2
  · simpa [Sample.All, Sample.points, h0] using hv
  · have h1 : s.valid = 1 := by omega
    simp only [Sample.All, Sample.points, h1, List.take_succ_cons, List.take_zero,
      List.mem_singleton, forall_eq] at h
    simp [Sample.All, Sample.points, h1, hv, h]
  · have hold : P s.val1 := h _ (by
      obtain ⟨n, hn⟩ : ∃ n, s.valid = n + 1 := ⟨s.valid - 1, by omega⟩
      simp [Sample.points, hn])
    obtain ⟨n, hn⟩ : ∃ n, s.valid = n + 2 := ⟨s.valid - 2, by omega⟩
    simp [Sample.All, Sample.points, hn, hv, hold]
  · exact h

section

variable (f : V → W)

theorem map_sampleCreate [Inhabited V] [Inhabited W] (hf : f default = default) (staleSecs : ℤ) :
    (sampleCreate staleSecs : Sample V).map f = sampleCreate staleSecs := by
  simp [Sample.map, sampleCreate, hf]

@[simp] theorem map_sampleInvalidate (s : Sample V) :
    (sampleInvalidate s).map f = sampleInvalidate (s.map f) := rfl

@[simp] theorem map_sampleUpdate (s : Sample V) (val : V) (t : ℤ) :
    (sampleUpdate s val t).map f = sampleUpdate (s.map f) (f val) t := by
  by_cases h0 : s.valid = 0
  · simp [sampleUpdate, Sample.map, h0]
  · by_cases hlt : s.time1 < t <;> simp [sampleUpdate, Sample.map, h0, hlt]

end

/-- A rate that is not zero is the slope between the two data points. -/
theorem sampleRate_points {s : Sample ℚ} {tnow : ℤ} (h : sampleRate s tnow ≠ 0) :
    s.points = [s.val1, s.val0] ∧
      sampleRate s tnow = (s.val1 - s.val0) / ((s.time1 - s.time0 : ℤ) : ℚ) := by
  have hv : s.valid = 2 ∧ tnow - s.time1 ≤ s.staleSecs := by
    by_contra hc
    simp only [sampleRate, if_neg hc] at h
    simp at h
  refine ⟨by simp [Sample.points, hv.1], ?_⟩
  simp only [sampleRate, hv, and_self, if_true] at h ⊢
  split_ifs at h ⊢ with hneg
  · exact absurd rfl h
  · rfl

end Lmt
