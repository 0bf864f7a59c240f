import Lmt.Scripts.OtherAgg

/-!
# The periods of `lmt_update_other_agg`

The text of the first period has separators and compares with the final timestamp by
its year alone, so the first round is always made. The later periods are those that
begin before the final timestamp.
-/

namespace Lmt

open Loops Runs

namespace Interval

variable (interval : Interval) (t : DateTime)

theorem lt_next : t < interval.next t := by
  cases interval with
  | day => exact t.lt_nextDay
  | week => exact t.lt_nextDay_iterate (by decide)
  | month => exact t.lt_addMonths (by decide)
  | year => exact t.lt_addMonths (by decide)

theorem month_next_le : (interval.next t).month ≤ t.month + 12 := by
  cases interval with
  | day =>
    have hmonth := t.month_nextDay_le
    simp only [next]
    omega
  | week =>
    have hmonth := t.month_nextDay_iterate_le 7
    simp only [next]
    omega
  | month => exact Nat.add_le_add_left (by decide) _
  | year => exact le_rfl

theorem roundDown_le : interval.roundDown t ≤ t := by
  cases interval with
  | day => exact t.midnight_le
  | week => exact t.prevSunday_le
  | month => exact t.firstOfMonth_le
  | year => exact t.firstOfYear_le

theorem lt_next_roundDown : t < interval.next (interval.roundDown t) := by
  cases interval with
  | day => exact t.lt_nextDay_midnight
  | week => exact t.lt_nextDay_prevSunday
  | month => exact t.lt_addMonths_firstOfMonth
  | year => exact t.lt_addMonths_firstOfYear

theorem second_roundDown : (interval.roundDown t).second = 0 := by
  cases interval with
  | day => rfl
  | week => exact t.second_prevSunday
  | month => rfl
  | year => rfl

theorem second_next : (interval.next t).second = t.second := by
  cases interval with
  | day => exact t.second_nextDay
  | week => exact t.second_nextDay_iterate 7
  | month => rfl
  | year => rfl

variable {interval t}

theorem le_next_iterate (n : ℕ) : t ≤ interval.next^[n] t := by
  induction n generalizing t with
  | zero => exact le_rfl
  | succ n ih =>
    rw [Function.iterate_succ_apply]
    exact (interval.lt_next t).le.trans ih

theorem strictMono_next_iterate : StrictMono fun n => interval.next^[n] t := by
  refine strictMono_nat_of_lt_succ fun n => ?_
  rw [Function.iterate_succ_apply']
  exact interval.lt_next _

theorem second_next_iterate (n : ℕ) : (interval.next^[n] t).second = t.second := by
  induction n generalizing t with
  | zero => rfl
  | succ n ih => rw [Function.iterate_succ_apply, ih, second_next]

end Interval

def laterPeriods (interval : Interval) (t final : DateTime) : List DateTime :=
  (whileValues (morePeriods final) (nextPeriod interval) (periodsLeft final) ⟨false, t⟩).map
    LoopTime.time

section

variable {interval : Interval} {final : DateTime} (hfinal : StoredTime final)

include hfinal

theorem morePeriods_first {t : DateTime} (ht : t.FourDigitYear) :
    morePeriods final ⟨true, t⟩ = true ↔ t.year ≤ final.year := by
  rw [morePeriods, decide_eq_true_iff, DateTime.remove_dashed]
  exact DateTime.dashed_lt_compact ht (fourDigitYear_of_stored hfinal)

theorem morePeriods_later {t : DateTime} (ht : t.FourDigitYear) :
    morePeriods final ⟨false, t⟩ = true ↔ t < final := by
  have htext : (LoopTime.mk false t).text = t.compact := DateTime.remove_colons t
  rw [morePeriods, decide_eq_true_iff, DateTime.remove_dashed, htext,
    DateTime.compact_lt_compact ht (fourDigitYear_of_stored hfinal)]

omit hfinal in
/-- A period that begins before the final timestamp leads to one with less time left. -/
theorem timeLeft_next (interval : Interval) {t : DateTime} (h : t < final) :
    final.seconds - (interval.next t).seconds < final.seconds - t.seconds := by
  have hlt := interval.lt_next t
  rw [DateTime.lt_def] at h hlt
  omega

theorem fourDigitYear_next (interval : Interval) {t : DateTime} (h : t.year ≤ final.year) :
    (interval.next t).FourDigitYear := by
  have hmonth := interval.month_next_le t
  have hstored := hfinal.2
  simp only [DateTime.FourDigitYear, DateTime.year] at *
  omega

theorem periods_round (l : LoopTime) (hl : l.time.FourDigitYear)
    (htest : morePeriods final l = true) :
    (nextPeriod interval l).time.FourDigitYear ∧
      periodsLeft final (nextPeriod interval l) < periodsLeft final l := by
  obtain ⟨separators, t⟩ := l
  cases separators with
  | true =>
    have hlt := interval.lt_next t
    rw [DateTime.lt_def] at hlt
    refine ⟨fourDigitYear_next hfinal interval ((morePeriods_first hfinal hl).mp htest), ?_⟩
    simp only [periodsLeft, nextPeriod, if_true, Bool.false_eq_true, if_false]
    omega
  | false =>
    have hlt : t < final := (morePeriods_later hfinal hl).mp htest
    have hleft := timeLeft_next interval hlt
    refine ⟨fourDigitYear_next hfinal interval (DateTime.year_le_of_le hlt.le), ?_⟩
    simp only [periodsLeft, nextPeriod, Bool.false_eq_true, if_false, zero_add]
    exact hleft

theorem periods_eq {start : DateTime} (h : start ≤ final) :
    periods interval start final = start :: laterPeriods interval (interval.next start) final := by
  have hyear := fourDigitYear_of_le hfinal h
  have htest := (morePeriods_first hfinal hyear).mpr (DateTime.year_le_of_le h)
  rw [periods, whileValues_of_test (periods_round hfinal) hyear htest, List.map_cons]
  rfl

theorem laterPeriods_of_lt {t : DateTime} (h : t < final) :
    laterPeriods interval t final = t :: laterPeriods interval (interval.next t) final := by
  have hyear := fourDigitYear_of_le hfinal h.le
  have htest := (morePeriods_later hfinal hyear).mpr h
  rw [laterPeriods, whileValues_of_test (periods_round hfinal) hyear htest, List.map_cons]
  rfl

theorem laterPeriods_of_le {t : DateTime} (ht : t.FourDigitYear) (h : final ≤ t) :
    laterPeriods interval t final = [] := by
  rw [laterPeriods, whileValues_of_not_test, List.map_nil]
  rw [← Bool.not_eq_true, morePeriods_later hfinal ht]
  exact h.not_gt

theorem laterPeriods_induction (interval : Interval) {motive : DateTime → Prop} {t : DateTime}
    (ht : t.FourDigitYear) (stop : ∀ t, t.FourDigitYear → final ≤ t → motive t)
    (round : ∀ t, t < final → motive (interval.next t) → motive t) : motive t := by
  have hround : ∀ t : DateTime, t.FourDigitYear → decide (t < final) = true →
      (interval.next t).FourDigitYear ∧
        final.seconds - (interval.next t).seconds < final.seconds - t.seconds := by
    intro t _ htest
    have hlt := of_decide_eq_true htest
    exact ⟨fourDigitYear_next hfinal interval (DateTime.year_le_of_le hlt.le),
      timeLeft_next interval hlt⟩
  apply @Loops.induction_on _ (fun t => decide (t < final)) interval.next
    (fun t => final.seconds - t.seconds) _ hround _ t ht
  · intro t ht htest
    exact stop t ht (not_lt.mp (of_decide_eq_false htest))
  · intro t _ htest
    exact round t (of_decide_eq_true htest)

/-- The later periods are those on the way that begin before the final timestamp. -/
theorem mem_laterPeriods {t b : DateTime} (ht : t.FourDigitYear) :
    b ∈ laterPeriods interval t final ↔ b < final ∧ ∃ n, interval.next^[n] t = b := by
  apply laterPeriods_induction hfinal interval ht
  · intro t ht hle
    rw [laterPeriods_of_le hfinal ht hle]
    constructor
    · intro hb
      cases hb
    · rintro ⟨hlt, n, rfl⟩
      exact absurd hlt (hle.trans (Interval.le_next_iterate n)).not_gt
  · intro t hlt ih
    rw [laterPeriods_of_lt hfinal hlt, List.mem_cons, ih]
    constructor
    · rintro (rfl | ⟨hb, n, rfl⟩)
      · exact ⟨hlt, 0, rfl⟩
      · exact ⟨hb, n + 1, rfl⟩
    · rintro ⟨hb, n, rfl⟩
      cases n with
      | zero => exact Or.inl rfl
      | succ n => exact Or.inr ⟨hb, n, rfl⟩

theorem mem_periods {start b : DateTime} (h : start ≤ final) :
    b ∈ periods interval start final ↔
      ∃ n, interval.next^[n] start = b ∧ (n = 0 ∨ b < final) := by
  rw [periods_eq hfinal h, List.mem_cons,
    mem_laterPeriods hfinal (fourDigitYear_next hfinal interval (DateTime.year_le_of_le h))]
  constructor
  · rintro (rfl | ⟨hb, n, rfl⟩)
    · exact ⟨0, rfl, Or.inl rfl⟩
    · exact ⟨n + 1, rfl, Or.inr hb⟩
  · rintro ⟨n, rfl, hn⟩
    cases n with
    | zero => exact Or.inl rfl
    | succ n => exact Or.inr ⟨hn.resolve_left (Nat.succ_ne_zero n), n, rfl⟩

theorem mem_periods_from {start restart final' b : DateTime} (h : start ≤ final)
    (hrestart : restart ∈ periods interval start final) (hfinals : final ≤ final')
    (hfinal' : StoredTime final') :
    b ∈ periods interval start final' ∧ restart ≤ b ↔ b ∈ periods interval restart final' := by
  obtain ⟨m, rfl, hm⟩ := (mem_periods hfinal h).mp hrestart
  have hle : interval.next^[m] start ≤ final' := by
    rcases hm with rfl | hlt
    · exact h.trans hfinals
    · exact hlt.le.trans hfinals
  rw [mem_periods hfinal' (h.trans hfinals), mem_periods hfinal' hle]
  constructor
  · rintro ⟨⟨n, rfl, hn⟩, hlater⟩
    have hmn : m ≤ n := Interval.strictMono_next_iterate.le_iff_le.mp hlater
    refine ⟨n - m, ?_, hn.imp_left fun hzero => by omega⟩
    rw [← Function.iterate_add_apply, Nat.sub_add_cancel hmn]
  · rintro ⟨j, rfl, hj⟩
    refine ⟨⟨j + m, Function.iterate_add_apply .., ?_⟩, Interval.le_next_iterate j⟩
    rcases Nat.eq_zero_or_pos j with rfl | hpos
    · exact hm.imp (fun hzero => by omega) fun hlt => hlt.trans_le hfinals
    · exact Or.inr (hj.resolve_left hpos.ne')

/-- A period before another one ends before it. -/
theorem next_le_of_mem_periods {start b last : DateTime} (h : start ≤ final)
    (hb : b ∈ periods interval start final) (hlast : last ∈ periods interval start final)
    (hlt : b < last) : interval.next b ≤ last := by
  obtain ⟨n, rfl, -⟩ := (mem_periods hfinal h).mp hb
  obtain ⟨m, rfl, -⟩ := (mem_periods hfinal h).mp hlast
  have hnm : n < m := Interval.strictMono_next_iterate.lt_iff_lt.mp hlt
  calc interval.next (interval.next^[n] start) = interval.next^[n + 1] start :=
        (Function.iterate_succ_apply' ..).symm
    _ ≤ interval.next^[m] start := Interval.strictMono_next_iterate.monotone hnm

theorem le_final_of_mem_periods {start b : DateTime} (h : start ≤ final)
    (hb : b ∈ periods interval start final) : b ≤ final := by
  obtain ⟨n, rfl, rfl | hlt⟩ := (mem_periods hfinal h).mp hb
  · exact h
  · exact hlt.le

theorem mem_periods_congr {start final' b : DateTime} (h : start ≤ final) (hfinals : final ≤ final')
    (hfinal' : StoredTime final') (hb : b < final) :
    b ∈ periods interval start final ↔ b ∈ periods interval start final' := by
  rw [mem_periods hfinal h, mem_periods hfinal' (h.trans hfinals)]
  exact exists_congr fun n => and_congr_right fun _ =>
    ⟨fun _ => Or.inr (hb.trans_le hfinals), fun _ => Or.inr hb⟩

theorem nodup_laterPeriods {t : DateTime} (ht : t.FourDigitYear) :
    (laterPeriods interval t final).Nodup := by
  apply laterPeriods_induction hfinal interval ht
  · intro t ht hle
    rw [laterPeriods_of_le hfinal ht hle]
    exact List.nodup_nil
  · intro t hlt ih
    rw [laterPeriods_of_lt hfinal hlt, List.nodup_cons]
    refine ⟨fun hmem => ?_, ih⟩
    have hnext := fourDigitYear_next hfinal interval (DateTime.year_le_of_le hlt.le)
    obtain ⟨-, n, hn⟩ := (mem_laterPeriods hfinal hnext).mp hmem
    have hle : interval.next t ≤ interval.next^[n] (interval.next t) := Interval.le_next_iterate n
    rw [hn] at hle
    exact hle.not_gt (interval.lt_next t)

theorem nodup_periods {start : DateTime} (h : start ≤ final) :
    (periods interval start final).Nodup := by
  have hnext := fourDigitYear_next hfinal interval (DateTime.year_le_of_le h)
  rw [periods_eq hfinal h, List.nodup_cons]
  refine ⟨fun hmem => ?_, nodup_laterPeriods hfinal hnext⟩
  obtain ⟨-, n, hn⟩ := (mem_laterPeriods hfinal hnext).mp hmem
  have hle : interval.next start ≤ interval.next^[n] (interval.next start) :=
    Interval.le_next_iterate n
  rw [hn] at hle
  exact hle.not_gt (interval.lt_next start)

end

end Lmt
