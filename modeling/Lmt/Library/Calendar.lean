import Mathlib.Tactic

/-!
# Dates and times of the calendar

A month is counted from January of the year 0, a day and a second from the first
one. Every time has its number of seconds, by which times are ordered. The steps
of the calendar (an hour, a day, a month, a year) lead to later times.
-/

namespace Calendar

def isLeap (year : ℕ) : Bool := year % 4 = 0 && (year % 100 ≠ 0 || year % 400 = 0)

def monthLength (month : ℕ) : ℕ :=
  match month % 12 with
  | 1 => if isLeap (month / 12) then 29 else 28
  | 3 => 30
  | 5 => 30
  | 8 => 30
  | 10 => 30
  | _ => 31

def yearStart (year : ℕ) : ℕ := 365 * year + (year + 3) / 4 - (year + 99) / 100 + (year + 399) / 400

/-- The number of days before the `i`-th month of a year with some days in February. -/
def daysBeforeMonth (february : ℕ) : ℕ → ℕ
  | 0 => 0
  | 1 => 31
  | 2 => 31 + february
  | 3 => 62 + february
  | 4 => 92 + february
  | 5 => 123 + february
  | 6 => 153 + february
  | 7 => 184 + february
  | 8 => 215 + february
  | 9 => 245 + february
  | 10 => 276 + february
  | _ => 306 + february

def monthStart (month : ℕ) : ℕ :=
  yearStart (month / 12) + daysBeforeMonth (if isLeap (month / 12) then 29 else 28) (month % 12)

theorem isLeap_iff (year : ℕ) :
    isLeap year = true ↔ year % 4 = 0 ∧ (year % 100 ≠ 0 ∨ year % 400 = 0) := by
  simp [isLeap]

theorem yearStart_succ (year : ℕ) :
    yearStart (year + 1) = yearStart year + 337 + if isLeap year then 29 else 28 := by
  have hfour : (year + 1 + 3) / 4 = (year + 3) / 4 + if year % 4 = 0 then 1 else 0 := by
    split_ifs <;> omega
  have hcentury : (year + 1 + 99) / 100 = (year + 99) / 100 + if year % 100 = 0 then 1 else 0 := by
    split_ifs <;> omega
  have hcycle : (year + 1 + 399) / 400 = (year + 399) / 400 + if year % 400 = 0 then 1 else 0 := by
    split_ifs <;> omega
  have hle : (year + 99) / 100 ≤ 365 * year + (year + 3) / 4 := by omega
  rw [yearStart, yearStart, hfour, hcentury, hcycle]
  by_cases h : isLeap year = true
  · obtain ⟨h4, hcases⟩ := (isLeap_iff year).mp h
    rw [if_pos h, if_pos h4]
    split_ifs <;> omega
  · have hcases := mt (isLeap_iff year).mpr h
    rw [if_neg h]
    split_ifs <;> omega

theorem monthStart_succ (month : ℕ) :
    monthStart (month + 1) = monthStart month + monthLength month := by
  obtain ⟨year, i, hi, rfl⟩ : ∃ year i, i < 12 ∧ month = 12 * year + i :=
    ⟨month / 12, month % 12, Nat.mod_lt _ (by decide), by omega⟩
  have hdiv : (12 * year + i) / 12 = year := by omega
  have hmod : (12 * year + i) % 12 = i := by omega
  rw [monthStart, monthStart, monthLength, hdiv, hmod]
  by_cases hlast : i = 11
  · subst hlast
    have hdiv' : (12 * year + 11 + 1) / 12 = year + 1 := by omega
    have hmod' : (12 * year + 11 + 1) % 12 = 0 := by omega
    rw [hdiv', hmod', yearStart_succ]
    simp only [daysBeforeMonth]
    omega
  · have hdiv' : (12 * year + i + 1) / 12 = year := by omega
    have hmod' : (12 * year + i + 1) % 12 = i + 1 := by omega
    rw [hdiv', hmod']
    interval_cases i <;> simp only [daysBeforeMonth] <;> omega

theorem monthLength_pos (month : ℕ) : 0 < monthLength month := by
  rw [monthLength]
  split <;> first | decide | split_ifs <;> decide

theorem monthLength_le (month : ℕ) : monthLength month ≤ 31 := by
  rw [monthLength]
  split <;> first | decide | split_ifs <;> decide

theorem strictMono_monthStart : StrictMono monthStart := by
  refine strictMono_nat_of_lt_succ fun month => ?_
  have := monthLength_pos month
  rw [monthStart_succ]
  omega

end Calendar

open Calendar

structure DateTime where
  month : ℕ
  day : ℕ
  second : ℕ
  day_lt : day < monthLength month
  second_lt : second < 86400
deriving DecidableEq

namespace DateTime

def year (t : DateTime) : ℕ := t.month / 12

def dayNumber (t : DateTime) : ℕ := monthStart t.month + t.day

def seconds (t : DateTime) : ℕ := t.dayNumber * 86400 + t.second

theorem dayNumber_lt (t : DateTime) : t.dayNumber < monthStart (t.month + 1) := by
  have := t.day_lt
  rw [monthStart_succ, dayNumber]
  omega

theorem dayNumber_lt_of_month_lt {t u : DateTime} (h : t.month < u.month) :
    t.dayNumber < u.dayNumber := by
  have hstart := strictMono_monthStart.monotone (Nat.succ_le_of_lt h)
  calc t.dayNumber < monthStart (t.month + 1) := t.dayNumber_lt
    _ ≤ monthStart u.month := hstart
    _ ≤ u.dayNumber := Nat.le_add_right _ _

theorem seconds_injective : Function.Injective seconds := by
  intro t u h
  have ht := t.second_lt
  have hu := u.second_lt
  have hday : t.dayNumber = u.dayNumber := by
    simp only [seconds] at h
    omega
  have hmonth : t.month = u.month := by
    rcases lt_trichotomy t.month u.month with hlt | heq | hlt
    · exact absurd hday (dayNumber_lt_of_month_lt hlt).ne
    · exact heq
    · exact absurd hday (dayNumber_lt_of_month_lt hlt).ne'
  obtain ⟨month, day, second, _, _⟩ := t
  obtain ⟨month', day', second', _, _⟩ := u
  simp only at hmonth
  subst hmonth
  simp only [seconds, dayNumber] at h hday
  obtain rfl : day = day' := by omega
  obtain rfl : second = second' := by omega
  rfl

instance : LinearOrder DateTime := LinearOrder.lift' seconds seconds_injective

theorem le_def {t u : DateTime} : t ≤ u ↔ t.seconds ≤ u.seconds := Iff.rfl

theorem lt_def {t u : DateTime} : t < u ↔ t.seconds < u.seconds := Iff.rfl

theorem month_le_of_le {t u : DateTime} (h : t ≤ u) : t.month ≤ u.month := by
  by_contra hlt
  have hday := dayNumber_lt_of_month_lt (not_le.mp hlt)
  have hu := u.second_lt
  rw [le_def, seconds, seconds] at h
  omega

theorem year_le_of_le {t u : DateTime} (h : t ≤ u) : t.year ≤ u.year :=
  Nat.div_le_div_right (month_le_of_le h)

def nextDay (t : DateTime) : DateTime :=
  if h : t.day + 1 < monthLength t.month then { t with day := t.day + 1, day_lt := h }
  else { t with month := t.month + 1, day := 0, day_lt := monthLength_pos _ }

def prevDay (t : DateTime) : DateTime :=
  if t.day = 0 then
    if t.month = 0 then t
    else
      { t with
        month := t.month - 1, day := monthLength (t.month - 1) - 1,
        day_lt := Nat.sub_lt (monthLength_pos _) Nat.one_pos }
  else { t with day := t.day - 1, day_lt := (Nat.sub_le _ _).trans_lt t.day_lt }

/-- The same second some months later, on the last day when there is no such day. -/
def addMonths (n : ℕ) (t : DateTime) : DateTime :=
  { t with
    month := t.month + n, day := min t.day (monthLength (t.month + n) - 1),
    day_lt := (Nat.min_le_right _ _).trans_lt (Nat.sub_lt (monthLength_pos _) Nat.one_pos) }

theorem zero_lt_dayLength : 0 < 86400 := by decide

def midnight (t : DateTime) : DateTime := { t with second := 0, second_lt := zero_lt_dayLength }

def firstOfMonth (t : DateTime) : DateTime where
  month := t.month
  day := 0
  second := 0
  day_lt := monthLength_pos _
  second_lt := zero_lt_dayLength

def firstOfYear (t : DateTime) : DateTime where
  month := 12 * t.year
  day := 0
  second := 0
  day_lt := monthLength_pos _
  second_lt := zero_lt_dayLength

theorem addHour_second_lt (t : DateTime) : t.second + 3600 - 86400 < 86400 := by
  have := t.second_lt
  omega

def addHour (t : DateTime) : DateTime :=
  if h : t.second + 3600 < 86400 then { t with second := t.second + 3600, second_lt := h }
  else
    { t.nextDay with
      second := t.second + 3600 - 86400
      second_lt := t.addHour_second_lt }

theorem dayNumber_nextDay (t : DateTime) : t.nextDay.dayNumber = t.dayNumber + 1 := by
  have := t.day_lt
  rw [nextDay]
  split_ifs with h
  · simp only [dayNumber]
    omega
  · simp only [dayNumber, monthStart_succ]
    omega

theorem second_nextDay (t : DateTime) : t.nextDay.second = t.second := by
  rw [nextDay]
  split_ifs <;> rfl

theorem seconds_nextDay (t : DateTime) : t.nextDay.seconds = t.seconds + 86400 := by
  rw [seconds, seconds, dayNumber_nextDay, second_nextDay]
  omega

theorem seconds_addHour (t : DateTime) : t.addHour.seconds = t.seconds + 3600 := by
  have := t.second_lt
  rw [addHour]
  split_ifs with h
  · simp only [seconds, dayNumber]
    omega
  · have hday := t.dayNumber_nextDay
    simp only [seconds, dayNumber] at hday ⊢
    omega

theorem month_nextDay_le (t : DateTime) : t.nextDay.month ≤ t.month + 1 := by
  rw [nextDay]
  split_ifs
  · exact Nat.le_succ _
  · exact le_rfl

theorem month_addHour_le (t : DateTime) : t.addHour.month ≤ t.month + 1 := by
  rw [addHour]
  split_ifs
  · exact Nat.le_succ _
  · exact t.month_nextDay_le

theorem lt_nextDay (t : DateTime) : t < t.nextDay := by
  rw [lt_def, seconds_nextDay]
  omega

theorem lt_addHour (t : DateTime) : t < t.addHour := by
  rw [lt_def, seconds_addHour]
  omega

theorem lt_addMonths (t : DateTime) {n : ℕ} (hn : 0 < n) : t < t.addMonths n := by
  have hmonth : t.month < (t.addMonths n).month := Nat.lt_add_of_pos_right hn
  have hday := dayNumber_lt_of_month_lt hmonth
  have hsecond : (t.addMonths n).second = t.second := rfl
  rw [lt_def, seconds, seconds, hsecond]
  omega

theorem midnight_le (t : DateTime) : t.midnight ≤ t := by
  rw [le_def]
  simp only [seconds, midnight, dayNumber]
  omega

theorem prevDay_le (t : DateTime) : t.prevDay ≤ t := by
  rw [le_def, prevDay]
  split_ifs with hday hmonth
  · exact le_rfl
  · have hlen := monthLength_pos (t.month - 1)
    have hstart := monthStart_succ (t.month - 1)
    rw [Nat.sub_add_cancel (Nat.pos_of_ne_zero hmonth)] at hstart
    simp only [seconds, dayNumber]
    omega
  · simp only [seconds, dayNumber]
    omega

def daysSinceSunday (t : DateTime) : ℕ := (t.dayNumber + 6) % 7

def prevSunday (t : DateTime) : DateTime := prevDay^[t.daysSinceSunday] t.midnight

theorem prevDay_iterate_le (n : ℕ) (t : DateTime) : prevDay^[n] t ≤ t := by
  induction n generalizing t with
  | zero => exact le_rfl
  | succ n ih => exact (ih t.prevDay).trans t.prevDay_le

theorem prevSunday_le (t : DateTime) : t.prevSunday ≤ t :=
  (prevDay_iterate_le _ _).trans t.midnight_le

theorem seconds_nextDay_iterate (n : ℕ) (t : DateTime) :
    (nextDay^[n] t).seconds = t.seconds + n * 86400 := by
  induction n generalizing t with
  | zero => rw [Function.iterate_zero_apply, Nat.zero_mul, Nat.add_zero]
  | succ n ih =>
    rw [Function.iterate_succ_apply, ih, seconds_nextDay]
    omega

theorem lt_nextDay_iterate {n : ℕ} (hn : 0 < n) (t : DateTime) : t < nextDay^[n] t := by
  rw [lt_def, seconds_nextDay_iterate]
  omega

theorem month_nextDay_iterate_le (n : ℕ) (t : DateTime) : (nextDay^[n] t).month ≤ t.month + n := by
  induction n generalizing t with
  | zero => exact le_rfl
  | succ n ih =>
    have hstep := t.month_nextDay_le
    have hrest := ih t.nextDay
    rw [Function.iterate_succ_apply]
    omega

theorem lt_of_month_lt {t u : DateTime} (h : t.month < u.month) : t < u := by
  have hday := dayNumber_lt_of_month_lt h
  have hsecond := t.second_lt
  rw [lt_def, seconds, seconds]
  omega

theorem seconds_lt_midnight_add (t : DateTime) : t.seconds < t.midnight.seconds + 86400 := by
  have := t.second_lt
  simp only [seconds, midnight, dayNumber]
  omega

theorem firstOfMonth_le (t : DateTime) : t.firstOfMonth ≤ t := by
  rw [le_def]
  simp only [seconds, firstOfMonth, dayNumber]
  omega

theorem firstOfYear_le (t : DateTime) : t.firstOfYear ≤ t := by
  have hyear : 12 * t.year ≤ t.month := Nat.mul_div_le _ _
  rcases hyear.lt_or_eq with hlt | heq
  · exact (lt_of_month_lt hlt).le
  · rw [le_def]
    simp only [seconds, firstOfYear, dayNumber, heq]
    omega

theorem lt_nextDay_midnight (t : DateTime) : t < t.midnight.nextDay := by
  rw [lt_def, seconds_nextDay]
  exact t.seconds_lt_midnight_add

theorem lt_addMonths_firstOfMonth (t : DateTime) : t < t.firstOfMonth.addMonths 1 :=
  lt_of_month_lt (Nat.lt_succ_self _)

theorem lt_addMonths_firstOfYear (t : DateTime) : t < t.firstOfYear.addMonths 12 := by
  apply lt_of_month_lt
  simp only [addMonths, firstOfYear, year]
  omega

theorem seconds_le_prevDay_add (t : DateTime) : t.seconds ≤ t.prevDay.seconds + 86400 := by
  rw [prevDay]
  split_ifs with hday hmonth
  · omega
  · have hlen := monthLength_pos (t.month - 1)
    have hstart := monthStart_succ (t.month - 1)
    rw [Nat.sub_add_cancel (Nat.pos_of_ne_zero hmonth)] at hstart
    simp only [seconds, dayNumber]
    omega
  · simp only [seconds, dayNumber]
    omega

theorem seconds_le_prevDay_iterate_add (n : ℕ) (t : DateTime) :
    t.seconds ≤ (prevDay^[n] t).seconds + n * 86400 := by
  induction n generalizing t with
  | zero => rw [Function.iterate_zero_apply, Nat.zero_mul, Nat.add_zero]
  | succ n ih =>
    have hstep := t.seconds_le_prevDay_add
    have hrest := ih t.prevDay
    rw [Function.iterate_succ_apply]
    omega

theorem lt_nextDay_prevSunday (t : DateTime) : t < nextDay^[7] t.prevSunday := by
  have hdays : t.daysSinceSunday < 7 := Nat.mod_lt _ (by decide)
  have hmidnight := t.seconds_lt_midnight_add
  have hsunday := seconds_le_prevDay_iterate_add t.daysSinceSunday t.midnight
  rw [lt_def, seconds_nextDay_iterate, prevSunday]
  omega

/-! Steps over whole days keep the time of day. -/

theorem second_prevDay_iterate (n : ℕ) (t : DateTime) : (prevDay^[n] t).second = t.second := by
  induction n generalizing t with
  | zero => rfl
  | succ n ih =>
    rw [Function.iterate_succ_apply, ih, prevDay]
    split_ifs <;> rfl

theorem second_nextDay_iterate (n : ℕ) (t : DateTime) : (nextDay^[n] t).second = t.second := by
  induction n generalizing t with
  | zero => rfl
  | succ n ih => rw [Function.iterate_succ_apply, ih, second_nextDay]

theorem second_prevSunday (t : DateTime) : t.prevSunday.second = 0 :=
  second_prevDay_iterate _ _

theorem exists_nextDay_iterate {t u : DateTime} (ht : t.second = 0) (hu : u.second = 0)
    (h : t ≤ u) : ∃ n, nextDay^[n] t = u := by
  refine ⟨u.dayNumber - t.dayNumber, seconds_injective ?_⟩
  rw [le_def, seconds, seconds] at h
  rw [seconds_nextDay_iterate, seconds, seconds, ht, hu]
  omega

end DateTime
