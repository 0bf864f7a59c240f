import Lmt.Library.Calendar

/-!
# The texts of dates and times

A text of fixed width compares as its number does, so the compact form of times
(`YYYYMMDDHHMMSS`) compares by the alphabet as the times do. The form with
separators compares differently: the hyphen after its year comes before every
digit.
-/

namespace Calendar

/-- The last `w` decimal digits of a number. -/
def digits : ℕ → ℕ → List Char
  | 0, _ => []
  | w + 1, n => digits w (n / 10) ++ [Nat.digitChar (n % 10)]

@[simp] theorem length_digits (w n : ℕ) : (digits w n).length = w := by
  induction w generalizing n with
  | zero => rfl
  | succ w ih => rw [digits, List.length_append, ih, List.length_singleton]

/-- Texts are compared by their first parts when these have one length. -/
theorem append_lt_append {a b : List Char} (h : a.length = b.length) (c d : List Char) :
    a ++ c < b ++ d ↔ a < b ∨ a = b ∧ c < d := by
  induction a generalizing b with
  | nil =>
    obtain rfl := List.length_eq_zero_iff.mp h.symm
    simp
  | cons x a ih =>
    cases b with
    | nil => simp at h
    | cons y b =>
      rw [List.cons_append, List.cons_append, List.cons_lt_cons_iff, List.cons_lt_cons_iff,
        ih (Nat.succ.inj h), List.cons.injEq]
      tauto

theorem digitChar_lt_digitChar {a b : ℕ} (ha : a < 10) (hb : b < 10) :
    Nat.digitChar a < Nat.digitChar b ↔ a < b := by
  interval_cases a <;> interval_cases b <;> decide

theorem digitChar_inj {a b : ℕ} (ha : a < 10) (hb : b < 10) :
    Nat.digitChar a = Nat.digitChar b ↔ a = b := by
  interval_cases a <;> interval_cases b <;> decide

theorem digits_inj {w n m : ℕ} (hn : n < 10 ^ w) (hm : m < 10 ^ w) :
    digits w n = digits w m ↔ n = m := by
  induction w generalizing n m with
  | zero =>
    simp only [pow_zero, Nat.lt_one_iff] at hn hm
    simp [hn, hm]
  | succ w ih =>
    rw [pow_succ] at hn hm
    have hn' : n / 10 < 10 ^ w := by omega
    have hm' : m / 10 < 10 ^ w := by omega
    have hlast := digitChar_inj (Nat.mod_lt n (by decide)) (Nat.mod_lt m (by decide))
    constructor
    · intro h
      obtain ⟨hinit, hchar⟩ := List.append_inj h (by simp)
      have hdiv := (ih hn' hm').mp hinit
      have hmod := hlast.mp (List.cons.inj hchar).1
      omega
    · rintro rfl
      rfl

theorem digits_lt_digits {w n m : ℕ} (hn : n < 10 ^ w) (hm : m < 10 ^ w) :
    digits w n < digits w m ↔ n < m := by
  induction w generalizing n m with
  | zero =>
    simp only [pow_zero, Nat.lt_one_iff] at hn hm
    simp [hn, hm]
  | succ w ih =>
    rw [pow_succ] at hn hm
    have hn' : n / 10 < 10 ^ w := by omega
    have hm' : m / 10 < 10 ^ w := by omega
    have hlast := digitChar_lt_digitChar (Nat.mod_lt n (by decide)) (Nat.mod_lt m (by decide))
    rw [digits, digits, append_lt_append (by simp), ih hn' hm', digits_inj hn' hm',
      List.cons_lt_cons_iff, hlast]
    simp only [List.lt_irrefl, and_false, or_false]
    omega

theorem mem_digits {w n : ℕ} {c : Char} (h : c ∈ digits w n) : c.isDigit = true := by
  induction w generalizing n with
  | zero => simp [digits] at h
  | succ w ih =>
    rcases List.mem_append.mp h with h | h
    · exact ih h
    · rw [List.mem_singleton.mp h]
      have hlt := Nat.mod_lt n (show 0 < 10 by decide)
      generalize n % 10 = d at hlt
      interval_cases d <;> decide

end Calendar

open Calendar

namespace DateTime

/-- `YYYY-MM-DD HH:MM:SS` -/
def dashed (t : DateTime) : List Char :=
  digits 4 t.year ++ '-' :: (digits 2 (t.month % 12 + 1) ++ '-' :: (digits 2 (t.day + 1) ++
    ' ' :: (digits 2 (t.second / 3600) ++ ':' :: (digits 2 (t.second / 60 % 60) ++
      ':' :: digits 2 (t.second % 60)))))

/-- `YYYYMMDDHH:MM:SS` -/
def colons (t : DateTime) : List Char :=
  digits 4 t.year ++ (digits 2 (t.month % 12 + 1) ++ (digits 2 (t.day + 1) ++
    (digits 2 (t.second / 3600) ++ ':' :: (digits 2 (t.second / 60 % 60) ++
      ':' :: digits 2 (t.second % 60)))))

def compact (t : DateTime) : List Char :=
  digits 4 t.year ++ (digits 2 (t.month % 12 + 1) ++ (digits 2 (t.day + 1) ++
    (digits 2 (t.second / 3600) ++ (digits 2 (t.second / 60 % 60) ++ digits 2 (t.second % 60)))))

def remove (separators text : List Char) : List Char := text.filter fun c => !separators.contains c

section

variable (separators : List Char)

theorem remove_digits (h : separators.any Char.isDigit = false) (w n : ℕ) :
    remove separators (digits w n) = digits w n := by
  refine List.filter_eq_self.mpr fun c hc => ?_
  have hdigit := mem_digits hc
  simp only [Bool.not_eq_eq_eq_not, Bool.not_true, List.contains_eq_mem, decide_eq_false_iff_not]
  intro hmem
  exact List.any_eq_false.mp h c hmem hdigit

theorem remove_append (a b : List Char) :
    remove separators (a ++ b) = remove separators a ++ remove separators b :=
  List.filter_append ..

theorem remove_cons_of_mem (c : Char) (h : c ∈ separators) (a : List Char) :
    remove separators (c :: a) = remove separators a := by
  simp [remove, h]

end

theorem remove_dashed (t : DateTime) : remove [' ', ':', '-'] t.dashed = t.compact := by
  have hdigits := remove_digits [' ', ':', '-'] rfl
  have hhyphen := remove_cons_of_mem [' ', ':', '-'] '-' (by decide)
  have hblank := remove_cons_of_mem [' ', ':', '-'] ' ' (by decide)
  have hcolon := remove_cons_of_mem [' ', ':', '-'] ':' (by decide)
  simp only [dashed, compact, remove_append, hdigits, hhyphen, hblank, hcolon]

theorem remove_colons (t : DateTime) : remove [':'] t.colons = t.compact := by
  have hdigits := remove_digits [':'] rfl
  have hcolon := remove_cons_of_mem [':'] ':' (by decide)
  simp only [colons, compact, remove_append, hdigits, hcolon]

def FourDigitYear (t : DateTime) : Prop := t.year < 10000

theorem lt_of_lex {t u : DateTime}
    (h : t.month < u.month ∨
      t.month = u.month ∧ (t.day < u.day ∨ t.day = u.day ∧ t.second < u.second)) :
    t < u := by
  have ht := t.second_lt
  rw [lt_def]
  rcases h with hmonth | ⟨hmonth, hday | ⟨hday, hsecond⟩⟩
  · have := dayNumber_lt_of_month_lt hmonth
    simp only [seconds]
    omega
  · simp only [seconds, dayNumber, hmonth]
    omega
  · simp only [seconds, dayNumber, hmonth, hday]
    omega

theorem lt_iff_lex {t u : DateTime} :
    t < u ↔ t.month < u.month ∨
      t.month = u.month ∧ (t.day < u.day ∨ t.day = u.day ∧ t.second < u.second) := by
  constructor
  · intro h
    by_contra hnot
    have hle : u ≤ t := by
      by_cases heq : t.month = u.month ∧ t.day = u.day ∧ t.second = u.second
      · obtain ⟨hmonth, hday, hsecond⟩ := heq
        rw [le_def]
        simp only [seconds, dayNumber, hmonth, hday, hsecond]
        exact le_rfl
      · exact (lt_of_lex (by omega)).le
    exact absurd h hle.not_gt
  · exact lt_of_lex

theorem compact_lt_compact {t u : DateTime} (ht : t.FourDigitYear) (hu : u.FourDigitYear) :
    t.compact < u.compact ↔ t < u := by
  have htday := t.day_lt
  have huday := u.day_lt
  have htlen : monthLength t.month ≤ 31 := monthLength_le _
  have hulen : monthLength u.month ≤ 31 := monthLength_le _
  have htsec := t.second_lt
  have husec := u.second_lt
  rw [FourDigitYear, year] at ht hu
  rw [lt_iff_lex, compact, compact, year, year]
  rw [append_lt_append (by simp), digits_lt_digits (by omega) (by omega),
    digits_inj (by omega) (by omega),
    append_lt_append (by simp), digits_lt_digits (by omega) (by omega),
    digits_inj (by omega) (by omega),
    append_lt_append (by simp), digits_lt_digits (by omega) (by omega),
    digits_inj (by omega) (by omega),
    append_lt_append (by simp), digits_lt_digits (by omega) (by omega),
    digits_inj (by omega) (by omega),
    append_lt_append (by simp), digits_lt_digits (by omega) (by omega),
    digits_inj (by omega) (by omega), digits_lt_digits (by omega) (by omega)]
  omega

/-- A text with separators comes before a compact one unless its year is later. -/
theorem dashed_lt_compact {t u : DateTime} (ht : t.FourDigitYear) (hu : u.FourDigitYear) :
    t.dashed < u.compact ↔ t.year ≤ u.year := by
  rw [FourDigitYear] at ht hu
  rw [dashed, compact, append_lt_append (by simp), digits_lt_digits (by omega) (by omega),
    digits_inj (by omega) (by omega)]
  have hhyphen (m : ℕ) (a b : List Char) : '-' :: a < digits 2 m ++ b := by
    refine List.cons_lt_cons_iff.mpr (Or.inl ?_)
    have hlt := Nat.mod_lt (m / 10) (show 0 < 10 by decide)
    generalize m / 10 % 10 = d at hlt
    interval_cases d <;> decide
  simp only [hhyphen, and_true]
  omega

end DateTime
