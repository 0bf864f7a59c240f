import Mathlib.Data.Rat.Defs
import Mathlib.Tactic

/-!
# Formatted output and input of the C library

Texts are lists of characters, one for each byte before the terminating NUL.
The conversions are the ones of `printf` and `scanf` in the C locale: unsigned
64-bit numbers are exact and saturate like `strtoul`, and a `%f` is the exact
decimal that was printed or read. Infinities, NaN and hexadecimal floats, which
no finite number prints as, are not read.
-/

namespace FormattedText

abbrev Text := List Char

/-- `isspace` in the C locale. -/
def isSpace (c : Char) : Bool := c == ' ' || (9 ≤ c.toNat && c.toNat ≤ 13)

def skipSpace (s : Text) : Text := s.dropWhile isSpace

/-- `%lu` -/
def printUInt64 (n : UInt64) : Text := Nat.toDigits 10 n.toNat

/-- `%f` of a number given as a count of millionths. -/
def printMillionths (m : ℕ) : Text :=
  Nat.toDigits 10 (m / 10 ^ 6) ++ '.' :: (Nat.toDigits 10 (m % 10 ^ 6)).leftpad 6 '0'

def digitsValue (ds : Text) : ℕ := Nat.ofDigitChars 10 ds 0

/-- An optional sign; `true` for a minus. -/
def scanSign : Text → Bool × Text
  | [] => (false, [])
  | c :: s => if c = '-' then (true, s) else if c = '+' then (false, s) else (false, c :: s)

/-- The value `strtoul` gives to a sign and a run of digits. -/
def strtoul (negative : Bool) (ds : Text) : UInt64 :=
  let v := digitsValue ds
  if UInt64.size ≤ v then UInt64.ofNat (UInt64.size - 1)
  else if negative then -UInt64.ofNat v else UInt64.ofNat v

def scanUInt64 (s : Text) : Option (UInt64 × Text) :=
  let signed := scanSign (skipSpace s)
  let ds := signed.2.takeWhile Char.isDigit
  if ds = [] then none
  else some (strtoul signed.1 ds, signed.2.dropWhile Char.isDigit)

def scanFraction : Text → Text × Text
  | [] => ([], [])
  | c :: s => if c = '.' then (s.takeWhile Char.isDigit, s.dropWhile Char.isDigit) else ([], c :: s)

/-- A decimal exponent; an `e` without digits is a matching failure. -/
def scanExponent : Text → Option (ℤ × Text)
  | [] => some (0, [])
  | c :: s =>
    if c = 'e' ∨ c = 'E' then
      let signed := scanSign s
      let ds := signed.2.takeWhile Char.isDigit
      if ds = [] then none
      else
        let e : ℤ := digitsValue ds
        some (if signed.1 then -e else e, signed.2.dropWhile Char.isDigit)
    else some (0, c :: s)

/-- `%f` of `sscanf` for decimal numerals; `nan`, `inf` and hexadecimal numerals, which it reads as
well, are no number here. -/
def scanFloat (s : Text) : Option (ℚ × Text) :=
  let signed := scanSign (skipSpace s)
  let whole := signed.2.takeWhile Char.isDigit
  let fraction := scanFraction (signed.2.dropWhile Char.isDigit)
  if whole = [] ∧ fraction.1 = [] then none
  else
    match scanExponent fraction.2 with
    | none => none
    | some (e, rest) =>
      let v : ℚ := digitsValue (whole ++ fraction.1) / 10 ^ fraction.1.length * (10 : ℚ) ^ e
      some (if signed.1 then -v else v, rest)

/-- What `snprintf` returns, and the text it leaves in a buffer of `len` bytes. -/
def snprintf (len : ℤ) (text : Text) : ℕ × Text := (text.length, text.take (len - 1).toNat)

/-- `snprintf` with the check for overflow that its callers make. -/
def snprintfChecked (len : ℤ) (text : Text) : Option Text :=
  let n := snprintf len text
  if len ≤ n.1 then none else some n.2

theorem snprintfChecked_eq (len : ℤ) (text : Text) :
    snprintfChecked len text = if (text.length : ℤ) < len then some text else none := by
  change (if len ≤ (text.length : ℤ) then none else some (text.take (len - 1).toNat)) = _
  by_cases h : (text.length : ℤ) < len
  · rw [if_pos h, if_neg (by omega), List.take_of_length_le (by omega)]
  · rw [if_neg h, if_pos (by omega)]

/-- Append to a text in a buffer of `len` bytes. -/
def appendChecked (len : ℤ) (s text : Text) : Option Text :=
  (snprintfChecked (len - s.length) text).map (s ++ ·)

theorem appendChecked_eq (len : ℤ) (s text : Text) :
    appendChecked len s text =
      if ((s ++ text).length : ℤ) < len then some (s ++ text) else none := by
  simp only [appendChecked, snprintfChecked_eq, List.length_append, Nat.cast_add]
  by_cases h : (s.length + text.length : ℤ) < len
  · simp [if_pos h, if_pos (show (text.length : ℤ) < len - s.length by omega)]
  · simp [if_neg h, if_neg (show ¬(text.length : ℤ) < len - s.length by omega)]

/-- Filling a buffer piece by piece fails exactly when the whole text and its
NUL do not fit. -/
theorem foldlM_appendChecked {len : ℤ} (texts : List Text) {s : Text} (hs : (s.length : ℤ) < len) :
    texts.foldlM (appendChecked len) s =
      if ((s ++ texts.flatten).length : ℤ) < len then some (s ++ texts.flatten) else none := by
  induction texts generalizing s with
  | nil => simp [hs]
  | cons t ts ih =>
    rw [List.foldlM_cons, appendChecked_eq]
    by_cases ht : ((s ++ t).length : ℤ) < len
    · simp only [if_pos ht, Option.bind_eq_bind, Option.bind_some, ih ht, List.flatten_cons,
        List.append_assoc]
    · have hfull : ¬((s ++ (t :: ts).flatten).length : ℤ) < len := by
        simp only [List.length_append, List.flatten_cons] at ht ⊢
        omega
      rw [if_neg ht, if_neg hfull]
      rfl

theorem foldlM_eq_appendChecked {β : Type*} {len : ℤ} {f : Text → β → Option Text} {xs : List β}
    {texts : List Text} (h : List.Forall₂ (fun x t => ∀ s, f s x = appendChecked len s t) xs texts)
    (s : Text) : xs.foldlM f s = texts.foldlM (appendChecked len) s := by
  induction h generalizing s with
  | nil => rfl
  | cons hx _ ih =>
    rw [List.foldlM_cons, List.foldlM_cons, hx]
    exact congrArg _ (funext ih)

/-- A directive of a `scanf` format. -/
inductive Directive where
  /-- white space -/
  | space
  /-- any other ordinary character -/
  | lit (c : Char)
  /-- `%f` -/
  | float
  /-- `%lu` -/
  | uint64
  /-- `%s`, with a maximal width -/
  | word (width : ℕ)
  /-- `%[...]`, the characters of the scanset -/
  | set (width : Option ℕ) (scanset : Char → Bool)
  /-- `%*`, a conversion that is not assigned -/
  | skip (d : Directive)

/-- A value that a conversion assigns. -/
inductive Scanned where
  | float (q : ℚ)
  | uint64 (n : UInt64)
  | text (s : Text)
deriving DecidableEq

/-- A nonempty text is assigned, an empty one is a matching failure. -/
def assignText (t rest : Text) : Option (List Scanned × Text) :=
  if t = [] then none else some ([.text t], rest)

def Directive.read : Directive → Text → Option (List Scanned × Text)
  | .space, s => some ([], skipSpace s)
  | .lit _, [] => none
  | .lit c, d :: s => if d = c then some ([], s) else none
  | .float, s => (scanFloat s).map fun r => ([.float r.1], r.2)
  | .uint64, s => (scanUInt64 s).map fun r => ([.uint64 r.1], r.2)
  | .word width, s =>
    let t := ((skipSpace s).take width).takeWhile fun c => !isSpace c
    assignText t ((skipSpace s).drop t.length)
  | .set none p, s => assignText (s.takeWhile p) (s.dropWhile p)
  | .set (some width) p, s =>
    let t := (s.take width).takeWhile p
    assignText t (s.drop t.length)
  | .skip d, s => (d.read s).map fun r => ([], r.2)

/-- The assigned values in order, and the input that is left where the scan
stops: after the last directive or at the first one that fails. -/
def scanf : List Directive → Text → List Scanned × Text
  | [], s => ([], s)
  | d :: ds, s =>
    match d.read s with
    | none => ([], s)
    | some (vs, rest) => (vs ++ (scanf ds rest).1, (scanf ds rest).2)

/-- The values `sscanf` assigns; it returns how many they are. -/
def sscanf (format : List Directive) (s : Text) : List Scanned := (scanf format s).1

theorem scanf_cons {d : Directive} {s rest : Text} {vs : List Scanned}
    (h : d.read s = some (vs, rest)) (ds : List Directive) :
    scanf (d :: ds) s = (vs ++ (scanf ds rest).1, (scanf ds rest).2) := by
  simp [scanf, h]

@[simp] theorem sscanf_nil (s : Text) : sscanf [] s = [] := rfl

theorem sscanf_cons {d : Directive} {s rest : Text} {vs : List Scanned}
    (h : d.read s = some (vs, rest)) (ds : List Directive) :
    sscanf (d :: ds) s = vs ++ sscanf ds rest := by
  simp [sscanf, scanf_cons h]

theorem sscanf_cons_none {d : Directive} {s : Text} (h : d.read s = none)
    (ds : List Directive) : sscanf (d :: ds) s = [] := by
  simp [sscanf, scanf, h]

@[simp] theorem sscanf_lit (c : Char) (s : Text) (ds : List Directive) :
    sscanf (.lit c :: ds) (c :: s) = sscanf ds s := by
  have hread : (Directive.lit c).read (c :: s) = some ([], s) := by simp [Directive.read]
  rw [sscanf_cons hread, List.nil_append]

/-- The input does not go on with a character of the class. -/
def StopsAt (p : Char → Bool) (rest : Text) : Prop := ∀ c ∈ rest.head?, p c = false

@[simp] theorem stopsAt_nil (p : Char → Bool) : StopsAt p [] := by simp [StopsAt]

@[simp] theorem stopsAt_cons (p : Char → Bool) (c : Char) (s : Text) :
    StopsAt p (c :: s) ↔ p c = false := by simp [StopsAt]

theorem takeWhile_append_stop {p : Char → Bool} {t rest : Text} (ht : ∀ c ∈ t, p c = true)
    (hr : StopsAt p rest) : (t ++ rest).takeWhile p = t := by
  rw [List.takeWhile_append_of_pos ht]
  cases rest with
  | nil => simp
  | cons c s => simp [List.takeWhile, (stopsAt_cons p c s).mp hr]

theorem dropWhile_append_stop {p : Char → Bool} {t rest : Text} (ht : ∀ c ∈ t, p c = true)
    (hr : StopsAt p rest) : (t ++ rest).dropWhile p = rest := by
  rw [List.dropWhile_append_of_pos ht]
  cases rest with
  | nil => rfl
  | cons c s => simp [List.dropWhile, (stopsAt_cons p c s).mp hr]

theorem isDigit_of_mem_printed {n : ℕ} {c : Char} (h : c ∈ Nat.toDigits 10 n) :
    c.isDigit = true :=
  Nat.isDigit_of_mem_toDigits (by omega) (by omega) h

theorem not_isSpace_of_isDigit {c : Char} (h : c.isDigit = true) : isSpace c = false := by
  have hc : 48 ≤ c.toNat ∧ c.toNat ≤ 57 := by
    simp only [Char.isDigit, Bool.and_eq_true, decide_eq_true_eq, UInt32.le_iff_toNat_le,
      ge_iff_le] at h
    exact h
  have hs : c ≠ ' ' := by rintro rfl; simp at hc
  simp only [isSpace, Bool.or_eq_false_iff, beq_eq_false_iff_ne, Bool.and_eq_false_iff,
    decide_eq_false_iff_not]
  exact ⟨hs, Or.inr (by omega)⟩

theorem isDigit_sign_free {c : Char} (h : c.isDigit = true) : c ≠ '-' ∧ c ≠ '+' := by
  constructor <;> (rintro rfl; simp at h)

theorem scanSign_skipSpace_digit {t : Text} (hne : t ≠ []) (ht : ∀ c ∈ t, c.isDigit = true)
    (rest : Text) : scanSign (skipSpace (t ++ rest)) = (false, t ++ rest) := by
  obtain ⟨c, t, rfl⟩ := List.exists_cons_of_ne_nil hne
  have hc := ht c (by simp)
  have hs := isDigit_sign_free hc
  simp [skipSpace, not_isSpace_of_isDigit hc, scanSign, hs.1, hs.2]

theorem scanUInt64_printUInt64 (n : UInt64) {rest : Text} (hr : StopsAt Char.isDigit rest) :
    scanUInt64 (printUInt64 n ++ rest) = some (n, rest) := by
  have hd : ∀ c ∈ printUInt64 n, c.isDigit = true := fun c => isDigit_of_mem_printed
  have hne : printUInt64 n ≠ [] := Nat.toDigits_ne_nil
  have hv : digitsValue (printUInt64 n) = n.toNat := Nat.ofDigitChars_ten_toDigits
  have hlt : n.toNat < UInt64.size := n.toNat_lt_size
  simp only [scanUInt64, scanSign_skipSpace_digit hne hd, takeWhile_append_stop hd hr,
    dropWhile_append_stop hd hr, hne, if_false, strtoul, hv]
  simp [Nat.not_le.mpr hlt]

theorem length_leftpad_six (m : ℕ) :
    ((Nat.toDigits 10 (m % 10 ^ 6)).leftpad 6 '0').length = 6 := by
  have hl : (Nat.toDigits 10 (m % 10 ^ 6)).length ≤ 6 :=
    (Nat.length_toDigits_le_iff (by omega) (by omega)).mpr (Nat.mod_lt _ (by positivity))
  rw [List.leftpad, List.length_append, List.length_replicate]
  omega

theorem isDigit_of_mem_leftpad {m : ℕ} {c : Char}
    (h : c ∈ (Nat.toDigits 10 m).leftpad 6 '0') : c.isDigit = true := by
  rw [List.leftpad, List.mem_append] at h
  rcases h with h | h
  · rw [(List.mem_replicate.mp h).2]
    decide
  · exact isDigit_of_mem_printed h

theorem digitsValue_millionths (m : ℕ) :
    digitsValue (Nat.toDigits 10 (m / 10 ^ 6) ++ (Nat.toDigits 10 (m % 10 ^ 6)).leftpad 6 '0')
      = m := by
  have hl := length_leftpad_six m
  rw [digitsValue, Nat.ofDigitChars_append, Nat.ofDigitChars_ten_toDigits,
    Nat.ofDigitChars_eq_ofDigitChars_zero, hl, List.leftpad, Nat.ofDigitChars_append,
    Nat.ofDigitChars_replicate_zero, Nat.mul_zero, Nat.ofDigitChars_ten_toDigits]
  omega

/-- Characters that would continue a printed `%f`. -/
def continuesFloat (c : Char) : Bool := c.isDigit || c == 'e' || c == 'E'

theorem scanExponent_stop {rest : Text} (hr : StopsAt continuesFloat rest) :
    scanExponent rest = some (0, rest) := by
  cases rest with
  | nil => rfl
  | cons c s =>
    have := (stopsAt_cons _ c s).mp hr
    simp only [continuesFloat, Bool.or_eq_false_iff, beq_eq_false_iff_ne] at this
    simp [scanExponent, this.1.2, this.2]

theorem scanFloat_printMillionths (m : ℕ) {rest : Text} (hr : StopsAt continuesFloat rest) :
    scanFloat (printMillionths m ++ rest) = some ((m : ℚ) / 10 ^ 6, rest) := by
  have hw : ∀ c ∈ Nat.toDigits 10 (m / 10 ^ 6), c.isDigit = true := fun c => isDigit_of_mem_printed
  have hwn : Nat.toDigits 10 (m / 10 ^ 6) ≠ [] := Nat.toDigits_ne_nil
  have hf : ∀ c ∈ (Nat.toDigits 10 (m % 10 ^ 6)).leftpad 6 '0', c.isDigit = true :=
    fun c => isDigit_of_mem_leftpad
  have hdot (s : Text) : StopsAt Char.isDigit ('.' :: s) := by simp
  have hrd : StopsAt Char.isDigit rest := fun c hc => by
    have := hr c hc
    simp only [continuesFloat, Bool.or_eq_false_iff] at this
    exact this.1.1
  have hexp := scanExponent_stop hr
  simp only [scanFloat, printMillionths, List.append_assoc, List.cons_append,
    scanSign_skipSpace_digit hwn hw, takeWhile_append_stop hw (hdot _),
    dropWhile_append_stop hw (hdot _), scanFraction, if_true, takeWhile_append_stop hf hrd,
    dropWhile_append_stop hf hrd, hwn, false_and, if_false, hexp, digitsValue_millionths,
    length_leftpad_six]
  simp

theorem scanFloat_digits {ds rest : Text} (hne : ds ≠ []) (hd : ∀ c ∈ ds, c.isDigit = true)
    (hr : StopsAt continuesFloat rest) (hdot : StopsAt (· == '.') rest) :
    scanFloat (ds ++ rest) = some ((digitsValue ds : ℚ), rest) := by
  have hrd : StopsAt Char.isDigit rest := fun c hc => by
    have := hr c hc
    simp only [continuesFloat, Bool.or_eq_false_iff] at this
    exact this.1.1
  have hfrac : scanFraction rest = ([], rest) := by
    cases rest with
    | nil => rfl
    | cons c s => simp [scanFraction, show c ≠ '.' by simpa using hdot]
  have hexp := scanExponent_stop hr
  simp only [scanFloat, scanSign_skipSpace_digit hne hd, takeWhile_append_stop hd hrd,
    dropWhile_append_stop hd hrd, hfrac, hne, false_and, if_false, hexp, List.append_nil]
  simp

theorem read_uint64 (n : UInt64) {rest : Text} (hr : StopsAt Char.isDigit rest) :
    Directive.uint64.read (printUInt64 n ++ rest) = some ([.uint64 n], rest) := by
  simp [Directive.read, scanUInt64_printUInt64 n hr]

/-- A number written with `%lu` is read back by `%lu`. -/
theorem sscanf_uint64 (n : UInt64) {rest : Text} (hr : StopsAt Char.isDigit rest)
    (ds : List Directive) :
    sscanf (.uint64 :: ds) (printUInt64 n ++ rest) = .uint64 n :: sscanf ds rest :=
  sscanf_cons (read_uint64 n hr) ds

/-- A number written with `%f` is read back by `%f`. -/
theorem sscanf_float (m : ℕ) {rest : Text} (hr : StopsAt continuesFloat rest)
    (ds : List Directive) :
    sscanf (.float :: ds) (printMillionths m ++ rest) =
      .float ((m : ℚ) / 10 ^ 6) :: sscanf ds rest := by
  have hread : Directive.float.read (printMillionths m ++ rest) =
      some ([.float ((m : ℚ) / 10 ^ 6)], rest) := by
    simp [Directive.read, scanFloat_printMillionths m hr]
  exact sscanf_cons hread ds

/-- A text of the scanset is read up to the first character outside it. -/
theorem sscanf_set {p : Char → Bool} {t rest : Text} (hne : t ≠ []) (ht : ∀ c ∈ t, p c = true)
    (hr : StopsAt p rest) (ds : List Directive) :
    sscanf (.set none p :: ds) (t ++ rest) = .text t :: sscanf ds rest := by
  have hread : (Directive.set none p).read (t ++ rest) = some ([.text t], rest) := by
    simp [Directive.read, assignText, takeWhile_append_stop ht hr, dropWhile_append_stop ht hr,
      hne]
  exact sscanf_cons hread ds

theorem takeWhile_take_append_stop {p : Char → Bool} {t rest : Text} {width : ℕ}
    (hw : t.length ≤ width) (ht : ∀ c ∈ t, p c = true) (hr : StopsAt p rest) :
    ((t ++ rest).take width).takeWhile p = t := by
  have hr' : StopsAt p (rest.take (width - t.length)) := by
    cases rest with
    | nil => simp
    | cons c s => cases h : width - t.length <;> simp_all
  rw [List.take_append, List.take_of_length_le hw, takeWhile_append_stop ht hr']

theorem read_set_width {p : Char → Bool} {t rest : Text} {width : ℕ} (hne : t ≠ [])
    (hw : t.length ≤ width) (ht : ∀ c ∈ t, p c = true) (hr : StopsAt p rest) :
    (Directive.set (some width) p).read (t ++ rest) = some ([.text t], rest) := by
  simp [Directive.read, assignText, takeWhile_take_append_stop hw ht hr, hne]

theorem skipSpace_stop {s : Text} (h : StopsAt isSpace s) : skipSpace s = s := by
  cases s with
  | nil => rfl
  | cons c s => simp [skipSpace, (stopsAt_cons _ c s).mp h]

theorem read_word {t rest : Text} {width : ℕ} (hne : t ≠ []) (hw : t.length ≤ width)
    (ht : ∀ c ∈ t, isSpace c = false) (hr : StopsAt (fun c => !isSpace c) rest) :
    (Directive.word width).read (t ++ rest) = some ([.text t], rest) := by
  have hskip : skipSpace (t ++ rest) = t ++ rest := by
    apply skipSpace_stop
    obtain ⟨c, t, rfl⟩ := List.exists_cons_of_ne_nil hne
    simpa using ht c (by simp)
  have htake := takeWhile_take_append_stop (p := fun c => !isSpace c) hw
    (fun c hc => by simp [ht c hc]) hr
  simp [Directive.read, assignText, hskip, htake, hne]

/-- One white-space character before a text that does not start with one. -/
theorem read_space {c : Char} {rest : Text} (hc : isSpace c = true) (hr : StopsAt isSpace rest) :
    Directive.space.read (c :: rest) = some ([], rest) := by
  have hskip := skipSpace_stop hr
  simp only [skipSpace] at hskip
  simp [Directive.read, skipSpace, hc, hskip]

theorem sscanf_literal (t rest : Text) (ds : List Directive) :
    sscanf (t.map Directive.lit ++ ds) (t ++ rest) = sscanf ds rest := by
  induction t with
  | nil => rfl
  | cons c t ih => rw [List.map_cons, List.cons_append, List.cons_append, sscanf_lit, ih]

theorem sscanf_space {c : Char} {rest : Text} (hc : isSpace c = true) (hr : StopsAt isSpace rest)
    (ds : List Directive) : sscanf (.space :: ds) (c :: rest) = sscanf ds rest := by
  rw [sscanf_cons (read_space hc hr), List.nil_append]

theorem isSpace_space : isSpace ' ' = true := by decide

theorem isSpace_newline : isSpace '\n' = true := by decide

theorem stopsAt_printUInt64 (n : UInt64) (rest : Text) :
    StopsAt isSpace (printUInt64 n ++ rest) := by
  obtain ⟨c, t, hct⟩ := List.exists_cons_of_ne_nil (Nat.toDigits_ne_nil (b := 10) (n := n.toNat))
  have hc : c ∈ Nat.toDigits 10 n.toNat := by simp [hct]
  simpa [printUInt64, hct] using not_isSpace_of_isDigit (isDigit_of_mem_printed hc)

end FormattedText
