import Lmt.Proc.Discipline
import Mathlib.Data.UInt

/-!
# The sections of `brw_stats`

A section is a heading, some rows and an empty line, which the last section may
lack; between the sections stand lines without a heading. The loop over the rows
ends where no colon follows within 16 characters. After the last row these are an
end of a line or two and the beginning of the next heading, which has at least 13
characters, so every section is read up to its own end.
-/

namespace Lmt

open Attempts FormattedText Grouping

/-- A run of blanks in a line. -/
structure Blanks where
  text : Text
  ne_nil : text ≠ []
  blank : ∀ c ∈ text, c = ' ' ∨ c = '\t'

inductive BinUnit where
  | kilo | mega

def BinUnit.text : Option BinUnit → Text
  | none => []
  | some .kilo => ['K']
  | some .mega => ['M']

def BinUnit.scale : Option BinUnit → ℕ
  | none => 1
  | some .kilo => 1024
  | some .mega => 1024 * 1024

/-- `%d`, of a percentage -/
def printPct (n : ℤ) : Text :=
  if n < 0 then '-' :: Nat.toDigits 10 n.natAbs else Nat.toDigits 10 n.natAbs

/-- A row: the label of its bin, and the number, the percentage and the cumulated
percentage of reads and of writes. -/
structure BrwRow where
  bin : ℕ
  binUnit : Option BinUnit
  r : UInt64
  rPct : ℤ
  rCum : ℤ
  w : UInt64
  wPct : ℤ
  wCum : ℤ
  gap : Fin 7 → Blanks
  label_fits : (Nat.toDigits 10 bin ++ BinUnit.text binUnit).length ≤ 14

def BrwRow.label (row : BrwRow) : Text := Nat.toDigits 10 row.bin ++ BinUnit.text row.binUnit

def BrwRow.value (row : BrwRow) : ℕ := row.bin * BinUnit.scale row.binUnit

def BrwRow.writes (row : BrwRow) : Text :=
  '|' :: ((row.gap 4).text ++ (printUInt64 row.w ++ ((row.gap 5).text ++
    (printPct row.wPct ++ ((row.gap 6).text ++ printPct row.wCum)))))

def BrwRow.text (row : BrwRow) : Text :=
  row.label ++ ':' :: ((row.gap 0).text ++ (printUInt64 row.r ++ ((row.gap 1).text ++
    (printPct row.rPct ++ ((row.gap 2).text ++ (printPct row.rCum ++ ((row.gap 3).text ++
      row.writes)))))))

def rowsText (rows : List BrwRow) : Text := rows.flatMap fun row => row.text ++ ['\n']

/-- A line that is passed over by `_brw_seek`. -/
structure IsCaption (line : Text) : Prop where
  isLine : IsLine 256 line
  not_heading : ∀ t : Brw, ¬t.heading <+: line

/-- A section, with the lines before its heading. -/
structure BrwSection where
  captions : List Text
  kind : Brw
  /-- the rest of the heading line -/
  columns : Text
  rows : List BrwRow
  isCaption : ∀ line ∈ captions, IsCaption line
  colon_notMem_captions : ∀ line ∈ captions, ':' ∉ line
  isLine : IsLine 256 (kind.heading ++ columns)
  colon_notMem_columns : ':' ∉ columns

def captionsText (lines : List Text) : Text := lines.flatMap fun line => line ++ ['\n']

def BrwSection.text (s : BrwSection) : Text :=
  captionsText s.captions ++ (s.kind.heading ++ s.columns) ++ '\n' :: rowsText s.rows

/-- A file: lines before the first section, sections with an empty line at their end,
and maybe a last section without one. -/
structure BrwFile where
  captions : List Text
  sections : List BrwSection
  last : Option BrwSection
  isCaption : ∀ line ∈ captions, IsCaption line

def lastText (last : Option BrwSection) : Text := (last.map BrwSection.text).getD []

def sectionsText (sections : List BrwSection) (last : Option BrwSection) : Text :=
  (sections.flatMap fun s => s.text ++ ['\n']) ++ lastText last

def BrwFile.text (f : BrwFile) : Text := captionsText f.captions ++ sectionsText f.sections f.last

def BrwFile.section? (f : BrwFile) (t : Brw) : Option BrwSection :=
  (f.sections ++ f.last.toList).find? (·.kind = t)

/-- Strictly increasing bins, one for each value that a row has, with the sums over
the rows with this value. -/
structure Histogram.SumsOf (h : Histogram) (rows : List BrwRow) : Prop where
  increasing : h.Pairwise fun a b => a.x < b.x
  values : ∀ n, (∃ e ∈ h, e.x.toNat = n) ↔ ∃ row ∈ rows, row.value = n
  sums : ∀ e ∈ h, e.yr = ((rows.filter fun row => row.value = e.x.toNat).map BrwRow.r).sum ∧
    e.yw = ((rows.filter fun row => row.value = e.x.toNat).map BrwRow.w).sum

def startsHeading (c : Char) : Bool := c == 'p' || c == 'd' || c == 'I'

theorem exists_heading_eq_cons (t : Brw) : ∃ c s, t.heading = c :: s ∧ startsHeading c = true := by
  cases t <;> exact ⟨_, _, rfl, rfl⟩

theorem length_heading (t : Brw) : 13 ≤ t.heading.length := by
  cases t <;> decide

theorem colon_notMem_heading (t : Brw) : ':' ∉ t.heading := by
  cases t <;> decide

theorem eq_of_heading_isPrefix {t t' : Brw} {s : Text} (h : t.heading <+: t'.heading ++ s) :
    t = t' := by
  have hcompare : t.heading <+: t'.heading ∨ t'.heading <+: t.heading :=
    List.prefix_or_prefix_of_prefix h (List.prefix_append _ _)
  rw [← List.isPrefixOf_iff_prefix, ← List.isPrefixOf_iff_prefix] at hcompare
  revert hcompare
  cases t <;> cases t' <;> decide

/-- `_brw_seek` in a text: whether a heading was found, and the rest after its line. -/
def seek (t : Brw) (text : Text) : Except Unit Unit × Text := getsAll 256 (brwSeekLine t) () text

theorem brwSeekLine_ok {t : Brw} {line : Text} (h : ¬t.heading <+: line) :
    brwSeekLine t () line = .ok () := by
  rw [brwSeekLine, if_neg (by rwa [List.isPrefixOf_iff_prefix])]

theorem seek_heading {t : Brw} {line : Text} (hline : IsLine 256 line) (h : t.heading <+: line)
    (rest : Text) : seek t (line ++ '\n' :: rest) = (.error (), rest) := by
  apply getsAll_of_error (by omega) (gets_line hline rest)
  rw [brwSeekLine, if_pos (List.isPrefixOf_iff_prefix.mpr h)]

theorem seek_line {t : Brw} {line : Text} (hline : IsLine 256 line) (h : ¬t.heading <+: line)
    (rest : Text) : seek t (line ++ '\n' :: rest) = seek t rest :=
  getsAll_of_ok (by omega) (gets_line hline rest) (brwSeekLine_ok h)

theorem seek_captions {t : Brw} {lines : List Text} (h : ∀ line ∈ lines, IsCaption line)
    (rest : Text) : seek t (captionsText lines ++ rest) = seek t rest := by
  induction lines with
  | nil => rfl
  | cons line lines ih =>
    rw [List.forall_mem_cons] at h
    rw [captionsText, List.flatMap_cons, List.append_assoc, List.append_assoc,
      List.singleton_append,
      seek_line h.1.isLine (h.1.not_heading t)]
    exact ih h.2

/-- A text without the first characters of the headings is passed over, whatever lines
it is read in. -/
theorem seek_rows {t : Brw} {text : Text} (hlast : ∀ c ∈ text.getLast?, c = '\n')
    (h : ∀ c ∈ text, startsHeading c = false) (rest : Text) :
    seek t (text ++ rest) = seek t rest := by
  induction hn : text.length using Nat.strong_induction_on generalizing text with
  | _ n ih =>
    subst hn
    by_cases hne : text = []
    · rw [hne, List.nil_append]
    · obtain ⟨a, b, rfl, ha, hread, hb⟩ :=
        fgets_part (n := 255) (by omega) hne hlast rest
      rw [List.forall_mem_append] at h
      have hgets : gets 256 (a ++ b ++ rest) = (some (trimNewline a), b ++ rest) := by
        obtain ⟨c, text, htext⟩ := List.exists_cons_of_ne_nil (l := a ++ b ++ rest) (by simp [ha])
        rw [htext, gets, ← htext, hread]
      have hnot : ¬t.heading <+: trimNewline a := by
        obtain ⟨c, s, heading, hc⟩ := exists_heading_eq_cons t
        intro hpre
        have hmem : c ∈ trimNewline a := hpre.subset (by rw [heading]; exact List.mem_cons_self)
        have hmem' : c ∈ a := by
          unfold trimNewline at hmem
          split_ifs at hmem
          · exact List.mem_of_mem_dropLast hmem
          · exact hmem
        rw [h.1 c hmem'] at hc
        cases hc
      have hlength : b.length < (a ++ b).length := by
        rw [List.length_append]
        have := List.length_pos_iff.mpr ha
        omega
      rw [seek, getsAll_of_ok (by omega) hgets (brwSeekLine_ok hnot)]
      exact ih b.length hlength hb h.2 rfl

def isRowChar (c : Char) : Bool :=
  c.isDigit || c == 'K' || c == 'M' || c == ':' || c == '|' || c == '-' || c == ' ' || c == '\t'

theorem isRowChar_of_isDigit {c : Char} (h : c.isDigit = true) : isRowChar c = true := by
  simp [isRowChar, h]

theorem isRowChar_of_mem_blanks (b : Blanks) : ∀ c ∈ b.text, isRowChar c = true := by
  intro c hc
  rcases b.blank c hc with rfl | rfl <;> decide

theorem isRowChar_of_mem_printUInt64 (n : UInt64) : ∀ c ∈ printUInt64 n, isRowChar c = true :=
  fun _ hc => isRowChar_of_isDigit (isDigit_of_mem_printed hc)

theorem isRowChar_of_mem_printPct (n : ℤ) : ∀ c ∈ printPct n, isRowChar c = true := by
  intro c hc
  unfold printPct at hc
  split_ifs at hc
  · rcases List.mem_cons.mp hc with rfl | hc
    · decide
    · exact isRowChar_of_isDigit (isDigit_of_mem_printed hc)
  · exact isRowChar_of_isDigit (isDigit_of_mem_printed hc)

theorem isRowChar_of_mem_label (row : BrwRow) :
    ∀ c ∈ row.label, isRowChar c = true ∧ c ≠ ':' := by
  intro c hc
  rcases List.mem_append.mp hc with hc | hc
  · have hdigit := isDigit_of_mem_printed hc
    refine ⟨isRowChar_of_isDigit hdigit, ?_⟩
    rintro rfl
    simp at hdigit
  · unfold BinUnit.text at hc
    split at hc
    · cases hc
    · obtain rfl := List.mem_singleton.mp hc
      decide
    · obtain rfl := List.mem_singleton.mp hc
      decide

theorem isRowChar_of_mem_text (row : BrwRow) : ∀ c ∈ row.text, isRowChar c = true := by
  have hcolon : isRowChar ':' = true := by decide
  have hbar : isRowChar '|' = true := by decide
  unfold BrwRow.text BrwRow.writes
  simp only [List.forall_mem_append, List.forall_mem_cons]
  exact ⟨fun c hc => (isRowChar_of_mem_label row c hc).1, hcolon, isRowChar_of_mem_blanks _,
    isRowChar_of_mem_printUInt64 _, isRowChar_of_mem_blanks _, isRowChar_of_mem_printPct _,
    isRowChar_of_mem_blanks _, isRowChar_of_mem_printPct _, isRowChar_of_mem_blanks _, hbar,
    isRowChar_of_mem_blanks _, isRowChar_of_mem_printUInt64 _, isRowChar_of_mem_blanks _,
    isRowChar_of_mem_printPct _, isRowChar_of_mem_blanks _, isRowChar_of_mem_printPct _⟩

theorem startsHeading_of_isRowChar {c : Char} (h : isRowChar c = true) :
    startsHeading c = false := by
  unfold startsHeading
  by_contra hstarts
  rw [Bool.not_eq_false, Bool.or_eq_true, Bool.or_eq_true, beq_iff_eq, beq_iff_eq, beq_iff_eq]
    at hstarts
  rcases hstarts with (rfl | rfl) | rfl <;> revert h <;> decide

/-- The rows of a section and the empty line after them are passed over. -/
theorem seek_rowsText (t : Brw) (rows : List BrwRow) (rest : Text) :
    seek t (rowsText rows ++ '\n' :: rest) = seek t rest := by
  have happend : rowsText rows ++ '\n' :: rest = rowsText rows ++ ['\n'] ++ rest := by
    rw [List.append_assoc, List.singleton_append]
  rw [happend]
  apply seek_rows
  · simp
  · rw [List.forall_mem_append]
    constructor
    · intro c hc
      obtain ⟨row, -, hmem⟩ := List.mem_flatMap.mp hc
      rcases List.mem_append.mp hmem with hmem | hmem
      · exact startsHeading_of_isRowChar (isRowChar_of_mem_text row c hmem)
      · obtain rfl := List.mem_singleton.mp hmem
        decide
    · intro c hc
      obtain rfl := List.mem_singleton.mp hc
      decide

section

variable {rest : Text}

theorem isSpace_of_mem_blanks (b : Blanks) : ∀ c ∈ b.text, isSpace c = true := by
  intro c hc
  rcases b.blank c hc with rfl | rfl <;> decide

theorem stopsAt_blanks (b : Blanks) (rest : Text) : StopsAt Char.isDigit (b.text ++ rest) := by
  obtain ⟨c, s, hs⟩ := List.exists_cons_of_ne_nil b.ne_nil
  have hc : c ∈ b.text := by
    rw [hs]
    exact List.mem_cons_self
  rw [hs, List.cons_append, stopsAt_cons]
  rcases b.blank c hc with rfl | rfl <;> decide

theorem read_blanks (b : Blanks) (hr : StopsAt isSpace rest) :
    Directive.space.read (b.text ++ rest) = some ([], rest) := by
  rw [Directive.read, skipSpace, dropWhile_append_stop (isSpace_of_mem_blanks b) hr]

theorem stopsAt_printPct (n : ℤ) (rest : Text) : StopsAt isSpace (printPct n ++ rest) := by
  obtain ⟨c, t, hct⟩ :=
    List.exists_cons_of_ne_nil (Nat.toDigits_ne_nil (b := 10) (n := n.natAbs))
  have hc : c ∈ Nat.toDigits 10 n.natAbs := by
    rw [hct]
    exact List.mem_cons_self
  unfold printPct
  split_ifs
  · exact (stopsAt_cons _ _ _).mpr (by decide)
  · rw [hct]
    exact (stopsAt_cons _ _ _).mpr (not_isSpace_of_isDigit (isDigit_of_mem_printed hc))

theorem read_skip_printPct (n : ℤ) (hr : StopsAt Char.isDigit rest) :
    (Directive.skip .uint64).read (printPct n ++ rest) = some ([], rest) := by
  have hd : ∀ c ∈ Nat.toDigits 10 n.natAbs, c.isDigit = true := fun c => isDigit_of_mem_printed
  have hne : Nat.toDigits 10 n.natAbs ≠ [] := Nat.toDigits_ne_nil
  have hscan : ∃ x, scanUInt64 (printPct n ++ rest) = some (x, rest) := by
    unfold printPct scanUInt64
    split_ifs with hneg
    · rw [List.cons_append, skipSpace_stop ((stopsAt_cons _ _ _).mpr (by decide))]
      simp [scanSign, takeWhile_append_stop hd hr, dropWhile_append_stop hd hr, hne]
    · simp [scanSign_skipSpace_digit hne hd, takeWhile_append_stop hd hr,
        dropWhile_append_stop hd hr, hne]
  obtain ⟨x, hx⟩ := hscan
  simp [Directive.read, hx]

theorem stopsAt_bar (s : Text) : StopsAt isSpace ('|' :: s) :=
  (stopsAt_cons _ _ _).mpr (by decide)

/-- The numbers of the writes are read up to the end of the line. -/
theorem scanf_writes (row : BrwRow) (hr : StopsAt Char.isDigit rest) :
    scanf [.lit '|', .space, .uint64, .space, .skip .uint64, .space, .skip .uint64]
      (row.writes ++ rest) = ([.uint64 row.w], rest) := by
  have hbar (s : Text) : (Directive.lit '|').read ('|' :: s) = some ([], s) := by
    simp [Directive.read]
  unfold BrwRow.writes
  simp only [List.cons_append, List.append_assoc]
  rw [scanf_cons (hbar _), scanf_cons (read_blanks _ (stopsAt_printUInt64 _ _)),
    scanf_cons (read_uint64 _ (stopsAt_blanks _ _)),
    scanf_cons (read_blanks _ (stopsAt_printPct _ _)),
    scanf_cons (read_skip_printPct _ (stopsAt_blanks _ _)),
    scanf_cons (read_blanks _ (stopsAt_printPct _ _)), scanf_cons (read_skip_printPct _ hr)]
  rfl

theorem scanf_row {lead : Text} (hlead : lead.length ≤ 1) (hcolon : ':' ∉ lead) (row : BrwRow)
    (hr : StopsAt Char.isDigit rest) :
    scanf brwFormat (lead ++ (row.text ++ rest)) =
      ([.text (lead ++ row.label), .uint64 row.r, .uint64 row.w], rest) := by
  have hset (s : Text) : (Directive.set (some 15) (· != ':')).read
      ((lead ++ row.label) ++ ':' :: s) = some ([.text (lead ++ row.label)], ':' :: s) := by
    apply read_set_width
    · rw [BrwRow.label]
      simp [Nat.toDigits_ne_nil]
    · have hfits : row.label.length ≤ 14 := row.label_fits
      rw [List.length_append]
      omega
    · intro c hc
      rcases List.mem_append.mp hc with hc | hc
      · simpa using fun h : c = ':' => hcolon (h ▸ hc)
      · simpa using (isRowChar_of_mem_label row c hc).2
    · exact (stopsAt_cons _ _ _).mpr (by decide)
  have hlit (s : Text) : (Directive.lit ':').read (':' :: s) = some ([], s) := by
    simp [Directive.read]
  have hwrites : StopsAt isSpace (row.writes ++ rest) := stopsAt_bar _
  unfold BrwRow.text brwFormat
  simp only [List.append_assoc, List.cons_append]
  rw [← List.append_assoc lead, scanf_cons (hset _), scanf_cons (hlit _),
    scanf_cons (read_blanks _ (stopsAt_printUInt64 _ _)),
    scanf_cons (read_uint64 _ (stopsAt_blanks _ _)),
    scanf_cons (read_blanks _ (stopsAt_printPct _ _)),
    scanf_cons (read_skip_printPct _ (stopsAt_blanks _ _)),
    scanf_cons (read_blanks _ (stopsAt_printPct _ _)),
    scanf_cons (read_skip_printPct _ (stopsAt_blanks _ _)), scanf_cons (read_blanks _ hwrites),
    scanf_writes row hr]
  rfl

/-- Without a colon within 16 characters the loop over the rows ends. -/
theorem scanf_without_colon {text : Text} (h : ':' ∉ text.take 16) :
    (scanf brwFormat text).1 = [] ∨ ∃ t, (scanf brwFormat text).1 = [.text t] := by
  have hall : (text.take 15).takeWhile (· != ':') = text.take 15 := by
    rw [List.takeWhile_eq_self_iff]
    intro c hc
    have hmem : c ∈ text.take 16 :=
      (List.take_subset_take_left text (by omega : 15 ≤ 16)) hc
    simpa using fun heq : c = ':' => h (heq ▸ hmem)
  by_cases hnil : text = []
  · subst hnil
    exact .inl rfl
  · refine .inr ⟨text.take 15, ?_⟩
    have hread : (Directive.set (some 15) (· != ':')).read text =
        some ([.text (text.take 15)], text.drop (text.take 15).length) := by
      simp [Directive.read, hall, assignText, hnil]
    have hlit : (Directive.lit ':').read (text.drop (text.take 15).length) = none := by
      rw [List.length_take]
      cases hdrop : text.drop (min 15 text.length) with
      | nil => rfl
      | cons c s =>
        have hne : c ≠ ':' := by
          rintro rfl
          apply h
          have hlt : min 15 text.length < text.length := by
            by_contra hge
            rw [List.drop_eq_nil_of_le (not_lt.mp hge)] at hdrop
            cases hdrop
          rw [show min 15 text.length = 15 by omega] at hdrop hlt
          rw [List.mem_take_iff_getElem]
          have hget := List.drop_eq_getElem_cons hlt
          rw [hdrop] at hget
          exact ⟨15, by omega, (List.cons_eq_cons.mp hget).1.symm⟩
        rw [Directive.read, if_neg hne]
    rw [brwFormat, scanf_cons hread, scanf, hlit]
    rfl

end

theorem length_digits_lt (row : BrwRow) {n : ℕ}
    (h : (BinUnit.text row.binUnit).length + n = 14) : row.bin < 10 ^ n := by
  have hfits := row.label_fits
  rw [List.length_append] at hfits
  have hlength : (Nat.toDigits 10 row.bin).length ≤ n := by omega
  by_cases hn : 0 < n
  · exact (Nat.length_toDigits_le_iff (by omega) hn).mp hlength
  · have hpos := List.length_pos_iff.mpr (Nat.toDigits_ne_nil (b := 10) (n := row.bin))
    omega

/-- The label is too short for an overflow. -/
theorem value_lt (row : BrwRow) : row.value < UInt64.size := by
  unfold BrwRow.value BinUnit.scale
  cases hunit : row.binUnit with
  | none =>
    have hlt := length_digits_lt row (n := 14) (by rw [hunit]; rfl)
    rw [show UInt64.size = 2 ^ 64 by rfl]
    simp only
    omega
  | some u =>
    have hlt := length_digits_lt row (n := 13) (by rw [hunit]; cases u <;> rfl)
    rw [show UInt64.size = 2 ^ 64 by rfl]
    cases u with
    | kilo => simp only; omega
    | mega => simp only; omega

theorem bin_lt (row : BrwRow) : row.bin < UInt64.size := by
  refine lt_of_le_of_lt ?_ (value_lt row)
  apply Nat.le_mul_of_pos_right
  unfold BinUnit.scale
  split <;> omega

def BrwRow.x (row : BrwRow) : UInt64 := UInt64.ofNat row.value

theorem toNat_x (row : BrwRow) : row.x.toNat = row.value :=
  UInt64.toNat_ofNat_of_lt' (value_lt row)

theorem x_eq_iff (row : BrwRow) (x : UInt64) : row.x = x ↔ row.value = x.toNat := by
  rw [← toNat_x, UInt64.toNat_inj]

theorem scanUInt64_cons_space {c : Char} (hc : isSpace c = true) (s : Text) :
    scanUInt64 (c :: s) = scanUInt64 s := by
  have hskip : skipSpace (c :: s) = skipSpace s := by
    rw [skipSpace, List.dropWhile_cons_of_pos hc]
    rfl
  rw [scanUInt64, hskip]
  rfl

theorem scanUInt64_label {lead : Text} (hlead : lead = [] ∨ lead = ['\n']) (row : BrwRow) :
    scanUInt64 (lead ++ row.label) = some (UInt64.ofNat row.bin, BinUnit.text row.binUnit) := by
  have hprint : Nat.toDigits 10 row.bin = printUInt64 (UInt64.ofNat row.bin) := by
    rw [printUInt64, UInt64.toNat_ofNat_of_lt' (bin_lt row)]
  have hstops : StopsAt Char.isDigit (BinUnit.text row.binUnit) := by
    unfold BinUnit.text
    split
    · exact stopsAt_nil _
    · exact (stopsAt_cons _ _ _).mpr (by decide)
    · exact (stopsAt_cons _ _ _).mpr (by decide)
  have hlabel : scanUInt64 row.label =
      some (UInt64.ofNat row.bin, BinUnit.text row.binUnit) := by
    rw [BrwRow.label, hprint]
    exact scanUInt64_printUInt64 _ hstops
  rcases hlead with rfl | rfl
  · exact hlabel
  · rw [List.singleton_append, scanUInt64_cons_space isSpace_newline, hlabel]

theorem binValue_label {lead : Text} (hlead : lead = [] ∨ lead = ['\n']) (row : BrwRow) :
    binValue (lead ++ row.label) = row.x := by
  rw [binValue, scanUInt64_label hlead, BrwRow.x, BrwRow.value]
  cases row.binUnit with
  | none => simp [BinUnit.text, BinUnit.scale]
  | some u =>
    cases u with
    | kilo => simp [BinUnit.text, BinUnit.scale, UInt64.ofNat_mul]
    | mega => simp [BinUnit.text, BinUnit.scale, UInt64.ofNat_mul]

def addRow (h : Histogram) (row : BrwRow) : Histogram := histogramAdd h row.x row.r row.w

theorem brwParseLoop_end {text : Text} (h : ':' ∉ text.take 16) (fuel : ℕ) (hist : Histogram) :
    (brwParseLoop fuel hist text).1 = hist := by
  cases fuel with
  | zero => rfl
  | succ fuel =>
    rw [brwParseLoop]
    rcases hscan : scanf brwFormat text with ⟨values, rest⟩
    have hvalues := scanf_without_colon h
    rw [hscan] at hvalues
    rcases hvalues with rfl | ⟨t, rfl⟩
    · rfl
    · rfl

theorem brwParseLoop_row {text rest label : Text} {r w : UInt64}
    (h : scanf brwFormat text = ([.text label, .uint64 r, .uint64 w], rest)) (fuel : ℕ)
    (hist : Histogram) :
    brwParseLoop (fuel + 1) hist text =
      brwParseLoop fuel (histogramAdd hist (binValue label) r w) rest := by
  rw [brwParseLoop, h]

theorem brwParseLoop_rows {rows : List BrwRow} {after : Text} (hafter : ':' ∉ after.take 16)
    {lead : Text} (hlead : lead = [] ∨ lead = ['\n']) {fuel : ℕ} (hfuel : rows.length ≤ fuel)
    (hist : Histogram) :
    (brwParseLoop fuel hist (lead ++ (rowsText rows ++ after))).1 = rows.foldl addRow hist := by
  have hlength : lead.length ≤ 1 := by
    rcases hlead with rfl | rfl <;> simp
  have hcolon : ':' ∉ lead := by
    rcases hlead with rfl | rfl <;> decide
  induction rows generalizing lead fuel hist with
  | nil =>
    apply brwParseLoop_end
    intro hmem
    rw [rowsText, List.flatMap_nil, List.nil_append, List.take_append, List.mem_append] at hmem
    rcases hmem with hmem | hmem
    · exact hcolon (List.mem_of_mem_take hmem)
    · exact hafter (List.take_subset_take_left after (Nat.sub_le _ _) hmem)
  | cons row rows ih =>
    obtain ⟨fuel, rfl⟩ : ∃ n, fuel = n + 1 := ⟨fuel - 1, by rw [List.length_cons] at hfuel; omega⟩
    have htext : lead ++ (rowsText (row :: rows) ++ after) =
        lead ++ (row.text ++ (['\n'] ++ (rowsText rows ++ after))) := by
      rw [rowsText, List.flatMap_cons]
      simp only [List.append_assoc]
      rfl
    have hstop : StopsAt Char.isDigit (['\n'] ++ (rowsText rows ++ after)) :=
      (stopsAt_cons _ _ _).mpr (by decide)
    have hscan := scanf_row hlength hcolon row hstop
    rw [htext, brwParseLoop_row hscan, binValue_label hlead, List.foldl_cons]
    exact ih (.inr rfl) (Nat.le_of_succ_le_succ hfuel) _ (by simp) (by decide)

theorem foldl_record (rows : List BrwRow) (e : Histent) :
    (rows.foldl (fun e row => Histent.add row.r row.w e) e).yr =
        e.yr + (rows.map BrwRow.r).sum ∧
      (rows.foldl (fun e row => Histent.add row.r row.w e) e).yw =
        e.yw + (rows.map BrwRow.w).sum := by
  induction rows generalizing e with
  | nil => simp
  | cons row rows ih =>
    rw [List.foldl_cons, (ih _).1, (ih _).2, List.map_cons, List.map_cons, List.sum_cons,
      List.sum_cons, ← add_assoc, ← add_assoc]
    exact ⟨rfl, rfl⟩

theorem sumsOf_histogramSort (rows : List BrwRow) :
    (histogramSort (rows.foldl addRow [])).SumsOf rows := by
  have hgroup : rows.foldl addRow [] = group BrwRow.x Histent.x
      (fun row => ⟨row.x, row.r, row.w⟩) (fun row => Histent.add row.r row.w) rows := rfl
  have hnew : ∀ row : BrwRow, (⟨row.x, row.r, row.w⟩ : Histent).x = row.x := fun _ => rfl
  have hmerge : ∀ (row : BrwRow) (e : Histent), (Histent.add row.r row.w e).x = e.x :=
    fun _ _ => rfl
  have hnodup := nodup_group hnew hmerge rows
  have hvalues := mem_map_group hnew hmerge rows
  have hfind := find?_group hnew hmerge rows
  rw [hgroup]
  generalize group BrwRow.x Histent.x _ _ rows = l at hnodup hvalues hfind
  have hperm : (histogramSort l).Perm l := List.mergeSort_perm ..
  refine ⟨?_, fun n => ?_, fun e he => ?_⟩
  · have hsorted : (histogramSort l).Pairwise fun a b => a.x ≤ b.x := by
      have hle : (histogramSort l).Pairwise fun a b => decide (a.x ≤ b.x) = true := by
        apply List.pairwise_mergeSort
        · intro a b c hab hbc
          rw [decide_eq_true_iff] at *
          exact UInt64.le_trans hab hbc
        · intro a b
          rw [Bool.or_eq_true, decide_eq_true_iff, decide_eq_true_iff]
          exact UInt64.le_total _ _
      exact hle.imp fun h => of_decide_eq_true h
    have hne : (histogramSort l).Pairwise fun a b => a.x ≠ b.x := by
      rw [← List.pairwise_map (R := (· ≠ ·))]
      exact (hperm.map Histent.x).nodup_iff.mpr hnodup
    refine (hsorted.and hne).imp fun {a b} h => ?_
    exact UInt64.lt_of_le_of_ne h.1 h.2
  · constructor
    · rintro ⟨e, he, rfl⟩
      obtain ⟨row, hrow, hx⟩ := List.mem_map.mp
        ((hvalues e.x).mp (List.mem_map_of_mem (hperm.mem_iff.mp he)))
      exact ⟨row, hrow, (x_eq_iff row e.x).mp hx⟩
    · rintro ⟨row, hrow, rfl⟩
      obtain ⟨e, he, hx⟩ := List.mem_map.mp ((hvalues row.x).mpr (List.mem_map_of_mem hrow))
      exact ⟨e, hperm.mem_iff.mpr he, by rw [hx, toNat_x]⟩
  · have hsome := hfind e.x
    rw [(find?_eq_some_iff hnodup).mpr ⟨hperm.mem_iff.mp he, rfl⟩] at hsome
    have hfilter : rows.filter (fun row => row.value = e.x.toNat) =
        rows.filter fun row => row.x = e.x :=
      List.filter_congr fun row _ => decide_eq_decide.mpr (x_eq_iff row e.x).symm
    rw [hfilter]
    cases hrows : rows.filter fun row => row.x = e.x with
    | nil =>
      rw [hrows] at hsome
      cases hsome
    | cons row rest =>
      rw [hrows, record, Option.some_inj] at hsome
      rw [hsome, List.map_cons, List.sum_cons, List.map_cons, List.sum_cons]
      exact foldl_record rest _

theorem colon_notMem_take {p : Text} (hp : ':' ∉ p) (hlength : 15 ≤ p.length) {rest : Text}
    (hr : StopsAt (· == ':') rest) : ':' ∉ (p ++ rest).take 16 := by
  intro hmem
  rw [List.take_append, List.mem_append] at hmem
  rcases hmem with hmem | hmem
  · exact hp (List.mem_of_mem_take hmem)
  · have hone : ':' ∈ rest.take 1 := List.take_subset_take_left rest (by omega) hmem
    cases rest with
    | nil => cases hone
    | cons c s =>
      obtain rfl : ':' = c := by simpa using hone
      cases (stopsAt_cons _ _ _).mp hr

theorem stopsAt_rowsText (rows : List BrwRow) {more : Text} (hmore : StopsAt (· == ':') more) :
    StopsAt (· == ':') (rowsText rows ++ more) := by
  cases rows with
  | nil => exact hmore
  | cons row rows =>
    have hne : row.label ≠ [] := by
      rw [BrwRow.label]
      simp [Nat.toDigits_ne_nil]
    obtain ⟨c, s, hs⟩ := List.exists_cons_of_ne_nil hne
    have hc : c ∈ row.label := by
      rw [hs]
      exact List.mem_cons_self
    rw [rowsText, List.flatMap_cons, BrwRow.text, hs]
    simp only [List.cons_append]
    exact (stopsAt_cons _ _ _).mpr (by simpa using (isRowChar_of_mem_label row c hc).2)

/-- After an empty line, or the end of a row, no colon comes before the rows of the next
section. -/
theorem colon_notMem_next (s : BrwSection) {more : Text} (hmore : StopsAt (· == ':') more) :
    ':' ∉ ('\n' :: (s.text ++ more)).take 16 := by
  have hsplit : '\n' :: (s.text ++ more) =
      '\n' :: (captionsText s.captions ++ (s.kind.heading ++ s.columns) ++ ['\n']) ++
        (rowsText s.rows ++ more) := by
    rw [BrwSection.text]
    simp only [List.append_assoc, List.cons_append, List.nil_append]
  rw [hsplit]
  apply colon_notMem_take _ _ (stopsAt_rowsText s.rows hmore)
  · have hcaptions : ':' ∉ captionsText s.captions := by
      intro hmem
      obtain ⟨line, hline, hmem⟩ := List.mem_flatMap.mp hmem
      rcases List.mem_append.mp hmem with hmem | hmem
      · exact s.colon_notMem_captions line hline hmem
      · simp at hmem
    simp only [List.mem_cons, List.mem_append, not_or]
    exact ⟨by decide, ⟨hcaptions, colon_notMem_heading s.kind, s.colon_notMem_columns⟩,
      by decide, List.not_mem_nil⟩
  · have := length_heading s.kind
    simp only [List.length_cons, List.length_append, List.length_nil]
    omega

theorem colon_notMem_sectionsText (sections : List BrwSection) (last : Option BrwSection) :
    ':' ∉ ('\n' :: sectionsText sections last).take 16 := by
  cases sections with
  | nil =>
    cases last with
    | none => decide
    | some s =>
      have hnil : StopsAt (· == ':') [] := stopsAt_nil _
      have hnext := colon_notMem_next s hnil
      rwa [List.append_nil] at hnext
  | cons s sections =>
    rw [sectionsText, List.flatMap_cons]
    simp only [List.append_assoc]
    exact colon_notMem_next s ((stopsAt_cons _ _ _).mpr (by decide))

theorem seek_section {t : Brw} {s : BrwSection} (h : s.kind = t) (after : Text) :
    seek t (s.text ++ after) = (.error (), rowsText s.rows ++ after) := by
  rw [BrwSection.text]
  simp only [List.append_assoc, List.cons_append]
  rw [seek_captions s.isCaption, ← List.append_assoc, ← h]
  exact seek_heading s.isLine (List.prefix_append _ _) _

theorem seek_other_section {t : Brw} {s : BrwSection} (h : s.kind ≠ t) (rest : Text) :
    seek t (s.text ++ '\n' :: rest) = seek t rest := by
  have hnot : ¬t.heading <+: s.kind.heading ++ s.columns := fun hpre =>
    h (eq_of_heading_isPrefix hpre).symm
  rw [BrwSection.text]
  simp only [List.append_assoc, List.cons_append]
  rw [seek_captions s.isCaption, ← List.append_assoc, seek_line s.isLine hnot, seek_rowsText]

/-- The first section of a kind is found, and its rows come next. -/
theorem seek_sectionsText {t : Brw} {sections : List BrwSection} {last : Option BrwSection}
    {s : BrwSection} (h : (sections ++ last.toList).find? (·.kind = t) = some s) :
    ∃ after, seek t (sectionsText sections last) = (.error (), rowsText s.rows ++ after) ∧
      ':' ∉ after.take 16 := by
  induction sections with
  | nil =>
    cases last with
    | none => cases h
    | some s' =>
      have hkind : s'.kind = t := by
        by_contra hne
        simp [hne] at h
      obtain rfl : s' = s := by simpa [hkind] using h
      refine ⟨[], ?_, List.not_mem_nil⟩
      rw [← seek_section hkind, List.append_nil]
      rfl
  | cons s' sections ih =>
    have htext : sectionsText (s' :: sections) last =
        s'.text ++ '\n' :: sectionsText sections last := by
      rw [sectionsText, List.flatMap_cons]
      simp only [List.append_assoc]
      rfl
    rw [htext]
    by_cases hkind : s'.kind = t
    · obtain rfl : s' = s := by simpa [hkind] using h
      exact ⟨_, seek_section hkind _, colon_notMem_sectionsText _ _⟩
    · rw [seek_other_section hkind]
      apply ih
      simpa [hkind] using h

theorem length_le_length_rowsText (rows : List BrwRow) :
    rows.length ≤ (rowsText rows).length := by
  induction rows with
  | nil => exact le_rfl
  | cons row rows ih =>
    rw [rowsText, List.flatMap_cons, List.length_append, List.length_append]
    rw [rowsText] at ih
    simp only [List.length_cons, List.length_nil]
    omega

def sectionHistogram (s : BrwSection) : Histogram := histogramSort (s.rows.foldl addRow [])

theorem brwParseLoop_section (s : BrwSection) {after : Text} (hafter : ':' ∉ after.take 16) :
    (brwParseLoop (rowsText s.rows ++ after).length [] (rowsText s.rows ++ after)).1 =
      s.rows.foldl addRow [] := by
  have hfuel : s.rows.length ≤ (rowsText s.rows ++ after).length := by
    have := length_le_length_rowsText s.rows
    rw [List.length_append]
    omega
  exact brwParseLoop_rows hafter (.inl rfl) hfuel []

theorem wp_procLustreBrwstats {fs : ProcFs} {name : Text} (hname : occurs name "-OST")
    {f : BrwFile} (hfile : brwNode fs name = .file f.text) {t : Brw} {s : BrwSection}
    (hs : f.section? t = some s) (Q : Except Errno Histogram → Ctx → Prop) :
    wp (procLustreBrwstats fs name t) Q .closed ↔ Q (.ok (sectionHistogram s)) .closed := by
  obtain ⟨after, hseek, hafter⟩ := seek_sectionsText hs
  have hfound : seek t f.text = (.error (), rowsText s.rows ++ after) := by
    rw [BrwFile.text, seek_captions f.isCaption, hseek]
  have hloop : getsLoop 256 (brwSeekLine t) f.text.length () f.text =
      (.error (), rowsText s.rows ++ after) := hfound
  rw [brwNode] at hfile
  unfold procLustreBrwstats
  rw [wp_ite, if_pos hname, wp_bind, wp_openFirst, hfile]
  simp only [brwSeek, procGetsLoop, wp_bind, wp_reading_file, hloop, wp_pure, if_true, brwParse,
    wp_map, wp_procClose_file, brwParseLoop_section s hafter]
  rfl

theorem sum_histogramAdd (h : Histogram) (x yr yw : UInt64) :
    ((histogramAdd h x yr yw).map fun e => e.yr + e.yw).sum =
      (h.map fun e => e.yr + e.yw).sum + (yr + yw) := by
  unfold histogramAdd
  induction h with
  | nil => simp [mergeOrAppend]
  | cons e h ih =>
    rw [mergeOrAppend]
    split_ifs
    · simp only [List.map_cons, List.sum_cons, Histent.add]
      ac_rfl
    · rw [List.map_cons, List.sum_cons, ih, List.map_cons, List.sum_cons, ← add_assoc]

theorem sum_foldl_addRow (rows : List BrwRow) (h : Histogram) :
    ((rows.foldl addRow h).map fun e => e.yr + e.yw).sum =
      (h.map fun e => e.yr + e.yw).sum + (rows.map fun row => row.r + row.w).sum := by
  induction rows generalizing h with
  | nil => simp
  | cons row rows ih =>
    rw [List.foldl_cons, ih, addRow, sum_histogramAdd, List.map_cons, List.sum_cons, add_assoc]

theorem foldl_iops (h : Histogram) (iops : UInt64) :
    h.foldl (fun iops e => iops + (e.yr + e.yw)) iops =
      iops + (h.map fun e => e.yr + e.yw).sum := by
  induction h generalizing iops with
  | nil => simp
  | cons e h ih => rw [List.foldl_cons, ih, List.map_cons, List.sum_cons, add_assoc]

theorem iops_sectionHistogram (s : BrwSection) :
    (sectionHistogram s).foldl (fun iops e => iops + (e.yr + e.yw)) 0 =
      (s.rows.map fun row => row.r + row.w).sum := by
  have hperm : (sectionHistogram s).Perm (s.rows.foldl addRow []) := List.mergeSort_perm ..
  rw [foldl_iops, (hperm.map _).sum_eq, sum_foldl_addRow]
  simp

/-- Each section is read in isolation: for a kind that the file has, the histogram of
the rows of its section; and `_get_iops` gives all reads and writes of the first kind. -/
theorem brwstats_sections (fs : ProcFs) (name : Text) (hname : occurs name "-OST") (f : BrwFile)
    (hfile : brwNode fs name = .file f.text) :
    (∀ t s, f.section? t = some s → ∃ h : Histogram,
      exec (procLustreBrwstats fs name t) .closed = (some (.ok h), .closed) ∧ h.SumsOf s.rows) ∧
      ∀ s, f.section? .rpc = some s →
        exec (getIops fs name) .closed =
          (some (.ok (s.rows.map fun row => row.r + row.w).sum), .closed) := by
  constructor
  · intro t s hs
    refine ⟨sectionHistogram s, exec_of_wp ?_, sumsOf_histogramSort s.rows⟩
    exact (wp_procLustreBrwstats hname hfile hs _).mpr ⟨rfl, rfl⟩
  · intro s hs
    apply exec_of_wp
    rw [getIops, wp_bind, wp_procLustreBrwstats hname hfile hs, ← iops_sectionHistogram]
    exact ⟨rfl, rfl⟩

def tab : Blanks := ⟨['\t'], by decide, by simp⟩

/-- Five reads and seven writes of one page. -/
def onePageRow : BrwRow where
  bin := 1
  binUnit := none
  r := 5
  rPct := 100
  rCum := 100
  w := 7
  wPct := 100
  wCum := 100
  gap _ := tab
  label_fits := by decide

def onePageSection : BrwSection where
  captions := []
  kind := .rpc
  columns := []
  rows := [onePageRow]
  isCaption := by simp
  colon_notMem_captions := by simp
  isLine := ⟨by decide, by decide⟩
  colon_notMem_columns := by simp

def onePageFile : BrwFile where
  captions := []
  sections := []
  last := some onePageSection
  isCaption := by simp

def onePageFs : ProcFs where
  sys _ := .file onePageFile.text
  proc _ := .missing .noent
  garbage := []

theorem brwstats_sections_one_page :
    (∀ t s, onePageFile.section? t = some s → ∃ h : Histogram,
      exec (procLustreBrwstats onePageFs "lc1-OST0000".toList t) .closed =
        (some (.ok h), .closed) ∧ h.SumsOf s.rows) ∧
      ∀ s, onePageFile.section? .rpc = some s →
        exec (getIops onePageFs "lc1-OST0000".toList) .closed =
          (some (.ok (s.rows.map fun row => row.r + row.w).sum), .closed) :=
  brwstats_sections onePageFs "lc1-OST0000".toList rfl onePageFile rfl

end Lmt
