import Lmt.Library.FormattedText

/-!
# Words of a command line (`smartSplit` of `lmtsh`)

A word is a sequence of snippets: quoted texts, escaped characters and runs of
other characters. The inner loop takes snippets off the line until none of its
patterns matches, and the outer loop goes on until nothing is left of the line.
-/

namespace Lmt

open FormattedText

/-- `s#\\(.)#$1#g` -/
def unescape : Text → Text
  | [] => []
  | [c] => [c]
  | c :: d :: s => if c = '\\' ∧ d ≠ '\n' then d :: unescape s else c :: unescape (d :: s)

/-- What `(([^q\\]|\\.)*)q` matches at the start of a text, and the text after it. -/
def quoted (q : Char) : Text → Option (Text × Text)
  | [] => none
  | [c] => if c = q then some ([], []) else none
  | c :: d :: s =>
    if c = q then some ([], d :: s)
    else if c = '\\' then
      if d = '\n' then none else (quoted q s).map fun r => (c :: d :: r.1, r.2)
    else (quoted q (d :: s)).map fun r => (c :: r.1, r.2)

/-- `[^\s\\'"]` -/
def isWordChar (c : Char) : Bool := !isSpace c && c != '\\' && c != '\'' && c != '"'

/-- What the program dies with. -/
inductive Unmatched where
  | doubleQuote (line : Text)
  | singleQuote (line : Text)

/-- The snippet that one of the patterns takes, and the rest of the line; none of
them may match. -/
def takeSnippet (line : Text) : Except Unmatched (Option (Text × Text)) :=
  match line with
  | [] => .ok none
  | c :: s =>
    if c = '"' then
      match quoted '"' s with
      | some (content, rest) => .ok (some (unescape content, rest))
      | none => .error (.doubleQuote line)
    else if c = '\'' then
      match quoted '\'' s with
      | some (content, rest) => .ok (some (unescape content, rest))
      | none => .error (.singleQuote line)
    else if c = '\\' then
      match s with
      | [] => .ok none
      | d :: rest => if d = '\n' then .ok none else .ok (some ([d], rest))
    else if isWordChar c then
      .ok (some (line.takeWhile isWordChar, line.dropWhile isWordChar))
    else .ok none

/-- The inner loop. A snippet takes characters, so it has ended when the fuel has. -/
def fieldLoop : ℕ → Text → Text → Except Unmatched (Text × Text)
  | 0, field, line => .ok (field, skipSpace line)
  | fuel + 1, field, line =>
    match takeSnippet line with
    | .error e => .error e
    | .ok none => .ok (field, skipSpace line)
    | .ok (some (snippet, rest)) => fieldLoop fuel (field ++ snippet) rest

/-- The field that a turn of the outer loop takes, and what it leaves of the line. -/
def splitField (line : Text) : Except Unmatched (Text × Text) := fieldLoop line.length [] line

/-- So many turns of the outer loop; `none` if they are not enough. -/
def splitLoop : ℕ → List Text → Text → Option (Except Unmatched (List Text))
  | 0, words, line => if line = [] then some (.ok words) else none
  | turns + 1, words, line =>
    if line = [] then some (.ok words)
    else
      match splitField line with
      | .error e => some (.error e)
      | .ok (field, rest) => splitLoop turns (words ++ [field]) rest

/-- `smartSplit`, if it is through after so many turns. -/
def smartSplit (turns : ℕ) (cmd : Text) : Option (Except Unmatched (List Text)) :=
  splitLoop turns [] (skipSpace cmd)

/-- Where a place of a line is. -/
inductive Quoting where
  | plain
  | escaped
  | inside (q : Char)
  | insideEscaped (q : Char)
deriving DecidableEq

def Quoting.step : Quoting → Char → Quoting
  | .plain, c => if c = '\\' then .escaped else if c = '"' ∨ c = '\'' then .inside c else .plain
  | .escaped, _ => .plain
  | .inside q, c => if c = q then .plain else if c = '\\' then .insideEscaped q else .inside q
  | .insideEscaped q, _ => .inside q

def quotingAfter (q : Quoting) (s : Text) : Quoting := s.foldl Quoting.step q

/-- The lines that the outer loop gets to. -/
inductive OuterLine (cmd : Text) : Text → Prop
  | start : OuterLine cmd (skipSpace cmd)
  | next {line field rest : Text} (h : OuterLine cmd line) (hne : line ≠ [])
      (hfield : splitField line = .ok (field, rest)) : OuterLine cmd rest

/-- There are words or there is an error after some turns, and every turn leaves
less of the line. -/
def Finishes (cmd : Text) : Prop :=
  (∃ turns result, smartSplit turns cmd = some result) ∧
    ∀ line field rest, OuterLine cmd line → line ≠ [] → splitField line = .ok (field, rest) →
      rest.length < line.length

theorem quotingAfter_cons (q : Quoting) (c : Char) (s : Text) :
    quotingAfter q (c :: s) = quotingAfter (q.step c) s := rfl

theorem quotingAfter_dropWhile {p : Char → Bool}
    (hp : ∀ c, p c = true → Quoting.step .plain c = .plain) (s : Text) :
    quotingAfter .plain (s.dropWhile p) = quotingAfter .plain s := by
  induction s with
  | nil => rfl
  | cons c s ih =>
    rw [List.dropWhile_cons]
    split_ifs with hc
    · rw [ih, quotingAfter_cons, hp c hc]
    · rfl

theorem step_of_isSpace {c : Char} (h : isSpace c = true) : Quoting.step .plain c = .plain := by
  have hslash : c ≠ '\\' := by
    rintro rfl
    simp [isSpace] at h
  have hdouble : c ≠ '"' := by
    rintro rfl
    simp [isSpace] at h
  have hsingle : c ≠ '\'' := by
    rintro rfl
    simp [isSpace] at h
  simp [Quoting.step, hslash, hdouble, hsingle]

theorem step_of_isWordChar {c : Char} (h : isWordChar c = true) :
    Quoting.step .plain c = .plain := by
  simp only [isWordChar, Bool.and_eq_true, bne_iff_ne] at h
  obtain ⟨⟨⟨-, hslash⟩, hsingle⟩, hdouble⟩ := h
  simp [Quoting.step, hslash, hdouble, hsingle]

theorem quotingAfter_skipSpace (s : Text) :
    quotingAfter .plain (skipSpace s) = quotingAfter .plain s :=
  quotingAfter_dropWhile (fun _ => step_of_isSpace) s

/-- What is left of a text is less, and no longer quoted. -/
structure Leaves (q : Quoting) (s rest : Text) : Prop where
  suffix : rest <:+ s
  length_lt : rest.length < s.length
  quoting_eq : quotingAfter .plain rest = quotingAfter q s

theorem Leaves.here {q : Quoting} {c : Char} (h : q.step c = .plain) (s : Text) :
    Leaves q (c :: s) s := by
  refine ⟨List.suffix_cons c s, Nat.lt_succ_self _, ?_⟩
  rw [quotingAfter_cons, h]

theorem Leaves.cons {q : Quoting} {c : Char} {s rest : Text} (h : Leaves (q.step c) s rest) :
    Leaves q (c :: s) rest :=
  ⟨h.suffix.trans (List.suffix_cons c s), h.length_lt.trans (Nat.lt_succ_self _), h.quoting_eq⟩

theorem Leaves.trans {q : Quoting} {s s' rest : Text} (h : Leaves q s s')
    (h' : Leaves .plain s' rest) : Leaves q s rest :=
  ⟨h'.suffix.trans h.suffix, h'.length_lt.trans h.length_lt, h'.quoting_eq.trans h.quoting_eq⟩

theorem leaves_dropWhile {p : Char → Bool} (hp : ∀ c, p c = true → Quoting.step .plain c = .plain)
    {c : Char} (hc : p c = true) (s : Text) : Leaves .plain (c :: s) ((c :: s).dropWhile p) := by
  refine ⟨List.dropWhile_suffix p, ?_, quotingAfter_dropWhile hp _⟩
  rw [List.dropWhile_cons, if_pos hc]
  exact Nat.lt_succ_of_le (List.dropWhile_suffix p).length_le

section

variable {q : Char} {s line rest : Text}

theorem step_inside_self (q : Char) : (Quoting.inside q).step q = .plain := if_pos rfl

/-- A closing quote is found where the quoting ends. -/
theorem quoted_some {content : Text} (h : quoted q s = some (content, rest)) :
    Leaves (.inside q) s rest := by
  fun_induction quoted q s generalizing content with
  | case1 => simp at h
  | case2 =>
    obtain ⟨-, rfl⟩ : content = [] ∧ rest = [] := by simpa using h
    exact .here (step_inside_self q) []
  | case3 => simp at h
  | case4 d s =>
    obtain ⟨-, rfl⟩ : content = [] ∧ d :: s = rest := by simpa using h
    exact .here (step_inside_self q) _
  | case5 => simp at h
  | case6 d s hd hslash ih =>
    obtain ⟨r, hr, heq⟩ := Option.map_eq_some_iff.mp h
    obtain rfl : r.2 = rest := congrArg Prod.snd heq
    have hstep : (Quoting.inside q).step '\\' = .insideEscaped q := by
      simp [Quoting.step, hslash]
    apply Leaves.cons
    rw [hstep]
    apply Leaves.cons
    exact ih hr
  | case7 c d s hq hslash ih =>
    obtain ⟨r, hr, heq⟩ := Option.map_eq_some_iff.mp h
    obtain rfl : r.2 = rest := congrArg Prod.snd heq
    have hstep : (Quoting.inside q).step c = .inside q := by simp [Quoting.step, hq, hslash]
    apply Leaves.cons
    rw [hstep]
    exact ih hr

/-- Without a closing quote the line ends in the quoted text. -/
theorem quoted_none (hline : '\n' ∉ s) (h : quoted q s = none) :
    quotingAfter (.inside q) s ≠ .escaped := by
  fun_induction quoted q s with
  | case1 => simp [quotingAfter]
  | case2 => simp at h
  | case3 c hq =>
    rw [quotingAfter_cons, Quoting.step, if_neg hq]
    split_ifs <;> simp [quotingAfter]
  | case4 => simp at h
  | case5 => simp at hline
  | case6 d s hd hslash ih =>
    have hstep : (Quoting.inside q).step '\\' = .insideEscaped q := by
      simp [Quoting.step, hslash]
    simp only [List.mem_cons, not_or] at hline
    rw [quotingAfter_cons, quotingAfter_cons, hstep]
    exact ih hline.2.2 (Option.map_eq_none_iff.mp h)
  | case7 c d s hq hslash ih =>
    have hstep : (Quoting.inside q).step c = .inside q := by simp [Quoting.step, hq, hslash]
    rw [List.mem_cons, not_or] at hline
    rw [quotingAfter_cons, hstep]
    exact ih hline.2 (Option.map_eq_none_iff.mp h)

theorem takeSnippet_some {snippet : Text} (h : takeSnippet line = .ok (some (snippet, rest))) :
    Leaves .plain line rest := by
  unfold takeSnippet at h
  cases line with
  | nil => simp at h
  | cons c s =>
    dsimp only at h
    split_ifs at h with hdouble hsingle hslash hword
    · cases hquoted : quoted '"' s with
      | none => simp [hquoted] at h
      | some r =>
        obtain ⟨-, rfl⟩ : unescape r.1 = snippet ∧ r.2 = rest := by simpa [hquoted] using h
        subst hdouble
        exact Leaves.cons (quoted_some hquoted)
    · cases hquoted : quoted '\'' s with
      | none => simp [hquoted] at h
      | some r =>
        obtain ⟨-, rfl⟩ : unescape r.1 = snippet ∧ r.2 = rest := by simpa [hquoted] using h
        subst hsingle
        exact Leaves.cons (quoted_some hquoted)
    · cases s with
      | nil => simp at h
      | cons d s =>
        dsimp only at h
        split_ifs at h
        · simp at h
        · obtain ⟨-, rfl⟩ : [d] = snippet ∧ s = rest := by simpa using h
          subst hslash
          exact Leaves.cons (Leaves.here rfl s)
    · obtain ⟨-, rfl⟩ :
          (c :: s).takeWhile isWordChar = snippet ∧ (c :: s).dropWhile isWordChar = rest := by
        simpa using h
      exact leaves_dropWhile (fun _ => step_of_isWordChar) hword s
    · simp at h

/-- No pattern matches at the end, at white space, and at a backslash that has no
character after it. -/
theorem takeSnippet_none (hline : '\n' ∉ line) (h : takeSnippet line = .ok none) :
    line = [] ∨ line = ['\\'] ∨ ∃ c s, line = c :: s ∧ isSpace c = true := by
  unfold takeSnippet at h
  cases line with
  | nil => exact .inl rfl
  | cons c s =>
    right
    dsimp only at h
    split_ifs at h with hdouble hsingle hslash hword
    · cases hquoted : quoted '"' s <;> simp [hquoted] at h
    · cases hquoted : quoted '\'' s <;> simp [hquoted] at h
    · left
      cases s with
      | nil => rw [hslash]
      | cons d s =>
        dsimp only at h
        split_ifs at h with hd
        · simp [hd] at hline
        · simp at h
    · simp at h
    · right
      refine ⟨c, s, rfl, ?_⟩
      by_contra hspace
      simp [isWordChar, hspace, hslash, hsingle, hdouble] at hword

theorem takeSnippet_error {e : Unmatched} (hline : '\n' ∉ line)
    (h : takeSnippet line = .error e) : quotingAfter .plain line ≠ .escaped := by
  unfold takeSnippet at h
  cases line with
  | nil => simp at h
  | cons c s =>
    rw [List.mem_cons, not_or] at hline
    dsimp only at h
    split_ifs at h with hdouble hsingle hslash hword
    · cases hquoted : quoted '"' s with
      | none =>
        subst hdouble
        exact quoted_none hline.2 hquoted
      | some r => simp [hquoted] at h
    · cases hquoted : quoted '\'' s with
      | none =>
        subst hsingle
        exact quoted_none hline.2 hquoted
      | some r => simp [hquoted] at h
    · cases s with
      | nil => simp at h
      | cons d s =>
        dsimp only at h
        split_ifs at h

theorem notMem_of_suffix {c : Char} {s t : Text} (h : s <:+ t) (ht : c ∉ t) : c ∉ s :=
  fun hs => ht (h.subset hs)

theorem skipSpace_leaves (line : Text) :
    skipSpace line = line ∨ Leaves .plain line (skipSpace line) := by
  cases line with
  | nil => exact .inl rfl
  | cons c s =>
    cases hc : isSpace c with
    | false => exact .inl (skipSpace_stop (by simpa using hc))
    | true => exact .inr (leaves_dropWhile (fun _ => step_of_isSpace) hc s)

/-- The inner loop takes something off the line or leaves it as it is. -/
theorem fieldLoop_leaves {fuel : ℕ} {field field' : Text}
    (h : fieldLoop fuel field line = .ok (field', rest)) :
    rest = line ∨ Leaves .plain line rest := by
  induction fuel generalizing field line with
  | zero =>
    obtain rfl : skipSpace line = rest := congrArg Prod.snd (Except.ok.inj h)
    exact skipSpace_leaves line
  | succ fuel ih =>
    rw [fieldLoop] at h
    cases hsnippet : takeSnippet line with
    | error e => simp [hsnippet] at h
    | ok r =>
      rw [hsnippet] at h
      cases r with
      | none =>
        obtain rfl : skipSpace line = rest := congrArg Prod.snd (Except.ok.inj h)
        exact skipSpace_leaves line
      | some r =>
        have htaken := takeSnippet_some hsnippet
        rcases ih h with rfl | hrest
        · exact .inr htaken
        · exact .inr (htaken.trans hrest)

/-- A turn of the outer loop leaves less of the line, unless it is a backslash. -/
theorem splitField_leaves (hline : '\n' ∉ line) (hne : line ≠ []) (hslash : line ≠ ['\\'])
    (h : splitField line = .ok (field, rest)) : Leaves .plain line rest := by
  obtain ⟨c, s, rfl⟩ := List.exists_cons_of_ne_nil hne
  rw [splitField, List.length_cons, fieldLoop] at h
  cases hsnippet : takeSnippet (c :: s) with
  | error e => simp [hsnippet] at h
  | ok r =>
    rw [hsnippet] at h
    cases r with
    | none =>
      obtain rfl : skipSpace (c :: s) = rest := congrArg Prod.snd (Except.ok.inj h)
      obtain ⟨d, t, heq, hspace⟩ :=
        ((takeSnippet_none hline hsnippet).resolve_left hne).resolve_left hslash
      rw [heq]
      exact leaves_dropWhile (fun _ => step_of_isSpace) hspace t
    | some r =>
      have htaken := takeSnippet_some hsnippet
      rcases fieldLoop_leaves h with rfl | hrest
      · exact htaken
      · exact htaken.trans hrest

theorem fieldLoop_error {fuel : ℕ} {e : Unmatched} (hline : '\n' ∉ line)
    (h : fieldLoop fuel field line = .error e) : quotingAfter .plain line ≠ .escaped := by
  induction fuel generalizing field line with
  | zero => simp [fieldLoop] at h
  | succ fuel ih =>
    rw [fieldLoop] at h
    cases hsnippet : takeSnippet line with
    | error e' => exact takeSnippet_error hline hsnippet
    | ok r =>
      rw [hsnippet] at h
      cases r with
      | none => simp at h
      | some r =>
        have htaken := takeSnippet_some hsnippet
        rw [← htaken.quoting_eq]
        exact ih (notMem_of_suffix htaken.suffix hline) h

/-- A turn does not change whether the line ends in a backslash outside quotes. -/
theorem splitField_quoting (hline : '\n' ∉ line) (h : splitField line = .ok (field, rest)) :
    '\n' ∉ rest ∧ quotingAfter .plain rest = quotingAfter .plain line := by
  rcases fieldLoop_leaves h with rfl | hrest
  · exact ⟨hline, rfl⟩
  · exact ⟨notMem_of_suffix hrest.suffix hline, hrest.quoting_eq⟩

/-- A line that ends in a backslash outside quotes keeps the loop going. -/
theorem splitLoop_of_escaped {words : List Text} (hline : '\n' ∉ line)
    (h : quotingAfter .plain line = .escaped) (turns : ℕ) : splitLoop turns words line = none := by
  have hne : line ≠ [] := by
    rintro rfl
    exact absurd h (by decide)
  induction turns generalizing words line with
  | zero => rw [splitLoop, if_neg hne]
  | succ turns ih =>
    rw [splitLoop, if_neg hne]
    cases hfield : splitField line with
    | error e => exact absurd h (fieldLoop_error hline hfield)
    | ok r =>
      obtain ⟨hrest, hquoting⟩ := splitField_quoting hline hfield
      rw [h] at hquoting
      have hne' : r.2 ≠ [] := by
        intro hnil
        rw [hnil] at hquoting
        exact absurd hquoting (by decide)
      exact ih hrest hquoting hne'

theorem length_splitField_lt (hline : '\n' ∉ line) (h : quotingAfter .plain line ≠ .escaped)
    (hne : line ≠ []) (hfield : splitField line = .ok (field, rest)) :
    rest.length < line.length := by
  have hslash : line ≠ ['\\'] := by
    rintro rfl
    exact h rfl
  exact (splitField_leaves hline hne hslash hfield).length_lt

theorem exists_splitLoop {words : List Text} {turns : ℕ} (hline : '\n' ∉ line)
    (h : quotingAfter .plain line ≠ .escaped) (hturns : line.length ≤ turns) :
    ∃ result, splitLoop turns words line = some result := by
  induction turns generalizing words line with
  | zero =>
    obtain rfl := List.length_eq_zero_iff.mp (Nat.le_zero.mp hturns)
    exact ⟨_, rfl⟩
  | succ turns ih =>
    rw [splitLoop]
    by_cases hne : line = []
    · exact ⟨_, if_pos hne⟩
    · rw [if_neg hne]
      cases hfield : splitField line with
      | error e => exact ⟨_, rfl⟩
      | ok r =>
        obtain ⟨hrest, hquoting⟩ := splitField_quoting hline hfield
        have hlt := length_splitField_lt hline h hne hfield
        rw [← hquoting] at h
        exact ih hrest h (by omega)

theorem OuterLine.quoting {cmd : Text} (hcmd : '\n' ∉ cmd) (h : OuterLine cmd line) :
    '\n' ∉ line ∧ quotingAfter .plain line = quotingAfter .plain cmd := by
  induction h with
  | start =>
    exact ⟨notMem_of_suffix (List.dropWhile_suffix isSpace) hcmd, quotingAfter_skipSpace cmd⟩
  | next _ _ hfield ih =>
    obtain ⟨hrest, hquoting⟩ := splitField_quoting ih.1 hfield
    exact ⟨hrest, hquoting.trans ih.2⟩

end

/-- The splitting of a line finishes exactly when the line does not end in a
backslash outside quotes. -/
theorem finishes_iff {cmd : Text} (hcmd : '\n' ∉ cmd) :
    Finishes cmd ↔ quotingAfter .plain cmd ≠ .escaped := by
  have hstart : '\n' ∉ skipSpace cmd ∧
      quotingAfter .plain (skipSpace cmd) = quotingAfter .plain cmd :=
    OuterLine.start.quoting hcmd
  constructor
  · rintro ⟨⟨turns, result, hsplit⟩, -⟩ hescaped
    rw [smartSplit, splitLoop_of_escaped hstart.1 (hstart.2.trans hescaped)] at hsplit
    exact absurd hsplit (by simp)
  · intro hplain
    refine ⟨⟨(skipSpace cmd).length, ?_⟩, ?_⟩
    · apply exists_splitLoop hstart.1 _ le_rfl
      rwa [hstart.2]
    · intro line field rest houter hne hfield
      obtain ⟨hline, hquoting⟩ := houter.quoting hcmd
      rw [← hquoting] at hplain
      exact length_splitField_lt hline hplain hne hfield

theorem finishes_iff_quoted : Finishes "t 'OST_DATA' a\\ b".toList :=
  (finishes_iff (by decide)).mpr (by decide)

/-- A backslash at the end of the line is never taken off it. -/
theorem not_finishes_backslash : ¬Finishes "ts \\".toList := by
  rintro ⟨⟨turns, result, hsplit⟩, -⟩
  have hloop : splitLoop turns [] "ts \\".toList = none :=
    splitLoop_of_escaped (by decide) (by decide) turns
  exact absurd (hsplit.symm.trans hloop) (by simp)

end Lmt
