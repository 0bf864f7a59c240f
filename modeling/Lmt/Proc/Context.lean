import Lmt.Library.Attempts
import Lmt.Library.FormattedText

/-!
# Reading the proc and sys trees (`proc.c`)

A context is closed, or it has a file or a directory open. The functions assert
which of the three they were called in; an assertion that does not hold is a
failure of the attempt, and an error that the program reports is a result.
-/

namespace Lmt

open Attempts FormattedText

inductive Errno where
  | ok | noent | notdir | inval | io | exist
deriving DecidableEq

/-- `d_type`, as far as it is looked at. -/
inductive DType where
  | dir | lnk | other
deriving DecidableEq

structure Dirent where
  name : Text
  dType : DType

/-- What a path leads to; a missing one has the error that opening it gives. -/
inductive Node where
  | missing (errno : Errno)
  | file (content : Text)
  | dir (entries : List Dirent)

/-- The trees below `sys` and `proc`, by path, and what a buffer holds that
nothing was written to. A path that is too long for its buffer leads where the
part that fits does. -/
structure ProcFs where
  sys : Text → Node
  proc : Text → Node
  garbage : Text

/-- A path is looked up below `proc` when it is not there below `sys`. -/
def ProcFs.node (fs : ProcFs) (path : Text) : Node :=
  match fs.sys path with
  | .missing _ => fs.proc path
  | n => n

def Node.isFile : Node → Bool
  | .file _ => true
  | _ => false

def Node.isDir : Node → Bool
  | .dir _ => true
  | _ => false

/-- A path from a format whose conversions are all `%s`. -/
def fmtArgs : Text → List Text → Text
  | [], _ => []
  | '%' :: 's' :: fmt, arg :: args => arg ++ fmtArgs fmt args
  | c :: fmt, args => c :: fmtArgs fmt args

inductive Ctx where
  | closed
  | file (rest : Text)
  | dir (entries : List Dirent)

abbrev ProcM := Attempt Ctx

/-- `proc_exists`: whether the path is there in one of the trees. -/
def procExists (fs : ProcFs) (path : Text) : Except Errno Unit :=
  match fs.sys path, fs.proc path with
  | .missing _, .missing e => .error e
  | _, _ => .ok ()

def procOpen (fs : ProcFs) (path : Text) : ProcM (Except Errno Unit) := do
  match ← get with
  | .closed =>
    match fs.node path with
    | .missing e => pure (.error e)
    | .file content =>
      set (Ctx.file content)
      pure (.ok ())
    | .dir entries =>
      set (Ctx.dir entries)
      pure (.ok ())
  | _ => failure

def procOpenf (fs : ProcFs) (fmt : Text) (args : List Text) : ProcM (Except Errno Unit) :=
  procOpen fs (fmtArgs fmt args)

def procClose : ProcM Unit := do
  match ← get with
  | .closed => failure
  | _ => set Ctx.closed

section

variable {α σ ε : Type}

def reading (f : Text → α × Text) : ProcM α := do
  match ← get with
  | .file rest =>
    set (Ctx.file (f rest).2)
    pure (f rest).1
  | _ => failure

/-- `proc_scanf` from the open file: the values it assigns. -/
def procScanf (format : List Directive) : ProcM (List Scanned) := reading (scanf format)

/-- `fgets`: at most `n` characters, up to the end of the line. -/
def fgets : ℕ → Text → Text × Text
  | 0, s => ([], s)
  | _ + 1, [] => ([], [])
  | n + 1, c :: s =>
    if c = '\n' then ([c], s) else (c :: (fgets n s).1, (fgets n s).2)

def trimNewline (line : Text) : Text :=
  if line.getLast? = some '\n' then line.dropLast else line

/-- `proc_gets` with a buffer of `len` bytes; there is no line at the end of the
file. -/
def gets (len : ℕ) : Text → Option Text × Text
  | [] => (none, [])
  | c :: s => (some (trimNewline (fgets (len - 1) (c :: s)).1), (fgets (len - 1) (c :: s)).2)

def procGets (len : ℕ) : ProcM (Option Text) := reading (gets len)

def procGetsPath (fs : ProcFs) (path : Text) (len : ℕ) : ProcM (Option Text) := do
  match ← procOpen fs path with
  | .error _ => pure none
  | .ok () =>
    let line ← procGets len
    procClose
    pure line

/-- `while (proc_gets (…) >= 0) body`, where the body may stop the loop. -/
def getsLoop (len : ℕ) (body : σ → Text → Except ε σ) : ℕ → σ → Text → Except ε σ × Text
  | 0, s, text => (.ok s, text)
  | fuel + 1, s, text =>
    match gets len text with
    | (none, rest) => (.ok s, rest)
    | (some line, rest) =>
      match body s line with
      | .error e => (.error e, rest)
      | .ok s => getsLoop len body fuel s rest

/-- The loop takes a character with every line, so it has ended when the fuel has. -/
def procGetsLoop (len : ℕ) (body : σ → Text → Except ε σ) (s : σ) : ProcM (Except ε σ) :=
  reading fun text => getsLoop len body text.length s text

/-- The lines that `proc_gets` finds in a text. -/
def getsLines (len : ℕ) : ℕ → Text → List Text
  | 0, _ => []
  | fuel + 1, text =>
    match gets len text with
    | (none, _) => []
    | (some line, rest) => line :: getsLines len fuel rest

def linesOf (len : ℕ) (text : Text) : List Text := getsLines len text.length text

end

/-- The flags of `proc_readdir`. -/
structure ReaddirFlag where
  nodir : Bool
  nofile : Bool

def ReaddirFlag.skips (flag : ReaddirFlag) (d : Dirent) : Bool :=
  d.name.head? == some '.' || (flag.nodir && d.dType == .dir) ||
    (flag.nofile && d.dType != .dir && d.dType != .lnk)

def readdir (flag : ReaddirFlag) : List Dirent → Option Text × List Dirent
  | [] => (none, [])
  | d :: ds => if flag.skips d then readdir flag ds else (some d.name, ds)

def readingDir {α : Type} (f : List Dirent → α × List Dirent) : ProcM α := do
  match ← get with
  | .dir entries =>
    set (Ctx.dir (f entries).2)
    pure (f entries).1
  | _ => failure

/-- `while (proc_readdir (…) >= 0)`: the names that are read. -/
def readdirLoop (flag : ReaddirFlag) : ℕ → List Dirent → List Text × List Dirent
  | 0, ds => ([], ds)
  | fuel + 1, ds =>
    match readdir flag ds with
    | (none, rest) => ([], rest)
    | (some name, rest) => (name :: (readdirLoop flag fuel rest).1, (readdirLoop flag fuel rest).2)

def procReaddirLoop (flag : ReaddirFlag) : ProcM (List Text) :=
  readingDir fun ds => readdirLoop flag ds.length ds

section

variable {α σ ε : Type} {fs : ProcFs} {path : Text}

theorem exec_procOpen_missing {e : Errno} (h : fs.node path = .missing e) :
    exec (procOpen fs path) .closed = (some (.error e), .closed) := by
  rw [procOpen, exec_bind_some (exec_get _), h]
  rfl

theorem exec_procOpen_file {content : Text} (h : fs.node path = .file content) :
    exec (procOpen fs path) .closed = (some (.ok ()), .file content) := by
  rw [procOpen, exec_bind_some (exec_get _), h]
  rfl

theorem exec_procOpen_dir {entries : List Dirent} (h : fs.node path = .dir entries) :
    exec (procOpen fs path) .closed = (some (.ok ()), .dir entries) := by
  rw [procOpen, exec_bind_some (exec_get _), h]
  rfl

@[simp] theorem exec_procClose_file (rest : Text) :
    exec procClose (.file rest) = (some (), .closed) := rfl

@[simp] theorem exec_procClose_dir (entries : List Dirent) :
    exec procClose (.dir entries) = (some (), .closed) := rfl

@[simp] theorem exec_reading (f : Text → α × Text) (rest : Text) :
    exec (reading f) (.file rest) = (some (f rest).1, .file (f rest).2) := rfl

@[simp] theorem exec_reading_closed (f : Text → α × Text) :
    exec (reading f) .closed = (none, .closed) := rfl

@[simp] theorem exec_reading_dir (f : Text → α × Text) (entries : List Dirent) :
    exec (reading f) (.dir entries) = (none, .dir entries) := rfl

end

theorem readdirLoop_skips {flag : ReaddirFlag} {d : Dirent} (h : flag.skips d = true) (fuel : ℕ)
    (ds : List Dirent) : (readdirLoop flag fuel (d :: ds)).1 = (readdirLoop flag fuel ds).1 := by
  cases fuel with
  | zero => rfl
  | succ fuel => rw [readdirLoop, readdirLoop, readdir, if_pos h]

/-- The loop reads all names that the flags let pass. -/
theorem readdirLoop_eq (flag : ReaddirFlag) {fuel : ℕ} {ds : List Dirent}
    (hfuel : ds.length ≤ fuel) :
    (readdirLoop flag fuel ds).1 = (ds.filter fun d => !flag.skips d).map Dirent.name := by
  induction ds generalizing fuel with
  | nil => cases fuel <;> rfl
  | cons d ds ih =>
    rw [List.length_cons] at hfuel
    cases hskip : flag.skips d with
    | true =>
      rw [readdirLoop_skips hskip, ih (by omega), List.filter_cons_of_neg (by simp [hskip])]
    | false =>
      obtain ⟨m, rfl⟩ : ∃ m, fuel = m + 1 := ⟨fuel - 1, by omega⟩
      have hread : readdir flag (d :: ds) = (some d.name, ds) := by
        rw [readdir, hskip, if_neg Bool.false_ne_true]
      rw [readdirLoop, hread, List.filter_cons_of_pos (by simp [hskip]), List.map_cons]
      exact congrArg (d.name :: ·) (ih (Nat.le_of_succ_le_succ hfuel))

section

variable {σ ε : Type}

/-- A line that fits its buffer. -/
structure IsLine (len : ℕ) (line : Text) : Prop where
  newline_notMem : '\n' ∉ line
  length_lt : line.length + 1 < len

theorem fgets_append {line : Text} (h : '\n' ∉ line) {n : ℕ} (hn : line.length < n)
    (rest : Text) : fgets n (line ++ '\n' :: rest) = (line ++ ['\n'], rest) := by
  induction line generalizing n with
  | nil =>
    obtain ⟨m, rfl⟩ := Nat.exists_eq_add_of_lt hn
    simp [fgets]
  | cons c line ih =>
    rw [List.mem_cons, not_or] at h
    have hc : ¬c = '\n' := fun hc => h.1 hc.symm
    obtain ⟨m, rfl⟩ := Nat.exists_eq_add_of_lt hn
    rw [List.length_cons] at *
    rw [show line.length + 1 + m + 1 = (line.length + m + 1) + 1 by omega, List.cons_append,
      fgets, if_neg hc, ih h.2 (by omega)]
    rfl

theorem fgets_last {line : Text} (h : '\n' ∉ line) {n : ℕ} (hn : line.length ≤ n) :
    fgets n line = (line, []) := by
  induction line generalizing n with
  | nil => cases n <;> rfl
  | cons c line ih =>
    rw [List.mem_cons, not_or] at h
    have hc : ¬c = '\n' := fun hc => h.1 hc.symm
    obtain ⟨m, rfl⟩ : ∃ m, n = m + 1 := ⟨n - 1, by rw [List.length_cons] at hn; omega⟩
    rw [fgets, if_neg hc, ih h.2 (by rw [List.length_cons] at hn; omega)]

theorem trimNewline_concat (line : Text) : trimNewline (line ++ ['\n']) = line := by
  simp [trimNewline]

theorem trimNewline_self {line : Text} (h : '\n' ∉ line) : trimNewline line = line := by
  unfold trimNewline
  split_ifs with hlast
  · exact absurd (List.mem_of_getLast? hlast) h
  · rfl

theorem gets_line {len : ℕ} {line : Text} (h : IsLine len line) (rest : Text) :
    gets len (line ++ '\n' :: rest) = (some line, rest) := by
  have hlen := h.length_lt
  have hfgets := fgets_append h.newline_notMem (n := len - 1) (by omega) rest
  cases line with
  | nil => simp only [List.nil_append, gets] at *; rw [hfgets]; rfl
  | cons c line =>
    rw [List.cons_append, gets, ← List.cons_append, hfgets, trimNewline_concat]

theorem gets_last {len : ℕ} {line : Text} (h : IsLine len line) (hne : line ≠ []) :
    gets len line = (some line, []) := by
  have hlen := h.length_lt
  have hfgets := fgets_last h.newline_notMem (n := len - 1) (by omega)
  obtain ⟨c, line, rfl⟩ := List.exists_cons_of_ne_nil hne
  rw [gets, hfgets, trimNewline_self h.newline_notMem]

theorem length_fgets_lt {n : ℕ} (hn : n ≠ 0) (c : Char) (s : Text) :
    (fgets n (c :: s)).2.length < (c :: s).length := by
  have hle : ∀ (m : ℕ) (s : Text), (fgets m s).2.length ≤ s.length := by
    intro m
    induction m with
    | zero => intro s; rfl
    | succ m ih =>
      intro s
      cases s with
      | nil => rfl
      | cons c s =>
        rw [fgets]
        split_ifs
        · simp
        · exact (ih s).trans (by simp)
  obtain ⟨m, rfl⟩ := Nat.exists_eq_succ_of_ne_zero hn
  rw [fgets]
  split_ifs
  · simp
  · simpa [Nat.lt_succ_iff] using hle m s

theorem getsLoop_fst (len : ℕ) (body : σ → Text → Except ε σ) (fuel : ℕ) (s : σ) (text : Text) :
    (getsLoop len body fuel s text).1 = (getsLines len fuel text).foldlM body s := by
  induction fuel generalizing s text with
  | zero => rfl
  | succ fuel ih =>
    rw [getsLoop, getsLines]
    rcases gets len text with ⟨_ | line, rest⟩
    · rfl
    · dsimp only
      rw [List.foldlM_cons]
      cases body s line with
      | error e => rfl
      | ok s' => exact ih s' rest

/-- More fuel than characters does not give more lines. -/
theorem getsLines_eq {len : ℕ} (hlen : 2 ≤ len) {n m : ℕ} {text : Text} (hn : text.length ≤ n)
    (hm : text.length ≤ m) : getsLines len n text = getsLines len m text := by
  induction n generalizing m text with
  | zero =>
    obtain rfl := List.length_eq_zero_iff.mp (Nat.le_zero.mp hn)
    cases m <;> rfl
  | succ n ih =>
    cases text with
    | nil => cases m <;> rfl
    | cons c s =>
      have hlt := length_fgets_lt (n := len - 1) (by omega) c s
      rw [List.length_cons] at hn hm hlt
      obtain ⟨m, rfl⟩ : ∃ k, m = k + 1 := ⟨m - 1, by omega⟩
      simp only [getsLines, gets]
      rw [ih (m := m) (by omega) (by omega)]

/-- More fuel than characters does not change the loop. -/
theorem getsLoop_eq {len : ℕ} (hlen : 2 ≤ len) (body : σ → Text → Except ε σ) {n m : ℕ}
    {text : Text} (hn : text.length ≤ n) (hm : text.length ≤ m) (s : σ) :
    getsLoop len body n s text = getsLoop len body m s text := by
  induction n generalizing m s text with
  | zero =>
    obtain rfl := List.length_eq_zero_iff.mp (Nat.le_zero.mp hn)
    cases m <;> rfl
  | succ n ih =>
    cases text with
    | nil => cases m <;> rfl
    | cons c t =>
      have hlt := length_fgets_lt (n := len - 1) (by omega) c t
      rw [List.length_cons] at hn hm hlt
      obtain ⟨m, rfl⟩ : ∃ k, m = k + 1 := ⟨m - 1, by omega⟩
      simp only [getsLoop, gets]
      cases body s (trimNewline (fgets (len - 1) (c :: t)).1) with
      | error e => rfl
      | ok s' => exact ih (by omega) (by omega) s'

def getsAll (len : ℕ) (body : σ → Text → Except ε σ) (s : σ) (text : Text) : Except ε σ × Text :=
  getsLoop len body text.length s text

section

variable {len : ℕ} (hlen : 2 ≤ len) {body : σ → Text → Except ε σ} {s : σ} {text line rest : Text}
  (h : gets len text = (some line, rest))

include hlen h

theorem length_rest_of_gets : rest.length < text.length := by
  cases text with
  | nil => simp [gets] at h
  | cons c t =>
    rw [gets, Prod.mk.injEq] at h
    rw [← h.2]
    exact length_fgets_lt (by omega) c t

theorem getsAll_of_ok {s' : σ} (hbody : body s line = .ok s') :
    getsAll len body s text = getsAll len body s' rest := by
  have hlt := length_rest_of_gets hlen h
  obtain ⟨n, hn⟩ : ∃ n, text.length = n + 1 := ⟨text.length - 1, by omega⟩
  rw [getsAll, hn, getsLoop, h]
  dsimp only
  rw [hbody]
  exact getsLoop_eq hlen body (by omega) le_rfl s'

theorem getsAll_of_error {e : ε} (hbody : body s line = .error e) :
    getsAll len body s text = (.error e, rest) := by
  have hlt := length_rest_of_gets hlen h
  obtain ⟨n, hn⟩ : ∃ n, text.length = n + 1 := ⟨text.length - 1, by omega⟩
  rw [getsAll, hn, getsLoop, h]
  dsimp only
  rw [hbody]

end

/-- A part of a line, up to the size of the buffer, is read from a text that ends with
an end of a line. -/
theorem fgets_part {n : ℕ} (hn : 0 < n) {text : Text} (hne : text ≠ [])
    (hlast : ∀ c ∈ text.getLast?, c = '\n') (rest : Text) :
    ∃ a b, text = a ++ b ∧ a ≠ [] ∧ fgets n (text ++ rest) = (a, b ++ rest) ∧
      ∀ c ∈ b.getLast?, c = '\n' := by
  induction text generalizing n with
  | nil => exact absurd rfl hne
  | cons c text ih =>
    obtain ⟨n, rfl⟩ : ∃ m, n = m + 1 := ⟨n - 1, by omega⟩
    have hlast' : ∀ d ∈ text.getLast?, d = '\n' := by
      intro d hd
      apply hlast
      rw [List.getLast?_cons, Option.mem_def.mp hd]
      rfl
    rw [List.cons_append, fgets]
    by_cases hc : c = '\n'
    · exact ⟨[c], text, rfl, List.cons_ne_nil _ _, by rw [if_pos hc], hlast'⟩
    · rw [if_neg hc]
      by_cases hzero : n = 0
      · subst hzero
        exact ⟨[c], text, rfl, List.cons_ne_nil _ _, rfl, hlast'⟩
      · have hrest : text ≠ [] := by
          rintro rfl
          exact hc (hlast c rfl)
        obtain ⟨a, b, rfl, -, hread, hb⟩ := ih (Nat.pos_of_ne_zero hzero) hrest hlast'
        exact ⟨c :: a, b, rfl, List.cons_ne_nil _ _, by rw [hread], hb⟩

theorem linesOf_nil (len : ℕ) : linesOf len [] = [] := rfl

theorem linesOf_of_gets {len : ℕ} (hlen : 2 ≤ len) {text line rest : Text}
    (h : gets len text = (some line, rest)) : linesOf len text = line :: linesOf len rest := by
  cases text with
  | nil => simp [gets] at h
  | cons c s =>
    have hlt := length_fgets_lt (n := len - 1) (by omega) c s
    have hrest : rest = (fgets (len - 1) (c :: s)).2 := by
      rw [gets, Prod.mk.injEq] at h
      exact h.2.symm
    rw [List.length_cons, ← hrest] at hlt
    unfold linesOf
    rw [List.length_cons, getsLines, h]
    dsimp only
    rw [getsLines_eq hlen (by omega) le_rfl]

theorem linesOf_terminated {len : ℕ} (hlen : 2 ≤ len) {lines : List Text} {last : Text}
    (hlines : ∀ line ∈ lines, IsLine len line) (hlast : IsLine len last) :
    linesOf len ((lines.flatMap fun line => line ++ ['\n']) ++ last) =
      lines ++ (if last = [] then [] else [last]) := by
  induction lines with
  | nil =>
    rw [List.flatMap_nil, List.nil_append, List.nil_append]
    split_ifs with hnil
    · rw [hnil, linesOf_nil]
    · rw [linesOf_of_gets hlen (gets_last hlast hnil), linesOf_nil]
  | cons line lines ih =>
    rw [List.flatMap_cons, List.append_assoc, List.append_assoc, List.singleton_append,
      linesOf_of_gets hlen (gets_line (hlines line (by simp)) _),
      ih fun l hl => hlines l (by simp [hl]), List.cons_append]

theorem exec_procGetsLoop (len : ℕ) (body : σ → Text → Except ε σ) (s : σ) (text : Text) :
    exec (procGetsLoop len body s) (.file text) =
      (some ((linesOf len text).foldlM body s),
        .file (getsLoop len body text.length s text).2) := by
  rw [procGetsLoop, exec_reading, getsLoop_fst]
  rfl

end

end Lmt
