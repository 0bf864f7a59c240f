import Lmt.Metrics.Util

/-!
# The header of a server metric

Every OST and MDT metric starts with a version, the name of the server and two
percentages, each followed by a `;`. Both decoders read this header with one
format and then skip its four fields.
-/

namespace Lmt

open FormattedText SeparatedFields

/-- The arguments of the header formats `"2;%s;%f;%f;"` and `"%s;%s;%f;%f;"`. -/
def serverHeader (version nodename : Text) (cpupct mempct : ℕ) : List Text :=
  [version, nodename, printMillionths cpupct, printMillionths mempct]

def upToSemicolon : Directive := .set none (· != ';')

/-- `"%*f;%[^;];%f;%f;"` -/
def serverFormat : List Directive :=
  [.skip .float, .lit ';', upToSemicolon, .lit ';', .float, .lit ';', .float, .lit ';']

theorem isField_printUInt64 (n : UInt64) : IsField ';' (printUInt64 n) := by
  refine ⟨Nat.toDigits_ne_nil, fun h => ?_⟩
  simpa using isDigit_of_mem_printed h

theorem isField_printMillionths (m : ℕ) : IsField ';' (printMillionths m) := by
  refine ⟨by simp [printMillionths], fun h => ?_⟩
  rw [printMillionths, List.mem_append, List.mem_cons] at h
  rcases h with h | h | h
  · simpa using isDigit_of_mem_printed h
  · simp at h
  · simpa using isDigit_of_mem_leftpad h

theorem sscanf_upToSemicolon {f rest : Text} (hf : IsField ';' f)
    (hr : StopsAt (· != ';') rest) (ds : List Directive) :
    sscanf (upToSemicolon :: ds) (f ++ rest) = .text f :: sscanf ds rest := by
  refine sscanf_set hf.ne_nil (fun c hc => ?_) hr ds
  simpa using fun he : c = ';' => hf.sep_notMem (he ▸ hc)

section

variable {version node : Text} (cpu mem : ℕ)

theorem sep_notMem_serverHeader (hv : IsField ';' version) (hn : IsField ';' node) :
    ∀ f ∈ serverHeader version node cpu mem, ';' ∉ f := by
  simp [serverHeader, hv.sep_notMem, hn.sep_notMem, (isField_printMillionths _).sep_notMem]

theorem isField_of_isDigit (hne : version ≠ []) (hv : ∀ c ∈ version, c.isDigit = true) :
    IsField ';' version :=
  ⟨hne, fun h => by simpa using hv _ h⟩

theorem sscanf_serverHeader (hne : version ≠ []) (hv : ∀ c ∈ version, c.isDigit = true)
    (hn : IsField ';' node) (body : Text) :
    sscanf serverFormat (terminate ';' (serverHeader version node cpu mem) ++ body) =
      [.text node, .float ((cpu : ℚ) / 10 ^ 6), .float ((mem : ℚ) / 10 ^ 6)] := by
  have hversion (rest : Text) (ds : List Directive) :
      sscanf (.skip .float :: ds) (version ++ ';' :: rest) = sscanf ds (';' :: rest) := by
    have hread : (Directive.skip .float).read (version ++ ';' :: rest) =
        some ([], ';' :: rest) := by
      have hstop : StopsAt continuesFloat (';' :: rest) := (stopsAt_cons _ _ _).mpr (by decide)
      simp [Directive.read, scanFloat_digits hne hv hstop]
    simpa using sscanf_cons hread ds
  simp only [serverFormat, serverHeader, terminate_cons, terminate_nil, List.append_assoc,
    List.cons_append, List.nil_append]
  rw [hversion, sscanf_lit, sscanf_upToSemicolon hn (by simp), sscanf_lit]
  rw [sscanf_float cpu ((stopsAt_cons _ _ _).mpr (by decide)), sscanf_lit,
    sscanf_float mem ((stopsAt_cons _ _ _).mpr (by decide)), sscanf_lit]
  rfl

theorem strskip_serverHeader (hv : IsField ';' version) (hn : IsField ';' node) (body : Text) :
    strskip (terminate ';' (serverHeader version node cpu mem) ++ body) 4 ';' = some body := by
  simpa [serverHeader] using
    strskip_terminate (sep_notMem_serverHeader cpu mem hv hn) body 0

end

/-- The version that `sscanf (s, "%f;", &vers)` reads. -/
def scanVersion (s : Text) : Option ℚ :=
  match sscanf [.float, .lit ';'] s with
  | [.float vers] => some vers
  | _ => none

/-- `vers == n` for a `float`: the decimal that was read rounds to `n`. The
neighbours of `n` are one unit of its last place away, half a unit below a power
of two, and a tie goes to `n`, whose last place is even. -/
def versionEq (vers : ℚ) (n : ℕ) : Bool :=
  let ulp : ℚ := 2 ^ Nat.log2 n / 2 ^ 23
  (if n = 2 ^ Nat.log2 n then n - ulp / 4 else n - ulp / 2) ≤ vers && vers ≤ n + ulp / 2

theorem versionEq_self (n : ℕ) : versionEq n n = true := by
  have hulp : (0 : ℚ) ≤ 2 ^ Nat.log2 n / 2 ^ 23 := by positivity
  simp only [versionEq, Bool.and_eq_true, decide_eq_true_eq]
  constructor
  · split_ifs <;> linarith
  · linarith

theorem versionEq_three {vers : ℚ} (h : versionEq vers 2 = true) : versionEq vers 3 = false := by
  have hlog2 : Nat.log2 2 = 1 := by decide
  have hlog3 : Nat.log2 3 = 1 := by decide
  simp only [versionEq, hlog2, Bool.and_eq_true, decide_eq_true_eq] at h
  simp only [versionEq, hlog3, Bool.and_eq_false_iff, decide_eq_false_iff_not]
  left
  norm_num at h ⊢
  linarith [h.2]

end Lmt
