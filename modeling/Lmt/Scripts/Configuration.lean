import Mathlib.Data.List.TakeWhile
import Lmt.Library.FormattedText
import Lmt.Library.SeparatedFields

/-!
# The configuration for the scripts

`lmtinit -x` prints how to connect to the database, a line for each value, and
`LMT.pm` splits the lines again.
-/

namespace Lmt

open FormattedText SeparatedFields

/-- What is configured for the database; texts that are not set are `NULL`. -/
structure DbConf where
  host : Option Text
  port : Int32
  rwuser : Option Text
  rwpasswd : Option Text

/-- `%d` -/
def printInt (n : ℤ) : Text :=
  if n < 0 then '-' :: Nat.toDigits 10 n.natAbs else Nat.toDigits 10 n.natAbs

def dbhost : Text := "dbhost".toList

def dbport : Text := "dbport".toList

def dbuser : Text := "dbuser".toList

def dbauth : Text := "dbauth".toList

/-- `printf ("key:%s\n", val)` -/
def confLine (key val : Text) : Text := key ++ ':' :: val

def xconfLines (conf : DbConf) (user pass : Option Text) : List Text :=
  [confLine dbhost (conf.host.getD []), confLine dbport (printInt conf.port.toInt),
    confLine dbuser (user.getD []), confLine dbauth (pass.getD [])]

def xconf (conf : DbConf) (user pass : Option Text) : Text :=
  terminate '\n' (xconfLines conf user pass)

/-- `lmtinit -x`, which takes no user and no password. -/
def dumpConfig (conf : DbConf) : Text := xconf conf conf.rwuser conf.rwpasswd

/-- `split /sep/, $s, limit` for a positive limit. The last field has what is left,
and empty fields at the end stay. -/
def splitFields (sep : Char) : ℕ → Text → List Text
  | 0, _ => []
  | 1, s => [s]
  | limit + 2, s =>
    match s.dropWhile (· != sep) with
    | [] => [s]
    | _ :: rest => s.takeWhile (· != sep) :: splitFields sep (limit + 1) rest

def perlSplit (sep : Char) (limit : ℕ) (s : Text) : List Text :=
  if s = [] then [] else splitFields sep limit s

/-- A hash, by what its keys have if it is defined. -/
abbrev FsInfo := Text → Option Text

def FsInfo.set (fsinfo : FsInfo) (key : Text) (val : Option Text) : FsInfo :=
  fun k => if k = key then val else fsinfo k

/-- A turn of the loop of `_parseConf`. A split that is assigned to two variables has
a limit of three. -/
def parseConfLine (fsinfo : FsInfo) (line : Text) : FsInfo :=
  let fields := perlSplit ':' 3 line
  fsinfo.set (fields[0]?.getD []) fields[1]?

/-- `_parseConf`; the lines are chomped. -/
def parseConf (output : Text) : FsInfo :=
  (fieldsOf '\n' output).foldl parseConfLine fun _ => none

/-- What `connect` checks of the configuration. -/
def hasConnectInfo (fsinfo : FsInfo) : Bool :=
  (fsinfo dbhost).isSome && (fsinfo dbport).isSome && (fsinfo dbuser).isSome &&
    (fsinfo dbauth).isSome

theorem digit_ne {c d : Char} (h : c.isDigit = true) (hd : d.isDigit = false) : d ≠ c := by
  rintro rfl
  rw [h] at hd
  exact absurd hd (by decide)

theorem notMem_printInt {c : Char} (hc : c.isDigit = false) (hminus : c ≠ '-') (n : ℤ) :
    c ∉ printInt n := by
  have hdigits : c ∉ Nat.toDigits 10 n.natAbs := fun h =>
    digit_ne (isDigit_of_mem_printed h) hc rfl
  unfold printInt
  split_ifs
  · rw [List.mem_cons, not_or]
    exact ⟨hminus, hdigits⟩
  · exact hdigits

/-- The key, and the value up to its first colon. -/
theorem perlSplit_confLine {key : Text} (hkey : ':' ∉ key) (val : Text) :
    ∃ more, perlSplit ':' 3 (confLine key val) = key :: val.takeWhile (· != ':') :: more := by
  have hkeep : ∀ c ∈ key, (c != ':') = true := by
    intro c hc
    rw [bne_iff_ne]
    rintro rfl
    exact hkey hc
  have hstop : StopsAt (· != ':') (':' :: val) := by simp
  have hne : confLine key val ≠ [] := by simp [confLine]
  rw [perlSplit, if_neg hne, confLine, splitFields, dropWhile_append_stop hkeep hstop,
    takeWhile_append_stop hkeep hstop]
  dsimp only
  rw [splitFields]
  cases hdrop : val.dropWhile (· != ':') with
  | nil =>
    have htake : val.takeWhile (· != ':') = val := by
      rw [List.takeWhile_eq_self_iff]
      exact List.dropWhile_eq_nil_iff.mp hdrop
    rw [htake]
    exact ⟨[], rfl⟩
  | cons c rest => exact ⟨_, rfl⟩

theorem parseConfLine_confLine {key : Text} (hkey : ':' ∉ key) (fsinfo : FsInfo) (val : Text) :
    parseConfLine fsinfo (confLine key val) =
      fsinfo.set key (some (val.takeWhile (· != ':'))) := by
  obtain ⟨more, hsplit⟩ := perlSplit_confLine hkey val
  rw [parseConfLine, hsplit]
  rfl

@[simp] theorem FsInfo.set_self (fsinfo : FsInfo) (key : Text) (val : Option Text) :
    fsinfo.set key val key = val := if_pos rfl

theorem FsInfo.set_of_ne {k key : Text} (h : k ≠ key) (fsinfo : FsInfo) (val : Option Text) :
    fsinfo.set key val k = fsinfo k := if_neg h

section

variable {host user pass : Text}

theorem parseConf_dumpConfig (hhost : '\n' ∉ host) (huser : '\n' ∉ user) (hpass : '\n' ∉ pass)
    (port : Int32) :
    parseConf (dumpConfig ⟨some host, port, some user, some pass⟩) dbhost =
        some (host.takeWhile (· != ':')) ∧
      parseConf (dumpConfig ⟨some host, port, some user, some pass⟩) dbport =
        some (printInt port.toInt) ∧
      parseConf (dumpConfig ⟨some host, port, some user, some pass⟩) dbuser =
        some (user.takeWhile (· != ':')) ∧
      parseConf (dumpConfig ⟨some host, port, some user, some pass⟩) dbauth =
        some (pass.takeWhile (· != ':')) := by
  have hlines : ∀ line ∈ xconfLines ⟨some host, port, some user, some pass⟩ (some user)
      (some pass), '\n' ∉ line := by
    have hport : '\n' ∉ printInt port.toInt := notMem_printInt (by decide) (by decide) _
    have hline {key val : Text} (hkey : '\n' ∉ key) (hval : '\n' ∉ val) :
        '\n' ∉ confLine key val := by
      rw [confLine, List.mem_append, List.mem_cons]
      simp [hkey, hval]
    intro line hmem
    simp only [xconfLines, List.mem_cons, List.not_mem_nil, or_false] at hmem
    rcases hmem with rfl | rfl | rfl | rfl
    · exact hline (by decide) hhost
    · exact hline (by decide) hport
    · exact hline (by decide) huser
    · exact hline (by decide) hpass
  have hport : (printInt port.toInt).takeWhile (· != ':') = printInt port.toInt := by
    rw [List.takeWhile_eq_self_iff]
    intro c hc
    rw [bne_iff_ne]
    rintro rfl
    exact notMem_printInt (by decide) (by decide) _ hc
  have hfields : fieldsOf '\n' (dumpConfig ⟨some host, port, some user, some pass⟩) =
      xconfLines ⟨some host, port, some user, some pass⟩ (some user) (some pass) := by
    have hterminated := fieldsOf_terminate hlines (List.not_mem_nil (a := '\n'))
    rwa [List.append_nil, lastField, if_pos rfl, List.append_nil] at hterminated
  have hparse : parseConf (dumpConfig ⟨some host, port, some user, some pass⟩) =
      FsInfo.set (FsInfo.set (FsInfo.set (FsInfo.set (fun _ => none) dbhost
        (some (host.takeWhile (· != ':')))) dbport (some (printInt port.toInt)))
        dbuser (some (user.takeWhile (· != ':')))) dbauth
        (some (pass.takeWhile (· != ':'))) := by
    rw [parseConf, hfields, xconfLines, List.foldl_cons, List.foldl_cons, List.foldl_cons,
      List.foldl_cons, List.foldl_nil, parseConfLine_confLine (by decide),
      parseConfLine_confLine (by decide), parseConfLine_confLine (by decide),
      parseConfLine_confLine (by decide), hport]
    rfl
  rw [hparse]
  refine ⟨?_, ?_, ?_, FsInfo.set_self _ _ _⟩
  · rw [FsInfo.set_of_ne (by decide), FsInfo.set_of_ne (by decide), FsInfo.set_of_ne (by decide),
      FsInfo.set_self]
  · rw [FsInfo.set_of_ne (by decide), FsInfo.set_of_ne (by decide), FsInfo.set_self]
  · rw [FsInfo.set_of_ne (by decide), FsInfo.set_self]

def HandsOver (host user pass : Text) (port : Int32) : Prop :=
  parseConf (dumpConfig ⟨some host, port, some user, some pass⟩) dbhost = some host ∧
    parseConf (dumpConfig ⟨some host, port, some user, some pass⟩) dbport =
      some (printInt port.toInt) ∧
    parseConf (dumpConfig ⟨some host, port, some user, some pass⟩) dbuser = some user ∧
    parseConf (dumpConfig ⟨some host, port, some user, some pass⟩) dbauth = some pass

/-- The scripts can connect, whatever the values are. -/
theorem hasConnectInfo_dumpConfig (hhost : '\n' ∉ host) (huser : '\n' ∉ user)
    (hpass : '\n' ∉ pass) (port : Int32) :
    hasConnectInfo (parseConf (dumpConfig ⟨some host, port, some user, some pass⟩)) = true := by
  obtain ⟨hh, hp, hu, ha⟩ := parseConf_dumpConfig hhost huser hpass port
  unfold hasConnectInfo
  rw [hh, hp, hu, ha]
  rfl

theorem takeWhile_colon_eq_iff (val : Text) : val.takeWhile (· != ':') = val ↔ ':' ∉ val := by
  rw [List.takeWhile_eq_self_iff]
  constructor
  · intro h hmem
    exact absurd (h ':' hmem) (by decide)
  · intro h c hc
    rw [bne_iff_ne]
    rintro rfl
    exact h hc

/-- The values arrive exactly when the host, the user and the password have no colon. -/
theorem handsOver_iff (hhost : '\n' ∉ host) (huser : '\n' ∉ user) (hpass : '\n' ∉ pass)
    (port : Int32) :
    HandsOver host user pass port ↔ ':' ∉ host ∧ ':' ∉ user ∧ ':' ∉ pass := by
  obtain ⟨hh, hp, hu, ha⟩ := parseConf_dumpConfig hhost huser hpass port
  unfold HandsOver
  rw [hh, hp, hu, ha]
  simp only [Option.some.injEq, takeWhile_colon_eq_iff, true_and]

end

/-- An empty password arrives. -/
theorem handsOver_iff_empty : HandsOver "localhost".toList "lwatchadmin".toList [] 3306 :=
  (handsOver_iff (by decide) (by decide) (by decide) 3306).mpr ⟨by decide, by decide, by decide⟩

/-- A password is cut at its first colon. -/
theorem not_handsOver_colon :
    ¬HandsOver "localhost".toList "lwatchadmin".toList "a:b".toList 3306 := by
  rintro ⟨-, -, -, hauth⟩
  exact absurd hauth (by decide)

end Lmt
