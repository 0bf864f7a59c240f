import Lmt.Metrics.Header

/-!
# The OSC metric of `osc.c`

An MDS reports the state of its connection to every OST.
-/

namespace Lmt

open FormattedText

/-- The results of `lmt_osc_decode_v1`. -/
structure OscMetric where
  mdsname : Text
  oscinfo : List Text
deriving DecidableEq

/-- `"%*f;%[^;]"`, then groups of two fields. -/
def lmtOscDecodeV1 (s : Text) : Option OscMetric :=
  match sscanf [.skip .float, .lit ';', upToSemicolon] s with
  | [.text mdsname] =>
    match strskip s 2 ';' with
    | none => none
    | some s =>
      let groups := strskipcpyAll 2 ';' s
      if 0 < groups.2.length then none
      else some { mdsname, oscinfo := groups.1 }
  | _ => none

/-- The results of `lmt_osc_decode_v1_oscinfo`. -/
structure OscInfo where
  oscname : Text
  oscstate : Text
deriving DecidableEq

def lmtOscDecodeV1Oscinfo (s : Text) : Option OscInfo :=
  match sscanf [upToSemicolon, .lit ';', upToSemicolon, .lit ';'] s with
  | [.text oscname, .text oscstate] =>
    match strskip s 2 ';' with
    | none => none
    | some s => if 0 < s.length then none else some { oscname, oscstate }
  | _ => none

end Lmt
