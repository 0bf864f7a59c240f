import Lmt.Metrics.Header

/-!
# The router metric of `router.c`
-/

namespace Lmt

open FormattedText

/-- The results of `lmt_router_decode_v1`. -/
structure RouterMetric where
  name : Text
  pctCpu : ℚ
  pctMem : ℚ
  bytes : UInt64
deriving DecidableEq

/-- `"%*f;%[^;];%f;%f;%lu"` -/
def routerFormat : List Directive :=
  [.skip .float, .lit ';', upToSemicolon, .lit ';', .float, .lit ';', .float, .lit ';', .uint64]

def lmtRouterDecodeV1 (s : Text) : Option RouterMetric :=
  match sscanf routerFormat s with
  | [.text name, .float pctCpu, .float pctMem, .uint64 bytes] =>
    some { name, pctCpu, pctMem, bytes }
  | _ => none

end Lmt
