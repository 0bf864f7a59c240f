import Lmt.Ltop.Failover
import Lmt.Ltop.Summary

/-!
# Tags

The space key toggles the tag of the record under the cursor. In the server view
the targets of the server are to be tagged with it. The code looks for them by
`ossname`, which nothing sets, and not by the name of the server.
-/

namespace Lmt

open FormattedText

section

variable {V : Type*}

def Oststat.setTag (tagval : Bool) (o : Oststat V) : Oststat V := { o with common.tag := tagval }

def clearTags (ostData : List (Oststat V)) : List (Oststat V) := ostData.map (·.setTag false)

/-- Set tag value on OSTs with specified OSS. -/
def tagOstByoss (ostData : List (Oststat V)) (ossname : Text) (tagval : Bool) : List (Oststat V) :=
  ostData.map fun o => if o.ossname = ossname then o.setTag tagval else o

/-- The loop of `_tag_nth_ost` from the record with index `n` on, and the record
it stops at. -/
def toggleNth (selost : ℤ) : ℤ → List (Oststat V) → List (Oststat V) × Option (Oststat V)
  | _, [] => ([], none)
  | n, o :: ostData =>
    if selost = n then
      let o := o.setTag !o.common.tag
      (o :: ostData, some o)
    else
      let rest := toggleNth selost (n + 1) ostData
      (o :: rest.1, rest.2)

/-- Toggle the tag of the nth record, and tag the records of `ostData2` like it. -/
def tagNthOst (ostData : List (Oststat V)) (selost : ℤ) (ostData2 : Option (List (Oststat V))) :
    List (Oststat V) × Option (List (Oststat V)) :=
  let toggled := toggleNth selost 0 ostData
  match ostData2, toggled.2 with
  | some ostData2, some o => (toggled.1, some (tagOstByoss ostData2 o.ossname o.common.tag))
  | _, _ => (toggled.1, ostData2)

/-- The record with index `selost`, which is negative when none is selected. -/
def nthOst (ostData : List (Oststat V)) (selost : ℤ) : Option (Oststat V) :=
  if selost < 0 then none else ostData[selost.toNat]?

theorem toggleNth_of_lt {selost n : ℤ} (h : selost < n) (ostData : List (Oststat V)) :
    toggleNth selost n ostData = (ostData, none) := by
  induction ostData generalizing n with
  | nil => rfl
  | cons o ostData ih =>
    rw [toggleNth, if_neg (by omega), ih (by omega)]

theorem toggleNth_add (n : ℤ) (i : ℕ) (ostData : List (Oststat V)) :
    toggleNth (n + i) n ostData =
      (ostData.modify i (fun o => o.setTag !o.common.tag),
        ostData[i]?.map fun o => o.setTag !o.common.tag) := by
  induction ostData generalizing n i with
  | nil => simp [toggleNth]
  | cons o ostData ih =>
    cases i with
    | zero => simp [toggleNth]
    | succ i =>
      have hne : n + ((i + 1 : ℕ) : ℤ) ≠ n := by omega
      have hshift : n + ((i + 1 : ℕ) : ℤ) = n + 1 + i := by omega
      rw [toggleNth, if_neg hne, hshift, ih]
      simp

theorem toggleNth_zero (selost : ℤ) (ostData : List (Oststat V)) :
    toggleNth selost 0 ostData =
      match nthOst ostData selost with
      | some o => (ostData.modify selost.toNat (Oststat.setTag !o.common.tag),
          some (o.setTag !o.common.tag))
      | none => (ostData, none) := by
  unfold nthOst
  by_cases hneg : selost < 0
  · rw [if_pos hneg, toggleNth_of_lt hneg]
  · have hadd := toggleNth_add 0 selost.toNat ostData
    have hselost : (0 : ℤ) + selost.toNat = selost := by omega
    rw [hselost] at hadd
    rw [if_neg hneg, hadd]
    cases ho : ostData[selost.toNat]? with
    | none =>
      rw [List.modify_eq_self (List.getElem?_eq_none_iff.mp ho)]
      rfl
    | some o =>
      obtain ⟨hlt, rfl⟩ := List.getElem?_eq_some_iff.mp ho
      dsimp only [Option.map_some]
      congr 1
      apply List.ext_getElem (by simp)
      intro i hi hi'
      by_cases hne : selost.toNat = i
      · subst hne
        simp
      · simp [hne]

/-- The key has no effect when no record is selected. -/
theorem tagNthOst_of_none {ostData : List (Oststat V)} {selost : ℤ}
    (h : nthOst ostData selost = none) (ostData2 : Option (List (Oststat V))) :
    tagNthOst ostData selost ostData2 = (ostData, ostData2) := by
  unfold tagNthOst
  rw [toggleNth_zero, h]
  cases ostData2 <;> rfl

theorem tagNthOst_of_some {ostData : List (Oststat V)} {selost : ℤ} {o : Oststat V}
    (h : nthOst ostData selost = some o) (ostData2 : List (Oststat V)) :
    tagNthOst ostData selost (some ostData2) =
      (ostData.modify selost.toNat (Oststat.setTag !o.common.tag),
        some (tagOstByoss ostData2 o.ossname !o.common.tag)) := by
  unfold tagNthOst
  rw [toggleNth_zero, h]
  rfl

/-- Toggling the tag of a server sets its new value on exactly the OSTs with the
name of that server; without a selected server it has no effect. -/
def TagsItsTargets (ossData ostData : List (Oststat V)) (selost : ℤ) : Prop :=
  tagNthOst ossData selost (some ostData) =
    match nthOst ossData selost with
    | some oss => (ossData.modify selost.toNat (Oststat.setTag !oss.common.tag),
        some (ostData.map fun o =>
          if o.common.servername = oss.common.servername then o.setTag !oss.common.tag else o))
    | none => (ossData, some ostData)

/-- The OST has the tag already, or its two names agree about being on the server. -/
def TaggedAlike (oss : Oststat V) (o : Oststat V) : Prop :=
  o.common.tag = !oss.common.tag ∨
    (o.ossname = oss.ossname ↔ o.common.servername = oss.common.servername)

instance (oss o : Oststat V) : Decidable (TaggedAlike oss o) :=
  inferInstanceAs (Decidable (_ ∨ _))

theorem setTag_eq_self {tagval : Bool} {o : Oststat V} :
    o.setTag tagval = o ↔ o.common.tag = tagval := by
  constructor
  · intro h
    rw [← h]
    rfl
  · rintro rfl
    rfl

theorem tagsItsTargets_iff (ossData ostData : List (Oststat V)) (selost : ℤ) :
    TagsItsTargets ossData ostData selost ↔
      ∀ oss, nthOst ossData selost = some oss → ∀ o ∈ ostData, TaggedAlike oss o := by
  unfold TagsItsTargets
  cases hoss : nthOst ossData selost with
  | none => simp [tagNthOst_of_none hoss]
  | some oss =>
    rw [tagNthOst_of_some hoss]
    simp only [Prod.mk.injEq, true_and, Option.some_inj, forall_eq', tagOstByoss,
      List.map_inj_left]
    apply forall₂_congr
    intro o _
    unfold TaggedAlike
    rw [← setTag_eq_self]
    by_cases hname : o.ossname = oss.ossname
    · by_cases hserver : o.common.servername = oss.common.servername
      · simp [hname, hserver]
      · simp [hname, hserver]
    · by_cases hserver : o.common.servername = oss.common.servername
      · simp [hname, hserver, eq_comm]
      · simp [hname, hserver]

end

/-- Tagging a server of the view made by `_summarize_ost` tags exactly its targets
if and only if every OST is tagged like that already or agrees in both names. -/
theorem tagNthOst_summarizeOst_iff (ostData : List (Oststat ℚ)) (tnow staleSecs selost : ℤ) :
    TagsItsTargets (summarizeOst ostData tnow staleSecs) ostData selost ↔
      ∀ oss, nthOst (summarizeOst ostData tnow staleSecs) selost = some oss →
        ∀ o ∈ ostData, TaggedAlike oss o :=
  tagsItsTargets_iff _ ostData selost

def firstReport (ostname servername : String) : OstReport where
  ostname := ostname.toList
  servername := servername.toList
  readBytes := 0
  writeBytes := 0
  iops := 0
  numExports := 4
  lockCount := 0
  grantRate := 0
  cancelRate := 0
  connect := 0
  recovStatus := "COMPLETE".toList
  kbytesFree := 0
  kbytesTotal := 0
  pctCpu := 0
  pctMem := 0

def ostsOfTwoServers : List (Oststat ℚ) :=
  (Runs.run (updateTargets fun _ => Reading.exact) .empty
    [.ost (firstReport "lc1-OST0000" "oss1") 10 60,
      .ost (firstReport "lc1-OST0001" "oss2") 10 60]).ostData

/-- Tagging the first server tags the OST of the second one too. -/
theorem tagNthOst_tags_other_server :
    (tagNthOst (summarizeOst ostsOfTwoServers 12 60) 0 (some ostsOfTwoServers)).2.map
        (·.map fun o => (o.common.servername, o.common.tag)) =
      some [("oss1".toList, true), ("oss2".toList, true)] ∧
    ¬TagsItsTargets (summarizeOst ostsOfTwoServers 12 60) ostsOfTwoServers 0 := by
  have htags : (tagNthOst (summarizeOst ostsOfTwoServers 12 60) 0 (some ostsOfTwoServers)).2.map
      (·.map fun o => (o.common.servername, o.common.tag)) =
        some [("oss1".toList, true), ("oss2".toList, true)] := by decide
  refine ⟨htags, ?_⟩
  have halike : (nthOst (summarizeOst ostsOfTwoServers 12 60) 0).all
      (fun oss => ostsOfTwoServers.all (TaggedAlike oss ·)) = false := by decide
  rw [tagsItsTargets_iff]
  intro h
  cases hoss : nthOst (summarizeOst ostsOfTwoServers 12 60) 0 with
  | none =>
    rw [hoss] at halike
    exact absurd halike (by decide)
  | some oss =>
    rw [hoss, Option.all_some, List.all_eq_false] at halike
    obtain ⟨o, ho, hnot⟩ := halike
    exact hnot (decide_eq_true (h oss hoss o ho))

end Lmt
