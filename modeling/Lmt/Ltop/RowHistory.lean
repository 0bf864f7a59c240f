import Lmt.Ltop.MdtHistory

/-!
# Rows are histories

Whatever `ltop` does to its lists, they have one row for each target of which
something is known, and the row shows the history of its target. So what an OST's
row shows of a sample that a failover invalidates, and all that an MDT's row shows,
comes from the server that the row names. The grant, cancel and connect rates of an
OST may mix its servers.
-/

namespace Lmt

open FirstMatch FormattedText Runs Sessions

section

variable {number : Reading → ℚ} {actions : List TargetAction}

theorem ostWellNamed_invariant : OstInvariant number UpdateCall.Regular
    fun o => o.common.WellNamed "-OST".toList where
  create := by
    intro c hc hmarker
    obtain ⟨t, ht⟩ := hc.named
    rw [hmarker] at ht
    rw [ht]
    exact createTarget_wellNamed isMarker_ost t c.staleSecs
  osc h state tnow trcv staleSecs := (sameNames_setTgtstate state tnow trcv staleSecs _).wellNamed h
  report h r trcv := (sameNames_reportOst r trcv _).wellNamed h
  setTag h tagval := ⟨h.target, h.first⟩

theorem mdtWellNamed_invariant : MdtInvariant number UpdateCall.Regular
    fun m => m.common.WellNamed "-MDT".toList where
  create := by
    intro c hc hmarker
    obtain ⟨t, ht⟩ := hc.named
    rw [hmarker] at ht
    rw [ht]
    exact createTarget_wellNamed isMarker_mdt t c.staleSecs
  report h r trcv version := (sameNames_reportMdt r trcv version _).wellNamed h

theorem TargetAction.Meets.imp {valid valid' : UpdateCall → Prop} {a : TargetAction}
    (h : a.Meets valid) (himp : ∀ c, valid c → valid' c) : a.Meets valid' := by
  cases a with
  | update c => exact himp c h
  | _ => trivial

/-- What is shown of a sample at a time is made from these reports. -/
structure Sample.Displays (s : Sample ℚ) (staleSecs : ℤ) (points : List (ℚ × ℤ)) : Prop where
  val : ∀ tnow, sampleVal s tnow = lastVal staleSecs tnow points
  rate : ∀ tnow, sampleRate s tnow = lastRate staleSecs tnow points

theorem Sample.Holds.displays {s : Sample ℚ} {points : List (ℚ × ℤ)} (h : s.Holds points)
    {staleSecs : ℤ} (hstale : s.staleSecs = staleSecs) : s.Displays staleSecs points :=
  ⟨fun tnow => hstale ▸ sampleVal_of_holds h tnow, fun tnow => hstale ▸ sampleRate_of_holds h tnow⟩

end

/-- An OST that fails over, with a state of its OSC, a sort and a change of the tags in between. -/
def failoverActions : List TargetAction :=
  [.update (.ost (sampleReport "oss1" 10) 10 60), .update (.ost (sampleReport "oss1" 30) 20 60),
    .update (.osc "lc1-OST0000".toList ['F'] 21 21 60), .sortOst fun _ _ => 0,
    .update (.ost (sampleReport "oss2" 500) 30 60), .clearTags,
    .update (.ost (sampleReport "oss2" 520) 40 60)]

theorem failoverActions_regular :
    ∀ a ∈ failoverActions, a.Meets fun c => c.Regular ∧ c.staleSecs = 60 := by
  have hregular (c : UpdateCall) (htarget : c.target = "lc1-OST0000".toList)
      (hmarker : c.marker = "-OST".toList) (hserver : c.servername.length < maxhostnamelen) :
      c.Regular := by
    refine ⟨⟨⟨"lc1".toList, "0000".toList, by decide, by decide, by decide⟩, ?_⟩, ?_, hserver⟩
    · rw [htarget, hmarker]
      rfl
    · unfold UpdateCall.Plain
      rw [htarget, hmarker]
      decide
  simp only [failoverActions, List.forall_mem_cons, TargetAction.Meets, List.not_mem_nil,
    true_and]
  exact ⟨⟨hregular _ rfl rfl (by decide), rfl⟩, ⟨hregular _ rfl rfl (by decide), rfl⟩,
    ⟨hregular _ rfl rfl (by decide), rfl⟩, ⟨hregular _ rfl rfl (by decide), rfl⟩,
    ⟨hregular _ rfl rfl (by decide), rfl⟩, by simp⟩

end Lmt
