import Mathlib.Tactic

/-!
# Windows of `ltop`

Below the top window there is one window for the MDTs and one for the OSTs, each
with a line for its header and the rest for targets. Heights and counts are
integers, and a window that has no lines is not there.
-/

namespace Lmt

abbrev topwinLines : ℤ := 7

@[ext] structure WindowLines where
  mdtlines : ℤ
  ostlines : ℤ
deriving DecidableEq

def WindowLines.lines (w : WindowLines) (ofOsts : Bool) : ℤ :=
  if ofOsts then w.ostlines else w.mdtlines

/-- The MDT window before it is clamped. The quotient is not negative, so that its
integral part is left of it. -/
def proportionalMdtlines (detailSize mdts osts : ℤ) : ℤ :=
  2 + (detailSize * mdts) / (mdts + osts)

/-- The three clamps of `size_windows_proportional`, in their order. -/
def clampMdtlines (detailSize mdts mdtlines : ℤ) : ℤ :=
  let mdtlines := if mdtlines < 3 then 3 else mdtlines
  let mdtlines := if detailSize - mdtlines < 3 then detailSize - 3 else mdtlines
  if mdtlines > mdts + 2 then mdts + 2 else mdtlines

def sizeWindowsProportional (totalSize mdts osts : ℤ) : WindowLines :=
  if totalSize ≤ topwinLines + 2 then ⟨0, 0⟩
  else
    let mdtlines :=
      if mdts < 2 ∨ totalSize ≤ topwinLines + 5 then 0
      else
        clampMdtlines (totalSize - topwinLines) mdts
          (proportionalMdtlines (totalSize - topwinLines) mdts osts)
    ⟨mdtlines, totalSize - (topwinLines + mdtlines)⟩

def minOrZero (x y : ℤ) : ℤ :=
  let least := if x < y then x else y
  if least < 0 then 0 else least

def sizeWindowsPrioritize (totalSize mdts osts : ℤ) (inOstwin : Bool) : WindowLines :=
  if totalSize ≤ topwinLines + 2 then ⟨0, 0⟩
  else
    let detailSize := totalSize - topwinLines
    let priorityMdtLines := minOrZero (mdts + 1) detailSize
    let priorityOstLines := minOrZero (osts + 1) detailSize
    if inOstwin then
      ⟨minOrZero priorityMdtLines (detailSize - priorityOstLines), priorityOstLines⟩
    else ⟨priorityMdtLines, minOrZero priorityOstLines (detailSize - priorityMdtLines)⟩

/-- The sizes as the main loop computes them. -/
def sizeWindows (proportionalView : Bool) (totalSize mdts osts : ℤ) (inOstwin : Bool) :
    WindowLines :=
  if proportionalView then sizeWindowsProportional totalSize mdts osts
  else sizeWindowsPrioritize totalSize mdts osts inOstwin

/-- The windows have no lines when there is no room for them, and otherwise lie
within what the top window leaves. -/
structure WindowLines.Fits (totalSize : ℤ) (w : WindowLines) : Prop where
  mdtlines_nonneg : 0 ≤ w.mdtlines
  ostlines_nonneg : 0 ≤ w.ostlines
  hidden : totalSize ≤ topwinLines + 2 → w.mdtlines = 0 ∧ w.ostlines = 0
  le_detail : topwinLines + 2 < totalSize → w.mdtlines + w.ostlines ≤ totalSize - topwinLines

section

variable {totalSize mdts osts : ℤ}

/-- Each clamp keeps what the ones before it have reached. -/
theorem clampMdtlines_spec {detailSize : ℤ} (hdetail : 6 ≤ detailSize) (hmdts : 2 ≤ mdts)
    (mdtlines : ℤ) :
    3 ≤ clampMdtlines detailSize mdts mdtlines ∧
      clampMdtlines detailSize mdts mdtlines ≤ detailSize - 3 ∧
      clampMdtlines detailSize mdts mdtlines ≤ mdts + 2 := by
  unfold clampMdtlines
  dsimp only
  split_ifs <;> omega

theorem sizeWindowsProportional_hidden (h : totalSize ≤ topwinLines + 2) (mdts osts : ℤ) :
    sizeWindowsProportional totalSize mdts osts = ⟨0, 0⟩ := if_pos h

theorem sizeWindowsProportional_osts (h : topwinLines + 2 < totalSize)
    (hmdts : mdts < 2 ∨ totalSize ≤ topwinLines + 5) (osts : ℤ) :
    sizeWindowsProportional totalSize mdts osts = ⟨0, totalSize - topwinLines⟩ := by
  unfold sizeWindowsProportional
  rw [if_neg (not_le.mpr h), if_pos hmdts]
  dsimp only
  rw [add_zero]

theorem sizeWindowsProportional_both (hmdts : 2 ≤ mdts) (h : topwinLines + 5 < totalSize)
    (osts : ℤ) :
    3 ≤ (sizeWindowsProportional totalSize mdts osts).mdtlines ∧
      3 ≤ (sizeWindowsProportional totalSize mdts osts).ostlines ∧
      (sizeWindowsProportional totalSize mdts osts).mdtlines ≤ mdts + 2 := by
  have hdetail : 6 ≤ totalSize - topwinLines := by omega
  have hclamp := clampMdtlines_spec hdetail hmdts
    (proportionalMdtlines (totalSize - topwinLines) mdts osts)
  unfold sizeWindowsProportional
  rw [if_neg (by omega), if_neg (by omega)]
  dsimp only
  omega

theorem sizeWindowsProportional_sum (h : topwinLines + 2 < totalSize) (mdts osts : ℤ) :
    (sizeWindowsProportional totalSize mdts osts).mdtlines +
      (sizeWindowsProportional totalSize mdts osts).ostlines = totalSize - topwinLines := by
  unfold sizeWindowsProportional
  rw [if_neg (not_le.mpr h)]
  dsimp only
  omega

theorem sizeWindowsProportional_fits (totalSize mdts osts : ℤ) :
    (sizeWindowsProportional totalSize mdts osts).Fits totalSize := by
  rcases le_or_gt totalSize (topwinLines + 2) with hhidden | h
  · rw [sizeWindowsProportional_hidden hhidden]
    exact ⟨le_rfl, le_rfl, fun _ => ⟨rfl, rfl⟩, fun hlt => absurd hhidden (not_le.mpr hlt)⟩
  · have hsum := sizeWindowsProportional_sum h mdts osts
    by_cases hmdts : mdts < 2 ∨ totalSize ≤ topwinLines + 5
    · rw [sizeWindowsProportional_osts h hmdts] at hsum ⊢
      constructor <;> dsimp only <;> omega
    · rw [not_or, not_lt, not_le] at hmdts
      obtain ⟨hmdt, host, -⟩ := sizeWindowsProportional_both hmdts.1 hmdts.2 osts
      constructor <;> omega

theorem minOrZero_eq {x y : ℤ} (hx : 0 ≤ x) (hy : 0 ≤ y) : minOrZero x y = min x y := by
  unfold minOrZero
  dsimp only
  split_ifs <;> omega

theorem sizeWindowsPrioritize_hidden (h : totalSize ≤ topwinLines + 2) (mdts osts : ℤ)
    (inOstwin : Bool) : sizeWindowsPrioritize totalSize mdts osts inOstwin = ⟨0, 0⟩ := if_pos h

theorem sizeWindowsPrioritize_lines (hmdts : 0 ≤ mdts) (hosts : 0 ≤ osts)
    (h : topwinLines + 2 < totalSize) (inOstwin : Bool) :
    (sizeWindowsPrioritize totalSize mdts osts inOstwin).lines inOstwin =
        min ((if inOstwin then osts else mdts) + 1) (totalSize - topwinLines) ∧
      (sizeWindowsPrioritize totalSize mdts osts inOstwin).lines (!inOstwin) =
        min ((if inOstwin then mdts else osts) + 1)
          (totalSize - topwinLines -
            (sizeWindowsPrioritize totalSize mdts osts inOstwin).lines inOstwin) := by
  have hmdt : minOrZero (mdts + 1) (totalSize - topwinLines) =
    min (mdts + 1) (totalSize - topwinLines) :=
    minOrZero_eq (by omega) (by omega)
  have host : minOrZero (osts + 1) (totalSize - topwinLines) =
    min (osts + 1) (totalSize - topwinLines) :=
    minOrZero_eq (by omega) (by omega)
  unfold sizeWindowsPrioritize
  rw [if_neg (not_le.mpr h)]
  dsimp only
  rw [hmdt, host]
  cases inOstwin with
  | false =>
    simp only [WindowLines.lines, Bool.false_eq_true, if_false, Bool.not_false, if_true, true_and]
    rw [minOrZero_eq (by omega) (by omega)]
    omega
  | true =>
    simp only [WindowLines.lines, Bool.false_eq_true, if_false, Bool.not_true, if_true, true_and]
    rw [minOrZero_eq (by omega) (by omega)]
    omega

theorem sizeWindowsPrioritize_fits (hmdts : 0 ≤ mdts) (hosts : 0 ≤ osts) (inOstwin : Bool) :
    (sizeWindowsPrioritize totalSize mdts osts inOstwin).Fits totalSize := by
  rcases le_or_gt totalSize (topwinLines + 2) with hhidden | h
  · rw [sizeWindowsPrioritize_hidden hhidden]
    exact ⟨le_rfl, le_rfl, fun _ => ⟨rfl, rfl⟩, fun hlt => absurd hhidden (not_le.mpr hlt)⟩
  · have hlines := sizeWindowsPrioritize_lines hmdts hosts h inOstwin
    cases inOstwin with
    | false =>
      simp only [WindowLines.lines, Bool.false_eq_true, if_false, Bool.not_false, if_true] at hlines
      constructor <;> omega
    | true =>
      simp only [WindowLines.lines, Bool.false_eq_true, if_false, Bool.not_true, if_true] at hlines
      constructor <;> omega

/-- The layout of the windows. -/
theorem sizeWindows_spec (totalSize : ℤ) (hmdts : 0 ≤ mdts) (hosts : 0 ≤ osts) (inOstwin : Bool) :
    ((sizeWindowsProportional totalSize mdts osts).Fits totalSize ∧
        (sizeWindowsPrioritize totalSize mdts osts inOstwin).Fits totalSize) ∧
      (topwinLines + 2 < totalSize →
        (sizeWindowsProportional totalSize mdts osts).mdtlines +
          (sizeWindowsProportional totalSize mdts osts).ostlines = totalSize - topwinLines) ∧
      (2 ≤ mdts → topwinLines + 5 < totalSize →
        3 ≤ (sizeWindowsProportional totalSize mdts osts).mdtlines ∧
          3 ≤ (sizeWindowsProportional totalSize mdts osts).ostlines ∧
          (sizeWindowsProportional totalSize mdts osts).mdtlines ≤ mdts + 2) ∧
      (topwinLines + 2 < totalSize →
        (sizeWindowsPrioritize totalSize mdts osts inOstwin).lines inOstwin =
            min ((if inOstwin then osts else mdts) + 1) (totalSize - topwinLines) ∧
          (sizeWindowsPrioritize totalSize mdts osts inOstwin).lines (!inOstwin) =
            min ((if inOstwin then mdts else osts) + 1)
              (totalSize - topwinLines -
                (sizeWindowsPrioritize totalSize mdts osts inOstwin).lines inOstwin)) := by
  refine ⟨⟨?_, ?_⟩, ?_, ?_, ?_⟩
  · exact sizeWindowsProportional_fits totalSize mdts osts
  · exact sizeWindowsPrioritize_fits hmdts hosts inOstwin
  · intro h
    exact sizeWindowsProportional_sum h mdts osts
  · intro hmdts h
    exact sizeWindowsProportional_both hmdts h osts
  · intro h
    exact sizeWindowsPrioritize_lines hmdts hosts h inOstwin

/-- A terminal of 24 lines with four MDTs and twelve OSTs. -/
theorem sizeWindows_spec_terminal :
    (sizeWindowsProportional 24 4 12).Fits 24 ∧ sizeWindowsProportional 24 4 12 = ⟨6, 11⟩ ∧
      (sizeWindowsPrioritize 24 4 12 true).lines false = min (4 + 1) (24 - topwinLines - 13) := by
  have hmdts : (0 : ℤ) ≤ 4 := by decide
  have hosts : (0 : ℤ) ≤ 12 := by decide
  obtain ⟨⟨hfits, -⟩, -, -, hlines⟩ := sizeWindows_spec 24 hmdts hosts true
  exact ⟨hfits, by decide, (hlines (by decide)).2⟩

end

end Lmt
