import Lmt.Library.Runs
import Lmt.Ltop.Windows

/-!
# Moving in the windows

Each of the two windows has a selected target and a first target that is shown.
A key acts on the window that is selected, with the height that the pass before
has computed for it; after the key the heights are computed again.
-/

namespace Lmt

open Runs

/-- The keys that move in a window or select the other one. -/
inductive NavKey where
  | up | down | ppage | npage | z
deriving DecidableEq

/-- `seltgt` and `mintgt` of a window. -/
@[ext] structure Cursor where
  seltgt : ℤ
  mintgt : ℤ
deriving DecidableEq

namespace Cursor

def ppage (tgtlines : ℤ) (c : Cursor) : Cursor :=
  let mintgt := c.mintgt - (tgtlines - 1)
  { c with mintgt := if mintgt < 0 then 0 else mintgt }

def npage (tgtlines tgtcount : ℤ) (c : Cursor) : Cursor :=
  if c.mintgt + tgtlines ≤ tgtcount then { c with mintgt := c.mintgt + (tgtlines - 1) } else c

/-- `KEY_UP`, which falls through to `KEY_PPAGE` above the first target shown. -/
def up (tgtlines : ℤ) (c : Cursor) : Cursor :=
  let c := if c.seltgt > 0 then { c with seltgt := c.seltgt - 1 } else c
  if c.seltgt ≥ c.mintgt then c else c.ppage tgtlines

/-- `KEY_DOWN`, which falls through to `KEY_NPAGE` below the last target shown. -/
def down (tgtlines tgtcount : ℤ) (c : Cursor) : Cursor :=
  let c := if c.seltgt < tgtcount - 1 then { c with seltgt := c.seltgt + 1 } else c
  if c.seltgt - c.mintgt < tgtlines - 1 then c else c.npage tgtlines tgtcount

def move (tgtlines tgtcount : ℤ) : NavKey → Cursor → Cursor
  | .up, c => c.up tgtlines
  | .down, c => c.down tgtlines tgtcount
  | .ppage, c => c.ppage tgtlines
  | .npage, c => c.npage tgtlines tgtcount
  | .z, c => c

/-- There is such a target, or none is selected, and the first one shown is there,
or there are no targets. -/
structure InRange (tgtcount : ℤ) (c : Cursor) : Prop where
  mintgt_nonneg : 0 ≤ c.mintgt
  mintgt_le : c.mintgt ≤ max 0 (tgtcount - 1)
  neg_one_le_seltgt : -1 ≤ c.seltgt
  seltgt_le : c.seltgt ≤ tgtcount - 1

instance (tgtcount : ℤ) (c : Cursor) : Decidable (c.InRange tgtcount) :=
  decidable_of_iff (0 ≤ c.mintgt ∧ c.mintgt ≤ max 0 (tgtcount - 1) ∧ -1 ≤ c.seltgt ∧
      c.seltgt ≤ tgtcount - 1)
    ⟨fun ⟨h₁, h₂, h₃, h₄⟩ => ⟨h₁, h₂, h₃, h₄⟩, fun ⟨h₁, h₂, h₃, h₄⟩ => ⟨h₁, h₂, h₃, h₄⟩⟩

end Cursor

/-- What the main loop keeps of its windows. -/
structure Nav where
  proportionalView : Bool
  inOstwin : Bool
  ost : Cursor
  mdt : Cursor
  lines : WindowLines
  mdtwin : Bool
deriving DecidableEq

namespace Nav

def selected (n : Nav) : Cursor := if n.inOstwin then n.ost else n.mdt

def tgtlines (n : Nav) : ℤ := n.lines.lines n.inOstwin

def tgtcount (mdtcount ostcount : ℤ) (n : Nav) : ℤ := if n.inOstwin then ostcount else mdtcount

def setSelected (c : Cursor) (n : Nav) : Nav :=
  if n.inOstwin then { n with ost := c } else { n with mdt := c }

/-- `z` does nothing in the proportional view while there is no MDT window. -/
def switches (n : Nav) : Bool := (n.proportionalView && n.mdtwin) || !n.proportionalView

/-- What a key does, and whether it asks for the windows to be made again. -/
def key (mdtcount ostcount : ℤ) (k : NavKey) (n : Nav) : Nav × Bool :=
  if k = .z then
    if n.switches then ({ n with inOstwin := !n.inOstwin }, true) else (n, false)
  else
    (n.setSelected (n.selected.move n.tgtlines (n.tgtcount mdtcount ostcount) k), false)

def resize (totalSize mdtcount ostcount : ℤ) (n : Nav) : Nav :=
  { n with lines := sizeWindows n.proportionalView totalSize mdtcount ostcount n.inOstwin }

/-- `create_target_window`: a window needs a line for its header and one more. -/
def createWindows (n : Nav) : Nav := { n with mdtwin := 2 ≤ n.lines.mdtlines }

/-- A pass of the main loop with a key, or without one when `getch` times out.
New samples also ask for the windows to be made again. -/
def pass (totalSize mdtcount ostcount : ℤ) (n : Nav) (input : Option NavKey × Bool) : Nav :=
  let (n, recompute) :=
    match input.1 with
    | none => (n, false)
    | some k => n.key mdtcount ostcount k
  let n := n.resize totalSize mdtcount ostcount
  if recompute || input.2 then n.createWindows else n

def start (totalSize mdtcount ostcount : ℤ) : Nav :=
  createWindows (resize totalSize mdtcount ostcount
    ⟨false, true, ⟨-1, 0⟩, ⟨-1, 0⟩, ⟨0, 0⟩, false⟩)

end Nav

section

variable {tgtlines tgtcount : ℤ} {c : Cursor}

theorem Cursor.InRange.ppage (h : c.InRange tgtcount) (hlines : 1 ≤ tgtlines) :
    (c.ppage tgtlines).InRange tgtcount := by
  obtain ⟨hmin, hmax, hsel, hlast⟩ := h
  unfold Cursor.ppage
  dsimp only
  constructor <;> dsimp only <;> try split_ifs
  all_goals omega

theorem Cursor.InRange.npage (h : c.InRange tgtcount) (hlines : 1 ≤ tgtlines) :
    (c.npage tgtlines tgtcount).InRange tgtcount := by
  obtain ⟨hmin, hmax, hsel, hlast⟩ := h
  unfold Cursor.npage
  split_ifs with hpage
  · constructor <;> dsimp only <;> omega
  · exact ⟨hmin, hmax, hsel, hlast⟩

theorem Cursor.InRange.seltgt {seltgt : ℤ} (h : c.InRange tgtcount) (hsel : -1 ≤ seltgt)
    (hlast : seltgt ≤ tgtcount - 1) : ({ c with seltgt := seltgt } : Cursor).InRange tgtcount :=
  ⟨h.mintgt_nonneg, h.mintgt_le, hsel, hlast⟩

theorem Cursor.InRange.up (h : c.InRange tgtcount) (hlines : 1 ≤ tgtlines) :
    (c.up tgtlines).InRange tgtcount := by
  have hlast := h.seltgt_le
  have hstep : (if c.seltgt > 0 then { c with seltgt := c.seltgt - 1 } else c).InRange
      tgtcount := by
    split_ifs with hpos
    · exact h.seltgt (by omega) (by omega)
    · exact h
  unfold Cursor.up
  dsimp only
  split_ifs at hstep ⊢
  · exact hstep
  · exact hstep.ppage hlines
  · exact hstep
  · exact hstep.ppage hlines

theorem Cursor.InRange.down (h : c.InRange tgtcount) (hlines : 1 ≤ tgtlines) :
    (c.down tgtlines tgtcount).InRange tgtcount := by
  have hsel := h.neg_one_le_seltgt
  have hstep : (if c.seltgt < tgtcount - 1 then { c with seltgt := c.seltgt + 1 } else c).InRange
      tgtcount := by
    split_ifs with hmore
    · exact h.seltgt (by omega) (by omega)
    · exact h
  unfold Cursor.down
  dsimp only
  split_ifs at hstep ⊢
  · exact hstep
  · exact hstep.npage hlines
  · exact hstep
  · exact hstep.npage hlines

/-- A window of at least one line keeps its cursor in range. -/
theorem Cursor.InRange.move (h : c.InRange tgtcount) (hlines : 1 ≤ tgtlines) (k : NavKey) :
    (c.move tgtlines tgtcount k).InRange tgtcount := by
  cases k with
  | up => exact h.up hlines
  | down => exact h.down hlines
  | ppage => exact h.ppage hlines
  | npage => exact h.npage hlines
  | z => exact h

/-- In a window without lines, the next page is one target back. -/
theorem Cursor.npage_zero (h : c.mintgt ≤ tgtcount) :
    c.npage 0 tgtcount = { c with mintgt := c.mintgt - 1 } := by
  unfold Cursor.npage
  rw [add_zero, if_pos h]
  rfl

end

namespace Nav

/-- Between two passes: both cursors are in range, and the windows are those of
the heights. -/
structure Ready (totalSize mdtcount ostcount : ℤ) (n : Nav) : Prop where
  ost_inRange : n.ost.InRange ostcount
  mdt_inRange : n.mdt.InRange mdtcount
  lines_eq : n.lines = sizeWindows n.proportionalView totalSize mdtcount ostcount n.inOstwin
  mdtwin_eq : n.mdtwin = decide (2 ≤ n.lines.mdtlines)

/-- There is room below the top window, and for the MDTs if the layout is
proportional and their window is selected. -/
def HasRoom (totalSize mdtcount : ℤ) (n : Nav) : Prop :=
  topwinLines + 2 < totalSize ∧
    (n.proportionalView = true → n.inOstwin = false →
      2 ≤ mdtcount ∧ topwinLines + 5 < totalSize)

/-- The selected window is in range after any passes with any keys. -/
def StaysInRange (totalSize mdtcount ostcount : ℤ) (n : Nav) : Prop :=
  ∀ inputs : List (Option NavKey × Bool),
    let n' := run (pass totalSize mdtcount ostcount) n inputs
    n'.selected.InRange (n'.tgtcount mdtcount ostcount)

section

variable {totalSize : ℤ} {mdtcount ostcount : ℕ} {n : Nav}

theorem one_le_tgtlines (hready : n.Ready totalSize mdtcount ostcount)
    (hroom : n.HasRoom totalSize mdtcount) : 1 ≤ n.tgtlines := by
  obtain ⟨hdetail, hmdts⟩ := hroom
  unfold tgtlines
  rw [hready.lines_eq]
  unfold sizeWindows
  cases hview : n.proportionalView with
  | false =>
    rw [if_neg Bool.false_ne_true, (sizeWindowsPrioritize_lines (Int.natCast_nonneg mdtcount)
      (Int.natCast_nonneg ostcount) hdetail n.inOstwin).1]
    split_ifs <;> omega
  | true =>
    rw [if_pos rfl]
    by_cases hboth : (2 : ℤ) ≤ mdtcount ∧ topwinLines + 5 < totalSize
    · obtain ⟨hmdt, host, -⟩ := sizeWindowsProportional_both hboth.1 hboth.2 ostcount
      unfold WindowLines.lines
      split_ifs <;> omega
    · have hwin : n.inOstwin = true := by
        by_contra hwin
        exact hboth (hmdts hview (Bool.eq_false_iff.mpr hwin))
      rw [hwin, sizeWindowsProportional_osts hdetail (by omega)]
      simp only [WindowLines.lines, if_true]
      omega

theorem tgtlines_eq_zero (hready : n.Ready totalSize mdtcount ostcount)
    (hroom : ¬n.HasRoom totalSize mdtcount) : n.tgtlines = 0 := by
  unfold tgtlines
  rw [hready.lines_eq]
  unfold sizeWindows
  rcases le_or_gt totalSize (topwinLines + 2) with hhidden | hdetail
  · rw [sizeWindowsProportional_hidden hhidden, sizeWindowsPrioritize_hidden hhidden]
    unfold WindowLines.lines
    split_ifs <;> rfl
  · have hmdts : n.proportionalView = true ∧ n.inOstwin = false ∧
        ¬((2 : ℤ) ≤ mdtcount ∧ topwinLines + 5 < totalSize) := by
      simpa [HasRoom, hdetail] using hroom
    obtain ⟨hview, hwin, hboth⟩ := hmdts
    rw [hview, hwin, if_pos rfl, sizeWindowsProportional_osts hdetail (by omega)]
    rfl

@[simp] theorem setSelected_inOstwin (c : Cursor) : (n.setSelected c).inOstwin = n.inOstwin := by
  unfold setSelected
  split_ifs <;> rfl

@[simp] theorem setSelected_proportionalView (c : Cursor) :
    (n.setSelected c).proportionalView = n.proportionalView := by
  unfold setSelected
  split_ifs <;> rfl

@[simp] theorem setSelected_lines (c : Cursor) : (n.setSelected c).lines = n.lines := by
  unfold setSelected
  split_ifs <;> rfl

@[simp] theorem setSelected_mdtwin (c : Cursor) : (n.setSelected c).mdtwin = n.mdtwin := by
  unfold setSelected
  split_ifs <;> rfl

@[simp] theorem selected_setSelected (c : Cursor) : (n.setSelected c).selected = c := by
  unfold setSelected selected
  split_ifs <;> rfl

theorem Ready.selected_inRange (h : n.Ready totalSize mdtcount ostcount) :
    n.selected.InRange (n.tgtcount mdtcount ostcount) := by
  unfold selected tgtcount
  split_ifs
  · exact h.ost_inRange
  · exact h.mdt_inRange

theorem resize_of_lines
    (h : n.lines = sizeWindows n.proportionalView totalSize mdtcount ostcount n.inOstwin) :
    n.resize totalSize mdtcount ostcount = n := by
  unfold resize
  rw [← h]

theorem Ready.createWindows (h : n.Ready totalSize mdtcount ostcount) : n.createWindows = n := by
  unfold Nav.createWindows
  rw [← h.mdtwin_eq]

theorem Ready.setSelected {c : Cursor} (h : n.Ready totalSize mdtcount ostcount)
    (hc : c.InRange (n.tgtcount mdtcount ostcount)) :
    (n.setSelected c).Ready totalSize mdtcount ostcount := by
  obtain ⟨host, hmdt, hlines, hwin⟩ := h
  constructor
  · unfold Nav.setSelected
    unfold tgtcount at hc
    split_ifs at hc ⊢
    · exact hc
    · exact host
  · unfold Nav.setSelected
    unfold tgtcount at hc
    split_ifs at hc ⊢
    · exact hmdt
    · exact hc
  · simpa using hlines
  · simpa using hwin

theorem Ready.switch (h : n.Ready totalSize mdtcount ostcount) :
    (Nav.createWindows (resize totalSize mdtcount ostcount
      { n with inOstwin := !n.inOstwin })).Ready totalSize mdtcount ostcount :=
  ⟨h.ost_inRange, h.mdt_inRange, rfl, rfl⟩

theorem Ready.room_of_mdtwin (h : n.Ready totalSize mdtcount ostcount)
    (hdetail : topwinLines + 2 < totalSize) (hview : n.proportionalView = true)
    (hwin : n.mdtwin = true) : (2 : ℤ) ≤ mdtcount ∧ topwinLines + 5 < totalSize := by
  by_contra hroom
  have hlines : n.lines.mdtlines = 0 := by
    rw [h.lines_eq, hview]
    unfold sizeWindows
    rw [if_pos rfl, sizeWindowsProportional_osts hdetail (by omega)]
  have hmdtwin := h.mdtwin_eq
  rw [hwin, hlines] at hmdtwin
  exact absurd hmdtwin (by decide)

theorem Ready.pass (h : n.Ready totalSize mdtcount ostcount)
    (hroom : n.HasRoom totalSize mdtcount) (input : Option NavKey × Bool) :
    (n.pass totalSize mdtcount ostcount input).Ready totalSize mdtcount ostcount ∧
      (n.pass totalSize mdtcount ostcount input).HasRoom totalSize mdtcount := by
  -- without a switch the heights stay, so that it does not matter whether the windows are made
  have hstays {n' : Nav} (h' : n'.Ready totalSize mdtcount ostcount) (remake : Bool) :
      (if remake then (n'.resize totalSize mdtcount ostcount).createWindows
        else n'.resize totalSize mdtcount ostcount) = n' := by
    rw [resize_of_lines h'.lines_eq, h'.createWindows, ite_self]
  obtain ⟨key, polled⟩ := input
  unfold Nav.pass
  cases key with
  | none =>
    dsimp only
    rw [hstays h]
    exact ⟨h, hroom⟩
  | some k =>
    dsimp only
    unfold Nav.key
    by_cases hk : k = .z
    · rw [if_pos hk]
      cases hswitch : n.switches with
      | false =>
        rw [if_neg Bool.false_ne_true]
        dsimp only
        rw [hstays h]
        exact ⟨h, hroom⟩
      | true =>
        rw [if_pos rfl]
        refine ⟨h.switch, hroom.1, ?_⟩
        intro hview _
        have hwin : n.mdtwin = true := by
          have hprop : n.proportionalView = true := hview
          simpa [switches, hprop] using hswitch
        exact h.room_of_mdtwin hroom.1 hview hwin
    · rw [if_neg hk]
      dsimp only
      have hmoved := h.setSelected
        (h.selected_inRange.move (one_le_tgtlines h hroom) k)
      rw [hstays hmoved]
      refine ⟨hmoved, hroom.1, ?_⟩
      simpa using hroom.2

theorem selected_pass_npage
    (hlines : n.lines = sizeWindows n.proportionalView totalSize mdtcount ostcount n.inOstwin)
    (hzero : n.tgtlines = 0) (hmin : n.selected.mintgt ≤ n.tgtcount mdtcount ostcount) :
    n.pass totalSize mdtcount ostcount (some .npage, false) =
      n.setSelected { n.selected with mintgt := n.selected.mintgt - 1 } := by
  have hkey : n.key mdtcount ostcount .npage =
      (n.setSelected { n.selected with mintgt := n.selected.mintgt - 1 }, false) := by
    have hk : ¬NavKey.npage = .z := by decide
    rw [Nav.key, if_neg hk, hzero, ← Cursor.npage_zero hmin]
    rfl
  unfold Nav.pass
  dsimp only
  rw [hkey]
  exact resize_of_lines (by simpa using hlines)

/-- Page after page, the first target shown is one more before the first target. -/
theorem mintgt_run_npage
    (hlines : n.lines = sizeWindows n.proportionalView totalSize mdtcount ostcount n.inOstwin)
    (hzero : n.tgtlines = 0) (hmin : n.selected.mintgt ≤ n.tgtcount mdtcount ostcount) (k : ℕ) :
    (run (Nav.pass totalSize mdtcount ostcount) n
        (List.replicate k (some .npage, false))).selected.mintgt = n.selected.mintgt - k := by
  induction k generalizing n with
  | zero => simp
  | succ k ih =>
    rw [List.replicate_succ, run_cons, selected_pass_npage hlines hzero hmin, ih]
    · rw [selected_setSelected]
      push_cast
      omega
    · simpa using hlines
    · simpa [tgtlines] using hzero
    · rw [selected_setSelected]
      unfold tgtcount at hmin ⊢
      rw [setSelected_inOstwin]
      dsimp only
      omega

/-- The cursor stays in range exactly when there is room for the selected window. -/
theorem staysInRange_iff (h : n.Ready totalSize mdtcount ostcount) :
    n.StaysInRange totalSize mdtcount ostcount ↔ n.HasRoom totalSize mdtcount := by
  constructor
  · intro hstays
    by_contra hroom
    have hsel := h.selected_inRange
    have hcount : 0 ≤ n.tgtcount mdtcount ostcount := by
      unfold tgtcount
      split_ifs <;> omega
    have hmin := hsel.mintgt_nonneg
    have hmax := hsel.mintgt_le
    have hpages := mintgt_run_npage h.lines_eq (tgtlines_eq_zero h hroom) (by omega)
      (n.selected.mintgt.toNat + 1)
    have hrange := (hstays (List.replicate (n.selected.mintgt.toNat + 1)
      (some .npage, false))).mintgt_nonneg
    rw [hpages] at hrange
    omega
  · intro hroom inputs
    have hstep : ∀ (n : Nav) (input : Option NavKey × Bool),
        n.Ready totalSize mdtcount ostcount ∧ n.HasRoom totalSize mdtcount → True →
        (n.pass totalSize mdtcount ostcount input).Ready totalSize mdtcount ostcount ∧
          (n.pass totalSize mdtcount ostcount input).HasRoom totalSize mdtcount :=
      fun n input h _ => h.1.pass h.2 input
    have hinputs : ∀ input ∈ inputs, True := fun _ _ => trivial
    have hinv := invariant_run hstep ⟨h, hroom⟩ hinputs
    exact hinv.1.selected_inRange

theorem ready_start (totalSize : ℤ) (mdtcount ostcount : ℕ) :
    (Nav.start totalSize mdtcount ostcount).Ready totalSize mdtcount ostcount where
  ost_inRange := ⟨le_rfl, le_max_left _ _, le_rfl, by change (-1 : ℤ) ≤ _; omega⟩
  mdt_inRange := ⟨le_rfl, le_max_left _ _, le_rfl, by change (-1 : ℤ) ≤ _; omega⟩
  lines_eq := rfl
  mdtwin_eq := rfl

end

/-- A terminal of 24 lines. -/
theorem staysInRange_iff_terminal :
    (Nav.start 24 (1 : ℕ) (12 : ℕ)).StaysInRange 24 (1 : ℕ) (12 : ℕ) :=
  (staysInRange_iff (ready_start 24 1 12)).mpr ⟨by decide, fun h => absurd h (by decide)⟩

/-- In a terminal of nine lines there are no windows to page in. -/
theorem not_staysInRange_short : ¬(Nav.start 9 (1 : ℕ) (1 : ℕ)).StaysInRange 9 (1 : ℕ) (1 : ℕ) := by
  intro h
  exact absurd (h [(some .npage, false)]) (by decide)

end Nav

end Lmt
