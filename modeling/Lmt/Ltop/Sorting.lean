import Mathlib.Data.Char
import Mathlib.Data.List.Lex
import Lmt.Ltop.Targets

/-!
# Sorting the target lists

`list_sort` of `list.c` is an insertion sort. `ltop` sorts its lists with the
comparison function of the column that is selected, and its server views by
server name. The program keeps the current time in a global variable for these
functions; here it is an argument.
-/

namespace Lmt

open FormattedText

section

variable {α : Type*} (f : α → α → ℤ)

/-- Insert the node behind the sorted part of the list: it stays where it is
unless it is less than the node before it. -/
def listSortInsert (sorted : List α) (x : α) : List α :=
  match sorted.getLast? with
  | none => [x]
  | some prev =>
    if f x prev < 0 then
      sorted.takeWhile (fun y => 0 ≤ f x y) ++ x :: sorted.dropWhile (fun y => 0 ≤ f x y)
    else sorted ++ [x]

def listSort (l : List α) : List α := l.foldl (listSortInsert f) []

theorem perm_listSortInsert (sorted : List α) (x : α) :
    (listSortInsert f sorted x).Perm (x :: sorted) := by
  unfold listSortInsert
  cases h : sorted.getLast? with
  | none =>
    rw [List.getLast?_eq_none_iff.mp h]
  | some prev =>
    dsimp only
    split_ifs
    · have hsplit := List.takeWhile_append_dropWhile (p := fun y => 0 ≤ f x y) (l := sorted)
      calc sorted.takeWhile (fun y => 0 ≤ f x y) ++ x :: sorted.dropWhile (fun y => 0 ≤ f x y)
          |>.Perm (x :: (sorted.takeWhile (fun y => 0 ≤ f x y) ++
            sorted.dropWhile (fun y => 0 ≤ f x y))) := List.perm_middle
        _ = x :: sorted := by rw [hsplit]
    · exact List.perm_append_singleton x sorted

/-- Sorting reorders the list, whatever the comparison function is. -/
theorem perm_listSort (l : List α) : (listSort f l).Perm l := by
  induction l using List.reverseRecOn with
  | nil => exact List.Perm.refl _
  | append_singleton l x ih =>
    rw [listSort, List.foldl_append]
    have hinsert := perm_listSortInsert f (listSort f l) x
    exact hinsert.trans ((ih.cons x).trans (List.perm_append_singleton x l).symm)

@[simp] theorem length_listSort (l : List α) : (listSort f l).length = l.length :=
  (perm_listSort f l).length_eq

@[simp] theorem mem_listSort {l : List α} {x : α} : x ∈ listSort f l ↔ x ∈ l :=
  (perm_listSort f l).mem_iff

variable {f} {P : α → Prop} (htotal : ∀ a b, P a → P b → 0 ≤ f a b → f b a ≤ 0)
  (htrans : ∀ a b c, P a → P b → P c → f a b ≤ 0 → f b c ≤ 0 → f a c ≤ 0)

include htotal htrans

theorem pairwise_listSortInsert {sorted : List α} {x : α} (hsorted : ∀ y ∈ sorted, P y) (hx : P x)
    (h : sorted.Pairwise fun a b => f a b ≤ 0) :
    (listSortInsert f sorted x).Pairwise fun a b => f a b ≤ 0 := by
  unfold listSortInsert
  cases hlast : sorted.getLast? with
  | none => exact List.pairwise_singleton _ x
  | some prev =>
    obtain ⟨init, rfl⟩ := List.getLast?_eq_some_iff.mp hlast
    dsimp only
    split_ifs with hlt
    · -- the nodes before the new place are not greater, those behind it are not less
      have hsplit := List.takeWhile_append_dropWhile (p := fun y => 0 ≤ f x y) (l := init ++ [prev])
      have hbefore : ∀ y ∈ (init ++ [prev]).takeWhile fun y => 0 ≤ f x y, f y x ≤ 0 := by
        intro y hy
        apply htotal x y hx (hsorted y (List.takeWhile_subset _ hy))
        simpa using List.mem_takeWhile_imp hy
      have hdrop : ∀ y ∈ (init ++ [prev]).dropWhile fun y => 0 ≤ f x y, P y := fun y hy =>
        hsorted y ((List.dropWhile_sublist _).subset hy)
      have hpairs := h
      rw [← hsplit, List.pairwise_append] at hpairs
      have hbehind : ∀ z ∈ (init ++ [prev]).dropWhile fun y => 0 ≤ f x y, f x z ≤ 0 := by
        intro z hz
        cases hrest : (init ++ [prev]).dropWhile fun y => 0 ≤ f x y with
        | nil => simp [hrest] at hz
        | cons y rest =>
          have hy : f x y < 0 := by
            have hhead := List.head?_dropWhile_not (fun y => decide (0 ≤ f x y)) (init ++ [prev])
            rw [hrest] at hhead
            simpa using hhead
          rw [hrest] at hz hdrop
          rw [hrest, List.pairwise_cons] at hpairs
          rcases List.mem_cons.mp hz with rfl | hz
          · exact hy.le
          · exact htrans x y z hx (hdrop y List.mem_cons_self) (hdrop z (List.mem_cons_of_mem _ hz))
              hy.le (hpairs.2.1.1 z hz)
      rw [List.pairwise_append, List.pairwise_cons]
      refine ⟨hpairs.1, ⟨hbehind, hpairs.2.1⟩, ?_⟩
      intro y hy z hz
      rcases List.mem_cons.mp hz with rfl | hz
      · exact hbefore y hy
      · exact hpairs.2.2 y hy z hz
    · have hprev : f prev x ≤ 0 := htotal x prev hx (hsorted prev (by simp)) (not_lt.mp hlt)
      rw [List.pairwise_append]
      refine ⟨h, List.pairwise_singleton _ x, ?_⟩
      intro y hy z hz
      obtain rfl := List.mem_singleton.mp hz
      rcases List.mem_append.mp hy with hinit | hlast
      · have hle : f y prev ≤ 0 := (List.pairwise_append.mp h).2.2 y hinit prev (by simp)
        exact htrans y prev z (hsorted y hy) (hsorted prev (by simp)) hx hle hprev
      · obtain rfl := List.mem_singleton.mp hlast
        exact hprev

/-- Sorting with a total and transitive comparison puts the list in order. -/
theorem pairwise_listSort {l : List α} (hl : ∀ a ∈ l, P a) :
    (listSort f l).Pairwise fun a b => f a b ≤ 0 := by
  induction l using List.reverseRecOn with
  | nil => exact List.Pairwise.nil
  | append_singleton l x ih =>
    rw [listSort, List.foldl_append]
    have hsorted : ∀ y ∈ listSort f l, P y := fun y hy =>
      hl y (List.mem_append_left _ ((mem_listSort f).mp hy))
    exact pairwise_listSortInsert htotal htrans hsorted (hl x (by simp))
      (ih fun a ha => hl a (List.mem_append_left _ ha))

end

def strcmp (s1 s2 : Text) : ℤ := if s1 < s2 then -1 else if s2 < s1 then 1 else 0

def numericalSuffix (s : Text) : Text := (s.reverse.takeWhile Char.isDigit).reverse

/-- Like `strcmp`, but handle numerical suffixes of different widths. -/
def cmpServerNames (servername1 servername2 : Text) : ℤ :=
  let p1 := numericalSuffix servername1
  let p2 := numericalSuffix servername2
  let prefix1 := servername1.take (servername1.length - p1.length)
  let prefix2 := servername2.take (servername2.length - p2.length)
  if p1 ≠ [] ∧ p2 ≠ [] ∧ prefix1 = prefix2 then
    let n1 := strtoul false p1
    let n2 := strtoul false p2
    if n1 < n2 then -1 else if n2 < n1 then 1 else 0
  else strcmp servername1 servername2

def cmpTgtstatByserver (t1 t2 : GenericTarget ℚ) : ℤ := cmpServerNames t1.servername t2.servername

def cmpTgtstatBytarget (t1 t2 : GenericTarget ℚ) : ℤ := strcmp t1.name t2.name

def cmpTgtstatBymem (t1 t2 : GenericTarget ℚ) (tnow : ℤ) : ℤ :=
  -1 * sampleValCmp t1.pctMem t2.pctMem tnow

def cmpTgtstatBycpu (t1 t2 : GenericTarget ℚ) (tnow : ℤ) : ℤ :=
  -1 * sampleValCmp t1.pctCpu t2.pctCpu tnow

def fractionUsed (total free : Sample ℚ) (tnow : ℤ) : ℚ :=
  let t := sampleVal total tnow
  let f := sampleVal free tnow
  if 0 < t then (t - f) / t else 0

/-- Compare the parts in use for sorting. -/
def cmpFractionUsed (p1 p2 : ℚ) : ℤ := -1 * if p1 = p2 then 0 else if p1 < p2 then -1 else 1

def cmpOststatByspc (o1 o2 : Oststat ℚ) (tnow : ℤ) : ℤ :=
  cmpFractionUsed (fractionUsed o1.kbytesTotal o1.kbytesFree tnow)
    (fractionUsed o2.kbytesTotal o2.kbytesFree tnow)

def cmpMdtstatByspc (m1 m2 : Mdtstat ℚ) (tnow : ℤ) : ℤ :=
  cmpFractionUsed (fractionUsed m1.kbytesTotal m1.kbytesFree tnow)
    (fractionUsed m2.kbytesTotal m2.kbytesFree tnow)

def cmpMdtstatByino (m1 m2 : Mdtstat ℚ) (tnow : ℤ) : ℤ :=
  cmpFractionUsed (fractionUsed m1.inodesTotal m1.inodesFree tnow)
    (fractionUsed m2.inodesTotal m2.inodesFree tnow)

/-- `sort_t` without its header; `none` is the key 0, which no input selects. -/
structure SortCol (R : Type*) where
  fn : ℤ → R → R → ℤ
  k : Option Char

/-- A column sorted by a sample in descending order of its rate. -/
def byRate {R : Type*} (sample : R → Sample ℚ) (k : Char) : SortCol R :=
  ⟨fun tnow r1 r2 => -1 * sampleRateCmp (sample r1) (sample r2) tnow, some k⟩

/-- A column sorted by a sample in descending order of its value. -/
def byVal {R : Type*} (sample : R → Sample ℚ) (k : Char) : SortCol R :=
  ⟨fun tnow r1 r2 => -1 * sampleValCmp (sample r1) (sample r2) tnow, some k⟩

def ostCol : List (SortCol (Oststat ℚ)) :=
  [⟨fun _ o1 o2 => cmpTgtstatBytarget o1.common o2.common, some 't'⟩,
    -- the state is not sorted by
    ⟨fun _ _ _ => 0, none⟩,
    ⟨fun _ o1 o2 => cmpTgtstatByserver o1.common o2.common, some 's'⟩,
    -- the export count is in ascending order
    ⟨fun tnow o1 o2 => sampleValCmp o1.numExports o2.numExports tnow, some 'x'⟩,
    byRate Oststat.connect 'C', byRate Oststat.rbytes 'r', byRate Oststat.wbytes 'w',
    byRate Oststat.iops 'i', byVal Oststat.lockCount 'l', byVal Oststat.grantRate 'g',
    byVal Oststat.cancelRate 'L',
    ⟨fun tnow o1 o2 => cmpTgtstatBycpu o1.common o2.common tnow, some 'u'⟩,
    ⟨fun tnow o1 o2 => cmpTgtstatBymem o1.common o2.common tnow, some 'm'⟩,
    ⟨fun tnow o1 o2 => cmpOststatByspc o1 o2 tnow, some 'S'⟩]

def mdtCol : List (SortCol (Mdtstat ℚ)) :=
  [⟨fun _ m1 m2 => cmpTgtstatBytarget m1.common m2.common, some 't'⟩,
    ⟨fun _ m1 m2 => cmpTgtstatByserver m1.common m2.common, some 's'⟩,
    byRate Mdtstat.open 'o', byRate Mdtstat.readBytes 'r', byRate Mdtstat.writeBytes 'w',
    byRate Mdtstat.getattr 'g', byRate Mdtstat.setattr 'S', byRate Mdtstat.unlink 'U',
    byRate Mdtstat.mkdir 'M', byRate Mdtstat.rmdir 'r',
    ⟨fun tnow m1 m2 => cmpTgtstatBycpu m1.common m2.common tnow, some 'u'⟩,
    ⟨fun tnow m1 m2 => cmpTgtstatBymem m1.common m2.common tnow, some 'm'⟩,
    ⟨fun tnow m1 m2 => cmpMdtstatByspc m1 m2 tnow, some 'T'⟩,
    ⟨fun tnow m1 m2 => cmpMdtstatByino m1 m2 tnow, some 'T'⟩]

def getSortIndex {R : Type*} (k : Char) (sortIndex : ℕ) (cols : List (SortCol R)) : ℕ :=
  if k = '<' then if sortIndex = 0 then cols.length - 1 else sortIndex - 1
  else if k = '>' then if sortIndex + 1 = cols.length then 0 else sortIndex + 1
  else (cols.findIdx? (·.k = some k)).getD sortIndex

def sortTgtlist {R : Type*} (cols : List (SortCol R)) (index : ℕ) (tnow : ℤ) (tgtData : List R) :
    List R :=
  match cols[index]? with
  | some col => listSort (col.fn tnow) tgtData
  | none => tgtData

@[simp] theorem length_sortTgtlist {R : Type*} (cols : List (SortCol R)) (index : ℕ) (tnow : ℤ)
    (tgtData : List R) : (sortTgtlist cols index tnow tgtData).length = tgtData.length := by
  unfold sortTgtlist
  cases cols[index]? with
  | none => rfl
  | some col => exact length_listSort _ _

theorem getSortIndex_lt {R : Type*} {cols : List (SortCol R)} {sortIndex : ℕ} (k : Char)
    (h : sortIndex < cols.length) : getSortIndex k sortIndex cols < cols.length := by
  unfold getSortIndex
  split_ifs
  · omega
  · omega
  · omega
  · omega
  · cases hk : cols.findIdx? (·.k = some k) with
    | none => exact h
    | some j => exact (List.findIdx?_eq_some_iff_findIdx_eq.mp hk).1

end Lmt
