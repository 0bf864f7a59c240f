import Lmt.Ltop.Sorting
import Lmt.Lsd.LinkedList

/-!
# Sequences with cursors

What a list of `list.c` with its iterators is for: a sequence of items, and cursors
that keep their place in it while items come and go around them. A cursor is
between two items; the one before it is its current item when it was returned last
and is still there.
-/

namespace Lmt.Lsd

structure Cursor where
  /-- the index of the current item, or of the next one when there is none -/
  index : ℕ
  current : Bool
  deriving DecidableEq

def Cursor.next (c : Cursor) : ℕ := c.index + c.current.toNat

def Cursor.inserted (k : ℕ) (c : Cursor) : Cursor :=
  if k ≤ c.index then { c with index := c.index + 1 } else c

/-- The item at an index was removed. A cursor next to it has no current item any more. -/
def Cursor.removed (k : ℕ) (c : Cursor) : Cursor :=
  if k < c.index then { c with index := c.index - 1 }
  else if k ≤ c.next then ⟨k, false⟩
  else c

/-- The cursor moves on to the item that comes next, or to the end. -/
def Cursor.moved (n : ℕ) (c : Cursor) : Cursor := ⟨c.next, c.next < n⟩

structure Sequence (α : Type) where
  items : List α
  cursors : List (ℕ × Cursor)
  fDel : Bool

section

variable {α : Type}

def Sequence.insertAt (s : Sequence α) (k : ℕ) (x : α) : Sequence α :=
  { s with
    items := s.items.insertIdx k x
    cursors := s.cursors.map fun c => (c.1, c.2.inserted k) }

def Sequence.removeAt (s : Sequence α) (k : ℕ) : Sequence α :=
  { s with
    items := s.items.eraseIdx k
    cursors := s.cursors.map fun c => (c.1, c.2.removed k) }

def Sequence.create (s : Sequence α) (k : ℕ) (p : Option ℕ) (x : α) : Option α × Sequence α :=
  if p.isSome then (some x, s.insertAt k x) else (none, s)

/-- A removal, of nothing behind the last item. -/
def Sequence.take (s : Sequence α) (k : ℕ) : Option α × Sequence α :=
  match s.items[k]? with
  | some x => (some x, s.removeAt k)
  | none => (none, s)

/-- Remove the matching ones of the items from an index on, one after the other. -/
def Sequence.removeFrom (f : α → Bool) : List α → ℕ → Sequence α → Sequence α
  | [], _, s => s
  | x :: xs, k, s =>
    if f x then removeFrom f xs k (s.removeAt k) else removeFrom f xs (k + 1) s

def Sequence.cursor (s : Sequence α) (i : ℕ) : Option Cursor :=
  (s.cursors.find? fun e => e.1 = i).map Prod.snd

def Sequence.setCursor (s : Sequence α) (i : ℕ) (c : Cursor) : Sequence α :=
  { s with cursors := s.cursors.map fun e => if e.1 = i then (i, c) else e }

/-- The items that a loop over the list passes to a function: it stops at the first one for
which the function is negative. -/
def passedTo (f : α → ℤ) : List α → List α
  | [] => []
  | x :: xs => if f x < 0 then [x] else x :: passedTo f xs

def Sequence.found (s : Sequence α) (c : Cursor) (f : α → Bool) : Cursor :=
  match (s.items.drop c.next).findIdx? f with
  | some d => ⟨c.next + d, true⟩
  | none => ⟨s.items.length, false⟩

def Sequence.deleted (s : Sequence α) (vs : List α) : List α := if s.fDel then vs else []

def Sequence.takeCurrent (s : Sequence α) (c : Cursor) : Option α × Sequence α :=
  if c.current then s.take c.index else (none, s)

def Sequence.step (s : Sequence α) : Call α → Option (Reply α × Sequence α)
  | .append p x | .enqueue p x => some ((s.create s.items.length p x).map .data id)
  | .prepend p x | .push p x => some ((s.create 0 p x).map .data id)
  | .pop | .dequeue => some ((s.take 0).map .data id)
  | .peek => some (.data s.items.head?, s)
  | .isEmpty => some (.number (if s.items = [] then 1 else 0) [], s)
  | .count => some (.number s.items.length [], s)
  | .findFirst f => some (.data (s.items.find? f), s)
  | .deleteAll f =>
    some (.number (s.items.countP f) (s.deleted (s.items.filter f)), s.removeFrom f s.items 0)
  | .forEach f =>
    let passed := passedTo f s.items
    some (.number (if ∃ x ∈ s.items, f x < 0 then -passed.length else passed.length) passed, s)
  | .sort f =>
    some (.done, { s with
      items := Lmt.listSort f s.items
      cursors := if 1 < s.items.length then s.cursors.map fun c => (c.1, ⟨0, false⟩)
        else s.cursors })
  | .iteratorCreate i =>
    some (.iterator i, { s with cursors := (i.toList.map fun i => (i, ⟨0, false⟩)) ++ s.cursors })
  | .iteratorReset i => (s.cursor i).map fun _ => (.done, s.setCursor i ⟨0, false⟩)
  | .iteratorDestroy i =>
    (s.cursor i).map fun _ => (.done, { s with cursors := s.cursors.eraseP fun e => e.1 = i })
  | .next i =>
    (s.cursor i).map fun c =>
      (.data s.items[c.next]?, s.setCursor i (c.moved s.items.length))
  | .insert i p x => (s.cursor i).map fun c => (s.create c.index p x).map .data id
  | .find i f =>
    (s.cursor i).map fun c =>
      (.data ((s.items.drop c.next).find? f), s.setCursor i (s.found c f))
  | .remove i => (s.cursor i).map fun c => (s.takeCurrent c).map .data id
  | .delete i =>
    (s.cursor i).map fun c =>
      let r := s.takeCurrent c
      (.number (if r.1.isSome then 1 else 0) (s.deleted r.1.toList), r.2)

def Sequence.Valid (s : Sequence α) : Prop := ∀ c ∈ s.cursors, c.2.next ≤ s.items.length

end

end Lmt.Lsd
