import Lmt.Library.Chains

/-!
# The lists of `list.c`

A list is a chain of nodes with the place of its last link, a count and the
iterators that are open on it. An iterator holds the node that comes next and
the place of the link before the node it returned last, and the operations on
the list move the iterators that they would leave behind.

A node or an iterator is put at an address of the allocator, or at none when
there is no memory. A function fails where the code follows a pointer that is no
pointer to a node or an iterator, and where an assertion of the code does not hold.
-/

namespace Lmt.Lsd

open Chains

structure ListIterator where
  /-- the next node to be iterated -/
  pos : Option ℕ
  /-- the place of the link to the previous node -/
  prev : Link
  deriving DecidableEq

/-- The `list` of the source. Data pointers are not null. -/
structure LinkedList (α : Type) where
  heap : Heap α
  /-- the place of the last link -/
  tail : Link
  /-- the open iterators with their addresses -/
  iNext : List (ℕ × ListIterator)
  /-- whether there is a function to delete data -/
  fDel : Bool
  count : ℤ

section

variable {α : Type}

def listCreate (fDel : Bool) : LinkedList α :=
  { heap := ⟨∅, none⟩, tail := .head, iNext := [], fDel, count := 0 }

/-- What the assertion on an iterator says: it is before the node that comes next or before the
one before that. -/
def ListIterator.placed (h : Heap α) (i : ListIterator) : Bool :=
  h.read i.prev = some i.pos ||
    ((h.read i.prev).bind fun q => q.bind fun q => h.read (.next q)) = some i.pos

/-- An iterator after a node was created behind a link. -/
def ListIterator.created (pp : Link) (next : Option ℕ) (p : ℕ) (i : ListIterator) : ListIterator :=
  if i.prev = pp then { i with prev := .next p }
  else if i.pos = next then { i with pos := some p }
  else i

/-- An iterator after the node behind a link was taken out. -/
def ListIterator.destroyed (pp : Link) (next : Option ℕ) (p : ℕ) (i : ListIterator) :
    ListIterator :=
  if i.pos = some p then { pos := next, prev := pp }
  else if i.prev = .next p then { i with prev := pp }
  else i

def listNodeCreate (l : LinkedList α) (pp : Link) (p : Option ℕ) (x : α) :
    Option (Option α × LinkedList α) :=
  match p with
  | none => some (none, l)
  | some p => do
    let next ← l.heap.read pp
    let heap ← (l.heap.put p ⟨x, next⟩).write (some p) pp
    let iNext := l.iNext.map fun i => (i.1, i.2.created pp next p)
    if iNext.all fun i => i.2.placed heap then
      some (some x, { l with
        heap, iNext
        tail := if next = none then .next p else l.tail
        count := l.count + 1 })
    else none

def listNodeDestroy (l : LinkedList α) (pp : Link) : Option (Option α × LinkedList α) := do
  match ← l.heap.read pp with
  | none => some (none, l)
  | some p =>
    let v ← l.heap.data p
    let next ← l.heap.read (.next p)
    let heap ← l.heap.write next pp
    let iNext := l.iNext.map fun i => (i.1, i.2.destroyed pp next p)
    if iNext.all fun i => i.2.placed heap then
      some (some v, { l with
        heap := heap.erase p, iNext
        tail := if next = none then pp else l.tail
        count := l.count - 1 })
    else none

/-- The rounds that a walk over the nodes can take unless it goes round in a circle. -/
def LinkedList.rounds (l : LinkedList α) : ℕ := l.heap.nodes.keys.card

def listIsEmpty (l : LinkedList α) : Bool := l.count = 0

def listCount (l : LinkedList α) : ℤ := l.count

def listAppend (l : LinkedList α) (p : Option ℕ) (x : α) : Option (Option α × LinkedList α) :=
  listNodeCreate l l.tail p x

def listPrepend (l : LinkedList α) (p : Option ℕ) (x : α) : Option (Option α × LinkedList α) :=
  listNodeCreate l .head p x

def listPush (l : LinkedList α) (p : Option ℕ) (x : α) : Option (Option α × LinkedList α) :=
  listNodeCreate l .head p x

def listEnqueue (l : LinkedList α) (p : Option ℕ) (x : α) : Option (Option α × LinkedList α) :=
  listNodeCreate l l.tail p x

def listPop (l : LinkedList α) : Option (Option α × LinkedList α) := listNodeDestroy l .head

def listDequeue (l : LinkedList α) : Option (Option α × LinkedList α) := listNodeDestroy l .head

def nodeData (h : Heap α) : Option ℕ → Option (Option α)
  | some p => (h.data p).map some
  | none => some none

def listPeek (l : LinkedList α) : Option (Option α) := nodeData l.heap l.heap.head

def findFirstLoop (h : Heap α) (f : α → Bool) : ℕ → Option ℕ → Option (Option α)
  | _, none => some none
  | 0, some _ => none
  | n + 1, some p => do
    let x ← h.data p
    if f x then some (some x) else findFirstLoop h f n (← h.read (.next p))

def listFindFirst (l : LinkedList α) (f : α → Bool) : Option (Option α) :=
  findFirstLoop l.heap f l.rounds l.heap.head

/-- The loop of `list_delete_all` and the data that it takes out. -/
def deleteAllLoop (f : α → Bool) : ℕ → Link → LinkedList α → Option (List α × LinkedList α)
  | 0, _, _ => none
  | n + 1, pp, l => do
    match ← l.heap.read pp with
    | none => some ([], l)
    | some p =>
      let x ← l.heap.data p
      if f x then
        let (v, l) ← listNodeDestroy l pp
        let (vs, l) ← deleteAllLoop f n pp l
        some (v.toList ++ vs, l)
      else deleteAllLoop f n (.next p) l

def listDeleteAll (l : LinkedList α) (f : α → Bool) : Option (List α × LinkedList α) :=
  deleteAllLoop f (l.rounds + 1) .head l

/-- The loop of `list_for_each`: its result and the data that it passes to the function. -/
def forEachLoop (h : Heap α) (f : α → ℤ) : ℕ → Option ℕ → ℤ → Option (ℤ × List α)
  | _, none, n => some (n, [])
  | 0, some _, _ => none
  | k + 1, some p, n => do
    let x ← h.data p
    if f x < 0 then some (-(n + 1), [x])
    else
      let (m, xs) ← forEachLoop h f k (← h.read (.next p)) (n + 1)
      some (m, x :: xs)

def listForEach (l : LinkedList α) (f : α → ℤ) : Option (ℤ × List α) :=
  forEachLoop l.heap f l.rounds l.heap.head 0

def dataAt (h : Heap α) (pp : Link) : Option α := do h.data (← ← h.read pp)

def nextLink (h : Heap α) (pp : Link) : Option Link := do some (.next (← ← h.read pp))

/-- The inner loop of `list_sort`: the first link to a node that is greater than the data. -/
def sortPlace (f : α → α → ℤ) (h : Heap α) (x : α) : ℕ → Link → Option Link
  | 0, _ => none
  | n + 1, ppPos => do
    let y ← dataAt h ppPos
    if 0 ≤ f x y then sortPlace f h x n (← nextLink h ppPos) else some ppPos

/-- The outer loop of `list_sort`. Returns the place of the last link. -/
def sortLoop (f : α → α → ℤ) : ℕ → Heap α → Link → Link → Option (Heap α × Link)
  | 0, _, _, _ => none
  | n + 1, h, ppPrev, pp => do
    match ← h.read pp with
    | none => some (h, pp)
    | some q =>
      let x ← dataAt h pp
      let y ← dataAt h ppPrev
      if f x y < 0 then
        let ppPos ← sortPlace f h x (h.nodes.keys.card + 1) .head
        let pTmp ← h.read (.next q)
        let h ← h.write (← h.read ppPos) (.next q)
        let h ← h.write (← h.read pp) ppPos
        let h ← h.write pTmp pp
        let ppPrev ← (if ppPrev = ppPos then nextLink h ppPrev else some ppPrev : Option Link)
        sortLoop f n h ppPrev pp
      else sortLoop f n h pp (.next q)

def listSort (l : LinkedList α) (f : α → α → ℤ) : Option (LinkedList α) :=
  if 1 < l.count then do
    let pp ← nextLink l.heap .head
    let (heap, tail) ← sortLoop f (l.rounds + 1) l.heap .head pp
    let iNext := l.iNext.map fun i => (i.1, { pos := heap.head, prev := .head })
    some { l with heap, tail, iNext }
  else some l

def LinkedList.iterator (l : LinkedList α) (i : ℕ) : Option ListIterator :=
  (l.iNext.find? fun e => e.1 = i).map Prod.snd

def LinkedList.setIterator (l : LinkedList α) (i : ℕ) (it : ListIterator) : LinkedList α :=
  { l with iNext := l.iNext.map fun e => if e.1 = i then (i, it) else e }

def listIteratorCreate (l : LinkedList α) (i : Option ℕ) : Option ℕ × LinkedList α :=
  match i with
  | none => (none, l)
  | some i => (some i, { l with iNext := (i, ⟨l.heap.head, .head⟩) :: l.iNext })

def listIteratorReset (l : LinkedList α) (i : ℕ) : Option (LinkedList α) := do
  let _ ← l.iterator i
  some (l.setIterator i ⟨l.heap.head, .head⟩)

def listIteratorDestroy (l : LinkedList α) (i : ℕ) : Option (LinkedList α) := do
  let _ ← l.iterator i
  some { l with iNext := l.iNext.eraseP fun e => e.1 = i }

def nextNode (h : Heap α) : Option ℕ → Option (Option ℕ)
  | some p => h.read (.next p)
  | none => some none

def listNext (l : LinkedList α) (i : ℕ) : Option (Option α × LinkedList α) := do
  let it ← l.iterator i
  let pos ← nextNode l.heap it.pos
  let q ← l.heap.read it.prev
  let prev ← (if q = it.pos then some it.prev else nextLink l.heap it.prev : Option Link)
  let v ← nodeData l.heap it.pos
  some (v, l.setIterator i ⟨pos, prev⟩)

def listInsert (l : LinkedList α) (i : ℕ) (p : Option ℕ) (x : α) :
    Option (Option α × LinkedList α) := do
  let it ← l.iterator i
  listNodeCreate l it.prev p x

def findLoop (f : α → Bool) (i : ℕ) : ℕ → LinkedList α → Option (Option α × LinkedList α)
  | 0, _ => none
  | n + 1, l => do
    match ← listNext l i with
    | (none, l) => some (none, l)
    | (some v, l) => if f v then some (some v, l) else findLoop f i n l

def listFind (l : LinkedList α) (i : ℕ) (f : α → Bool) : Option (Option α × LinkedList α) :=
  findLoop f i (l.rounds + 1) l

def listRemove (l : LinkedList α) (i : ℕ) : Option (Option α × LinkedList α) := do
  let it ← l.iterator i
  if (← l.heap.read it.prev) = it.pos then some (none, l) else listNodeDestroy l it.prev

/-- The data that goes to the function to delete data. -/
def LinkedList.deleted (l : LinkedList α) (vs : List α) : List α := if l.fDel then vs else []

/-- `list_delete`: its result and the data that is deleted. -/
def listDelete (l : LinkedList α) (i : ℕ) : Option ((ℤ × List α) × LinkedList α) := do
  match ← listRemove l i with
  | (some v, l) => some ((1, l.deleted [v]), l)
  | (none, l) => some ((0, []), l)

/-- The loop of `list_destroy` over the nodes: the data of the nodes and what is left in memory. -/
def destroyLoop : ℕ → Option ℕ → Heap α → Option (List α × Heap α)
  | _, none, h => some ([], h)
  | 0, some _, _ => none
  | n + 1, some p, h => do
    let pTmp ← h.read (.next p)
    let v ← h.data p
    let (vs, h) ← destroyLoop n pTmp (h.erase p)
    some (v :: vs, h)

/-- `list_destroy`: the data that is deleted and what is left in memory. -/
def listDestroy (l : LinkedList α) : Option (List α × Heap α) := do
  let (vs, h) ← destroyLoop l.rounds l.heap.head l.heap
  some (l.deleted vs, h)

end

/-- A call of a function on a list or on one of its iterators. A call that creates a node or an
iterator has the address that the allocator gives. -/
inductive Call (α : Type)
  | append (p : Option ℕ) (x : α)
  | prepend (p : Option ℕ) (x : α)
  | push (p : Option ℕ) (x : α)
  | enqueue (p : Option ℕ) (x : α)
  | pop
  | dequeue
  | peek
  | isEmpty
  | count
  | findFirst (f : α → Bool)
  | deleteAll (f : α → Bool)
  | forEach (f : α → ℤ)
  | sort (f : α → α → ℤ)
  | iteratorCreate (i : Option ℕ)
  | iteratorReset (i : ℕ)
  | iteratorDestroy (i : ℕ)
  | next (i : ℕ)
  | insert (i : ℕ) (p : Option ℕ) (x : α)
  | find (i : ℕ) (f : α → Bool)
  | remove (i : ℕ)
  | delete (i : ℕ)

/-- What a call returns, and the data that it passes to a function of its caller. -/
inductive Reply (α : Type)
  | data (v : Option α)
  | number (n : ℤ) (passed : List α)
  | iterator (i : Option ℕ)
  | done

def dataReply {α : Type} (r : Option α × LinkedList α) : Reply α × LinkedList α :=
  (.data r.1, r.2)

def LinkedList.step {α : Type} (l : LinkedList α) : Call α → Option (Reply α × LinkedList α)
  | .append p x => (listAppend l p x).map dataReply
  | .prepend p x => (listPrepend l p x).map dataReply
  | .push p x => (listPush l p x).map dataReply
  | .enqueue p x => (listEnqueue l p x).map dataReply
  | .pop => (listPop l).map dataReply
  | .dequeue => (listDequeue l).map dataReply
  | .peek => (listPeek l).map fun v => (.data v, l)
  | .isEmpty => some (.number (if listIsEmpty l then 1 else 0) [], l)
  | .count => some (.number (listCount l) [], l)
  | .findFirst f => (listFindFirst l f).map fun v => (.data v, l)
  | .deleteAll f => (listDeleteAll l f).map fun r => (.number r.1.length (l.deleted r.1), r.2)
  | .forEach f => (listForEach l f).map fun r => (.number r.1 r.2, l)
  | .sort f => (listSort l f).map fun l => (.done, l)
  | .iteratorCreate i => some ((listIteratorCreate l i).map .iterator id)
  | .iteratorReset i => (listIteratorReset l i).map fun l => (.done, l)
  | .iteratorDestroy i => (listIteratorDestroy l i).map fun l => (.done, l)
  | .next i => (listNext l i).map dataReply
  | .insert i p x => (listInsert l i p x).map dataReply
  | .find i f => (listFind l i f).map dataReply
  | .remove i => (listRemove l i).map dataReply
  | .delete i => (listDelete l i).map fun r => (.number r.1.1 r.1.2, r.2)

/-- The address that the allocator gives for a call is not in use. -/
def Call.Fresh {α : Type} (l : LinkedList α) : Call α → Prop
  | .append p _ | .prepend p _ | .push p _ | .enqueue p _ | .insert _ p _ =>
    ∀ q ∈ p, q ∉ l.heap.nodes
  | .iteratorCreate i => ∀ j ∈ i, j ∉ l.iNext.map Prod.fst
  | _ => True

end Lmt.Lsd
