import Mathlib.Data.Finset.Sort
import Lmt.Library.Runs
import Lmt.Lsd.LinkedList

/-!
# The free lists of `list.c`

Nodes and iterators come from a free list for each of the two. A free list that is
empty gets a chunk of objects from `malloc`, and an object that is destroyed is put
back. As long as `malloc` returns no memory that is in use, an object that is given
to a list is not in use either.
-/

namespace Lmt.Lsd

open Chains Runs

def listAllocChunk : ℕ := 32

/-- The objects in a block of memory. -/
def chunk (size base : ℕ) : List ℕ := List.iterate (· + size) base listAllocChunk

/-- The free list before an object is taken, with what `malloc` returns if it is called. -/
def refill (size : ℕ) (block : Option ℕ) (free : List ℕ) : List ℕ :=
  if free = [] then block.elim [] (chunk size) else free

def listAllocAux (size : ℕ) (block : Option ℕ) (free : List ℕ) : Option ℕ × List ℕ :=
  ((refill size block free).head?, (refill size block free).tail)

def listFreeAux (x : ℕ) (free : List ℕ) : List ℕ := x :: free

/-- No object that is free is in use, or free twice. -/
structure Apart (free : List ℕ) (used : Finset ℕ) : Prop where
  nodup : free.Nodup
  notMem : ∀ x ∈ free, x ∉ used

/-- What is known of `malloc`: a block that it returns holds no object that is in use. -/
def FreshBlock (size : ℕ) (used : Finset ℕ) (block : Option ℕ) : Prop :=
  ∀ base ∈ block, ∀ x ∈ chunk size base, x ∉ used

section

variable {size : ℕ} {block : Option ℕ} {free : List ℕ} {used : Finset ℕ}

theorem nodup_chunk (hsize : 0 < size) (base : ℕ) : (chunk size base).Nodup := by
  have hlt : ∀ n base, ∀ x ∈ List.iterate (· + size) base n, base ≤ x := by
    intro n
    induction n with
    | zero => simp
    | succ n ih =>
      intro base x hx
      rcases List.mem_cons.mp hx with rfl | hx
      · exact le_rfl
      · exact (Nat.le_add_right base size).trans (ih _ x hx)
  have hnodup : ∀ n base, (List.iterate (· + size) base n).Nodup := by
    intro n
    induction n with
    | zero => simp
    | succ n ih =>
      intro base
      refine List.nodup_cons.mpr ⟨fun hmem => ?_, ih _⟩
      have hle : base + size ≤ base := hlt n _ base hmem
      omega
  exact hnodup _ base

theorem apart_refill (h : Apart free used) (hsize : 0 < size) (hblock : FreshBlock size used block) :
    Apart (refill size block free) used := by
  unfold refill
  split
  · cases block with
    | none => exact ⟨List.nodup_nil, by simp⟩
    | some base => exact ⟨nodup_chunk hsize base, hblock base rfl⟩
  · exact h

/-- The object that is given is not in use, and not free any more. -/
theorem apart_listAllocAux (h : Apart free used) (hsize : 0 < size)
    (hblock : FreshBlock size used block) :
    (∀ p ∈ (listAllocAux size block free).1, p ∉ used) ∧
      Apart (listAllocAux size block free).2
        (used ∪ (listAllocAux size block free).1.toFinset) := by
  have hrefill := apart_refill h hsize hblock
  unfold listAllocAux
  rcases hcase : refill size block free with _ | ⟨x, rest⟩
  · exact ⟨by simp, List.nodup_nil, by simp⟩
  · rw [hcase] at hrefill
    obtain ⟨hx, hrest⟩ := List.nodup_cons.mp hrefill.nodup
    refine ⟨?_, hrest, fun y hy => ?_⟩
    · rintro p ⟨⟩
      exact hrefill.notMem x List.mem_cons_self
    · have hne : y ≠ x := fun heq => hx (heq ▸ hy)
      have hnot := hrefill.notMem y (List.mem_cons_of_mem _ hy)
      simp [hne, hnot]

end

section

variable {α : Type} {h h' : Heap α} {l l' : LinkedList α} {v : Option α} {q : ℕ}

/-- What a function can have in memory afterwards: what was there, and the objects it was given. -/
structure Within (l l' : LinkedList α) (p i : Option ℕ) : Prop where
  nodes : ∀ q ∈ l'.heap.nodes, q ∈ l.heap.nodes ∨ q ∈ p
  iterators : ∀ j ∈ l'.iNext.map Prod.fst, j ∈ l.iNext.map Prod.fst ∨ j ∈ i

theorem Within.refl (l : LinkedList α) (p i : Option ℕ) : Within l l p i :=
  ⟨fun _ => Or.inl, fun _ => Or.inl⟩

theorem Within.trans {l'' : LinkedList α} {p i : Option ℕ} (hl : Within l l' none none)
    (hl' : Within l' l'' p i) : Within l l'' p i where
  nodes q hq := (hl'.nodes q hq).imp_left fun hq => (hl.nodes q hq).resolve_right (by simp)
  iterators j hj := (hl'.iterators j hj).imp_left fun hj =>
    (hl.iterators j hj).resolve_right (by simp)

theorem within_of_heap {p : Option ℕ} (hnodes : ∀ q ∈ l'.heap.nodes, q ∈ l.heap.nodes ∨ q ∈ p)
    (hiterators : l'.iNext.map Prod.fst = l.iNext.map Prod.fst) : Within l l' p none :=
  ⟨hnodes, fun _ hj => Or.inl (hiterators ▸ hj)⟩

theorem within_listNodeCreate {pp : Link} {p : Option ℕ} {x : α}
    (hcreate : listNodeCreate l pp p x = some (v, l')) : Within l l' p none := by
  cases p with
  | none =>
    cases hcreate
    exact .refl l none none
  | some p =>
    simp only [listNodeCreate, Option.bind_eq_bind, Option.bind_eq_some_iff] at hcreate
    obtain ⟨next, -, heap, hw, hcreate⟩ := hcreate
    split at hcreate
    · cases hcreate
      refine within_of_heap (fun q hq => ?_) ?_
      · have hmem := (Heap.mem_write hw).mp hq
        simp only [Heap.put, Finmap.mem_insert] at hmem
        exact hmem.symm.imp_right fun heq => congrArg some heq.symm
      · simp [Function.comp_def]
    · cases hcreate

theorem within_listNodeDestroy {pp : Link} (hdestroy : listNodeDestroy l pp = some (v, l')) :
    Within l l' none none := by
  simp only [listNodeDestroy, Option.bind_eq_bind, Option.bind_eq_some_iff] at hdestroy
  obtain ⟨p, -, hdestroy⟩ := hdestroy
  cases p with
  | none =>
    cases hdestroy
    exact .refl l none none
  | some p =>
    simp only [Option.bind_eq_some_iff] at hdestroy
    obtain ⟨x, -, next, -, heap, hw, hdestroy⟩ := hdestroy
    split at hdestroy
    · cases hdestroy
      refine within_of_heap (fun q hq => ?_) ?_
      · simp only [Heap.erase, Finmap.mem_erase] at hq
        exact Or.inl ((Heap.mem_write hw).mp hq.2)
      · simp [Function.comp_def]
    · cases hdestroy

theorem within_deleteAllLoop {f : α → Bool} {n : ℕ} {pp : Link} {vs : List α}
    (hloop : deleteAllLoop f n pp l = some (vs, l')) : Within l l' none none := by
  induction n generalizing l pp vs with
  | zero => cases hloop
  | succ n ih =>
    simp only [deleteAllLoop, Option.bind_eq_bind, Option.bind_eq_some_iff] at hloop
    obtain ⟨p, -, hloop⟩ := hloop
    cases p with
    | none =>
      cases hloop
      exact .refl _ none none
    | some p =>
      simp only [Option.bind_eq_some_iff] at hloop
      obtain ⟨x, -, hloop⟩ := hloop
      split at hloop
      · simp only [Option.bind_eq_some_iff] at hloop
        obtain ⟨⟨v, l₁⟩, hdestroy, ⟨vs', l₂⟩, hrest, hloop⟩ := hloop
        cases hloop
        exact (within_listNodeDestroy hdestroy).trans (ih hrest)
      · exact ih hloop

/-- Sorting changes links only. -/
theorem mem_sortLoop {f : α → α → ℤ} {n : ℕ} {ppPrev pp tail : Link}
    (hloop : sortLoop f n h ppPrev pp = some (h', tail)) : q ∈ h'.nodes ↔ q ∈ h.nodes := by
  induction n generalizing h ppPrev pp with
  | zero => cases hloop
  | succ n ih =>
    simp only [sortLoop, Option.bind_eq_bind, Option.bind_eq_some_iff] at hloop
    obtain ⟨p, -, hloop⟩ := hloop
    cases p with
    | none =>
      cases hloop
      exact Iff.rfl
    | some p =>
      simp only [Option.bind_eq_some_iff] at hloop
      obtain ⟨x, -, y, -, hloop⟩ := hloop
      split at hloop
      · simp only [Option.bind_eq_some_iff] at hloop
        obtain ⟨ppPos, -, pTmp, -, u, -, h₁, hw₁, w, -, h₂, hw₂, h₃, hw₃, pp', -, hloop⟩ := hloop
        rw [ih hloop, Heap.mem_write hw₃, Heap.mem_write hw₂, Heap.mem_write hw₁]
      · exact ih hloop

theorem within_listSort {f : α → α → ℤ} (hsort : listSort l f = some l') :
    Within l l' none none := by
  unfold listSort at hsort
  split at hsort
  · simp only [Option.bind_eq_bind, Option.bind_eq_some_iff] at hsort
    obtain ⟨pp, -, ⟨heap, tail⟩, hloop, hsort⟩ := hsort
    cases hsort
    refine within_of_heap (fun q hq => Or.inl ((mem_sortLoop hloop).mp hq)) ?_
    simp [Function.comp_def]
  · cases hsort
    exact .refl l none none

theorem within_setIterator (l : LinkedList α) (i : ℕ) (it : ListIterator) :
    Within l (l.setIterator i it) none none := by
  refine within_of_heap (fun q hq => Or.inl hq) ?_
  simp only [LinkedList.setIterator, List.map_map]
  refine List.map_congr_left fun e _ => ?_
  by_cases he : e.1 = i <;> simp [he]

theorem within_listNext {i : ℕ} (hnext : listNext l i = some (v, l')) : Within l l' none none := by
  simp only [listNext, Option.bind_eq_bind, Option.bind_eq_some_iff] at hnext
  obtain ⟨it, -, pos, -, u, -, prev, -, w, -, hnext⟩ := hnext
  cases hnext
  exact within_setIterator l i _

theorem within_findLoop {f : α → Bool} {i n : ℕ} (hloop : findLoop f i n l = some (v, l')) :
    Within l l' none none := by
  induction n generalizing l with
  | zero => cases hloop
  | succ n ih =>
    simp only [findLoop, Option.bind_eq_bind, Option.bind_eq_some_iff] at hloop
    obtain ⟨⟨w, l₁⟩, hnext, hloop⟩ := hloop
    have hwithin := within_listNext hnext
    cases w with
    | none =>
      cases hloop
      exact hwithin
    | some w =>
      dsimp only at hloop
      split at hloop
      · cases hloop
        exact hwithin
      · exact hwithin.trans (ih hloop)

theorem within_listRemove {i : ℕ} (hremove : listRemove l i = some (v, l')) :
    Within l l' none none := by
  simp only [listRemove, Option.bind_eq_bind, Option.bind_eq_some_iff] at hremove
  obtain ⟨it, -, u, -, hremove⟩ := hremove
  split at hremove
  · cases hremove
    exact .refl _ none none
  · exact within_listNodeDestroy hremove

theorem within_listDelete {i : ℕ} {r : ℤ × List α} (hdelete : listDelete l i = some (r, l')) :
    Within l l' none none := by
  simp only [listDelete, Option.bind_eq_bind, Option.bind_eq_some_iff] at hdelete
  obtain ⟨⟨w, l₁⟩, hremove, hdelete⟩ := hdelete
  have hwithin := within_listRemove hremove
  cases w <;> cases hdelete <;> exact hwithin

theorem within_listIteratorDestroy {i : ℕ} (hdestroy : listIteratorDestroy l i = some l') :
    Within l l' none none := by
  simp only [listIteratorDestroy, Option.bind_eq_bind, Option.bind_eq_some_iff] at hdestroy
  obtain ⟨it, -, hdestroy⟩ := hdestroy
  cases hdestroy
  refine ⟨fun q hq => Or.inl hq, fun j hj => Or.inl ?_⟩
  obtain ⟨e, he, rfl⟩ := List.mem_map.mp hj
  exact List.mem_map_of_mem (List.mem_of_mem_eraseP he)

/-- The object that a call is given for a node, if it makes one. -/
def Call.node : Call α → Option (Option ℕ)
  | .append p _ | .prepend p _ | .push p _ | .enqueue p _ | .insert _ p _ => some p
  | _ => none

def Call.newIterator : Call α → Option (Option ℕ)
  | .iteratorCreate i => some i
  | _ => none

theorem Call.fresh_of {call : Call α} (hnode : ∀ q ∈ call.node.join, q ∉ l.heap.nodes)
    (hiterator : ∀ j ∈ call.newIterator.join, j ∉ l.iNext.map Prod.fst) : call.Fresh l := by
  cases call with
  | append p x | prepend p x | push p x | enqueue p x | insert i p x => exact hnode
  | iteratorCreate i => exact hiterator
  | _ => trivial

theorem within_dataReply {r : Option (Option α × LinkedList α)} {t : Reply α × LinkedList α}
    {p i : Option ℕ} (ht : r.map dataReply = some t)
    (h : ∀ v l', r = some (v, l') → Within l l' p i) : Within l t.2 p i := by
  obtain ⟨⟨v, l'⟩, hr, rfl⟩ := Option.map_eq_some_iff.mp ht
  exact h v l' hr

theorem within_step {call : Call α} {r : Reply α × LinkedList α} (hstep : l.step call = some r) :
    Within l r.2 call.node.join call.newIterator.join := by
  cases call with
  | append p x | enqueue p x | prepend p x | push p x =>
    exact within_dataReply hstep fun _ _ => within_listNodeCreate
  | pop | dequeue => exact within_dataReply hstep fun _ _ => within_listNodeDestroy
  | peek | findFirst f | forEach f =>
    obtain ⟨_, -, rfl⟩ := Option.map_eq_some_iff.mp hstep
    exact .refl _ none none
  | isEmpty | count =>
    cases hstep
    exact .refl _ none none
  | deleteAll f =>
    obtain ⟨⟨vs, l'⟩, hdelete, rfl⟩ := Option.map_eq_some_iff.mp hstep
    exact within_deleteAllLoop hdelete
  | sort f =>
    obtain ⟨l', hsort, rfl⟩ := Option.map_eq_some_iff.mp hstep
    exact within_listSort hsort
  | iteratorCreate i =>
    cases hstep
    cases i with
    | none => exact .refl _ none none
    | some i =>
      refine ⟨fun q hq => Or.inl hq, fun j hj => ?_⟩
      rcases List.mem_cons.mp hj with rfl | hj
      · exact Or.inr rfl
      · exact Or.inl hj
  | iteratorReset i =>
    obtain ⟨l', hreset, rfl⟩ := Option.map_eq_some_iff.mp hstep
    obtain ⟨it, -, hreset⟩ := Option.bind_eq_some_iff.mp hreset
    cases hreset
    exact within_setIterator l i _
  | iteratorDestroy i =>
    obtain ⟨l', hdestroy, rfl⟩ := Option.map_eq_some_iff.mp hstep
    exact within_listIteratorDestroy hdestroy
  | next i => exact within_dataReply hstep fun _ _ => within_listNext
  | insert i p x =>
    refine within_dataReply hstep fun v l' hinsert => ?_
    obtain ⟨it, -, hinsert⟩ := Option.bind_eq_some_iff.mp hinsert
    exact within_listNodeCreate hinsert
  | find i f => exact within_dataReply hstep fun _ _ => within_findLoop
  | remove i => exact within_dataReply hstep fun _ _ => within_listRemove
  | delete i =>
    obtain ⟨⟨r, l'⟩, hdelete, rfl⟩ := Option.map_eq_some_iff.mp hstep
    exact within_listDelete hdelete

end

/-- The list of a program, with the free lists of its nodes and of its iterators. -/
structure Process (α : Type) where
  list : LinkedList α
  listFreeNodes : List ℕ
  listFreeIterators : List ℕ

def LinkedList.nodesInUse {α : Type} (l : LinkedList α) : Finset ℕ := l.heap.nodes.keys

def LinkedList.iteratorsInUse {α : Type} (l : LinkedList α) : Finset ℕ :=
  (l.iNext.map Prod.fst).toFinset

/-- A free list after a call that takes the object, if it takes one. What it destroys is put back,
here in the order of the addresses. -/
def recycle (size : ℕ) (block : Option ℕ) (object : Option (Option ℕ)) (before after : Finset ℕ)
    (free : List ℕ) : List ℕ :=
  ((before \ after).sort).foldr listFreeAux
    (if object.isSome then (listAllocAux size block free).2 else free)

/-- One kind of object keeps apart over a call that has in use afterwards what it had before and
the object that it was given. -/
theorem apart_recycle {size : ℕ} {block : Option ℕ} {object : Option (Option ℕ)} {free : List ℕ}
    {before : Finset ℕ} (after : Finset ℕ) (h : Apart free before) (hsize : 0 < size)
    (hobject : ∀ p ∈ object, p = (listAllocAux size block free).1 ∧ FreshBlock size before block)
    (hafter : ∀ q ∈ after, q ∈ before ∨ q ∈ object.join) :
    (∀ q ∈ object.join, q ∉ before) ∧
      Apart (recycle size block object before after free) after := by
  have htaken : (∀ q ∈ object.join, q ∉ before) ∧
      Apart (if object.isSome then (listAllocAux size block free).2 else free)
        (before ∪ object.join.toFinset) := by
    cases object with
    | none => exact ⟨by simp, by simpa using h⟩
    | some p =>
      obtain ⟨rfl, hblock⟩ := hobject p rfl
      exact apart_listAllocAux h hsize hblock
  obtain ⟨hfresh, hnodup, hnot⟩ := htaken
  refine ⟨hfresh, ?_⟩
  have heq : recycle size block object before after free = (before \ after).sort ++
      if object.isSome then (listAllocAux size block free).2 else free := by
    unfold recycle
    exact List.foldr_cons_eq_append'
  rw [heq]
  constructor
  · refine List.nodup_append'.mpr ⟨Finset.sort_nodup _ _, hnodup, fun x hx hfree => ?_⟩
    have hmem := (Finset.mem_sdiff.mp ((Finset.mem_sort _).mp hx)).1
    exact hnot x hfree (Finset.mem_union_left _ hmem)
  · intro x hx hmem
    rcases List.mem_append.mp hx with hx | hx
    · exact (Finset.mem_sdiff.mp ((Finset.mem_sort _).mp hx)).2 hmem
    · refine hnot x hx (Finset.mem_union.mpr ((hafter x hmem).imp_right fun hobj => ?_))
      exact Option.mem_toFinset.mpr hobj

section

variable {α : Type} (nodeSize iteratorSize : ℕ)

/-- The free lists after a call, with what `malloc` returns in it, that leaves this list. -/
def Process.after (s : Process α) (c : Call α × Option ℕ) (l : LinkedList α) : Process α where
  list := l
  listFreeNodes :=
    recycle nodeSize c.2 c.1.node s.list.nodesInUse l.nodesInUse s.listFreeNodes
  listFreeIterators :=
    recycle iteratorSize c.2 c.1.newIterator s.list.iteratorsInUse l.iteratorsInUse
      s.listFreeIterators

def Process.step (s : Process α) (c : Call α × Option ℕ) : Option (Reply α × Process α) :=
  (s.list.step c.1).map fun r => (r.1, s.after nodeSize iteratorSize c r.2)

/-- A call is given what `list_alloc_aux` returns, and `malloc` returns no memory in use. -/
structure Served (s : Process α) (c : Call α × Option ℕ) : Prop where
  node : ∀ p ∈ c.1.node, p = (listAllocAux nodeSize c.2 s.listFreeNodes).1 ∧
    FreshBlock nodeSize s.list.nodesInUse c.2
  iterator : ∀ i ∈ c.1.newIterator, i = (listAllocAux iteratorSize c.2 s.listFreeIterators).1 ∧
    FreshBlock iteratorSize s.list.iteratorsInUse c.2

/-- What is free is not in use. -/
structure Process.Valid (s : Process α) : Prop where
  nodes : Apart s.listFreeNodes s.list.nodesInUse
  iterators : Apart s.listFreeIterators s.list.iteratorsInUse

variable {nodeSize iteratorSize}

theorem Process.Valid.after {s : Process α} (hs : s.Valid) (hnode : 0 < nodeSize)
    (hiterator : 0 < iteratorSize) {c : Call α × Option ℕ} (hc : Served nodeSize iteratorSize s c)
    {l : LinkedList α} (hl : Within s.list l c.1.node.join c.1.newIterator.join) :
    c.1.Fresh s.list ∧ (s.after nodeSize iteratorSize c l).Valid := by
  obtain ⟨hp, hnodes⟩ := apart_recycle l.nodesInUse hs.nodes hnode hc.node fun q hq =>
    (hl.nodes q (Finmap.mem_keys.mp hq)).imp_left Finmap.mem_keys.mpr
  obtain ⟨hi, hiterators⟩ := apart_recycle l.iteratorsInUse hs.iterators hiterator
    hc.iterator fun j hj =>
      (hl.iterators j (List.mem_toFinset.mp hj)).imp_left List.mem_toFinset.mpr
  refine ⟨Call.fresh_of (fun q hq hmem => hp q hq (Finmap.mem_keys.mpr hmem))
    (fun j hj hmem => hi j hj (List.mem_toFinset.mpr hmem)), hnodes, hiterators⟩

/-- In every run of calls from `list_create` on, no call is given an object that is in use. -/
theorem fresh_of_served (hnode : 0 < nodeSize) (hiterator : 0 < iteratorSize) {fDel : Bool}
    {calls : List (Call α × Option ℕ)}
    (h : RequestsMeet (Process.step nodeSize iteratorSize) (Served nodeSize iteratorSize)
      ⟨listCreate fDel, [], []⟩ calls) :
    RequestsMeet LinkedList.step (fun l call => call.Fresh l) (listCreate fDel)
      (calls.map Prod.fst) := by
  have hstart : Process.Valid (⟨listCreate fDel, [], []⟩ : Process α) :=
    ⟨⟨List.nodup_nil, by simp⟩, ⟨List.nodup_nil, by simp⟩⟩
  refine requestsMeet_view Process.list (fun s c hs hc => ⟨?_, fun r hr => ?_⟩) hstart h
  · exact (hs.after hnode hiterator hc (.refl s.list _ _)).1
  · exact ⟨_, Option.mem_map_of_mem _ hr, rfl,
      (hs.after hnode hiterator hc (within_step hr)).2⟩

end

end Lmt.Lsd
