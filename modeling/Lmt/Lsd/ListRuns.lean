import Lmt.Library.Runs
import Lmt.Lsd.ListSort

/-!
# Runs of calls on a list

From `list_create` on, whatever functions are called on a list and on its iterators,
and in whatever order, the list does what the sequence does.
-/

namespace Lmt.Lsd

open Chains Runs

section

variable {α : Type} {l : LinkedList α} {s : Sequence α} {ps : List ℕ} {c : Cursor}
variable {k i n : ℕ} {p : Option ℕ} {x : α} {f : α → Bool}

theorem represents_create (fDel : Bool) :
    Represents (listCreate (α := α) fDel) ⟨[], [], fDel⟩ [] where
  holds := holds_nil
  tail := rfl
  count := rfl
  iNext := rfl
  valid c hc := by cases hc
  fDel := rfl

theorem Represents.rounds_eq (hr : Represents l s ps) : l.rounds = ps.length := hr.holds.card_keys

theorem Represents.head_eq (hr : Represents l s ps) : l.heap.head = ps[0]? :=
  Option.some.inj (hr.holds.linked.read_linkAt 0 (Nat.zero_le _))

theorem Represents.deleted_eq (hr : Represents l s ps) (vs : List α) :
    l.deleted vs = s.deleted vs := by
  unfold LinkedList.deleted Sequence.deleted
  rw [hr.fDel]

theorem Represents.exists_create (hr : Represents l s ps) (hp : ∀ q ∈ p, q ∉ l.heap.nodes)
    (hk : k ≤ ps.length) (x : α) :
    ∃ l' ps', listNodeCreate l (linkAt ps k) p x = some ((s.create k p x).1, l') ∧
      Represents l' (s.create k p x).2 ps' := by
  cases p with
  | none => exact ⟨l, ps, rfl, hr⟩
  | some p =>
    obtain ⟨l', hcreate, hr'⟩ := hr.exists_listNodeCreate (hp p rfl) hk x
    exact ⟨l', _, hcreate, hr'⟩

theorem Represents.exists_take (hr : Represents l s ps) (hk : k ≤ ps.length) :
    ∃ l' ps', listNodeDestroy l (linkAt ps k) = some ((s.take k).1, l') ∧
      Represents l' (s.take k).2 ps' := by
  unfold Sequence.take
  rcases hr.holds.cases_at hk with ⟨hp, hend, -⟩ | ⟨p, x, hlt, hp, hx, -⟩
  · rw [List.getElem?_eq_none (hr.holds.length_eq ▸ hend.ge)]
    refine ⟨l, ps, ?_, hr⟩
    unfold listNodeDestroy
    simp [hr.holds.linked.read_linkAt k hk, hp]
  · obtain ⟨l', hdestroy, hr'⟩ := hr.exists_listNodeDestroy hp hx
    rw [hx]
    exact ⟨l', _, hdestroy, hr'⟩

theorem Represents.iterator_eq (hr : Represents l s ps) (i : ℕ) :
    l.iterator i = (s.cursor i).map (Cursor.place ps) := by
  unfold LinkedList.iterator Sequence.cursor
  rw [hr.iNext, List.find?_map, Option.map_map, Option.map_map]
  rfl

theorem Sequence.cursor_mem (hc : s.cursor i = some c) : ∃ e ∈ s.cursors, e.2 = c := by
  unfold Sequence.cursor at hc
  obtain ⟨e, he, rfl⟩ := Option.map_eq_some_iff.mp hc
  exact ⟨e, List.mem_of_find?_eq_some he, rfl⟩

theorem Represents.next_le (hr : Represents l s ps) (hc : s.cursor i = some c) :
    c.next ≤ ps.length := by
  obtain ⟨e, he, rfl⟩ := Sequence.cursor_mem hc
  rw [hr.holds.length_eq]
  exact hr.valid e he

theorem Represents.setIterator (hr : Represents l s ps) (hc : c.next ≤ ps.length) (i : ℕ) :
    Represents (l.setIterator i (c.place ps)) (s.setCursor i c) ps where
  holds := hr.holds
  tail := hr.tail
  count := hr.count
  iNext := by
    unfold LinkedList.setIterator Sequence.setCursor
    simp only [hr.iNext, List.map_map]
    apply List.map_congr_left
    intro e _
    by_cases he : e.1 = i <;> simp [he]
  valid e he := by
    unfold Sequence.setCursor at he
    obtain ⟨d, hd, rfl⟩ := List.mem_map.mp he
    split_ifs
    · exact hr.holds.length_eq ▸ hc
    · exact hr.valid d hd
  fDel := hr.fDel

theorem cursor_setCursor (hc : (s.cursor i).isSome) (c : Cursor) :
    (s.setCursor i c).cursor i = some c := by
  unfold Sequence.cursor Sequence.setCursor at *
  rw [Option.isSome_map] at hc
  obtain ⟨e, he⟩ := Option.isSome_iff_exists.mp hc
  have hcomp : ((fun e => decide (e.1 = i)) ∘ fun e : ℕ × Cursor => if e.1 = i then (i, c) else e) =
      fun e : ℕ × Cursor => decide (e.1 = i) := by
    funext e
    by_cases he : e.1 = i <;> simp [he]
  have hname := List.find?_some he
  rw [List.find?_map, hcomp, he]
  simp [of_decide_eq_true hname]

@[simp] theorem setCursor_setCursor (s : Sequence α) (i : ℕ) (c d : Cursor) :
    (s.setCursor i c).setCursor i d = s.setCursor i d := by
  unfold Sequence.setCursor
  simp only [List.map_map]
  congr 1
  apply List.map_congr_left
  intro e _
  by_cases he : e.1 = i <;> simp [he]

theorem Represents.place_start (hr : Represents l s ps) :
    (⟨l.heap.head, .head⟩ : ListIterator) = Cursor.place ps ⟨0, false⟩ := by
  rw [hr.head_eq]
  rfl

theorem moved_of_lt (hc : c.next < n) : c.moved n = ⟨c.next, true⟩ := by
  unfold Cursor.moved
  simp [hc]

theorem moved_of_ge (hc : n ≤ c.next) : c.moved n = ⟨c.next, false⟩ := by
  unfold Cursor.moved
  simp [hc]

theorem Represents.listNext_eq (hr : Represents l s ps) (hc : s.cursor i = some c) :
    listNext l i = some (s.items[c.next]?,
      l.setIterator i ((c.moved s.items.length).place ps)) := by
  have hnext := hr.next_le hc
  have hindex := c.index_le_next
  have hlen := hr.holds.length_eq
  have hread := hr.holds.linked.read_linkAt c.index (by omega)
  -- both with and without a current item the new place is that of the next item
  have hprev : (if ps[c.index]? = ps[c.next]? then some (linkAt ps c.index)
      else nextLink l.heap (linkAt ps c.index)) = some (linkAt ps c.next) := by
    rcases c.next_eq_or with ⟨-, heq⟩ | ⟨-, heq⟩
    · rw [heq, if_pos rfl]
    · have hne : ¬ps[c.index]? = ps[c.next]? := by
        rw [getElem?_inj_of_le hr.holds.linked.nodup (by omega) hnext]
        omega
      rw [if_neg hne, heq, nextLink_linkAt hr.holds (by omega)]
  have hdata : nextNode l.heap ps[c.next]? = some ps[(c.moved s.items.length).next]? ∧
      nodeData l.heap ps[c.next]? = some s.items[c.next]? := by
    rcases hr.holds.cases_at hnext with ⟨hp, hend, -⟩ | ⟨p, x, hlt, hp, hx, hdata, hread', -⟩
    · have hmoved : (c.moved s.items.length).next = c.next := by
        rw [moved_of_ge (by omega)]
        rfl
      rw [hmoved, hp, List.getElem?_eq_none (hlen ▸ hend.ge)]
      exact ⟨rfl, rfl⟩
    · have hmoved : (c.moved s.items.length).next = c.next + 1 := by
        rw [moved_of_lt (by omega)]
        rfl
      rw [hmoved, hp, hx]
      exact ⟨hread', by simp [nodeData, hdata]⟩
  unfold listNext
  simp only [hr.iterator_eq, hc, Option.map_some, Option.bind_eq_bind, Option.bind_some,
    Cursor.place, hread, hprev, hdata.1, hdata.2]
  rfl

theorem Represents.exists_listNext (hr : Represents l s ps) (hc : s.cursor i = some c) :
    ∃ l', listNext l i = some (s.items[c.next]?, l') ∧
      Represents l' (s.setCursor i (c.moved s.items.length)) ps := by
  refine ⟨_, hr.listNext_eq hc, hr.setIterator ?_ i⟩
  have hnext := hr.next_le hc
  have hlen := hr.holds.length_eq
  by_cases hlt : c.next < s.items.length
  · rw [moved_of_lt hlt]
    show c.next + 1 ≤ ps.length
    omega
  · rw [moved_of_ge (by omega)]
    exact hnext

theorem Represents.exists_findLoop (hr : Represents l s ps) (hc : s.cursor i = some c)
    (hn : ps.length < c.next + n) :
    ∃ l', findLoop f i n l = some ((s.items.drop c.next).find? f, l') ∧
      Represents l' (s.setCursor i (s.found c f)) ps := by
  induction n generalizing l s c with
  | zero => 
    have hnext := hr.next_le hc
    omega
  | succ n ih =>
    obtain ⟨l₁, hnext, hr₁⟩ := hr.exists_listNext hc
    unfold findLoop
    simp only [hnext, Option.bind_eq_bind, Option.bind_some]
    unfold Sequence.found
    rcases hr.holds.cases_at (hr.next_le hc) with
      ⟨-, hend, hdrop⟩ | ⟨p, x, hlt, -, hx, -, -, hdrop⟩
    · rw [hdrop, List.getElem?_eq_none (hr.holds.length_eq ▸ hend.ge)]
      rw [moved_of_ge (hr.holds.length_eq ▸ hend.ge), hend, hr.holds.length_eq] at hr₁
      exact ⟨l₁, rfl, hr₁⟩
    · rw [hdrop, hx]
      rw [moved_of_lt (hr.holds.length_eq ▸ hlt)] at hr₁
      dsimp only
      by_cases hf : f x
      · rw [if_pos hf]
        refine ⟨l₁, by simp [hf], ?_⟩
        simpa [List.findIdx?_cons, hf] using hr₁
      · rw [if_neg hf]
        have hsome : (s.cursor i).isSome := by simp [hc]
        obtain ⟨l', hloop, hr'⟩ := ih hr₁ (cursor_setCursor hsome _) (by
          show ps.length < c.next + 1 + n
          omega)
        rw [setCursor_setCursor] at hr'
        refine ⟨l', ?_, ?_⟩
        · rw [hloop]
          simp [Cursor.next, Sequence.setCursor, hf]
        · have hfound : (s.setCursor i ⟨c.next, true⟩).found ⟨c.next, true⟩ f = s.found c f := by
            unfold Sequence.found
            have hitems : (s.setCursor i ⟨c.next, true⟩).items = s.items := rfl
            have hnext' : Cursor.next ⟨c.next, true⟩ = c.next + 1 := rfl
            rw [hitems, hnext', hdrop, List.findIdx?_cons, if_neg hf]
            cases (s.items.drop (c.next + 1)).findIdx? f with
            | none => rfl
            | some d => simp [Nat.add_assoc, Nat.add_comm 1 d]
          rw [hfound] at hr'
          unfold Sequence.found at hr'
          rwa [hdrop] at hr'

theorem Represents.exists_takeCurrent (hr : Represents l s ps) (hc : s.cursor i = some c) :
    ∃ l' ps', listRemove l i = some ((s.takeCurrent c).1, l') ∧
      Represents l' (s.takeCurrent c).2 ps' := by
  have hnext := hr.next_le hc
  have hindex := c.index_le_next
  have hread := hr.holds.linked.read_linkAt c.index (by omega)
  have hiff : ps[c.index]? = ps[c.next]? ↔ c.index = c.next :=
    getElem?_inj_of_le hr.holds.linked.nodup (by omega) hnext
  unfold listRemove Sequence.takeCurrent
  simp only [hr.iterator_eq, hc, Option.map_some, Option.bind_eq_bind, Option.bind_some,
    Cursor.place, hread, hiff]
  rcases c.next_eq_or with ⟨hcur, heq⟩ | ⟨hcur, heq⟩
  · rw [if_pos heq.symm, hcur]
    exact ⟨l, ps, rfl, hr⟩
  · rw [if_neg (by omega), hcur]
    exact hr.exists_take (by omega)

theorem listSort_of_length_le (f : α → α → ℤ) {xs : List α} (hxs : xs.length ≤ 1) :
    Lmt.listSort f xs = xs := by
  rcases xs with _ | ⟨x, _ | ⟨y, ys⟩⟩
  · rfl
  · rfl
  · simp at hxs

/-- The items are sorted, and the iterators start again where there is more than one item. -/
theorem Represents.exists_listSort (hr : Represents l s ps) (f : α → α → ℤ) :
    ∃ l' ps', listSort l f = some l' ∧ Represents l' { s with
      items := Lmt.listSort f s.items
      cursors := if 1 < s.items.length then s.cursors.map fun c => (c.1, ⟨0, false⟩)
        else s.cursors } ps' := by
  have hlen := hr.holds.length_eq
  have hrounds := hr.rounds_eq
  have hcount : 1 < l.count ↔ 1 < s.items.length := by
    rw [hr.count]
    omega
  unfold listSort
  by_cases hlt : 1 < s.items.length
  · rw [if_pos (hcount.mpr hlt), if_pos hlt]
    obtain ⟨x, rest, hitems⟩ := List.exists_cons_of_length_pos (by omega : 0 < s.items.length)
    have hholds : Holds l.heap ps ([x] ++ rest) := by
      rw [List.singleton_append, ← hitems]
      exact hr.holds
    have hrest : rest.length < l.rounds + 1 := by
      rw [hrounds, hlen, hitems, List.length_cons]
      omega
    obtain ⟨h', ps', hloop, hholds'⟩ := exists_sortLoop (f := f) hholds (by simp) hrest
    have hlink : nextLink l.heap .head = some (linkAt ps 1) :=
      nextLink_linkAt (k := 0) hr.holds (by omega)
    have hhead : h'.head = ps'[0]? :=
      Option.some.inj (hholds'.linked.read_linkAt 0 (Nat.zero_le _))
    have hsorted : rest.foldl (Lmt.listSortInsert f) [x] = Lmt.listSort f s.items := by
      rw [hitems]
      rfl
    rw [hsorted] at hholds'
    simp only [List.length_singleton, Nat.sub_self, linkAt_zero] at hloop
    refine ⟨{ l with
      heap := h'
      tail := linkAt ps' ps'.length
      iNext := l.iNext.map fun i => (i.1, { pos := h'.head, prev := .head }) }, ps', ?_,
      ⟨hholds', rfl, ?_, ?_, ?_, hr.fDel⟩⟩
    · simp [hlink, hloop]
    · simp [hr.count]
    · rw [hr.iNext, hhead, List.map_map, List.map_map]
      rfl
    · intro c hc
      obtain ⟨d, -, rfl⟩ := List.mem_map.mp hc
      exact Nat.zero_le _
  · rw [if_neg (mt hcount.mp hlt), if_neg hlt, listSort_of_length_le f (by omega)]
    exact ⟨l, ps, rfl, hr⟩

theorem Represents.listPeek_eq (hr : Represents l s ps) : listPeek l = some s.items.head? := by
  unfold listPeek
  rw [hr.head_eq, List.head?_eq_getElem?]
  rcases hr.holds.cases_at (Nat.zero_le _) with ⟨hp, hend, -⟩ | ⟨p, x, -, hp, hx, hdata, -⟩
  · have hlen := hr.holds.length_eq
    rw [hp, List.getElem?_eq_none (by omega)]
    rfl
  · rw [hp, hx]
    simp [nodeData, hdata]

theorem Represents.listIsEmpty_iff (hr : Represents l s ps) :
    listIsEmpty l = true ↔ s.items = [] := by
  unfold listIsEmpty
  simp [hr.count]

theorem Represents.listFindFirst_eq (hr : Represents l s ps) (f : α → Bool) :
    listFindFirst l f = some (s.items.find? f) := by
  unfold listFindFirst
  rw [hr.head_eq, hr.rounds_eq, findFirstLoop_eq hr.holds (Nat.zero_le _) (by omega),
    List.drop_zero]

theorem Represents.listForEach_eq (hr : Represents l s ps) (f : α → ℤ) :
    listForEach l f = some (if ∃ x ∈ s.items, f x < 0 then -((passedTo f s.items).length : ℤ)
      else (passedTo f s.items).length, passedTo f s.items) := by
  unfold listForEach
  rw [hr.head_eq, hr.rounds_eq, forEachLoop_eq hr.holds (Nat.zero_le _) (by omega),
    List.drop_zero, zero_add]

theorem Represents.exists_listDeleteAll (hr : Represents l s ps) (f : α → Bool) :
    ∃ l' ps', listDeleteAll l f = some (s.items.filter f, l') ∧
      Represents l' (s.removeFrom f s.items 0) ps' :=
  exists_deleteAllLoop hr (Nat.zero_le _) (by
    have := hr.rounds_eq
    omega)

theorem Represents.exists_listInsert (hr : Represents l s ps) (hc : s.cursor i = some c)
    (hp : ∀ q ∈ p, q ∉ l.heap.nodes) (x : α) :
    ∃ l' ps', listInsert l i p x = some ((s.create c.index p x).1, l') ∧
      Represents l' (s.create c.index p x).2 ps' := by
  have hnext := hr.next_le hc
  have hindex := c.index_le_next
  have hinsert : listInsert l i p x = listNodeCreate l (linkAt ps c.index) p x := by
    unfold listInsert
    simp [hr.iterator_eq, hc, Cursor.place]
  rw [hinsert]
  exact hr.exists_create hp (by omega) x

theorem Represents.exists_listDelete (hr : Represents l s ps) (hc : s.cursor i = some c) :
    ∃ l' ps', listDelete l i = some ((if (s.takeCurrent c).1.isSome then 1 else 0,
        s.deleted (s.takeCurrent c).1.toList), l') ∧
      Represents l' (s.takeCurrent c).2 ps' := by
  obtain ⟨l', ps', hremove, hr'⟩ := hr.exists_takeCurrent hc
  refine ⟨l', ps', ?_, hr'⟩
  have hfDel : l'.fDel = s.fDel := by
    rw [hr'.fDel]
    unfold Sequence.takeCurrent Sequence.take
    split_ifs
    · cases s.items[c.index]? <;> rfl
    · rfl
  unfold listDelete
  simp only [hremove, Option.bind_eq_bind, Option.bind_some]
  cases (s.takeCurrent c).1 with
  | none =>
    unfold Sequence.deleted
    simp
  | some v =>
    unfold LinkedList.deleted Sequence.deleted
    simp [hfDel]

theorem Represents.listIteratorCreate (hr : Represents l s ps) (i : Option ℕ) :
    (listIteratorCreate l i).1 = i ∧ Represents (listIteratorCreate l i).2
      { s with cursors := (i.toList.map fun i => (i, ⟨0, false⟩)) ++ s.cursors } ps := by
  cases i with
  | none => exact ⟨rfl, hr⟩
  | some i =>
    refine ⟨rfl, hr.holds, hr.tail, hr.count, ?_, ?_, hr.fDel⟩
    · unfold Lsd.listIteratorCreate
      dsimp only
      rw [hr.place_start, hr.iNext]
      rfl
    · intro c hc
      rcases List.mem_cons.mp hc with rfl | hc
      · exact Nat.zero_le _
      · exact hr.valid c hc

theorem Represents.exists_listIteratorReset (hr : Represents l s ps) (hc : s.cursor i = some c) :
    ∃ l', listIteratorReset l i = some l' ∧ Represents l' (s.setCursor i ⟨0, false⟩) ps := by
  refine ⟨_, ?_, hr.setIterator (c := ⟨0, false⟩) (Nat.zero_le _) i⟩
  unfold listIteratorReset
  rw [hr.iterator_eq, hc, hr.place_start]
  rfl

theorem Represents.exists_listIteratorDestroy (hr : Represents l s ps)
    (hc : s.cursor i = some c) :
    ∃ l', listIteratorDestroy l i = some l' ∧
      Represents l' { s with cursors := s.cursors.eraseP fun e => e.1 = i } ps := by
  refine ⟨{ l with iNext := l.iNext.eraseP fun e => e.1 = i }, ?_,
    hr.holds, hr.tail, hr.count, ?_, ?_, hr.fDel⟩
  · unfold listIteratorDestroy
    rw [hr.iterator_eq, hc]
    rfl
  · dsimp only
    rw [hr.iNext, List.eraseP_map]
    rfl
  · intro c hc
    exact hr.valid c (List.mem_of_mem_eraseP hc)

theorem exists_dataReply {v : Option α} {t : Sequence α}
    {r : Option (Option α × LinkedList α)}
    (h : ∃ l' ps', r = some (v, l') ∧ Represents l' t ps') :
    ∃ l', r.map dataReply = some (.data v, l') ∧ ∃ ps', Represents l' t ps' := by
  obtain ⟨l', ps', rfl, hr'⟩ := h
  exact ⟨l', rfl, ps', hr'⟩

theorem exists_step (hr : Represents l s ps) {call : Call α} (hfresh : call.Fresh l)
    {r : Reply α × Sequence α} (hstep : s.step call = some r) :
    ∃ l', l.step call = some (r.1, l') ∧ ∃ ps', Represents l' r.2 ps' := by
  have hlen := hr.holds.length_eq
  have happend : ∀ {p : Option ℕ} {x : α}, (∀ q ∈ p, q ∉ l.heap.nodes) → ∃ l' ps',
      listNodeCreate l l.tail p x = some ((s.create s.items.length p x).1, l') ∧
        Represents l' (s.create s.items.length p x).2 ps' := by
    intro p x hp
    rw [hr.tail, ← hlen]
    exact hr.exists_create hp le_rfl x
  cases call with
  | append p x | enqueue p x =>
    cases hstep
    exact exists_dataReply (happend hfresh)
  | prepend p x | push p x =>
    cases hstep
    exact exists_dataReply (hr.exists_create hfresh (Nat.zero_le _) x)
  | pop | dequeue =>
    cases hstep
    exact exists_dataReply (hr.exists_take (Nat.zero_le _))
  | peek =>
    cases hstep
    exact ⟨l, by simp [LinkedList.step, hr.listPeek_eq], ps, hr⟩
  | isEmpty =>
    cases hstep
    exact ⟨l, by simp [LinkedList.step, hr.listIsEmpty_iff], ps, hr⟩
  | count =>
    cases hstep
    exact ⟨l, by simp [LinkedList.step, listCount, hr.count], ps, hr⟩
  | findFirst f =>
    cases hstep
    exact ⟨l, by simp [LinkedList.step, hr.listFindFirst_eq], ps, hr⟩
  | deleteAll f =>
    cases hstep
    obtain ⟨l', ps', hdelete, hr'⟩ := hr.exists_listDeleteAll f
    refine ⟨l', ?_, ps', hr'⟩
    simp [LinkedList.step, hdelete, hr.deleted_eq, List.countP_eq_length_filter]
  | forEach f =>
    cases hstep
    exact ⟨l, by simp only [LinkedList.step, hr.listForEach_eq, Option.map_some], ps, hr⟩
  | sort f =>
    cases hstep
    obtain ⟨l', ps', hsort, hr'⟩ := hr.exists_listSort f
    exact ⟨l', by simp [LinkedList.step, hsort], ps', hr'⟩
  | iteratorCreate i =>
    cases hstep
    obtain ⟨hi, hr'⟩ := hr.listIteratorCreate i
    exact ⟨_, by simp only [LinkedList.step, Prod.map, hi, id], ps, hr'⟩
  | iteratorReset i =>
    obtain ⟨c, hc, rfl⟩ := Option.map_eq_some_iff.mp hstep
    obtain ⟨l', hreset, hr'⟩ := hr.exists_listIteratorReset hc
    exact ⟨l', by simp [LinkedList.step, hreset], ps, hr'⟩
  | iteratorDestroy i =>
    obtain ⟨c, hc, rfl⟩ := Option.map_eq_some_iff.mp hstep
    obtain ⟨l', hdestroy, hr'⟩ := hr.exists_listIteratorDestroy hc
    exact ⟨l', by simp [LinkedList.step, hdestroy], ps, hr'⟩
  | next i =>
    obtain ⟨c, hc, rfl⟩ := Option.map_eq_some_iff.mp hstep
    obtain ⟨l', hnext, hr'⟩ := hr.exists_listNext hc
    exact exists_dataReply ⟨l', ps, hnext, hr'⟩
  | insert i p x =>
    obtain ⟨c, hc, rfl⟩ := Option.map_eq_some_iff.mp hstep
    exact exists_dataReply (hr.exists_listInsert hc hfresh x)
  | find i f =>
    obtain ⟨c, hc, rfl⟩ := Option.map_eq_some_iff.mp hstep
    have hrounds := hr.rounds_eq
    obtain ⟨l', hfind, hr'⟩ := hr.exists_findLoop (f := f) (n := l.rounds + 1) hc (by omega)
    exact exists_dataReply ⟨l', ps, hfind, hr'⟩
  | remove i =>
    obtain ⟨c, hc, rfl⟩ := Option.map_eq_some_iff.mp hstep
    exact exists_dataReply (hr.exists_takeCurrent hc)
  | delete i =>
    obtain ⟨c, hc, rfl⟩ := Option.map_eq_some_iff.mp hstep
    obtain ⟨l', ps', hdelete, hr'⟩ := hr.exists_listDelete hc
    exact ⟨l', by simp [LinkedList.step, hdelete], ps', hr'⟩

/-- Every run of calls on a list is one on the sequence, as long as the allocator gives no address
that is in use and no iterator is used that is not open. -/
theorem calls_refine_sequence {fDel : Bool} {calls : List (Call α)}
    (hfresh : RequestsMeet LinkedList.step (fun l call => call.Fresh l) (listCreate fDel) calls)
    {rs : List (Reply α) × Sequence α}
    (hrs : replies Sequence.step ⟨[], [], fDel⟩ calls = some rs) :
    ∃ l ps, replies LinkedList.step (listCreate fDel) calls = some (rs.1, l) ∧
      Represents l rs.2 ps := by
  have hstep : ∀ (l : LinkedList α) (s : Sequence α) (call : Call α) (r : Reply α × Sequence α),
      (∃ ps, Represents l s ps) → call.Fresh l → s.step call = some r →
        ∃ l', l.step call = some (r.1, l') ∧ ∃ ps', Represents l' r.2 ps' :=
    fun _ _ _ _ ⟨_, hr⟩ hcall hstep => exists_step hr hcall hstep
  obtain ⟨l, hreplies, ps, hr⟩ :=
    exists_replies_of_simulates hstep ⟨[], represents_create fDel⟩ hfresh hrs
  exact ⟨l, ps, hreplies, hr⟩

end

theorem calls_refine_sequence_two : ∃ l ps,
    replies LinkedList.step (listCreate true)
        [.append (some 1) 5, .append (some 2) 7, .iteratorCreate (some 0), .next 0, .remove 0] =
      some ([.data (some 5), .data (some 7), .iterator (some 0), .data (some 5), .data (some 5)],
        l) ∧
    Represents l ⟨[7], [(0, ⟨0, false⟩)], true⟩ ps := by
  have hspec : replies Sequence.step ⟨[], [], true⟩
      [.append (some 1) 5, .append (some 2) 7, .iteratorCreate (some 0), .next 0, .remove 0] =
      some ([.data (some 5), .data (some 7), .iterator (some 0), .data (some 5), .data (some 5)],
        ⟨[7], [(0, ⟨0, false⟩)], true⟩) := rfl
  have hfresh : RequestsMeet LinkedList.step (fun l call => call.Fresh l) (listCreate true)
      [.append (some 1) 5, .append (some 2) 7, .iteratorCreate (some 0), .next 0, .remove 0] := by
    refine ⟨?_, fun r hr => ?_⟩
    · rintro j ⟨⟩
      decide
    cases hr
    refine ⟨?_, fun r hr => ?_⟩
    · rintro j ⟨⟩
      decide
    cases hr
    refine ⟨?_, fun r hr => ⟨trivial, fun r hr => ⟨trivial, fun r hr => trivial⟩⟩⟩
    rintro j ⟨⟩
    decide
  exact calls_refine_sequence hfresh hspec

end Lmt.Lsd
