import Mathlib.Algebra.BigOperators.Group.Multiset.Basic
import Lmt.Lsd.ListRuns

/-!
# What becomes of the items of a list

An item that is put into a list comes out of it once: a call returns it, or a call or
`list_destroy` passes it to the function to delete data.
-/

namespace Lmt.Lsd

open Chains Runs

section

variable {α : Type} {s : Sequence α} {c : Cursor} {k i : ℕ} {p : Option ℕ} {x : α}
variable {f : α → Bool}

/-- The item that a call puts into the list, unless there is no memory for its node. -/
def Call.put : Call α → Reply α → Multiset α
  | .append _ _, .data v | .prepend _ _, .data v | .push _ _, .data v | .enqueue _ _, .data v
  | .insert _ _ _, .data v => v.toList
  | _, _ => 0

/-- The items that a call takes out of the list and returns or deletes. -/
def Call.taken : Call α → Reply α → Multiset α
  | .pop, .data v | .dequeue, .data v | .remove _, .data v => v.toList
  | .deleteAll _, .number _ vs | .delete _, .number _ vs => vs
  | _, _ => 0

/-- No cursor is behind the end, and there is a function to delete data. -/
structure Sequence.Owning (s : Sequence α) : Prop where
  valid : s.Valid
  fDel : s.fDel = true

theorem Sequence.Owning.create (hs : s.Owning) (hk : k ≤ s.items.length) (p : Option ℕ) (x : α) :
    (s.create k p x).2.Owning ∧
      (s.items : Multiset α) + ((s.create k p x).1.toList : Multiset α) =
        (s.create k p x).2.items := by
  unfold Sequence.create
  split_ifs
  · refine ⟨⟨hs.valid.insertAt hk, hs.fDel⟩, ?_⟩
    have hperm := List.perm_insertIdx x s.items hk
    rw [add_comm]
    exact (Multiset.coe_eq_coe.mpr hperm).symm
  · exact ⟨hs, by simp⟩

theorem Sequence.Owning.removeAt (hs : s.Owning) (hx : s.items[k]? = some x) :
    (s.removeAt k).Owning ∧ (s.items : Multiset α) = (s.removeAt k).items + {x} := by
  obtain ⟨hk, rfl⟩ := List.getElem?_eq_some_iff.mp hx
  refine ⟨⟨hs.valid.removeAt hk, hs.fDel⟩, ?_⟩
  have hperm := List.getElem_cons_eraseIdx_perm hk
  rw [add_comm]
  exact (Multiset.coe_eq_coe.mpr hperm).symm

theorem Sequence.Owning.take (hs : s.Owning) (k : ℕ) :
    (s.take k).2.Owning ∧ (s.items : Multiset α) =
      (s.take k).2.items + ((s.take k).1.toList : Multiset α) := by
  unfold Sequence.take
  cases hx : s.items[k]? with
  | none => exact ⟨hs, by simp⟩
  | some x => exact hs.removeAt hx

/-- The loop removes what matches from an index on. -/
theorem Sequence.Owning.removeFrom (hs : s.Owning) :
    (s.removeFrom f (s.items.drop k) k).Owning ∧ (s.items : Multiset α) =
      (s.removeFrom f (s.items.drop k) k).items + ((s.items.drop k).filter f : List α) := by
  induction hxs : s.items.drop k generalizing s k with
  | nil => exact ⟨hs, by simp [Sequence.removeFrom]⟩
  | cons x xs ih =>
    have hx : s.items[k]? = some x := by
      rw [← List.head?_drop, hxs]
      rfl
    have hdrop : s.items.drop (k + 1) = xs := by
      simpa using congrArg List.tail hxs
    unfold Sequence.removeFrom
    by_cases hf : f x
    · obtain ⟨hs₁, hitems⟩ := hs.removeAt hx
      obtain ⟨hs', hrest⟩ := ih hs₁ (by rw [drop_removeAt, hdrop])
      rw [if_pos hf]
      refine ⟨hs', ?_⟩
      rw [hitems, hrest, List.filter_cons_of_pos hf, add_assoc, ← Multiset.cons_coe,
        ← Multiset.singleton_add, add_comm ({x} : Multiset α)]
    · rw [if_neg hf, List.filter_cons_of_neg hf]
      exact ih hs hdrop

theorem Sequence.Owning.setCursor (hs : s.Owning) (hc : c.next ≤ s.items.length) (i : ℕ) :
    (s.setCursor i c).Owning := by
  refine ⟨fun e he => ?_, hs.fDel⟩
  unfold Sequence.setCursor at he
  obtain ⟨d, hd, rfl⟩ := List.mem_map.mp he
  split_ifs
  · exact hc
  · exact hs.valid d hd

theorem Sequence.Valid.next_le (hs : s.Valid) (hc : s.cursor i = some c) :
    c.next ≤ s.items.length := by
  obtain ⟨e, he, rfl⟩ := Sequence.cursor_mem hc
  exact hs e he

theorem moved_next_le (hc : c.next ≤ k) : (c.moved k).next ≤ k := by
  rcases hc.lt_or_eq with hlt | heq
  · rw [moved_of_lt hlt]
    exact hlt
  · rw [moved_of_ge heq.ge]
    exact hc

theorem found_next_le (s : Sequence α) (c : Cursor) (f : α → Bool) :
    (s.found c f).next ≤ s.items.length := by
  unfold Sequence.found
  cases h : (s.items.drop c.next).findIdx? f with
  | none => exact le_rfl
  | some d =>
    obtain ⟨hd, -⟩ := List.findIdx?_eq_some_iff_getElem.mp h
    rw [List.length_drop] at hd
    show c.next + d + 1 ≤ s.items.length
    omega

theorem Sequence.Owning.takeCurrent (hs : s.Owning) (c : Cursor) :
    (s.takeCurrent c).2.Owning ∧ (s.items : Multiset α) =
      (s.takeCurrent c).2.items + ((s.takeCurrent c).1.toList : Multiset α) := by
  unfold Sequence.takeCurrent
  split_ifs
  · exact hs.take c.index
  · exact ⟨hs, by simp⟩

/-- One call: what was in the list and what the call puts in is what is in the list
afterwards and what the call takes out. -/
theorem items_step {call : Call α} {r : Reply α} {s' : Sequence α} (hs : s.Owning)
    (hstep : s.step call = some (r, s')) :
    s'.Owning ∧ (s.items : Multiset α) + call.put r = s'.items + call.taken r := by
  have hdeleted : ∀ vs, s.deleted vs = vs := fun vs => if_pos hs.fDel
  cases call with
  | append p x | enqueue p x =>
    cases hstep
    have hcreate := hs.create le_rfl p x
    exact ⟨hcreate.1, hcreate.2.trans (add_zero _).symm⟩
  | prepend p x | push p x =>
    cases hstep
    have hcreate := hs.create (Nat.zero_le _) p x
    exact ⟨hcreate.1, hcreate.2.trans (add_zero _).symm⟩
  | pop | dequeue =>
    cases hstep
    have htake := hs.take 0
    exact ⟨htake.1, (add_zero _).trans htake.2⟩
  | peek | isEmpty | count | findFirst f | forEach f =>
    cases hstep
    exact ⟨hs, rfl⟩
  | deleteAll f =>
    cases hstep
    have hremove := Sequence.Owning.removeFrom (f := f) (k := 0) hs
    rw [List.drop_zero] at hremove
    refine ⟨hremove.1, (add_zero _).trans (hremove.2.trans ?_)⟩
    rw [hdeleted]
    rfl
  | sort f =>
    cases hstep
    refine ⟨⟨?_, hs.fDel⟩, ?_⟩
    · intro c hc
      dsimp only at hc ⊢
      rw [length_listSort]
      split_ifs at hc
      · obtain ⟨d, -, rfl⟩ := List.mem_map.mp hc
        exact Nat.zero_le _
      · exact hs.valid c hc
    · have hperm := perm_listSort f s.items
      exact congrArg (· + 0) (Multiset.coe_eq_coe.mpr hperm).symm
  | iteratorCreate i =>
    cases hstep
    refine ⟨⟨fun c hc => ?_, hs.fDel⟩, rfl⟩
    rcases List.mem_append.mp hc with hc | hc
    · obtain ⟨j, -, rfl⟩ := List.mem_map.mp hc
      exact Nat.zero_le _
    · exact hs.valid c hc
  | iteratorReset i =>
    obtain ⟨c, -, heq⟩ := Option.map_eq_some_iff.mp hstep
    cases heq
    exact ⟨hs.setCursor (Nat.zero_le _) i, rfl⟩
  | iteratorDestroy i =>
    obtain ⟨c, -, heq⟩ := Option.map_eq_some_iff.mp hstep
    cases heq
    exact ⟨⟨fun c hc => hs.valid c (List.mem_of_mem_eraseP hc), hs.fDel⟩, rfl⟩
  | next i =>
    obtain ⟨c, hc, heq⟩ := Option.map_eq_some_iff.mp hstep
    cases heq
    exact ⟨hs.setCursor (moved_next_le (hs.valid.next_le hc)) i, rfl⟩
  | insert i p x =>
    obtain ⟨c, hc, heq⟩ := Option.map_eq_some_iff.mp hstep
    cases heq
    have hcreate := hs.create (c.index_le_next.trans (hs.valid.next_le hc)) p x
    exact ⟨hcreate.1, hcreate.2.trans (add_zero _).symm⟩
  | find i f =>
    obtain ⟨c, -, heq⟩ := Option.map_eq_some_iff.mp hstep
    cases heq
    exact ⟨hs.setCursor (found_next_le s c f) i, rfl⟩
  | remove i =>
    obtain ⟨c, -, heq⟩ := Option.map_eq_some_iff.mp hstep
    cases heq
    have htake := hs.takeCurrent c
    exact ⟨htake.1, (add_zero _).trans htake.2⟩
  | delete i =>
    obtain ⟨c, -, heq⟩ := Option.map_eq_some_iff.mp hstep
    cases heq
    have htake := hs.takeCurrent c
    refine ⟨htake.1, (add_zero _).trans (htake.2.trans ?_)⟩
    rw [hdeleted]
    rfl

/-- `list_destroy` gives every node back and passes the items to the function to delete data. -/
theorem exists_listDestroy {l : LinkedList α} {ps : List ℕ} (hr : Represents l s ps) :
    ∃ h, listDestroy l = some (s.deleted s.items, h) ∧ ∀ p, p ∉ h.nodes := by
  have hlen := hr.rounds_eq
  obtain ⟨h, hloop, hempty⟩ := exists_destroyLoop (k := 0) (n := l.rounds) hr.holds
    (Nat.zero_le _) (by omega) (fun p => by rw [List.drop_zero, hr.holds.mem])
    (fun p _ => ⟨rfl, rfl⟩)
  rw [← hr.head_eq, List.drop_zero] at hloop
  refine ⟨h, ?_, hempty⟩
  unfold listDestroy
  simp [hloop, hr.deleted_eq]

/-- From `list_create` to `list_destroy` every item that is put into the list is returned or
deleted once, and every node is given back. -/
theorem items_come_out_once {calls : List (Call α)}
    (hfresh : RequestsMeet LinkedList.step (fun l call => call.Fresh l) (listCreate true) calls)
    {rs : List (Reply α) × Sequence α}
    (hrs : replies Sequence.step ⟨[], [], true⟩ calls = some rs) :
    ∃ l vs h, replies LinkedList.step (listCreate true) calls = some (rs.1, l) ∧
      listDestroy l = some (vs, h) ∧ (∀ p, p ∉ h.nodes) ∧
      ((calls.zip rs.1).map fun e => e.1.put e.2).sum =
        (vs : Multiset α) + ((calls.zip rs.1).map fun e => e.1.taken e.2).sum := by
  have howning : Sequence.Owning (⟨[], [], true⟩ : Sequence α) := ⟨by rintro c ⟨⟩, rfl⟩
  obtain ⟨hs, hbalance⟩ := balance_of_replies (fun s : Sequence α => (s.items : Multiset α))
    Call.put Call.taken (fun s call r s' => items_step) howning hrs
  have hstep : ∀ (l : LinkedList α) (s : Sequence α) (call : Call α) (r : Reply α × Sequence α),
      (∃ ps, Represents l s ps) → call.Fresh l → s.step call = some r →
        ∃ l', l.step call = some (r.1, l') ∧ ∃ ps', Represents l' r.2 ps' :=
    fun _ _ _ _ ⟨_, hr⟩ hcall hstep => exists_step hr hcall hstep
  obtain ⟨l, hreplies, ps, hr⟩ :=
    exists_replies_of_simulates hstep ⟨[], represents_create true⟩ hfresh hrs
  obtain ⟨h, hdestroy, hempty⟩ := exists_listDestroy hr
  refine ⟨l, _, h, hreplies, hdestroy, hempty, ?_⟩
  have hdeleted : rs.2.deleted rs.2.items = rs.2.items := if_pos hs.fDel
  rw [hdeleted, ← hbalance]
  exact (zero_add _).symm

end

theorem items_come_out_once_two : ∃ l vs h,
    replies LinkedList.step (listCreate true) [.append (some 1) 5, .append (some 2) 7, .pop] =
      some ([.data (some 5), .data (some 7), .data (some 5)], l) ∧
    listDestroy l = some (vs, h) ∧ (∀ p, p ∉ h.nodes) ∧
      ({5, 7} : Multiset ℕ) = (vs : Multiset ℕ) + ({5} : Multiset ℕ) := by
  have hspec : replies Sequence.step ⟨[], [], true⟩
      [.append (some 1) 5, .append (some 2) 7, .pop] =
      some ([.data (some 5), .data (some 7), .data (some 5)], ⟨[7], [], true⟩) := rfl
  have hfresh : RequestsMeet LinkedList.step (fun l call => call.Fresh l) (listCreate true)
      [.append (some 1) 5, .append (some 2) 7, .pop] := by
    refine ⟨?_, fun r hr => ?_⟩
    · rintro j ⟨⟩
      decide
    cases hr
    refine ⟨?_, fun r hr => ⟨trivial, fun r hr => trivial⟩⟩
    rintro j ⟨⟩
    decide
  exact items_come_out_once hfresh hspec

end Lmt.Lsd
