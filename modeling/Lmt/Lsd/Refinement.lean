import Lmt.Lsd.Cursors

/-!
# Lists refine sequences with cursors

A list represents a sequence when its chain holds the items, and every iterator is
where the cursor of its address is. Every call on the list then does what the
call on the sequence does: it follows no pointer to a node that was given back, its
assertions hold, and it returns the same.
-/

namespace Lmt.Lsd

open Chains

def Cursor.place (ps : List ℕ) (c : Cursor) : ListIterator := ⟨ps[c.next]?, linkAt ps c.index⟩

structure Represents {α : Type} (l : LinkedList α) (s : Sequence α) (ps : List ℕ) : Prop where
  holds : Holds l.heap ps s.items
  tail : l.tail = linkAt ps ps.length
  count : l.count = s.items.length
  iNext : l.iNext = s.cursors.map fun c => (c.1, c.2.place ps)
  valid : s.Valid
  fDel : l.fDel = s.fDel

section

variable {α : Type} {l : LinkedList α} {s : Sequence α} {h : Heap α} {ps : List ℕ} {c : Cursor}
variable {k p i : ℕ} {x : α}

theorem Cursor.index_le_next (c : Cursor) : c.index ≤ c.next := Nat.le_add_right _ _

theorem Cursor.next_le_succ (c : Cursor) : c.next ≤ c.index + 1 := by
  have := Bool.toNat_le c.current
  unfold Cursor.next
  omega

theorem Cursor.next_eq_or (c : Cursor) :
    c.current = false ∧ c.next = c.index ∨ c.current = true ∧ c.next = c.index + 1 := by
  unfold Cursor.next
  cases c.current <;> simp

theorem placed_place (hl : Linked h.read ps) (hc : c.next ≤ ps.length) :
    (c.place ps).placed h = true := by
  have hle := c.index_le_next
  have hread := hl.read_linkAt c.index (by omega)
  unfold ListIterator.placed Cursor.place
  dsimp only
  rw [hread]
  rcases c.next_eq_or with ⟨-, heq⟩ | ⟨-, heq⟩
  · simp [heq]
  · have hget : ps[c.index]? = some ps[c.index] := List.getElem?_eq_getElem (by omega)
    simp [heq, hget, hl.read_next hget]

theorem inserted_of_le (hk : k ≤ c.index) : c.inserted k = ⟨c.index + 1, c.current⟩ := by
  unfold Cursor.inserted
  rw [if_pos hk]

theorem inserted_of_lt (hk : c.index < k) : c.inserted k = c := by
  unfold Cursor.inserted
  rw [if_neg (by omega)]

theorem place_inserted (hps : ps.Nodup) (hk : k ≤ ps.length) (hc : c.next ≤ ps.length) :
    (c.place ps).created (linkAt ps k) ps[k]? p = (c.inserted k).place (ps.insertIdx k p) := by
  have hle := c.index_le_next
  have hsucc := c.next_le_succ
  have hinj : linkAt ps c.index = linkAt ps k ↔ c.index = k :=
    ⟨linkAt_inj hps (by omega) hk, fun heq => heq ▸ rfl⟩
  unfold ListIterator.created Cursor.place
  simp only [hinj, getElem?_inj_of_le hps hc hk]
  rcases lt_or_ge c.index k with hlt | hge
  · rw [if_neg hlt.ne, inserted_of_lt hlt, linkAt_insertIdx_of_le hlt.le]
    by_cases hnext : c.next = k
    · rw [if_pos hnext, hnext, List.getElem?_insertIdx_self, if_pos hk]
    · rw [if_neg hnext, List.getElem?_insertIdx_of_lt (by omega)]
  · -- the cursor moves on by one, whether the new node is at its place or before it
    have hnext : Cursor.next ⟨c.index + 1, c.current⟩ = c.next + 1 := by
      unfold Cursor.next
      dsimp only
      omega
    rw [inserted_of_le hge, hnext, List.getElem?_insertIdx_of_gt (by omega), Nat.add_sub_cancel]
    by_cases heq : c.index = k
    · rw [if_pos heq, heq, linkAt_insertIdx_self hk]
    · rw [if_neg heq, if_neg (by omega), linkAt_insertIdx_of_gt (by omega)]

theorem place_removed (hps : ps.Nodup) (hp : ps[k]? = some p) (hc : c.next ≤ ps.length) :
    (c.place ps).destroyed (linkAt ps k) ps[k + 1]? p = (c.removed k).place (ps.eraseIdx k) := by
  obtain ⟨hk, -⟩ := List.getElem?_eq_some_iff.mp hp
  have hle := c.index_le_next
  have hsucc := c.next_le_succ
  have hpos : ps[c.next]? = some p ↔ c.next = k := by
    rw [← hp, getElem?_inj_of_le hps hc hk.le]
  have hprev : linkAt ps c.index = .next p ↔ c.index = k + 1 := by
    rw [← linkAt_succ hp]
    exact ⟨linkAt_inj hps (by omega) hk, fun heq => heq ▸ rfl⟩
  unfold ListIterator.destroyed Cursor.removed Cursor.place
  simp only [hpos, hprev]
  by_cases hlt : k < c.index
  · have hnext : Cursor.next ⟨c.index - 1, c.current⟩ = c.next - 1 := by
      unfold Cursor.next
      dsimp only
      omega
    have hget : (ps.eraseIdx k)[c.next - 1]? = ps[c.next]? := by
      rw [List.getElem?_eraseIdx_of_ge (by omega), Nat.sub_add_cancel (by omega)]
    rw [if_neg (by omega), if_pos hlt, hnext, hget]
    dsimp only
    by_cases heq : c.index = k + 1
    · rw [if_pos heq, heq, Nat.add_sub_cancel, linkAt_eraseIdx_of_le le_rfl]
    · rw [if_neg heq, linkAt_eraseIdx_of_gt (by omega), Nat.sub_add_cancel (by omega)]
  · rw [if_neg hlt, if_neg (show ¬c.index = k + 1 by omega)]
    by_cases hnext : k ≤ c.next
    · have hnext' : Cursor.next ⟨k, false⟩ = k := rfl
      rw [if_pos hnext, hnext', List.getElem?_eraseIdx_of_ge le_rfl]
      dsimp only
      rw [linkAt_eraseIdx_of_le le_rfl]
      by_cases heq : c.next = k
      · rw [if_pos heq]
      · rw [if_neg heq, show c.next = k + 1 by omega, show c.index = k by omega]
    · rw [if_neg hnext, if_neg (by omega), List.getElem?_eraseIdx_of_lt (by omega),
        linkAt_eraseIdx_of_le (by omega)]

theorem Sequence.Valid.insertAt (hs : s.Valid) (hk : k ≤ s.items.length) :
    (s.insertAt k x).Valid := by
  intro c hc
  obtain ⟨d, hd, rfl⟩ := List.mem_map.mp hc
  have hvalid := hs d hd
  have hlen : (s.insertAt k x).items.length = s.items.length + 1 :=
    List.length_insertIdx_of_le_length hk _
  rw [hlen]
  dsimp only
  unfold Cursor.inserted
  split_ifs <;> simp only [Cursor.next] at hvalid ⊢ <;> omega

theorem Sequence.Valid.removeAt (hs : s.Valid) (hk : k < s.items.length) :
    (s.removeAt k).Valid := by
  intro c hc
  obtain ⟨d, hd, rfl⟩ := List.mem_map.mp hc
  have hvalid := hs d hd
  have hlen : (s.removeAt k).items.length = s.items.length - 1 := List.length_eraseIdx_of_lt hk
  rw [hlen]
  dsimp only
  unfold Cursor.removed
  split_ifs <;> simp only [Cursor.next, Bool.toNat_false] at * <;> omega

theorem Represents.exists_listNodeCreate (hr : Represents l s ps) (hp : p ∉ l.heap.nodes)
    (hk : k ≤ ps.length) (x : α) :
    ∃ l', listNodeCreate l (linkAt ps k) (some p) x = some (some x, l') ∧
      Represents l' (s.insertAt k x) (ps.insertIdx k p) := by
  obtain ⟨h', hwrite, hholds⟩ := hr.holds.exists_insert hp hk x
  have hlen := hr.holds.length_eq
  have hplace : (l.iNext.map fun i => (i.1, i.2.created (linkAt ps k) ps[k]? p)) =
      (s.insertAt k x).cursors.map fun c => (c.1, c.2.place (ps.insertIdx k p)) := by
    unfold Sequence.insertAt
    rw [hr.iNext, List.map_map, List.map_map]
    apply List.map_congr_left
    intro c hc
    simp only [Function.comp_apply,
      place_inserted (p := p) hr.holds.linked.nodup hk (hlen ▸ hr.valid c hc)]
  have hvalid : (s.insertAt k x).Valid := hr.valid.insertAt (hlen ▸ hk)
  have hplaced : ((s.insertAt k x).cursors.map
      fun c => (c.1, c.2.place (ps.insertIdx k p))).all (fun i => i.2.placed h') = true := by
    simp only [List.all_map, List.all_eq_true, Function.comp_apply]
    intro c hc
    exact placed_place hholds.linked (hholds.length_eq ▸ hvalid c hc)
  refine ⟨{ l with
    heap := h'
    iNext := (s.insertAt k x).cursors.map fun c => (c.1, c.2.place (ps.insertIdx k p))
    tail := if ps[k]? = none then .next p else l.tail
    count := l.count + 1 }, ?_, ⟨hholds, ?_, ?_, rfl, hvalid, hr.fDel⟩⟩
  · unfold listNodeCreate
    simp only [hr.holds.linked.read_linkAt k hk, hwrite, hplace, hplaced, Option.bind_eq_bind,
      Option.bind_some, if_true]
  · dsimp only
    rw [List.length_insertIdx_of_le_length hk, hr.tail]
    split_ifs with hend
    · rw [List.getElem?_eq_none_iff] at hend
      rw [show ps.length = k by omega, linkAt_insertIdx_self hk]
    · rw [List.getElem?_eq_none_iff] at hend
      rw [linkAt_insertIdx_of_gt (by omega)]
  · have hlen' : (s.insertAt k x).items.length = s.items.length + 1 :=
      List.length_insertIdx_of_le_length (hlen ▸ hk) _
    dsimp only
    rw [hlen', hr.count]
    push_cast
    rfl

theorem Represents.exists_listNodeDestroy (hr : Represents l s ps) (hp : ps[k]? = some p)
    (hx : s.items[k]? = some x) :
    ∃ l', listNodeDestroy l (linkAt ps k) = some (some x, l') ∧
      Represents l' (s.removeAt k) (ps.eraseIdx k) := by
  obtain ⟨hk, -⟩ := List.getElem?_eq_some_iff.mp hp
  obtain ⟨h', hwrite, hlinked, hholds⟩ := hr.holds.exists_erase hp
  have hlen := hr.holds.length_eq
  have hplace : (l.iNext.map fun i => (i.1, i.2.destroyed (linkAt ps k) ps[k + 1]? p)) =
      (s.removeAt k).cursors.map fun c => (c.1, c.2.place (ps.eraseIdx k)) := by
    unfold Sequence.removeAt
    rw [hr.iNext, List.map_map, List.map_map]
    apply List.map_congr_left
    intro c hc
    simp only [Function.comp_apply,
      place_removed hr.holds.linked.nodup hp (hlen ▸ hr.valid c hc)]
  have hvalid : (s.removeAt k).Valid := hr.valid.removeAt (hlen ▸ hk)
  have hplaced : ((s.removeAt k).cursors.map
      fun c => (c.1, c.2.place (ps.eraseIdx k))).all (fun i => i.2.placed h') = true := by
    simp only [List.all_map, List.all_eq_true, Function.comp_apply]
    intro c hc
    exact placed_place hlinked (hholds.length_eq ▸ hvalid c hc)
  refine ⟨{ l with
    heap := h'.erase p
    iNext := (s.removeAt k).cursors.map fun c => (c.1, c.2.place (ps.eraseIdx k))
    tail := if ps[k + 1]? = none then linkAt ps k else l.tail
    count := l.count - 1 }, ?_, ⟨hholds, ?_, ?_, rfl, hvalid, hr.fDel⟩⟩
  · unfold listNodeDestroy
    simp only [hr.holds.linked.read_linkAt k hk.le, hp, hr.holds.data_getElem? hp, hx,
      hr.holds.linked.read_next hp, hwrite, hplace, hplaced, Option.bind_eq_bind,
      Option.bind_some, if_true]
  · dsimp only
    rw [List.length_eraseIdx_of_lt hk, hr.tail]
    split_ifs with hend
    · rw [List.getElem?_eq_none_iff] at hend
      rw [show ps.length - 1 = k by omega, linkAt_eraseIdx_of_le le_rfl]
    · rw [List.getElem?_eq_none_iff] at hend
      rw [linkAt_eraseIdx_of_gt (by omega), Nat.sub_add_cancel (by omega)]
  · have hlen' : (s.removeAt k).items.length = s.items.length - 1 :=
      List.length_eraseIdx_of_lt (hlen ▸ hk)
    dsimp only
    rw [hlen', hr.count]
    omega

end

end Lmt.Lsd
