import Lmt.Library.Stores

/-!
# Chains of linked nodes

A node holds data and the address of the next node. A link is a place that holds
the address of a node: the head of a chain, or the next field of a node. A chain
is a list of addresses in which every link holds the address that follows. To
insert, to take out or to move a node changes two or three links.
-/

namespace Chains

open Stores

/-- A place that holds the address of a node, or none. -/
inductive Link
  | head
  | next (p : ℕ)
  deriving DecidableEq, Repr

structure Node (α : Type*) where
  data : α
  next : Option ℕ

/-- The nodes in memory and the head of the chain. -/
structure Heap (α : Type*) where
  nodes : Store (Node α)
  head : Option ℕ

section

variable {α : Type*}

def Heap.read (h : Heap α) : Link → Option (Option ℕ)
  | .head => some h.head
  | .next p => (h.nodes.lookup p).map Node.next

def Heap.write (h : Heap α) (v : Option ℕ) : Link → Option (Heap α)
  | .head => some { h with head := v }
  | .next p =>
    (h.nodes.lookup p).map fun n => { h with nodes := h.nodes.insert p { n with next := v } }

def Heap.data (h : Heap α) (p : ℕ) : Option α := (h.nodes.lookup p).map Node.data

def Heap.put (h : Heap α) (p : ℕ) (n : Node α) : Heap α := { h with nodes := h.nodes.insert p n }

/-- Give the node at an address back. -/
def Heap.erase (h : Heap α) (p : ℕ) : Heap α := { h with nodes := h.nodes.erase p }

variable {h h' : Heap α} {l : Link} {v : Option ℕ}

theorem Heap.mem_write (hw : h.write v l = some h') {p : ℕ} : p ∈ h'.nodes ↔ p ∈ h.nodes := by
  cases l with
  | head =>
    cases hw
    exact Iff.rfl
  | next q =>
    obtain ⟨n, hn, rfl⟩ := Option.map_eq_some_iff.mp hw
    simp only [Finmap.mem_insert, or_iff_right_iff_imp]
    rintro rfl
    exact Finmap.mem_of_lookup_eq_some hn

/-- A link that can be read can be written, and this changes nothing else. -/
theorem Heap.exists_write {u : Option ℕ} (hread : h.read l = some u) (v : Option ℕ) :
    ∃ h', h.write v l = some h' ∧ h'.read = Function.update h.read l (some v) ∧
      h'.data = h.data ∧ ∀ p, p ∈ h'.nodes ↔ p ∈ h.nodes := by
  cases l with
  | head =>
    refine ⟨{ h with head := v }, rfl, ?_, rfl, fun _ => Iff.rfl⟩
    funext k
    cases k <;> simp [Heap.read, Function.update]
  | next q =>
    unfold Heap.read at hread
    obtain ⟨n, hn, -⟩ := Option.map_eq_some_iff.mp hread
    refine ⟨{ h with nodes := h.nodes.insert q { n with next := v } }, ?_, ?_, ?_, ?_⟩
    · simp [Heap.write, hn]
    · funext k
      cases k with
      | head => simp [Heap.read, Function.update]
      | next p =>
        by_cases hp : p = q
        · subst hp
          simp [Heap.read]
        · simp [Heap.read, Function.update, hp, Finmap.lookup_insert_of_ne]
    · funext p
      by_cases hp : p = q
      · subst hp
        simp [Heap.data, hn]
      · simp [Heap.data, hp, Finmap.lookup_insert_of_ne]
    · have hwrite : h.write v (.next q) =
          some { h with nodes := h.nodes.insert q { n with next := v } } := by simp [Heap.write, hn]
      exact fun p => Heap.mem_write hwrite

@[simp] theorem Heap.read_put (p : ℕ) (n : Node α) :
    (h.put p n).read = Function.update h.read (.next p) (some n.next) := by
  funext k
  cases k with
  | head => simp [Heap.read, Heap.put, Function.update]
  | next q =>
    by_cases hp : q = p
    · subst hp
      simp [Heap.read, Heap.put]
    · simp [Heap.read, Heap.put, Function.update, hp, Finmap.lookup_insert_of_ne]

@[simp] theorem Heap.data_put (p : ℕ) (n : Node α) :
    (h.put p n).data = Function.update h.data p (some n.data) := by
  funext q
  by_cases hp : q = p
  · subst hp
    simp [Heap.data, Heap.put]
  · simp [Heap.data, Heap.put, hp, Finmap.lookup_insert_of_ne]

@[simp] theorem Heap.read_erase (p : ℕ) :
    (h.erase p).read = Function.update h.read (.next p) none := by
  funext k
  cases k with
  | head => simp [Heap.read, Heap.erase, Function.update]
  | next q =>
    by_cases hp : q = p
    · subst hp
      simp [Heap.read, Heap.erase]
    · simp [Heap.read, Heap.erase, Function.update, hp, Finmap.lookup_erase_ne]

@[simp] theorem Heap.data_erase (p : ℕ) :
    (h.erase p).data = Function.update h.data p none := by
  funext q
  by_cases hp : q = p
  · subst hp
    simp [Heap.data, Heap.erase]
  · simp [Heap.data, Heap.erase, hp, Finmap.lookup_erase_ne]

end

def linkAt (ps : List ℕ) : ℕ → Link
  | 0 => .head
  | k + 1 => (ps[k]?).elim .head .next

@[simp] theorem linkAt_zero (ps : List ℕ) : linkAt ps 0 = .head := rfl

theorem linkAt_succ {ps : List ℕ} {k p : ℕ} (hp : ps[k]? = some p) :
    linkAt ps (k + 1) = .next p := by
  simp [linkAt, hp]

section

variable {ps : List ℕ} {k j p q : ℕ}

theorem linkAt_ne_next (hp : p ∉ ps) (hk : k ≤ ps.length) : linkAt ps k ≠ .next p := by
  cases k with
  | zero => simp
  | succ k =>
    have hget : ps[k]? = some ps[k] := List.getElem?_eq_getElem (by omega)
    rw [linkAt_succ hget]
    rintro ⟨⟩
    exact hp (List.getElem_mem _)

/-- The links of a chain without repetition are different places. -/
theorem linkAt_inj (hps : ps.Nodup) (hk : k ≤ ps.length) (hj : j ≤ ps.length)
    (heq : linkAt ps k = linkAt ps j) : k = j := by
  cases k with
  | zero =>
    cases j with
    | zero => rfl
    | succ j =>
      rw [linkAt_succ (List.getElem?_eq_getElem (by omega : j < ps.length))] at heq
      cases heq
  | succ k =>
    have hget := List.getElem?_eq_getElem (by omega : k < ps.length)
    rw [linkAt_succ hget] at heq
    cases j with
    | zero => cases heq
    | succ j =>
      rw [linkAt_succ (List.getElem?_eq_getElem (by omega : j < ps.length))] at heq
      injection heq with heq
      rw [hps.getElem_inj_iff.mp heq]

theorem mem_eraseIdx_iff (hps : ps.Nodup) (hp : ps[j]? = some p) :
    q ∈ ps.eraseIdx j ↔ q ≠ p ∧ q ∈ ps := by
  obtain ⟨hj, -⟩ := List.getElem?_eq_some_iff.mp hp
  rw [List.mem_eraseIdx_iff_getElem?]
  constructor
  · rintro ⟨i, hi, hq⟩
    refine ⟨?_, List.mem_of_getElem? hq⟩
    rintro rfl
    exact hi ((List.getElem?_inj hj hps).mp (hp.trans hq.symm)).symm
  · rintro ⟨hne, hq⟩
    obtain ⟨i, hi⟩ := List.mem_iff_getElem?.mp hq
    refine ⟨i, ?_, hi⟩
    rintro rfl
    exact hne (Option.some.inj (hi.symm.trans hp))

/-- Every index up to the end tells the address that follows. -/
theorem getElem?_inj_of_le (hps : ps.Nodup) (hk : k ≤ ps.length) (hj : j ≤ ps.length) :
    ps[k]? = ps[j]? ↔ k = j := by
  refine ⟨fun heq => ?_, fun heq => heq ▸ rfl⟩
  rcases hk.lt_or_eq with hlt | rfl
  · exact (List.getElem?_inj hlt hps).mp heq
  · rw [List.getElem?_eq_none le_rfl, eq_comm, List.getElem?_eq_none_iff] at heq
    omega

theorem linkAt_insertIdx_of_le (hkj : k ≤ j) : linkAt (ps.insertIdx j p) k = linkAt ps k := by
  cases k with
  | zero => rfl
  | succ k => simp [linkAt, List.getElem?_insertIdx_of_lt (show k < j by omega)]

theorem linkAt_insertIdx_self (hj : j ≤ ps.length) :
    linkAt (ps.insertIdx j p) (j + 1) = .next p :=
  linkAt_succ (by simp [List.getElem?_insertIdx_self, hj])

theorem linkAt_insertIdx_of_gt (hjk : j < k) :
    linkAt (ps.insertIdx j p) (k + 1) = linkAt ps k := by
  cases k with
  | zero => omega
  | succ k => simp [linkAt, List.getElem?_insertIdx_of_gt hjk]

theorem linkAt_eraseIdx_of_le (hkj : k ≤ j) : linkAt (ps.eraseIdx j) k = linkAt ps k := by
  cases k with
  | zero => rfl
  | succ k => simp [linkAt, List.getElem?_eraseIdx_of_lt (show k < j by omega)]

theorem linkAt_eraseIdx_of_gt (hjk : j < k) :
    linkAt (ps.eraseIdx j) k = linkAt ps (k + 1) := by
  cases k with
  | zero => omega
  | succ k => simp [linkAt, List.getElem?_eraseIdx_of_ge (Nat.le_of_lt_succ hjk)]

end

/-- Every link along the addresses holds the address that follows. -/
structure Linked (read : Link → Option (Option ℕ)) (ps : List ℕ) : Prop where
  nodup : ps.Nodup
  read_linkAt : ∀ k ≤ ps.length, read (linkAt ps k) = some ps[k]?

section

variable {read : Link → Option (Option ℕ)} {ps : List ℕ} {j k p : ℕ}

theorem Linked.read_next (h : Linked read ps) (hp : ps[k]? = some p) :
    read (.next p) = some ps[k + 1]? := by
  obtain ⟨hlt, -⟩ := List.getElem?_eq_some_iff.mp hp
  rw [← linkAt_succ hp]
  exact h.read_linkAt (k + 1) hlt

/-- A node is inserted: it points at what the link held, and the link at the node. -/
theorem Linked.insert (h : Linked read ps) (hp : p ∉ ps) (hj : j ≤ ps.length) :
    Linked (Function.update (Function.update read (.next p) (some ps[j]?)) (linkAt ps j)
      (some (some p))) (ps.insertIdx j p) where
  nodup := (List.perm_insertIdx p ps hj).nodup_iff.mpr (List.nodup_cons.mpr ⟨hp, h.nodup⟩)
  read_linkAt k hk := by
    rw [List.length_insertIdx_of_le_length hj] at hk
    rcases Nat.lt_trichotomy k j with hlt | rfl | hgt
    · have hne : linkAt ps k ≠ linkAt ps j := fun heq =>
        hlt.ne (linkAt_inj h.nodup (by omega) hj heq)
      rw [linkAt_insertIdx_of_le hlt.le, Function.update_of_ne hne,
        Function.update_of_ne (linkAt_ne_next hp (by omega)), h.read_linkAt k (by omega),
        List.getElem?_insertIdx_of_lt hlt]
    · rw [linkAt_insertIdx_of_le le_rfl, Function.update_self, List.getElem?_insertIdx_self,
        if_pos hj]
    · obtain ⟨k, rfl⟩ := Nat.exists_eq_add_of_le' (show 1 ≤ k by omega)
      rw [List.getElem?_insertIdx_of_gt hgt]
      by_cases hk' : j = k
      · subst hk'
        rw [linkAt_insertIdx_self hj, Function.update_of_ne (linkAt_ne_next hp hj).symm,
          Function.update_self]
        rfl
      · have hne : linkAt ps k ≠ linkAt ps j := fun heq =>
          hk' (linkAt_inj h.nodup (by omega) hj heq).symm
        rw [linkAt_insertIdx_of_gt (by omega), Function.update_of_ne hne,
          Function.update_of_ne (linkAt_ne_next hp (by omega)), h.read_linkAt _ (by omega)]
        rfl

/-- A node is taken out: the link before it holds what the node pointed at. -/
theorem Linked.erase (h : Linked read ps) (hj : j < ps.length) :
    Linked (Function.update read (linkAt ps j) (some ps[j + 1]?)) (ps.eraseIdx j) where
  nodup := h.nodup.eraseIdx j
  read_linkAt k hk := by
    rw [List.length_eraseIdx_of_lt hj] at hk
    rcases Nat.lt_trichotomy k j with hlt | rfl | hgt
    · have hne : linkAt ps k ≠ linkAt ps j := fun heq =>
        hlt.ne (linkAt_inj h.nodup (by omega) hj.le heq)
      rw [linkAt_eraseIdx_of_le hlt.le, Function.update_of_ne hne, h.read_linkAt k (by omega),
        List.getElem?_eraseIdx_of_lt hlt]
    · rw [linkAt_eraseIdx_of_le le_rfl, Function.update_self,
        List.getElem?_eraseIdx_of_ge le_rfl]
    · have hne : linkAt ps (k + 1) ≠ linkAt ps j := fun heq => by
        have := linkAt_inj h.nodup (by omega) hj.le heq
        omega
      rw [linkAt_eraseIdx_of_gt hgt, Function.update_of_ne hne, h.read_linkAt _ (by omega),
        List.getElem?_eraseIdx_of_ge hgt.le]

/-- A place outside the chain does not matter. -/
theorem Linked.update_of_notMem (h : Linked read ps) (hp : p ∉ ps) (v : Option (Option ℕ)) :
    Linked (Function.update read (.next p) v) ps where
  nodup := h.nodup
  read_linkAt k hk := by
    rw [Function.update_of_ne (linkAt_ne_next hp hk), h.read_linkAt k hk]

end

/-- The nodes in memory are those of the chain, with these data. -/
structure Holds {α : Type*} (h : Heap α) (ps : List ℕ) (xs : List α) : Prop where
  linked : Linked h.read ps
  data : ps.map h.data = xs.map some
  mem : ∀ p, p ∈ h.nodes ↔ p ∈ ps

section

variable {α : Type*} {h : Heap α} {ps : List ℕ} {xs : List α} {i j k p q : ℕ} {x : α}

theorem Holds.length_eq (h : Holds h ps xs) : ps.length = xs.length := by
  simpa using congrArg List.length h.data

theorem Holds.data_getElem? (hh : Holds h ps xs) (hp : ps[k]? = some p) : h.data p = xs[k]? := by
  have hdata := congrArg (fun l => l[k]?) hh.data
  obtain ⟨hlt, -⟩ := List.getElem?_eq_some_iff.mp hp
  have hk : k < xs.length := hh.length_eq ▸ hlt
  have hx : xs[k]? = some xs[k] := List.getElem?_eq_getElem hk
  simp only [List.getElem?_map, hp, Option.map_some, hx, Option.some.injEq] at hdata
  rw [hdata, hx]

theorem holds_nil : Holds (α := α) ⟨∅, none⟩ [] [] where
  linked := ⟨List.nodup_nil, fun k hk => by
    obtain rfl : k = 0 := by simpa using hk
    rfl⟩
  data := rfl
  mem p := by simp [Finmap.notMem_empty]

/-- What is at an index of a chain: the end, or a node that leads to the next index. -/
theorem Holds.cases_at (hh : Holds h ps xs) (hk : k ≤ ps.length) :
    (ps[k]? = none ∧ k = ps.length ∧ xs.drop k = []) ∨
      ∃ p x, k < ps.length ∧ ps[k]? = some p ∧ xs[k]? = some x ∧ h.data p = some x ∧
        h.read (.next p) = some ps[k + 1]? ∧ xs.drop k = x :: xs.drop (k + 1) := by
  have hlen := hh.length_eq
  rcases hk.lt_or_eq with hlt | heq
  · have hp : ps[k]? = some ps[k] := List.getElem?_eq_getElem hlt
    have hk : k < xs.length := hlen ▸ hlt
    have hx : xs[k]? = some xs[k] := List.getElem?_eq_getElem hk
    exact .inr ⟨_, _, hlt, hp, hx, (hh.data_getElem? hp).trans hx, hh.linked.read_next hp,
      List.drop_eq_getElem_cons _⟩
  · exact .inl ⟨List.getElem?_eq_none (by omega), heq, List.drop_of_length_le (by omega)⟩

/-- The chain has a node for each address in memory. -/
theorem Holds.card_keys (hh : Holds h ps xs) : h.nodes.keys.card = ps.length := by
  have hkeys : h.nodes.keys = ps.toFinset := by
    ext p
    rw [Finmap.mem_keys, hh.mem, List.mem_toFinset]
  rw [hkeys, List.toFinset_card_of_nodup hh.linked.nodup]

theorem Holds.exists_insert (hh : Holds h ps xs) (hp : p ∉ h.nodes) (hj : j ≤ ps.length) (x : α) :
    ∃ h', (h.put p ⟨x, ps[j]?⟩).write (some p) (linkAt ps j) = some h' ∧
      Holds h' (ps.insertIdx j p) (xs.insertIdx j x) := by
  have hnew : p ∉ ps := fun hmem => hp ((hh.mem p).mpr hmem)
  have hread : (h.put p ⟨x, ps[j]?⟩).read (linkAt ps j) = some ps[j]? := by
    rw [Heap.read_put, Function.update_of_ne (linkAt_ne_next hnew hj), hh.linked.read_linkAt j hj]
  obtain ⟨h', hwrite, hread', hdata', hmem'⟩ := Heap.exists_write hread (some p)
  refine ⟨h', hwrite, ?_, ?_, ?_⟩
  · rw [hread', Heap.read_put]
    exact hh.linked.insert hnew hj
  · have hold : ps.map h'.data = ps.map h.data := by
      apply List.map_congr_left
      intro q hq
      rw [hdata', Heap.data_put, Function.update_of_ne (ne_of_mem_of_not_mem hq hnew)]
    rw [List.map_insertIdx, List.map_insertIdx, hold, hh.data, hdata', Heap.data_put,
      Function.update_self]
  · intro q
    rw [hmem', Heap.put, Finmap.mem_insert, hh.mem, List.mem_insertIdx hj]

/-- The link before a node is set to the next one, and the node is given back. -/
theorem Holds.exists_erase (hh : Holds h ps xs) (hp : ps[j]? = some p) :
    ∃ h', h.write ps[j + 1]? (linkAt ps j) = some h' ∧ Linked h'.read (ps.eraseIdx j) ∧
      Holds (h'.erase p) (ps.eraseIdx j) (xs.eraseIdx j) := by
  obtain ⟨hj, rfl⟩ := List.getElem?_eq_some_iff.mp hp
  obtain ⟨h', hwrite, hread', hdata', hmem'⟩ :=
    Heap.exists_write (hh.linked.read_linkAt j hj.le) ps[j + 1]?
  have hlinked : Linked h'.read (ps.eraseIdx j) := by
    rw [hread']
    exact hh.linked.erase hj
  have hmem : ∀ q, q ∈ ps.eraseIdx j ↔ q ≠ ps[j] ∧ q ∈ ps := fun q =>
    mem_eraseIdx_iff hh.linked.nodup hp
  refine ⟨h', hwrite, hlinked, ?_, ?_, ?_⟩
  · rw [Heap.read_erase]
    exact hlinked.update_of_notMem (fun hp => ((hmem _).mp hp).1 rfl) none
  · have hold : (ps.eraseIdx j).map (h'.erase ps[j]).data = (ps.eraseIdx j).map h.data := by
      apply List.map_congr_left
      intro q hq
      rw [Heap.data_erase, Function.update_of_ne ((hmem q).mp hq).1, hdata']
    rw [hold, ← List.eraseIdx_map, hh.data, List.eraseIdx_map]
  · intro q
    rw [Heap.erase, Finmap.mem_erase, hmem', hh.mem, hmem]

/-- A node is moved towards the head: it points at what the link of the new place holds, that
link at the node, and the link of the old place at what came behind it. -/
theorem Holds.exists_move (hh : Holds h ps xs) (hij : i < j) (hq : ps[j]? = some q)
    (hx : xs[j]? = some x) :
    ∃ h₁ h₂ h₃, h.write ps[i]? (.next q) = some h₁ ∧ h₁.read (linkAt ps j) = some (some q) ∧
      h₁.write (some q) (linkAt ps i) = some h₂ ∧ h₂.write ps[j + 1]? (linkAt ps j) = some h₃ ∧
      Holds h₃ ((ps.eraseIdx j).insertIdx i q) ((xs.eraseIdx j).insertIdx i x) := by
  obtain ⟨hj, -⟩ := List.getElem?_eq_some_iff.mp hq
  have hnext : linkAt ps (j + 1) = .next q := linkAt_succ hq
  have hne : ∀ {k m}, k ≤ ps.length → m ≤ ps.length → k ≠ m → linkAt ps k ≠ linkAt ps m :=
    fun hk hm hkm heq => hkm (linkAt_inj hh.linked.nodup hk hm heq)
  have hnextj : linkAt ps j ≠ .next q := hnext ▸ hne hj.le hj (by omega)
  have hnexti : linkAt ps i ≠ .next q := hnext ▸ hne (by omega) hj (by omega)
  have hlinks : linkAt ps j ≠ linkAt ps i := hne hj.le (by omega) (by omega)
  obtain ⟨h₁, hwrite₁, hread₁, hdata₁, hmem₁⟩ :=
    Heap.exists_write (hh.linked.read_next hq) ps[i]?
  have hreadj : h₁.read (linkAt ps j) = some (some q) := by
    rw [hread₁, Function.update_of_ne hnextj, hh.linked.read_linkAt j hj.le, hq]
  have hreadi : h₁.read (linkAt ps i) = some ps[i]? := by
    rw [hread₁, Function.update_of_ne hnexti, hh.linked.read_linkAt i (by omega)]
  obtain ⟨h₂, hwrite₂, hread₂, hdata₂, hmem₂⟩ := Heap.exists_write hreadi (some q)
  have hreadj₂ : h₂.read (linkAt ps j) = some (some q) := by
    rw [hread₂, Function.update_of_ne hlinks, hreadj]
  obtain ⟨h₃, hwrite₃, hread₃, hdata₃, hmem₃⟩ := Heap.exists_write hreadj₂ ps[j + 1]?
  have hnotMem : q ∉ ps.eraseIdx j := fun hmem =>
    ((mem_eraseIdx_iff hh.linked.nodup hq).mp hmem).1 rfl
  have hlen : i ≤ (ps.eraseIdx j).length := by
    rw [List.length_eraseIdx_of_lt hj]
    omega
  refine ⟨h₁, h₂, h₃, hwrite₁, hreadj, hwrite₂, hwrite₃, ?_, ?_, ?_⟩
  · -- the three writes are a removal and an insertion, in another order
    have hmoved := (hh.linked.erase hj).insert hnotMem hlen
    rw [linkAt_eraseIdx_of_le hij.le, List.getElem?_eraseIdx_of_lt hij] at hmoved
    rw [hread₃, hread₂, hread₁, Function.update_comm hlinks.symm,
      Function.update_comm hnextj.symm]
    exact hmoved
  · have hdata : h₃.data = h.data := by rw [hdata₃, hdata₂, hdata₁]
    rw [hdata, List.map_insertIdx, List.map_insertIdx, ← List.eraseIdx_map, ← List.eraseIdx_map,
      hh.data, hh.data_getElem? hq, hx]
  · intro r
    rw [hmem₃, hmem₂, hmem₁, hh.mem, List.mem_insertIdx hlen,
      mem_eraseIdx_iff hh.linked.nodup hq]
    constructor
    · intro hr
      by_cases heq : r = q
      · exact .inl heq
      · exact .inr ⟨heq, hr⟩
    · rintro (rfl | ⟨-, hr⟩)
      · exact List.mem_of_getElem? hq
      · exact hr

end

end Chains
