import Mathlib.Data.List.GetD
import Lmt.Library.Grouping

/-!
# Hash tables with chains

A table has a chain of nodes for every slot, and a node is looked for in the
chain of the slot of its key only. As long as the nodes are where their keys
belong, a table is a map from keys to data. A traversal may change the keys in
place; a node is then found again if its new key belongs to the same slot and no
other node has it.
-/

namespace HashTables

/-- A table with `size` chains of nodes. -/
structure HashTable (κ δ : Type*) (size : ℕ) where
  chains : List (List (κ × δ))
  length_chains : chains.length = size

namespace HashTable

variable {κ δ : Type*} {size : ℕ}

def empty : HashTable κ δ size := ⟨List.replicate size [], List.length_replicate⟩

def chain (t : HashTable κ δ size) (i : Fin size) : List (κ × δ) := t.chains.getD i []

def modify (t : HashTable κ δ size) (i : Fin size) (f : List (κ × δ) → List (κ × δ)) :
    HashTable κ δ size :=
  ⟨t.chains.modify i f, by rw [List.length_modify, t.length_chains]⟩

def count (t : HashTable κ δ size) : ℕ := (t.chains.map List.length).sum

/-- Traverse the table with a callback that may change the nodes in place. -/
def forEach (f : κ × δ → κ × δ) (t : HashTable κ δ size) : HashTable κ δ size :=
  ⟨t.chains.map (List.map f), by rw [List.length_map, t.length_chains]⟩

section

variable [DecidableEq κ] (slot : κ → Fin size)

def find (t : HashTable κ δ size) (k : κ) : Option δ :=
  ((t.chain (slot k)).find? (·.1 = k)).map Prod.snd

/-- Insert at the head of the chain, unless the key is there. -/
def insert (t : HashTable κ δ size) (k : κ) (d : δ) : Option (HashTable κ δ size) :=
  if (t.find slot k).isSome then none else some (t.modify (slot k) ((k, d) :: ·))

def remove (t : HashTable κ δ size) (k : κ) : HashTable κ δ size :=
  t.modify (slot k) (List.eraseP (·.1 = k))

end

/-- Every node is in the chain of its key, and no key has two nodes. -/
structure Valid (slot : κ → Fin size) (t : HashTable κ δ size) : Prop where
  placed : ∀ i, ∀ n ∈ t.chain i, slot n.1 = i
  nodup : ∀ i, ((t.chain i).map Prod.fst).Nodup

@[simp] theorem chain_empty (i : Fin size) : (empty : HashTable κ δ size).chain i = [] := by
  simp [chain, empty]

theorem chain_modify (t : HashTable κ δ size) (i j : Fin size)
    (f : List (κ × δ) → List (κ × δ)) :
    (t.modify i f).chain j = if j = i then f (t.chain i) else t.chain j := by
  have hj : (j : ℕ) < t.chains.length := by rw [t.length_chains]; exact j.isLt
  have hi : (i : ℕ) < t.chains.length := by rw [t.length_chains]; exact i.isLt
  unfold chain modify
  dsimp only
  rw [List.getD_eq_getElem _ _ (by rw [List.length_modify]; exact hj), List.getElem_modify,
    List.getD_eq_getElem _ _ hi, List.getD_eq_getElem _ _ hj]
  by_cases h : j = i
  · subst h
    simp
  · have hne : ¬(i : ℕ) = j := fun heq => h (Fin.ext heq.symm)
    rw [if_neg hne, if_neg h]

theorem chain_forEach (f : κ × δ → κ × δ) (t : HashTable κ δ size) (i : Fin size) :
    (t.forEach f).chain i = (t.chain i).map f := by
  have hi : (i : ℕ) < t.chains.length := by rw [t.length_chains]; exact i.isLt
  unfold chain forEach
  dsimp only
  rw [List.getD_eq_getElem _ _ (by rw [List.length_map]; exact hi), List.getElem_map,
    List.getD_eq_getElem _ _ hi]

theorem valid_empty (slot : κ → Fin size) : (empty : HashTable κ δ size).Valid slot := by
  constructor
  · intro i n hn
    rw [chain_empty] at hn
    simp at hn
  · intro i
    rw [chain_empty]
    exact List.nodup_nil

section

variable [DecidableEq κ] {slot : κ → Fin size} {t t' : HashTable κ δ size}

@[simp] theorem find_empty (k : κ) : (empty : HashTable κ δ size).find slot k = none := by
  rw [find, chain_empty]
  rfl

theorem insert_eq_some_iff {k : κ} {d : δ} :
    t.insert slot k d = some t' ↔
      t.find slot k = none ∧ t' = t.modify (slot k) ((k, d) :: ·) := by
  unfold insert
  cases h : t.find slot k with
  | none => simp [eq_comm]
  | some d' => simp

theorem find_insert {k : κ} {d : δ} (h : t.insert slot k d = some t') (k' : κ) :
    t'.find slot k' = if k' = k then some d else t.find slot k' := by
  obtain ⟨-, rfl⟩ := insert_eq_some_iff.mp h
  unfold find
  rw [chain_modify]
  by_cases hk : k' = k
  · subst hk
    simp
  · rw [if_neg hk]
    by_cases hslot : slot k' = slot k
    · have hne : ¬k = k' := fun h => hk h.symm
      rw [if_pos hslot, List.find?_cons_of_neg (by simpa using hne), hslot]
    · rw [if_neg hslot]

theorem Valid.insert {k : κ} {d : δ} (ht : t.Valid slot) (h : t.insert slot k d = some t') :
    t'.Valid slot := by
  obtain ⟨hnone, rfl⟩ := insert_eq_some_iff.mp h
  constructor
  · intro i n hn
    rw [chain_modify] at hn
    split_ifs at hn with hi
    · rcases List.mem_cons.mp hn with rfl | hn
      · exact hi.symm
      · rw [hi]
        exact ht.placed _ n hn
    · exact ht.placed i n hn
  · intro i
    rw [chain_modify]
    split_ifs with hi
    · rw [List.map_cons, List.nodup_cons]
      refine ⟨?_, ht.nodup _⟩
      intro hmem
      obtain ⟨n, hn, hkey⟩ := List.mem_map.mp hmem
      unfold find at hnone
      rw [Option.map_eq_none_iff, List.find?_eq_none] at hnone
      exact hnone n hn (by simpa using hkey)
    · exact ht.nodup i

theorem find_remove {k : κ} (ht : t.Valid slot) (k' : κ) :
    (t.remove slot k).find slot k' = if k' = k then none else t.find slot k' := by
  unfold find remove
  rw [chain_modify]
  by_cases hslot : slot k' = slot k
  · rw [if_pos hslot, hslot]
    have hnodup := ht.nodup (slot k)
    generalize t.chain (slot k) = c at hnodup
    induction c with
    | nil => split_ifs <;> rfl
    | cons n c ih =>
      rw [List.map_cons, List.nodup_cons] at hnodup
      by_cases hn : n.1 = k
      · rw [List.eraseP_cons_of_pos (by simpa using hn)]
        by_cases hk : k' = k
        · have hnone : c.find? (·.1 = k') = none := by
            rw [List.find?_eq_none]
            intro m hm hkey
            apply hnodup.1
            rw [hn, ← hk, ← of_decide_eq_true hkey]
            exact List.mem_map_of_mem hm
          rw [if_pos hk, hnone]
          rfl
        · have hne : ¬n.1 = k' := fun h => hk (h.symm.trans hn)
          rw [if_neg hk, List.find?_cons_of_neg (by simpa using hne)]
      · rw [List.eraseP_cons_of_neg (by simpa using hn)]
        by_cases hnk : n.1 = k'
        · have hne : ¬k' = k := fun h => hn (hnk.trans h)
          rw [if_neg hne, List.find?_cons_of_pos (by simpa using hnk),
            List.find?_cons_of_pos (by simpa using hnk)]
        · rw [List.find?_cons_of_neg (by simpa using hnk),
            List.find?_cons_of_neg (by simpa using hnk), ih hnodup.2]
  · have hk : ¬k' = k := fun h => hslot (h ▸ rfl)
    rw [if_neg hslot, if_neg hk]

theorem Valid.remove (ht : t.Valid slot) (k : κ) : (t.remove slot k).Valid slot := by
  unfold HashTable.remove
  constructor
  · intro i n hn
    rw [chain_modify] at hn
    split_ifs at hn with hi
    · rw [hi]
      exact ht.placed _ n (List.mem_of_mem_eraseP hn)
    · exact ht.placed i n hn
  · intro i
    rw [chain_modify]
    split_ifs with hi
    · exact (ht.nodup _).sublist (List.eraseP_sublist.map Prod.fst)
    · exact ht.nodup i

theorem Valid.find_eq_some_iff (ht : t.Valid slot) {k : κ} {d : δ} :
    t.find slot k = some d ↔ (k, d) ∈ t.chain (slot k) := by
  unfold find
  rw [Option.map_eq_some_iff]
  constructor
  · rintro ⟨n, hn, rfl⟩
    obtain ⟨hmem, rfl⟩ := (Grouping.find?_eq_some_iff (ht.nodup _)).mp hn
    exact hmem
  · intro hmem
    exact ⟨(k, d), (Grouping.find?_eq_some_iff (ht.nodup _)).mpr ⟨hmem, rfl⟩, rfl⟩

/-- A node whose key was changed in place is found by its new key, if the new key
has the slot of the old one and no other node got it. -/
theorem find_forEach {f : κ × δ → κ × δ} (ht : t.Valid slot) {k : κ} {d : δ}
    (hfind : t.find slot k = some d) (hslot : slot (f (k, d)).1 = slot k)
    (hother : ∀ n ∈ t.chain (slot k), (f n).1 = (f (k, d)).1 → n.1 = k) :
    (t.forEach f).find slot (f (k, d)).1 = some (f (k, d)).2 := by
  have hmem := ht.find_eq_some_iff.mp hfind
  unfold find
  rw [hslot, chain_forEach, List.find?_map, Option.map_map]
  obtain ⟨n, hn⟩ : ∃ n, (t.chain (slot k)).find?
      ((fun n : κ × δ => decide (n.1 = (f (k, d)).1)) ∘ f) = some n :=
    Option.isSome_iff_exists.mp (List.find?_isSome.mpr ⟨_, hmem, by simp⟩)
  have hnmem := List.mem_of_find?_eq_some hn
  have hkey : n.1 = k := hother n hnmem (by simpa using List.find?_some hn)
  have heq : n = (k, d) := List.inj_on_of_nodup_map (ht.nodup _) hnmem hmem hkey
  rw [hn, heq]
  rfl

end

end HashTable

end HashTables
