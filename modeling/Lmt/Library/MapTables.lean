import Lmt.Library.FirstMatch

/-!
# Tables that stand for maps

A table with one entry for each key stands for a finite map, when each entry is
related to the value of its key. Updating the entry of a key then updates the
map there, and the order of the entries has no meaning.
-/

namespace FirstMatch

variable {α κ η : Type*} {key : α → κ} {R : α → η → Prop} {m : κ → Option η} {l l' : List α}

/-- The table has one entry for each key of the map. -/
structure Represents (key : α → κ) (R : α → η → Prop) (m : κ → Option η) (l : List α) : Prop where
  nodup : (l.map key).Nodup
  related : ∀ a ∈ l, ∃ h, m (key a) = some h ∧ R a h
  listed : ∀ k h, m k = some h → k ∈ l.map key

theorem represents_nil : Represents key R (fun _ => none) [] :=
  ⟨List.nodup_nil, by simp, by simp⟩

theorem Represents.perm (h : Represents key R m l) (hperm : l.Perm l') :
    Represents key R m l' where
  nodup := (hperm.map key).nodup_iff.mp h.nodup
  related a ha := h.related a (hperm.mem_iff.mpr ha)
  listed k hk hm := (hperm.map key).mem_iff.mp (h.listed k hk hm)

/-- Entries may change in what the relation does not look at. -/
theorem Represents.forall₂ (h : Represents key R m l)
    (hl : List.Forall₂ (fun a b => key b = key a ∧ ∀ h, R a h → R b h) l l') :
    Represents key R m l' := by
  have hkeys : l'.map key = l.map key := by
    clear h
    induction hl with
    | nil => rfl
    | cons hab _ ih => rw [List.map_cons, List.map_cons, hab.1, ih]
  refine ⟨hkeys ▸ h.nodup, ?_, fun k hk hm => hkeys ▸ h.listed k hk hm⟩
  intro b hb
  obtain ⟨a, ha, hkey, hR⟩ : ∃ a ∈ l, key b = key a ∧ ∀ h, R a h → R b h := by
    clear h hkeys
    induction hl with
    | nil => simp at hb
    | @cons a' b' _ _ hab _ ih =>
      rcases List.mem_cons.mp hb with rfl | hb
      · exact ⟨a', by simp, hab⟩
      · obtain ⟨a, ha, hrel⟩ := ih hb
        exact ⟨a, List.mem_cons_of_mem _ ha, hrel⟩
  obtain ⟨x, hx, hrel⟩ := h.related a ha
  exact ⟨x, hkey ▸ hx, hR x hrel⟩

variable [DecidableEq κ] {k : κ} {p : α → Bool} {new : α} {f : α → α}

/-- What stands in a table after an update: the entries of the other keys, and what became of the
entry of this key, which may be new. -/
theorem mem_updateFirst_cases (hp : ∀ a ∈ l, p a ↔ key a = k) (hnew : key new = k)
    (hf : ∀ a, key (f a) = key a) (hnodup : (l.map key).Nodup) {b : α}
    (hb : b ∈ updateFirst p new f l) :
    (key b ≠ k ∧ b ∈ l) ∨
      key b = k ∧ ∃ a, b = f a ∧ (a ∈ l ∧ key a = k ∨ a = new ∧ k ∉ l.map key) := by
  induction l with
  | nil =>
    obtain rfl : b = f new := by simpa [updateFirst_nil] using hb
    exact .inr ⟨(hf new).trans hnew, new, rfl, .inr ⟨rfl, List.not_mem_nil⟩⟩
  | cons a l ih =>
    rw [List.forall_mem_cons] at hp
    rw [List.map_cons, List.nodup_cons] at hnodup
    rw [updateFirst_cons] at hb
    by_cases ha : key a = k
    · rw [if_pos (hp.1.mpr ha)] at hb
      rcases List.mem_cons.mp hb with rfl | hb
      · exact .inr ⟨(hf a).trans ha, a, rfl, .inl ⟨List.mem_cons_self, ha⟩⟩
      · refine .inl ⟨?_, List.mem_cons_of_mem a hb⟩
        intro hk
        apply hnodup.1
        rw [ha, ← hk]
        exact List.mem_map_of_mem hb
    · rw [if_neg fun h => ha (hp.1.mp h)] at hb
      rcases List.mem_cons.mp hb with rfl | hb
      · exact .inl ⟨ha, List.mem_cons_self⟩
      · rcases ih hp.2 hnodup.2 hb with ⟨hk, hl⟩ | ⟨hk, a', rfl, ⟨hl, ha'⟩ | ⟨rfl, hnot⟩⟩
        · exact .inl ⟨hk, List.mem_cons_of_mem a hl⟩
        · exact .inr ⟨hk, a', rfl, .inl ⟨List.mem_cons_of_mem a hl, ha'⟩⟩
        · refine .inr ⟨hk, a', rfl, .inr ⟨rfl, ?_⟩⟩
          rw [List.map_cons, List.mem_cons, not_or]
          exact ⟨fun h => ha h.symm, hnot⟩

/-- Updating the entry of a key updates the map there; a key without a value starts with
`start`. -/
theorem Represents.updateFirst (h : Represents key R m l) (hp : ∀ a ∈ l, p a ↔ key a = k)
    (hnew : key new = k) (hf : ∀ a, key (f a) = key a) {start : η} {g : η → η}
    (hstart : R new start) (hstep : ∀ a x, R a x → R (f a) (g x)) :
    Represents key R (Function.update m k (some (g ((m k).getD start))))
      (updateFirst p new f l) := by
  have hkeys := map_key_updateFirst hp hnew hf
  refine ⟨?_, ?_, ?_⟩
  · rw [hkeys]
    exact nodup_addKey h.nodup k
  · intro b hb
    rcases mem_updateFirst_cases hp hnew hf h.nodup hb with ⟨hk, hl⟩ | ⟨hk, a, rfl, hold⟩
    · rw [Function.update_of_ne hk]
      exact h.related b hl
    · rw [hk, Function.update_self]
      refine ⟨_, rfl, hstep a _ ?_⟩
      rcases hold with ⟨hl, ha⟩ | ⟨rfl, hnot⟩
      · obtain ⟨x, hx, hrel⟩ := h.related a hl
        rw [← ha, hx]
        exact hrel
      · cases hm : m k with
        | none => exact hstart
        | some x => exact absurd (h.listed k x hm) hnot
  · intro k' x hx
    rw [hkeys, mem_addKey]
    by_cases hk : k' = k
    · exact .inr hk
    · rw [Function.update_of_ne hk] at hx
      exact .inl (h.listed k' x hx)

end FirstMatch
