import Lmt.Library.Grouping

/-!
# Updating the first match of a list

A table kept as a list is updated in place at its first entry that matches a
key. When there is none, a new entry is appended and updated.
-/

namespace FirstMatch

open Grouping

variable {α β : Type*}

/-- Update the first entry that matches, or a new one at the end. -/
def updateFirst (p : α → Bool) (new : α) (f : α → α) (l : List α) : List α :=
  mergeOrAppend p f (f new) l

theorem updateFirst_nil (p : α → Bool) (new : α) (f : α → α) : updateFirst p new f [] = [f new] :=
  rfl

theorem updateFirst_cons (p : α → Bool) (new : α) (f : α → α) (a : α) (l : List α) :
    updateFirst p new f (a :: l) = if p a then f a :: l else a :: updateFirst p new f l := rfl

/-- The entry `updateFirst` updates. -/
def firstOrNew (p : α → Bool) (new : α) (l : List α) : α := (l.find? p).getD new

theorem firstOrNew_cons_of_neg {p : α → Bool} {new a : α} {l : List α} (h : ¬p a) :
    firstOrNew p new (a :: l) = firstOrNew p new l := by
  simp [firstOrNew, h]

theorem forall_mem_updateFirst {p : α → Bool} {new : α} {f : α → α} {P : α → Prop} {l : List α}
    (h : ∀ a ∈ l, P a) (hf : P (f (firstOrNew p new l))) : ∀ a ∈ updateFirst p new f l, P a := by
  induction l with
  | nil => simpa [updateFirst_nil, firstOrNew] using hf
  | cons b l ih =>
    have hb := h b (by simp)
    have hl : ∀ a ∈ l, P a := fun a ha => h a (by simp [ha])
    rw [updateFirst_cons]
    split_ifs with hp
    · rw [firstOrNew, List.find?_cons_of_pos hp, Option.getD_some] at hf
      simpa using ⟨hf, hl⟩
    · rw [firstOrNew_cons_of_neg hp] at hf
      simpa using ⟨hb, ih hl hf⟩

theorem forall_firstOrNew {p : α → Bool} {new : α} {P : α → Prop} {l : List α}
    (h : ∀ a ∈ l, P a) (hnew : P new) : P (firstOrNew p new l) := by
  rw [firstOrNew]
  cases hl : l.find? p with
  | none => exact hnew
  | some a => exact h a (List.mem_of_find?_eq_some hl)

theorem firstOrNew_map {p : α → Bool} {q : β → Bool} {new : α} (g : α → β)
    (hp : ∀ a, q (g a) = p a) (l : List α) :
    firstOrNew q (g new) (l.map g) = g (firstOrNew p new l) := by
  have hcomp : q ∘ g = p := funext hp
  rw [firstOrNew, firstOrNew, List.find?_map, hcomp]
  cases l.find? p <;> rfl

/-- Updating commutes with a map that respects the match and the update. -/
theorem map_updateFirst {p : α → Bool} {q : β → Bool} {new : α} {f : α → α} {k : β → β}
    (g : α → β) (hp : ∀ a, q (g a) = p a) (hf : ∀ a, g (f a) = k (g a)) (l : List α) :
    (updateFirst p new f l).map g = updateFirst q (g new) k (l.map g) := by
  unfold updateFirst
  rw [map_mergeOrAppend g (fun a _ => hp a) (fun a _ _ => hf a), hf]

section

variable {κ : Type*} [DecidableEq κ] {key : α → κ} {k : κ} {p : α → Bool} {new : α} {f : α → α}
  {l : List α}

def addKey (keys : List κ) (k : κ) : List κ := if k ∈ keys then keys else keys ++ [k]

theorem mem_addKey (keys : List κ) (k k' : κ) : k' ∈ addKey keys k ↔ k' ∈ keys ∨ k' = k := by
  unfold addKey
  split_ifs with hmem
  · constructor
    · exact .inl
    · rintro (h | rfl)
      · exact h
      · exact hmem
  · rw [List.mem_append, List.mem_singleton]

theorem nodup_addKey {keys : List κ} (h : keys.Nodup) (k : κ) : (addKey keys k).Nodup := by
  unfold addKey
  split_ifs with hmem
  · exact h
  · apply List.nodup_append.mpr
    refine ⟨h, List.nodup_singleton k, ?_⟩
    rintro a ha b hb rfl
    rw [List.mem_singleton.mp hb] at ha
    exact hmem ha

theorem exists_foldl_addKey (keys ks : List κ) :
    ∃ added, ks.foldl addKey keys = keys ++ added ∧ added.Nodup ∧
      ∀ k, k ∈ added ↔ k ∈ ks ∧ k ∉ keys := by
  induction ks generalizing keys with
  | nil => exact ⟨[], by simp⟩
  | cons k ks ih =>
    obtain ⟨added, heq, hnodup, hmem⟩ := ih (addKey keys k)
    simp only [mem_addKey] at hmem
    rw [List.foldl_cons, heq]
    by_cases hk : k ∈ keys
    · refine ⟨added, by rw [addKey, if_pos hk], hnodup, fun k' => ?_⟩
      rw [hmem, List.mem_cons]
      constructor
      · rintro ⟨h, hnot⟩
        exact ⟨.inr h, fun h' => hnot (.inl h')⟩
      · rintro ⟨rfl | h, hnot⟩
        · exact absurd hk hnot
        · refine ⟨h, ?_⟩
          rintro (h' | rfl)
          · exact hnot h'
          · exact hnot hk
    · have hnew : k ∉ added := fun h => ((hmem k).mp h).2 (.inr rfl)
      refine ⟨k :: added, by rw [addKey, if_neg hk, List.append_assoc, List.singleton_append],
        List.nodup_cons.mpr ⟨hnew, hnodup⟩, fun k' => ?_⟩
      rw [List.mem_cons, hmem, List.mem_cons]
      by_cases hk' : k' = k
      · simp [hk', hk]
      · simp [hk']

theorem mem_foldl_addKey (keys ks : List κ) (k : κ) :
    k ∈ ks.foldl addKey keys ↔ k ∈ keys ∨ k ∈ ks := by
  obtain ⟨added, heq, -, hmem⟩ := exists_foldl_addKey keys ks
  rw [heq, List.mem_append, hmem]
  tauto

theorem foldl_addKey_of_subset {keys ks : List κ} (h : ks ⊆ keys) :
    ks.foldl addKey keys = keys := by
  obtain ⟨added, heq, -, hmem⟩ := exists_foldl_addKey keys ks
  have hnil : added = [] := List.eq_nil_iff_forall_not_mem.mpr fun k hk =>
    ((hmem k).mp hk).2 (h ((hmem k).mp hk).1)
  rw [heq, hnil, List.append_nil]

theorem map_key_updateFirst (hp : ∀ a ∈ l, p a ↔ key a = k) (hnew : key new = k)
    (hf : ∀ a, key (f a) = key a) :
    (updateFirst p new f l).map key = addKey (l.map key) k := by
  unfold addKey
  induction l with
  | nil => simp [updateFirst_nil, hf, hnew]
  | cons a l ih =>
    rw [List.forall_mem_cons] at hp
    rw [updateFirst_cons]
    by_cases ha : key a = k
    · rw [if_pos (hp.1.mpr ha), List.map_cons, hf, List.map_cons, if_pos (by simp [ha])]
    · have hk : k ∈ key a :: l.map key ↔ k ∈ l.map key := by
        rw [List.mem_cons, or_iff_right (fun h => ha h.symm)]
      rw [if_neg (fun h => ha (hp.1.mp h)), List.map_cons, ih hp.2, List.map_cons]
      by_cases hmem : k ∈ l.map key
      · rw [if_pos hmem, if_pos (hk.mpr hmem)]
      · rw [if_neg hmem, if_neg (fun h => hmem (hk.mp h)), List.cons_append]

theorem filter_ne_updateFirst (hp : ∀ a ∈ l, p a ↔ key a = k) (hnew : key new = k)
    (hf : ∀ a, key (f a) = key a) :
    (updateFirst p new f l).filter (key · ≠ k) = l.filter (key · ≠ k) := by
  induction l with
  | nil => simp [updateFirst_nil, hf, hnew]
  | cons a l ih =>
    rw [List.forall_mem_cons] at hp
    rw [updateFirst_cons]
    by_cases ha : key a = k
    · rw [if_pos (hp.1.mpr ha), List.filter_cons_of_neg (by simp [hf, ha]),
        List.filter_cons_of_neg (by simp [ha])]
    · rw [if_neg (fun h => ha (hp.1.mp h)), List.filter_cons_of_pos (by simp [ha]), ih hp.2,
        List.filter_cons_of_pos (by simp [ha])]

end

section

variable {p q : α → Bool} {new : α} {f : α → α} {l : List α}

theorem updateFirst_eq_self {a : α} (h : l.find? p = some a) (ha : f a = a) :
    updateFirst p new f l = l := by
  induction l with
  | nil => simp at h
  | cons b l ih =>
    rw [updateFirst_cons]
    by_cases hb : p b
    · rw [List.find?_cons_of_pos hb, Option.some_inj] at h
      rw [if_pos hb, h, ha]
    · rw [List.find?_cons_of_neg hb] at h
      rw [if_neg hb, ih h]

theorem length_updateFirst :
    (updateFirst p new f l).length = l.length + if l.any p then 0 else 1 := by
  induction l with
  | nil => rfl
  | cons b l ih =>
    rw [updateFirst_cons]
    by_cases hb : p b
    · simp [hb]
    · simp only [hb, Bool.false_eq_true, if_false, List.length_cons, ih, List.any_cons,
        Bool.false_or]
      omega

/-- The entry that was updated is found again. -/
theorem find?_updateFirst_self (hp : ∀ a, p (f a) = p a) (hnew : p new) :
    ∃ a, (updateFirst p new f l).find? p = some (f a) := by
  induction l with
  | nil => exact ⟨new, by rw [updateFirst_nil, List.find?_cons_of_pos (by rw [hp, hnew])]⟩
  | cons b l ih =>
    rw [updateFirst_cons]
    by_cases hb : p b
    · exact ⟨b, by rw [if_pos hb, List.find?_cons_of_pos (by rw [hp, hb])]⟩
    · rw [if_neg hb, List.find?_cons_of_neg hb]
      exact ih

/-- What was found is found again, possibly updated. -/
theorem find?_updateFirst_of_some (hq : ∀ a, q (f a) = q a) {a : α} (h : l.find? q = some a) :
    ∃ b, (updateFirst p new f l).find? q = some b ∧ (b = a ∨ b = f a) := by
  induction l with
  | nil => simp at h
  | cons c l ih =>
    rw [updateFirst_cons]
    by_cases hc : q c
    · rw [List.find?_cons_of_pos hc, Option.some_inj] at h
      subst h
      split_ifs
      · exact ⟨f c, List.find?_cons_of_pos (by rw [hq, hc]), .inr rfl⟩
      · exact ⟨c, List.find?_cons_of_pos hc, .inl rfl⟩
    · rw [List.find?_cons_of_neg hc] at h
      split_ifs
      · exact ⟨a, by rw [List.find?_cons_of_neg (by rw [hq]; exact hc), h], .inl rfl⟩
      · obtain ⟨b, hb, hab⟩ := ih h
        exact ⟨b, by rw [List.find?_cons_of_neg hc, hb], hab⟩

end

section

variable {ρ : Type*} {p : ρ → α → Bool} {new : ρ → α} {f : ρ → α → α} {plain : ρ → Prop}
  {rs : List ρ} {l : List α}

theorem forall_foldl_updateFirst (Inv : α → Prop) (hnew : ∀ r ∈ rs, Inv (new r))
    (hf : ∀ r a, Inv a → Inv (f r a))
    (hl : ∀ a ∈ l, Inv a) :
    ∀ a ∈ rs.foldl (fun l r => updateFirst (p r) (new r) (f r) l) l, Inv a := by
  induction rs generalizing l with
  | nil => exact hl
  | cons r rs ih =>
    rw [List.forall_mem_cons] at hnew
    exact ih hnew.2 (forall_mem_updateFirst hl (hf r _ (forall_firstOrNew hl hnew.1)))

theorem length_le_foldl_updateFirst :
    l.length ≤ (rs.foldl (fun l r => updateFirst (p r) (new r) (f r) l) l).length := by
  induction rs generalizing l with
  | nil => exact le_rfl
  | cons r rs ih =>
    have hstep : l.length ≤ (updateFirst (p r) (new r) (f r) l).length := by
      rw [length_updateFirst]
      exact Nat.le_add_right _ _
    exact hstep.trans ih

/-- When the updates that find an entry leave it as it is, a sequence of updates
changes nothing exactly if each of them can find an entry. -/
theorem foldl_updateFirst_eq_self_iff (Inv : α → Prop) (hnew : ∀ r ∈ rs, Inv (new r))
    (hf : ∀ r a, Inv a → Inv (f r a)) (hplain : ∀ r ∈ rs, ∀ a, Inv a → p r a → plain r)
    (hl : ∀ a ∈ l, Inv a) (hfound : ∀ r ∈ rs, plain r → ∃ a, l.find? (p r) = some a ∧ f r a = a) :
    rs.foldl (fun l r => updateFirst (p r) (new r) (f r) l) l = l ↔ ∀ r ∈ rs, plain r := by
  constructor
  · intro heq r hr
    by_contra hnot
    -- the update that finds nothing makes the list longer
    obtain ⟨before, after, rfl⟩ := List.append_of_mem hr
    rw [List.foldl_append, List.foldl_cons] at heq
    have hnewBefore : ∀ r' ∈ before, Inv (new r') := fun r' hr' =>
      hnew r' (List.mem_append_left _ hr')
    have hinv : ∀ a ∈ before.foldl (fun l r => updateFirst (p r) (new r) (f r) l) l, Inv a :=
      forall_foldl_updateFirst Inv hnewBefore hf hl
    have hlength : l.length ≤
        (before.foldl (fun l r => updateFirst (p r) (new r) (f r) l) l).length :=
      length_le_foldl_updateFirst
    generalize
      before.foldl (fun l r => updateFirst (p r) (new r) (f r) l) l = l' at heq hinv hlength
    have hany : l'.any (p r) = false := by
      rw [List.any_eq_false]
      intro a ha hpa
      exact hnot (hplain r hr a (hinv a ha) hpa)
    have hlonger : (updateFirst (p r) (new r) (f r) l').length = l'.length + 1 := by
      rw [length_updateFirst, hany]
      rfl
    have hrest : (updateFirst (p r) (new r) (f r) l').length ≤
        (after.foldl (fun l r => updateFirst (p r) (new r) (f r) l)
          (updateFirst (p r) (new r) (f r) l')).length := length_le_foldl_updateFirst
    rw [heq] at hrest
    omega
  · intro hall
    have hself : ∀ rs' : List ρ, (∀ r ∈ rs', r ∈ rs) →
        rs'.foldl (fun l r => updateFirst (p r) (new r) (f r) l) l = l := by
      intro rs' hsub
      induction rs' with
      | nil => rfl
      | cons r rs' ih =>
        rw [List.forall_mem_cons] at hsub
        obtain ⟨a, ha, hfa⟩ := hfound r hsub.1 (hall r hsub.1)
        rw [List.foldl_cons, updateFirst_eq_self ha hfa]
        exact ih hsub.2
    exact hself rs fun _ hr => hr

/-- After a sequence of updates each of them finds an entry again, which has a
property that every update establishes. -/
theorem find?_foldl_updateFirst (Done : α → Prop) (hp : ∀ r r' a, p r (f r' a) = p r a)
    (hdone : ∀ r a, Done (f r a)) {r : ρ} (hr : r ∈ rs) (hnew : p r (new r)) :
    ∃ a, (rs.foldl (fun l r => updateFirst (p r) (new r) (f r) l) l).find? (p r) = some a ∧
      Done a := by
  have hkeep : ∀ (rs : List ρ) (l : List α), (∃ a, l.find? (p r) = some a ∧ Done a) →
      ∃ a, (rs.foldl (fun l r => updateFirst (p r) (new r) (f r) l) l).find? (p r) = some a ∧
        Done a := by
    intro rs
    induction rs with
    | nil => exact fun l h => h
    | cons r' rs ih =>
      rintro l ⟨a, ha, hda⟩
      obtain ⟨b, hb, rfl | rfl⟩ := find?_updateFirst_of_some (hp r r') ha
      · exact ih _ ⟨b, hb, hda⟩
      · exact ih _ ⟨_, hb, hdone r' a⟩
  obtain ⟨before, after, rfl⟩ := List.append_of_mem hr
  rw [List.foldl_append, List.foldl_cons]
  obtain ⟨a, ha⟩ := find?_updateFirst_self (hp r r) hnew
  exact hkeep after _ ⟨f r a, ha, hdone r a⟩

end

/-- A loose match finds what an exact one finds if and only if no entry that
matches loosely only stands before the first exact match. -/
theorem findIdx?_eq_findIdx?_iff {loose exact : α → Bool} (h : ∀ a, exact a → loose a)
    (l : List α) :
    l.findIdx? loose = l.findIdx? exact ↔
      ∀ before a after, l = before ++ a :: after → loose a → ¬exact a → ∃ b ∈ before, exact b := by
  induction l with
  | nil => simp
  | cons a l ih =>
    rw [List.findIdx?_cons, List.findIdx?_cons]
    by_cases he : exact a
    · simp only [he, h a he, if_true, true_iff]
      rintro (_ | ⟨b, before⟩) c after heq _ hc
      · obtain ⟨rfl, -⟩ := List.cons_eq_cons.mp heq
        exact absurd he hc
      · obtain ⟨rfl, -⟩ := List.cons_eq_cons.mp heq
        exact ⟨a, by simp, he⟩
    by_cases hl : loose a
    · simp only [he, hl, if_true, Bool.false_eq_true, if_false]
      constructor
      · intro hidx
        cases hx : l.findIdx? exact <;> simp [hx] at hidx
      · intro hall
        obtain ⟨b, hb, -⟩ := hall [] a l rfl hl he
        simp at hb
    · have hsucc : (l.findIdx? loose).map (· + 1) = (l.findIdx? exact).map (· + 1) ↔
          l.findIdx? loose = l.findIdx? exact :=
        (Option.map_injective fun i j hij => by simpa using hij).eq_iff
      simp only [he, hl, Bool.false_eq_true, if_false]
      rw [hsucc, ih]
      constructor
      · rintro hall (_ | ⟨b, before⟩) c after heq hc hc'
        · obtain ⟨rfl, -⟩ := List.cons_eq_cons.mp heq
          exact absurd hc hl
        · obtain ⟨rfl, rfl⟩ := List.cons_eq_cons.mp heq
          obtain ⟨d, hd, hd'⟩ := hall before c after rfl hc hc'
          exact ⟨d, by simp [hd], hd'⟩
      · intro hall before c after heq hc hc'
        obtain ⟨d, hd, hd'⟩ := hall (a :: before) c after (by rw [heq, List.cons_append]) hc hc'
        rcases List.mem_cons.mp hd with rfl | hd
        · exact absurd hd' he
        · exact ⟨d, hd, hd'⟩

end FirstMatch
