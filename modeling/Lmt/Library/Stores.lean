import Mathlib.Data.Finmap
import Mathlib.Tactic

/-!
# Stores of handles

A store holds values under handles. A value is reached through every copy of its
handle, so that two owners of a handle see each other's updates. To use a handle
that is not in the store is a failure.
-/

namespace Stores

/-- Values under their handles. -/
abbrev Store (α : Type*) := Finmap fun _ : ℕ => α

/-- The choice of a handle for a new value. One that was given back may be chosen again. -/
structure Allocator (α : Type*) where
  pick : Store α → ℕ
  pick_notMem : ∀ s, pick s ∉ s

def Allocator.above (α : Type*) : Allocator α where
  pick s := s.keys.sup id + 1
  pick_notMem s h := by
    have hle : s.keys.sup id + 1 ≤ s.keys.sup id :=
      Finset.le_sup (f := id) (Finmap.mem_keys.mpr h)
    omega

section

variable {α F : Type*} [DecidableEq F]

/-- A new value that is equal to the one of a handle. -/
def copy (A : Allocator α) (h : ℕ) (s : Store α) : Option (ℕ × Store α) :=
  (s.lookup h).map fun a => (A.pick s, s.insert (A.pick s) a)

def free (h : ℕ) (s : Store α) : Option (Store α) := if h ∈ s then some (s.erase h) else none

def combine (op : α → α → α) (h1 h2 : ℕ) (s : Store α) : Option (Store α) :=
  (s.lookup h1).bind fun a => (s.lookup h2).map fun b => s.insert h1 (op a b)

/-- Replace the handles of these fields of a record by copies of those of another one. -/
def copyFields (A : Allocator α) (src : F → ℕ) :
    List F → (F → ℕ) → Store α → Option ((F → ℕ) × Store α)
  | [], dst, s => some (dst, s)
  | f :: fs, dst, s =>
    (copy A (src f) s).bind fun p => copyFields A src fs (Function.update dst f p.1) p.2

/-- Give the handles of these fields back. -/
def freeFields (handle : F → ℕ) (fs : List F) (s : Store α) : Option (Store α) :=
  fs.foldlM (fun s f => free (handle f) s) s

def combineFields (src dst : F → ℕ) (ops : List (F × (α → α → α))) (s : Store α) :
    Option (Store α) :=
  ops.foldlM (fun s m => combine m.2 (dst m.1) (src m.1) s) s

end

section

variable {α F : Type*} {s : Store α} {h : ℕ}

theorem copy_of_mem (A : Allocator α) {a : α} (ha : s.lookup h = some a) :
    copy A h s = some (A.pick s, s.insert (A.pick s) a) := by
  unfold copy
  rw [ha]
  rfl

theorem combine_of_mem (op : α → α → α) {h1 h2 : ℕ} {a b : α} (ha : s.lookup h1 = some a)
    (hb : s.lookup h2 = some b) : combine op h1 h2 s = some (s.insert h1 (op a b)) := by
  unfold combine
  rw [ha, hb]
  rfl

/-- What is in the store is not at the place chosen next. -/
theorem lookup_insert_pick (A : Allocator α) (a : α) (hmem : h ∈ s) :
    (s.insert (A.pick s) a).lookup h = s.lookup h := by
  apply Finmap.lookup_insert_of_ne
  rintro rfl
  exact A.pick_notMem s hmem

theorem mem_of_lookup_eq {s' : Store α} (hlookup : s'.lookup h = s.lookup h) (hmem : h ∈ s) :
    h ∈ s' := by
  rw [← Finmap.lookup_isSome] at hmem ⊢
  rwa [hlookup]

/-- The new handles of a copied record: they were not in the store, are different, and have the
values of the old ones. -/
structure Copied (fs : List F) (src dst dst' : F → ℕ) (s s' : Store α) : Prop where
  others : ∀ f ∉ fs, dst' f = dst f
  fresh : ∀ f ∈ fs, dst' f ∉ s
  lookup : ∀ f ∈ fs, s'.lookup (dst' f) = s.lookup (src f)
  injOn : ∀ f ∈ fs, ∀ g ∈ fs, dst' f = dst' g → f = g
  frame : ∀ h ∈ s, s'.lookup h = s.lookup h

theorem exists_copyFields [DecidableEq F] (A : Allocator α) {src : F → ℕ} {fs : List F}
    (hfs : fs.Nodup) (dst : F → ℕ) (hsrc : ∀ f ∈ fs, src f ∈ s) :
    ∃ dst' s', copyFields A src fs dst s = some (dst', s') ∧ Copied fs src dst dst' s s' := by
  induction fs generalizing dst s with
  | nil => exact ⟨dst, s, rfl, by simp, by simp, by simp, by simp, fun _ _ => rfl⟩
  | cons f fs ih =>
    obtain ⟨hf, hfs⟩ := List.nodup_cons.mp hfs
    obtain ⟨a, ha⟩ := Finmap.mem_iff.mp (hsrc f List.mem_cons_self)
    have hkept : ∀ h ∈ s, (s.insert (A.pick s) a).lookup h = s.lookup h := fun h hmem =>
      lookup_insert_pick A a hmem
    have hmem : ∀ h ∈ s, h ∈ s.insert (A.pick s) a := fun h hmem =>
      Finmap.mem_insert.mpr (.inr hmem)
    have hnew : A.pick s ∈ s.insert (A.pick s) a := Finmap.mem_insert.mpr (.inl rfl)
    obtain ⟨dst', s', hcopy, hcopied⟩ := ih hfs (Function.update dst f (A.pick s))
      (fun g hg => hmem _ (hsrc g (List.mem_cons_of_mem _ hg)))
    have hfirst : dst' f = A.pick s := by
      rw [hcopied.others f hf, Function.update_self]
    refine ⟨dst', s', ?_, ?_, ?_, ?_, ?_, ?_⟩
    · rw [copyFields, copy_of_mem A ha]
      exact hcopy
    · intro g hg
      rw [List.mem_cons, not_or] at hg
      rw [hcopied.others g hg.2, Function.update_of_ne hg.1]
    · intro g hg
      rcases List.mem_cons.mp hg with rfl | hg
      · rw [hfirst]
        exact A.pick_notMem s
      · intro hold
        exact hcopied.fresh g hg (hmem _ hold)
    · intro g hg
      rcases List.mem_cons.mp hg with rfl | hg
      · rw [hfirst, hcopied.frame _ hnew, Finmap.lookup_insert, ha]
      · rw [hcopied.lookup g hg, hkept _ (hsrc g (List.mem_cons_of_mem _ hg))]
    · intro g hg k hk heq
      rcases List.mem_cons.mp hg with rfl | hg'
      · rcases List.mem_cons.mp hk with rfl | hk'
        · rfl
        · rw [hfirst] at heq
          exact absurd (heq ▸ hnew) (hcopied.fresh k hk')
      · rcases List.mem_cons.mp hk with rfl | hk'
        · rw [hfirst] at heq
          exact absurd (heq ▸ hnew) (hcopied.fresh g hg')
        · exact hcopied.injOn g hg' k hk' heq
    · intro h hold
      rw [hcopied.frame h (hmem h hold), hkept h hold]

/-- Different handles of the store can be given back, and the others stay. -/
theorem exists_freeFields {handle : F → ℕ} {fs : List F} (hfs : fs.Nodup)
    (hinj : ∀ f ∈ fs, ∀ g ∈ fs, handle f = handle g → f = g) (hmem : ∀ f ∈ fs, handle f ∈ s) :
    ∃ s', freeFields handle fs s = some s' ∧
      ∀ h, (∀ f ∈ fs, handle f ≠ h) → s'.lookup h = s.lookup h := by
  induction fs generalizing s with
  | nil => exact ⟨s, rfl, fun _ _ => rfl⟩
  | cons f fs ih =>
    obtain ⟨hf, hfs⟩ := List.nodup_cons.mp hfs
    have hne : ∀ g ∈ fs, handle g ≠ handle f := by
      intro g hg heq
      obtain rfl := hinj g (List.mem_cons_of_mem _ hg) f List.mem_cons_self heq
      exact hf hg
    obtain ⟨s', hfree, hkept⟩ := ih (s := s.erase (handle f)) hfs
      (fun g hg k hk => hinj g (List.mem_cons_of_mem _ hg) k (List.mem_cons_of_mem _ hk))
      (fun g hg => Finmap.mem_erase.mpr ⟨hne g hg, hmem g (List.mem_cons_of_mem _ hg)⟩)
    refine ⟨s', ?_, ?_⟩
    · unfold freeFields at hfree ⊢
      rw [List.foldlM_cons, free, if_pos (hmem f List.mem_cons_self)]
      exact hfree
    · intro h hother
      rw [hkept h fun g hg => hother g (List.mem_cons_of_mem _ hg),
        Finmap.lookup_erase_ne fun heq => hother f List.mem_cons_self heq.symm]

/-- Each field is combined with the other record's, and what is not a field stays. -/
structure Combined (src dst : F → ℕ) (ops : List (F × (α → α → α))) (s s' : Store α) : Prop where
  lookup : ∀ m ∈ ops, s'.lookup (dst m.1) =
    (s.lookup (dst m.1)).bind fun a => (s.lookup (src m.1)).map (m.2 a)
  frame : ∀ h, (∀ m ∈ ops, dst m.1 ≠ h) → s'.lookup h = s.lookup h
  mem : ∀ h ∈ s, h ∈ s'

/-- Two records without a common handle are combined field by field. -/
theorem exists_combineFields {src dst : F → ℕ} {ops : List (F × (α → α → α))}
    (hops : (ops.map Prod.fst).Nodup) (hinj : Function.Injective dst) (hne : ∀ f g, src f ≠ dst g)
    (hsrc : ∀ m ∈ ops, src m.1 ∈ s) (hdst : ∀ m ∈ ops, dst m.1 ∈ s) :
    ∃ s', combineFields src dst ops s = some s' ∧ Combined src dst ops s s' := by
  induction ops generalizing s with
  | nil => exact ⟨s, rfl, by simp, fun _ _ => rfl, fun _ hmem => hmem⟩
  | cons m ops ih =>
    obtain ⟨hm, hops⟩ := List.nodup_cons.mp hops
    obtain ⟨a, ha⟩ := Finmap.mem_iff.mp (hdst m List.mem_cons_self)
    obtain ⟨b, hb⟩ := Finmap.mem_iff.mp (hsrc m List.mem_cons_self)
    have hlater : ∀ k ∈ ops, dst k.1 ≠ dst m.1 := by
      intro k hk heq
      rw [← hinj heq] at hm
      exact hm (List.mem_map_of_mem hk)
    have hmem : ∀ h ∈ s, h ∈ s.insert (dst m.1) (m.2 a b) := fun h hmem =>
      Finmap.mem_insert.mpr (.inr hmem)
    obtain ⟨s', hcombine, hcombined⟩ := ih (s := s.insert (dst m.1) (m.2 a b)) hops
      (fun k hk => hmem _ (hsrc k (List.mem_cons_of_mem _ hk)))
      (fun k hk => hmem _ (hdst k (List.mem_cons_of_mem _ hk)))
    refine ⟨s', ?_, ?_, ?_, fun h hold => hcombined.mem h (hmem h hold)⟩
    · unfold combineFields at hcombine ⊢
      rw [List.foldlM_cons, combine_of_mem m.2 ha hb]
      exact hcombine
    · intro k hk
      rcases List.mem_cons.mp hk with rfl | hk
      · rw [hcombined.frame _ hlater, Finmap.lookup_insert, ha, hb]
        rfl
      · rw [hcombined.lookup k hk, Finmap.lookup_insert_of_ne _ (hlater k hk),
          Finmap.lookup_insert_of_ne _ (hne k.1 m.1)]
    · intro h hother
      rw [hcombined.frame h fun k hk => hother k (List.mem_cons_of_mem _ hk),
        Finmap.lookup_insert_of_ne _ fun heq => hother m List.mem_cons_self heq.symm]

end

end Stores
