import Lmt.Lsd.Refinement

/-!
# The loops over a list

Each loop of `list.c` follows the links of the chain to its end, also where it takes
nodes out or moves them on its way, and does to the items what the operation on
sequences says.
-/

namespace Lmt.Lsd

open Chains

section

variable {α : Type} {l : LinkedList α} {s : Sequence α} {h : Heap α} {ps : List ℕ} {xs : List α}
variable {f : α → Bool} {n k : ℕ}

theorem findFirstLoop_eq (hh : Holds h ps xs) (hk : k ≤ ps.length) (hn : ps.length ≤ k + n) :
    findFirstLoop h f n ps[k]? = some ((xs.drop k).find? f) := by
  induction n generalizing k with
  | zero =>
    have hend : k = ps.length := by omega
    rw [List.getElem?_eq_none hend.ge, List.drop_of_length_le (hh.length_eq ▸ hend.ge)]
    rfl
  | succ n ih =>
    rcases hh.cases_at hk with ⟨hp, -, hdrop⟩ | ⟨p, x, hlt, hp, -, hdata, hread, hdrop⟩
    · rw [hp, hdrop]
      rfl
    · rw [hp, hdrop]
      unfold findFirstLoop
      simp only [hdata, hread, Option.bind_eq_bind, Option.bind_some, List.find?_cons]
      by_cases hf : f x
      · simp [hf]
      · simp [hf, ih (k := k + 1) hlt (by omega)]

theorem forEachLoop_eq {f : α → ℤ} (hh : Holds h ps xs) (hk : k ≤ ps.length)
    (hn : ps.length ≤ k + n) (m : ℤ) :
    forEachLoop h f n ps[k]? m =
      some (if ∃ x ∈ xs.drop k, f x < 0 then -(m + (passedTo f (xs.drop k)).length)
        else m + (passedTo f (xs.drop k)).length, passedTo f (xs.drop k)) := by
  induction n generalizing k m with
  | zero =>
    have hend : k = ps.length := by omega
    rw [List.getElem?_eq_none hend.ge, List.drop_of_length_le (hh.length_eq ▸ hend.ge)]
    simp [forEachLoop, passedTo]
  | succ n ih =>
    rcases hh.cases_at hk with ⟨hp, -, hdrop⟩ | ⟨p, x, hlt, hp, -, hdata, hread, hdrop⟩
    · simp [hp, hdrop, forEachLoop, passedTo]
    · rw [hp, hdrop]
      unfold forEachLoop
      simp only [hdata, hread, Option.bind_eq_bind, Option.bind_some]
      by_cases hf : f x < 0
      · simp [hf, passedTo]
      · rw [if_neg hf, ih (k := k + 1) hlt (by omega)]
        have hex : (∃ y ∈ x :: xs.drop (k + 1), f y < 0) ↔ ∃ y ∈ xs.drop (k + 1), f y < 0 := by
          simp [hf]
        have hpassed : passedTo f (x :: xs.drop (k + 1)) = x :: passedTo f (xs.drop (k + 1)) := by
          simp [passedTo, hf]
        simp only [hex, hpassed, List.length_cons, Option.bind_some]
        push_cast
        split_ifs <;> congr 2 <;> ring

theorem drop_removeAt (s : Sequence α) (k : ℕ) :
    (s.removeAt k).items.drop k = s.items.drop (k + 1) := by
  unfold Sequence.removeAt
  apply List.ext_getElem?
  intro i
  rw [List.getElem?_drop, List.getElem?_drop, List.getElem?_eraseIdx_of_ge (by omega)]
  congr 1
  omega

/-- From an index on the loop takes out what matches. A node that it takes out leaves the next one
at the same place. -/
theorem exists_deleteAllLoop (hr : Represents l s ps) (hk : k ≤ ps.length)
    (hn : ps.length < k + n) :
    ∃ l' ps', deleteAllLoop f n (linkAt ps k) l = some ((s.items.drop k).filter f, l') ∧
      Represents l' (s.removeFrom f (s.items.drop k) k) ps' := by
  induction n generalizing l s ps k with
  | zero => omega
  | succ n ih =>
    have hread := hr.holds.linked.read_linkAt k hk
    unfold deleteAllLoop
    rcases hr.holds.cases_at hk with ⟨hp, -, hdrop⟩ | ⟨p, x, hlt, hp, hx, hdata, -, hdrop⟩
    · rw [hp] at hread
      rw [hdrop]
      exact ⟨l, ps, by simp [hread], hr⟩
    · rw [hp] at hread
      rw [hdrop]
      by_cases hf : f x
      · obtain ⟨l₁, hdestroy, hr₁⟩ := hr.exists_listNodeDestroy hp hx
        have hlen : (ps.eraseIdx k).length = ps.length - 1 := List.length_eraseIdx_of_lt hlt
        obtain ⟨l', ps', hloop, hr'⟩ := ih hr₁ (k := k) (by omega) (by omega)
        rw [linkAt_eraseIdx_of_le le_rfl, drop_removeAt] at hloop
        rw [drop_removeAt] at hr'
        refine ⟨l', ps', ?_, ?_⟩
        · simp [hread, hdata, hf, hdestroy, hloop]
        · simpa [Sequence.removeFrom, hf] using hr'
      · obtain ⟨l', ps', hloop, hr'⟩ := ih hr (k := k + 1) hlt (by omega)
        rw [linkAt_succ hp] at hloop
        refine ⟨l', ps', ?_, ?_⟩
        · simp [hread, hdata, hf, hloop]
        · simpa [Sequence.removeFrom, hf] using hr'

/-- The nodes from an index on are given back, the others are not in memory any more. -/
theorem exists_destroyLoop {h' : Heap α} (hh : Holds h ps xs) (hk : k ≤ ps.length)
    (hn : ps.length ≤ k + n) (hmem : ∀ p, p ∈ h'.nodes ↔ p ∈ ps.drop k)
    (hsame : ∀ p ∈ ps.drop k, h'.read (.next p) = h.read (.next p) ∧ h'.data p = h.data p) :
    ∃ h'', destroyLoop n ps[k]? h' = some (xs.drop k, h'') ∧ ∀ p, p ∉ h''.nodes := by
  induction n generalizing h' k with
  | zero =>
    have hend : k = ps.length := by omega
    rw [List.drop_of_length_le hend.ge] at hmem
    rw [List.getElem?_eq_none hend.ge, List.drop_of_length_le (hh.length_eq ▸ hend.ge)]
    exact ⟨h', rfl, by simpa using hmem⟩
  | succ n ih =>
    rcases hh.cases_at hk with ⟨hp, hend, hdrop⟩ | ⟨p, x, hlt, hp, -, hdata, hread, hdrop⟩
    · rw [List.drop_of_length_le hend.ge] at hmem
      rw [hp, hdrop]
      exact ⟨h', rfl, by simpa using hmem⟩
    · have hcons : ps.drop k = p :: ps.drop (k + 1) := by
        rw [List.drop_eq_getElem_cons hlt, Option.some.inj
          ((List.getElem?_eq_getElem hlt).symm.trans hp)]
      have hnot : p ∉ ps.drop (k + 1) :=
        (List.nodup_cons.mp (hcons ▸ hh.linked.nodup.sublist (List.drop_sublist k ps))).1
      have hfirst := hsame p (by simp [hcons])
      have hne : ∀ q ∈ ps.drop (k + 1), q ≠ p := fun q hq => ne_of_mem_of_not_mem hq hnot
      have hleft : ∀ q, q ∈ (h'.erase p).nodes ↔ q ∈ ps.drop (k + 1) := by
        intro q
        rw [Heap.erase, Finmap.mem_erase, hmem, hcons, List.mem_cons]
        constructor
        · intro hq
          exact hq.2.resolve_left hq.1
        · intro hq
          exact ⟨hne q hq, .inr hq⟩
      have hkept : ∀ q ∈ ps.drop (k + 1), (h'.erase p).read (.next q) = h.read (.next q) ∧
          (h'.erase p).data q = h.data q := by
        intro q hq
        rw [Heap.read_erase, Heap.data_erase, Function.update_of_ne (by simp [hne q hq]),
          Function.update_of_ne (hne q hq)]
        exact hsame q (by simp [hcons, hq])
      obtain ⟨h'', hloop, hempty⟩ := ih hlt (by omega) hleft hkept
      refine ⟨h'', ?_, hempty⟩
      rw [hp, hdrop]
      unfold destroyLoop
      simp [hfirst.1, hfirst.2, hdata, hread, hloop]

end

end Lmt.Lsd
