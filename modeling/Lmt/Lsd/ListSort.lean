import Lmt.Lsd.ListLoops

/-!
# Sorting a list in place

`list_sort` moves nodes by their links. The nodes before the one it looks at are in
order, and each round is one insertion of the sort on the items.
-/

namespace Lmt.Lsd

open Chains

section

variable {α : Type} {h : Heap α} {ps : List ℕ} {xs sorted rest : List α} {f : α → α → ℤ} {x : α}
variable {n k : ℕ}

theorem dataAt_linkAt (hh : Holds h ps xs) (hx : xs[k]? = some x) :
    dataAt h (linkAt ps k) = some x := by
  obtain ⟨hk, -⟩ := List.getElem?_eq_some_iff.mp hx
  rcases hh.cases_at (hh.length_eq ▸ hk.le) with ⟨-, hend, -⟩ | ⟨p, y, hlt, hp, hy, hdata, -, -⟩
  · rw [hh.length_eq] at hend
    omega
  · unfold dataAt
    simp [hh.linked.read_linkAt k hlt.le, hp, hdata, ← hx, hy]

theorem nextLink_linkAt (hh : Holds h ps xs) (hk : k < ps.length) :
    nextLink h (linkAt ps k) = some (linkAt ps (k + 1)) := by
  have hp : ps[k]? = some ps[k] := List.getElem?_eq_getElem hk
  unfold nextLink
  simp [hh.linked.read_linkAt k hk.le, hp, linkAt_succ hp]

/-- The inner loop passes the nodes that are not greater. -/
theorem sortPlace_eq (hh : Holds h ps xs)
    (hk : k + ((xs.drop k).takeWhile fun y => 0 ≤ f x y).length < xs.length)
    (hn : ((xs.drop k).takeWhile fun y => 0 ≤ f x y).length < n) :
    sortPlace f h x n (linkAt ps k) =
      some (linkAt ps (k + ((xs.drop k).takeWhile fun y => 0 ≤ f x y).length)) := by
  induction n generalizing k with
  | zero => omega
  | succ n ih =>
    have hlt : k < xs.length := by omega
    have hdata := dataAt_linkAt hh (List.getElem?_eq_getElem hlt)
    rw [List.drop_eq_getElem_cons hlt, List.takeWhile_cons] at hk hn ⊢
    unfold sortPlace
    simp only [hdata, nextLink_linkAt hh (hh.length_eq ▸ hlt), Option.bind_eq_bind,
      Option.bind_some]
    by_cases hf : 0 ≤ f x xs[k]
    · simp only [hf, decide_true, if_true, List.length_cons] at hk hn ⊢
      rw [ih (by omega) (by omega)]
      congr 2
      omega
    · simp [hf]

theorem insertIdx_takeWhile (p : α → Bool) (xs : List α) (x : α) :
    xs.insertIdx (xs.takeWhile p).length x = xs.takeWhile p ++ x :: xs.dropWhile p := by
  induction xs with
  | nil => rfl
  | cons y ys ih =>
    by_cases hy : p y
    · simp [hy, ih]
    · simp [hy]

/-- A node that is less than the one before it is moved to its place among those before it. -/
theorem insert_move (rest : List α) (prev : α) (hlast : sorted.getLast? = some prev)
    (hlt : f x prev < 0) :
    ((sorted ++ x :: rest).takeWhile fun y => 0 ≤ f x y) =
        sorted.takeWhile (fun y => 0 ≤ f x y) ∧
      (sorted.takeWhile fun y => 0 ≤ f x y).length < sorted.length ∧
      ((sorted ++ x :: rest).eraseIdx sorted.length).insertIdx
          (sorted.takeWhile fun y => 0 ≤ f x y).length x =
        Lmt.listSortInsert f sorted x ++ rest := by
  obtain ⟨init, rfl⟩ := List.getLast?_eq_some_iff.mp hlast
  have hshort : ((init ++ [prev]).takeWhile fun y => 0 ≤ f x y).length <
      (init ++ [prev]).length := by
    apply lt_of_le_of_ne (List.takeWhile_sublist _).length_le
    intro heq
    have hall := (List.takeWhile_sublist _).eq_of_length heq
    have := List.takeWhile_eq_self_iff.mp hall prev (by simp)
    simp at this
    omega
  refine ⟨?_, hshort, ?_⟩
  · rw [List.takeWhile_append, if_neg hshort.ne]
  · rw [List.eraseIdx_append_of_length_le le_rfl, Nat.sub_self, List.eraseIdx_cons_zero]
    unfold Lmt.listSortInsert
    rw [hlast]
    dsimp only
    have htake : ((init ++ [prev]) ++ rest).takeWhile (fun y => 0 ≤ f x y) =
        (init ++ [prev]).takeWhile fun y => 0 ≤ f x y := by
      rw [List.takeWhile_append, if_neg hshort.ne]
    have hdrop : ((init ++ [prev]) ++ rest).dropWhile (fun y => 0 ≤ f x y) =
        (init ++ [prev]).dropWhile (fun y => 0 ≤ f x y) ++ rest := by
      rw [List.dropWhile_append, if_neg]
      intro hempty
      have hsplit := List.takeWhile_append_dropWhile (p := fun y => 0 ≤ f x y)
        (l := init ++ [prev])
      rw [List.isEmpty_iff.mp hempty, List.append_nil] at hsplit
      rw [hsplit] at hshort
      exact hshort.false
    have hinsert := insertIdx_takeWhile (fun y => 0 ≤ f x y) ((init ++ [prev]) ++ rest) x
    rw [htake, hdrop] at hinsert
    rw [if_pos hlt, hinsert, List.append_assoc, List.cons_append]

theorem exists_sortLoop (hh : Holds h ps (sorted ++ rest)) (hsorted : sorted ≠ [])
    (hn : rest.length < n) :
    ∃ h' ps', sortLoop f n h (linkAt ps (sorted.length - 1)) (linkAt ps sorted.length) =
        some (h', linkAt ps' ps'.length) ∧
      Holds h' ps' (rest.foldl (Lmt.listSortInsert f) sorted) := by
  induction n generalizing h ps sorted rest with
  | zero => omega
  | succ n ih =>
    have hlen := hh.length_eq
    have hpos := List.length_pos_of_ne_nil hsorted
    cases rest with
    | nil =>
      rw [List.append_nil] at hlen
      have hread := hh.linked.read_linkAt sorted.length hlen.ge
      rw [List.getElem?_eq_none hlen.le] at hread
      refine ⟨h, ps, ?_, by simpa using hh⟩
      unfold sortLoop
      simp [hread, hlen]
    | cons x rest =>
      rw [List.length_append, List.length_cons] at hlen
      obtain ⟨prev, hlast⟩ := List.getLast?_isSome.mpr hsorted |> Option.isSome_iff_exists.mp
      have hx : (sorted ++ x :: rest)[sorted.length]? = some x := by simp
      have hprev : (sorted ++ x :: rest)[sorted.length - 1]? = some prev := by
        rw [List.getElem?_append_left (by omega), ← List.getLast?_eq_getElem?, hlast]
      have hq : ps[sorted.length]? = some ps[sorted.length] :=
        List.getElem?_eq_getElem (by omega)
      have hread := hh.linked.read_linkAt sorted.length (by omega)
      rw [hq] at hread
      unfold sortLoop
      simp only [hread, dataAt_linkAt hh hx, dataAt_linkAt hh hprev, Option.bind_eq_bind,
        Option.bind_some, List.foldl_cons]
      by_cases hf : f x prev < 0
      · obtain ⟨htake, hshort, hinsert⟩ := insert_move rest prev hlast hf
        set i := (sorted.takeWhile fun y => 0 ≤ f x y).length with hi
        set ps' := (ps.eraseIdx sorted.length).insertIdx i ps[sorted.length] with hps'
        obtain ⟨h₁, h₂, h₃, hwrite₁, hread₁, hwrite₂, hwrite₃, hh₃⟩ :=
          hh.exists_move hshort hq hx
        rw [hinsert] at hh₃
        have hplace := sortPlace_eq (f := f) (x := x) (k := 0) (n := h.nodes.keys.card + 1) hh
          (by rw [List.drop_zero, htake, List.length_append]; omega)
          (by rw [List.drop_zero, htake, hh.card_keys]; omega)
        rw [List.drop_zero, htake, ← hi, linkAt_zero, Nat.zero_add] at hplace
        have hpp : linkAt ps sorted.length = linkAt ps' (sorted.length + 1) := by
          rw [hps', linkAt_insertIdx_of_gt hshort, linkAt_eraseIdx_of_le le_rfl]
        have hlen' : (Lmt.listSortInsert f sorted x).length = sorted.length + 1 := by
          simpa using (perm_listSortInsert f sorted x).length_eq
        have hnext := ih hh₃ (List.ne_nil_of_length_eq_add_one hlen') (by simpa using hn)
        rw [hlen', Nat.add_sub_cancel, ← hpp] at hnext
        -- the place before the next node is moved on when the new node is put there
        have hppPrev : (if linkAt ps (sorted.length - 1) = linkAt ps i then
            nextLink h₃ (linkAt ps (sorted.length - 1))
            else some (linkAt ps (sorted.length - 1))) = some (linkAt ps' sorted.length) := by
          by_cases hlast' : sorted.length - 1 = i
          · have hlink : nextLink h₃ (linkAt ps' i) = some (linkAt ps' (i + 1)) :=
              nextLink_linkAt hh₃ (by rw [hh₃.length_eq, List.length_append, hlen']; omega)
            rw [hps', linkAt_insertIdx_of_le le_rfl, linkAt_eraseIdx_of_le hshort.le, ← hps',
              show i + 1 = sorted.length by omega] at hlink
            rw [hlast', if_pos rfl, hlink]
          · have hne : linkAt ps (sorted.length - 1) ≠ linkAt ps i := fun heq =>
              hlast' (linkAt_inj hh.linked.nodup (by omega) (by omega) heq)
            have hlink : linkAt ps' (sorted.length - 1 + 1) = linkAt ps (sorted.length - 1) := by
              rw [hps', linkAt_insertIdx_of_gt (by omega), linkAt_eraseIdx_of_le (by omega)]
            rw [Nat.sub_add_cancel hpos] at hlink
            rw [if_neg hne, hlink]
        simpa [hf, hplace, hh.linked.read_next hq, hh.linked.read_linkAt i (by omega), hwrite₁,
          hread₁, hwrite₂, hwrite₃, hppPrev] using hnext
      · have hstay : Lmt.listSortInsert f sorted x = sorted ++ [x] := by
          unfold Lmt.listSortInsert
          rw [hlast]
          exact if_neg hf
        rw [if_neg hf, hstay, ← linkAt_succ hq]
        have hh' : Holds h ps ((sorted ++ [x]) ++ rest) := by simpa using hh
        have hnext := ih hh' (by simp) (by simpa using hn)
        simpa using hnext

end

end Lmt.Lsd
