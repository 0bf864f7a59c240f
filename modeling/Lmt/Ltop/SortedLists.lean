import Lmt.Ltop.DrawnCounts
import Lmt.Ltop.ServerOrder

/-!
# The order of what is drawn

New samples, new summaries and the keys that choose a column all change what the
order of the lists should be. The lists are sorted again only where a flag asks
for it. What is drawn is in the order of the selected column all the same, after
any keys and any samples.

Every column but that of the servers compares by a value of the record, so that
its order is total. The names of the servers have to agree with their numbers.
-/

namespace Lmt

open FormattedText Runs

/-- The sign of a comparison is that of the keys. -/
structure SignOf {K : Type*} [LinearOrder K] (c : ℤ) (k1 k2 : K) : Prop where
  nonpos : c ≤ 0 ↔ k1 ≤ k2
  nonneg : 0 ≤ c ↔ k2 ≤ k1

theorem SignOf.neg {c : ℤ} {k1 k2 : ℚ} (h : SignOf c k1 k2) : SignOf (-1 * c) (-k1) (-k2) := by
  constructor
  · have hiff : -1 * c ≤ 0 ↔ 0 ≤ c := by omega
    rw [hiff, h.nonneg, neg_le_neg_iff]
  · have hiff : 0 ≤ -1 * c ↔ c ≤ 0 := by omega
    rw [hiff, h.nonpos, neg_le_neg_iff]

theorem signOf_compare (k1 k2 : ℚ) :
    SignOf (if k1 = k2 then 0 else if k1 < k2 then -1 else 1) k1 k2 := by
  rcases lt_trichotomy k1 k2 with hlt | rfl | hgt
  · rw [if_neg hlt.ne, if_pos hlt]
    constructor
    · simpa using hlt.le
    · simpa using hlt
  · rw [if_pos rfl]
    constructor <;> simp
  · rw [if_neg hgt.ne', if_neg hgt.not_gt]
    constructor
    · simpa using hgt
    · simpa using hgt.le

theorem signOf_strcmp (s1 s2 : Text) : SignOf (strcmp s1 s2) s1 s2 := by
  constructor
  · exact strcmp_nonpos
  · rw [strcmp_neg_comm, ← strcmp_nonpos]
    omega

theorem signOf_sampleValCmp (s1 s2 : Sample ℚ) (tnow : ℤ) :
    SignOf (sampleValCmp s1 s2 tnow) (sampleVal s1 tnow) (sampleVal s2 tnow) :=
  signOf_compare _ _

theorem signOf_sampleRateCmp (s1 s2 : Sample ℚ) (tnow : ℤ) :
    SignOf (sampleRateCmp s1 s2 tnow) (sampleRate s1 tnow) (sampleRate s2 tnow) :=
  signOf_compare _ _

section

variable {R : Type*}

/-- On these records the comparison of the column is a total preorder. -/
structure SortCol.Compares (col : SortCol R) (tnow : ℤ) (tgtData : List R) : Prop where
  total : ∀ a ∈ tgtData, ∀ b ∈ tgtData, 0 ≤ col.fn tnow a b → col.fn tnow b a ≤ 0
  trans : ∀ a ∈ tgtData, ∀ b ∈ tgtData, ∀ c ∈ tgtData,
    col.fn tnow a b ≤ 0 → col.fn tnow b c ≤ 0 → col.fn tnow a c ≤ 0

theorem SortCol.compares_of_signOf {K : Type*} [LinearOrder K] {col : SortCol R} {tnow : ℤ}
    (key : R → K) (h : ∀ a b, SignOf (col.fn tnow a b) (key a) (key b)) (tgtData : List R) :
    col.Compares tnow tgtData := by
  constructor
  · intro a _ b _ hab
    exact (h b a).nonpos.mpr ((h a b).nonneg.mp hab)
  · intro a _ b _ c _ hab hbc
    exact (h a c).nonpos.mpr (((h a b).nonpos.mp hab).trans ((h b c).nonpos.mp hbc))

theorem compares_byRate (sample : R → Sample ℚ) (k : Char) (tnow : ℤ) (tgtData : List R) :
    (byRate sample k).Compares tnow tgtData :=
  SortCol.compares_of_signOf _ (fun _ _ => (signOf_sampleRateCmp _ _ _).neg) tgtData

theorem compares_byVal (sample : R → Sample ℚ) (k : Char) (tnow : ℤ) (tgtData : List R) :
    (byVal sample k).Compares tnow tgtData :=
  SortCol.compares_of_signOf _ (fun _ _ => (signOf_sampleValCmp _ _ _).neg) tgtData

end

def ostServers (ostData : List (Oststat ℚ)) : Set Text :=
  {name | ∃ o ∈ ostData, o.common.servername = name}

def mdtServers (mdtData : List (Mdtstat ℚ)) : Set Text :=
  {name | ∃ m ∈ mdtData, m.common.servername = name}

section

variable {R : Type*} (common : R → GenericTarget ℚ) {col : SortCol R} {tnow : ℤ}

theorem compares_byserver
    (hcol : ∀ a b, col.fn tnow a b = cmpTgtstatByserver (common a) (common b)) {tgtData : List R}
    (h : SeriesAgree {name | ∃ a ∈ tgtData, (common a).servername = name}) :
    col.Compares tnow tgtData := by
  constructor
  · intro a _ b _ hab
    rw [hcol] at *
    unfold cmpTgtstatByserver at *
    rw [cmpServerNames_neg_comm]
    omega
  · intro a ha b hb c hc hab hbc
    rw [hcol] at *
    exact cmpServerNames_trans h ⟨a, ha, rfl⟩ ⟨b, hb, rfl⟩ ⟨c, hc, rfl⟩ hab hbc

theorem compares_bytarget
    (hcol : ∀ a b, col.fn tnow a b = cmpTgtstatBytarget (common a) (common b))
    (tgtData : List R) : col.Compares tnow tgtData := by
  refine SortCol.compares_of_signOf (fun a => (common a).name) (fun a b => ?_) tgtData
  rw [hcol]
  exact signOf_strcmp _ _

end

/-- Each column of the OST window is consistent, that of the servers if their names agree. -/
theorem compares_ostCol {index : ℕ} {col : SortCol (Oststat ℚ)} (h : ostCol[index]? = some col)
    (tnow : ℤ) {ostData : List (Oststat ℚ)}
    (hseries : index = 2 → SeriesAgree (ostServers ostData)) :
    col.Compares tnow ostData := by
  match index, h with
  | 0, rfl => exact compares_bytarget Oststat.common (fun _ _ => rfl) ostData
  | 1, rfl => exact ⟨fun _ _ _ _ _ => le_rfl, fun _ _ _ _ _ _ _ _ => le_rfl⟩
  | 2, rfl => exact compares_byserver Oststat.common (fun _ _ => rfl) (hseries rfl)
  | 3, rfl => exact SortCol.compares_of_signOf _ (fun _ _ => signOf_sampleValCmp _ _ _) ostData
  | 4, rfl => exact compares_byRate _ _ tnow ostData
  | 5, rfl => exact compares_byRate _ _ tnow ostData
  | 6, rfl => exact compares_byRate _ _ tnow ostData
  | 7, rfl => exact compares_byRate _ _ tnow ostData
  | 8, rfl => exact compares_byVal _ _ tnow ostData
  | 9, rfl => exact compares_byVal _ _ tnow ostData
  | 10, rfl => exact compares_byVal _ _ tnow ostData
  | 11, rfl =>
    exact SortCol.compares_of_signOf _ (fun _ _ => (signOf_sampleValCmp _ _ _).neg) ostData
  | 12, rfl =>
    exact SortCol.compares_of_signOf _ (fun _ _ => (signOf_sampleValCmp _ _ _).neg) ostData
  | 13, rfl => exact SortCol.compares_of_signOf _ (fun _ _ => (signOf_compare _ _).neg) ostData

theorem compares_mdtCol {index : ℕ} {col : SortCol (Mdtstat ℚ)} (h : mdtCol[index]? = some col)
    (tnow : ℤ) {mdtData : List (Mdtstat ℚ)}
    (hseries : index = 1 → SeriesAgree (mdtServers mdtData)) :
    col.Compares tnow mdtData := by
  match index, h with
  | 0, rfl => exact compares_bytarget Mdtstat.common (fun _ _ => rfl) mdtData
  | 1, rfl => exact compares_byserver Mdtstat.common (fun _ _ => rfl) (hseries rfl)
  | 2, rfl => exact compares_byRate _ _ tnow mdtData
  | 3, rfl => exact compares_byRate _ _ tnow mdtData
  | 4, rfl => exact compares_byRate _ _ tnow mdtData
  | 5, rfl => exact compares_byRate _ _ tnow mdtData
  | 6, rfl => exact compares_byRate _ _ tnow mdtData
  | 7, rfl => exact compares_byRate _ _ tnow mdtData
  | 8, rfl => exact compares_byRate _ _ tnow mdtData
  | 9, rfl => exact compares_byRate _ _ tnow mdtData
  | 10, rfl =>
    exact SortCol.compares_of_signOf _ (fun _ _ => (signOf_sampleValCmp _ _ _).neg) mdtData
  | 11, rfl =>
    exact SortCol.compares_of_signOf _ (fun _ _ => (signOf_sampleValCmp _ _ _).neg) mdtData
  | 12, rfl => exact SortCol.compares_of_signOf _ (fun _ _ => (signOf_compare _ _).neg) mdtData
  | 13, rfl => exact SortCol.compares_of_signOf _ (fun _ _ => (signOf_compare _ _).neg) mdtData

section

variable {R : Type*} {cols : List (SortCol R)} {index : ℕ} {tnow : ℤ} {tgtData : List R}

/-- There is such a column, and the list is in its order if it is consistent. -/
def InOrder (cols : List (SortCol R)) (index : ℕ) (tnow : ℤ) (tgtData : List R) : Prop :=
  ∃ col, cols[index]? = some col ∧
    (col.Compares tnow tgtData → tgtData.Pairwise fun a b => col.fn tnow a b ≤ 0)

theorem inOrder_nil (h : index < cols.length) (tnow : ℤ) : InOrder cols index tnow [] :=
  ⟨cols[index], List.getElem?_eq_getElem h, fun _ => List.Pairwise.nil⟩

theorem inOrder_sortTgtlist (h : index < cols.length) (tnow : ℤ) (tgtData : List R) :
    InOrder cols index tnow (sortTgtlist cols index tnow tgtData) := by
  have hcol : cols[index]? = some cols[index] := List.getElem?_eq_getElem h
  refine ⟨cols[index], hcol, ?_⟩
  unfold sortTgtlist
  rw [hcol]
  intro hcompares
  have hmem : ∀ a ∈ tgtData, a ∈ listSort (cols[index].fn tnow) tgtData :=
    fun a ha => (mem_listSort _).mpr ha
  apply pairwise_listSort (P := (· ∈ listSort (cols[index].fn tnow) tgtData))
  · exact fun a b ha hb => hcompares.total a ha b hb
  · exact fun a b c ha hb hc => hcompares.trans a ha b hb c hc
  · exact hmem

/-- A change of the records that the columns do not see does not change the order. -/
theorem inOrder_map {f : R → R}
    (hf : ∀ col ∈ cols, ∀ a b, col.fn tnow (f a) (f b) = col.fn tnow a b) :
    InOrder cols index tnow (tgtData.map f) ↔ InOrder cols index tnow tgtData := by
  unfold InOrder
  apply exists_congr
  intro col
  apply and_congr_right
  intro hcol
  have hsame := hf col (List.mem_of_getElem? hcol)
  have hcompares : col.Compares tnow (tgtData.map f) ↔ col.Compares tnow tgtData := by
    constructor
    · intro h
      constructor
      · intro a ha b hb hab
        have hmap := h.total (f a) (List.mem_map_of_mem ha) (f b) (List.mem_map_of_mem hb)
        rw [hsame, hsame] at hmap
        exact hmap hab
      · intro a ha b hb c hc hab hbc
        have hmap := h.trans (f a) (List.mem_map_of_mem ha) (f b) (List.mem_map_of_mem hb) (f c)
          (List.mem_map_of_mem hc)
        rw [hsame, hsame, hsame] at hmap
        exact hmap hab hbc
    · intro h
      constructor
      · simp only [List.forall_mem_map, hsame]
        exact h.total
      · simp only [List.forall_mem_map, hsame]
        exact h.trans
  rw [hcompares, List.pairwise_map]
  simp only [hsame]

end

def SameButTags {V : Type*} (ostData ostData' : List (Oststat V)) : Prop :=
  clearTags ostData = clearTags ostData'

theorem sameButTags_clearTags {V : Type*} (ostData : List (Oststat V)) :
    SameButTags (clearTags ostData) ostData := by
  unfold SameButTags clearTags
  rw [List.map_map]
  rfl

theorem sameButTags_toggleNth {V : Type*} (selost n : ℤ) (ostData : List (Oststat V)) :
    SameButTags (toggleNth selost n ostData).1 ostData := by
  unfold SameButTags clearTags
  induction ostData generalizing n with
  | nil => rfl
  | cons o ostData ih =>
    unfold toggleNth
    split_ifs
    · rfl
    · simp [ih]

theorem sameButTags_tagOstByoss {V : Type*} (ostData : List (Oststat V)) (ossname : Text)
    (tagval : Bool) : SameButTags (tagOstByoss ostData ossname tagval) ostData := by
  unfold SameButTags clearTags tagOstByoss
  rw [List.map_map]
  apply List.map_congr_left
  intro o _
  rw [Function.comp_apply]
  split_ifs <;> rfl

theorem sameButTags_tagNthOst {V : Type*} (ostData : List (Oststat V)) (selost : ℤ)
    (ostData2 : Option (List (Oststat V))) :
    SameButTags (tagNthOst ostData selost ostData2).1 ostData := by
  unfold tagNthOst
  dsimp only
  split <;> exact sameButTags_toggleNth _ _ _

theorem sameButTags_tagNthOst_targets {V : Type*} (ossData : List (Oststat V)) (selost : ℤ)
    (ostData : List (Oststat V)) :
    SameButTags ((tagNthOst ossData selost (some ostData)).2.getD ostData) ostData := by
  unfold tagNthOst
  dsimp only
  cases (toggleNth selost 0 ossData).2 with
  | none => rfl
  | some o => exact sameButTags_tagOstByoss _ _ _

theorem SameButTags.inOrder {ostData ostData' : List (Oststat ℚ)} {index : ℕ} {tnow : ℤ}
    (hsame : SameButTags ostData' ostData) (h : InOrder ostCol index tnow ostData) :
    InOrder ostCol index tnow ostData' := by
  have hcol : ∀ col ∈ ostCol, ∀ a b : Oststat ℚ,
      col.fn tnow (a.setTag false) (b.setTag false) = col.fn tnow a b := by
    intro col hcol a b
    simp only [ostCol, List.mem_cons, List.not_mem_nil, or_false] at hcol
    rcases hcol with rfl | rfl | rfl | rfl | rfl | rfl | rfl | rfl | rfl | rfl | rfl | rfl | rfl |
      rfl <;> rfl
  rw [← inOrder_map hcol] at h ⊢
  unfold SameButTags clearTags at hsame
  rw [hsame]
  exact h

namespace Ltop

/-- The columns that are selected exist. -/
structure InColumns (s : Ltop) : Prop where
  ostFp_lt : s.ostFp < ostCol.length
  mdtFp_lt : s.mdtFp < mdtCol.length

/-- All lists are in the order of the selected columns. -/
structure ListsInOrder (s : Ltop) : Prop where
  osts : InOrder ostCol s.ostFp s.tcycle s.lists.ostData
  mdts : InOrder mdtCol s.mdtFp s.tcycle s.lists.mdtData
  osss : InOrder ostCol s.ostFp s.tcycle s.ossData
  mdss : InOrder mdtCol s.mdtFp s.tcycle s.mdsData

def Ready (s : Ltop) : Prop := s.recompute = true ∨ s.ListsInOrder

/-- The records of the MDSs are displayed, and their samples of the space were destroyed. -/
def DrawsDestroyed (s : Ltop) : Prop := s.mdtview = false ∧ s.mdsDestroyed = true

/-- The column of the MDT window that compares the space in use. -/
def spcCol : ℕ := 12

/-- What is displayed is in the order of the selected columns, by server if their names
agree, and by the space in use if its samples exist. -/
structure DrawnInOrder (s : Ltop) : Prop where
  osts : (s.ostFp = 2 → SeriesAgree (ostServers s.displayedOsts)) →
    ∃ col, ostCol[s.ostFp]? = some col ∧
      s.displayedOsts.Pairwise fun o1 o2 => col.fn s.tcycle o1 o2 ≤ 0
  mdts : (s.mdtFp = 1 → SeriesAgree (mdtServers s.displayedMdts)) →
    (s.mdtFp = spcCol → ¬s.DrawsDestroyed) →
    ∃ col, mdtCol[s.mdtFp]? = some col ∧
      s.displayedMdts.Pairwise fun m1 m2 => col.fn s.tcycle m1 m2 ≤ 0

theorem ListsInOrder.drawnInOrder {s : Ltop} (h : s.ListsInOrder) : s.DrawnInOrder := by
  have hosts : InOrder ostCol s.ostFp s.tcycle s.displayedOsts := by
    unfold displayedOsts
    split_ifs
    · exact h.osts
    · exact h.osss
  have hmdts : InOrder mdtCol s.mdtFp s.tcycle s.displayedMdts := by
    unfold displayedMdts
    split_ifs
    · exact h.mdts
    · exact h.mdss
  constructor
  · intro hseries
    obtain ⟨col, hcol, hpairs⟩ := hosts
    exact ⟨col, hcol, hpairs (compares_ostCol hcol s.tcycle hseries)⟩
  · intro hseries _
    obtain ⟨col, hcol, hpairs⟩ := hmdts
    exact ⟨col, hcol, hpairs (compares_mdtCol hcol s.tcycle hseries)⟩

section

variable {number : Reading → ℚ} {s : Ltop}

theorem ListsInOrder.deleteKey (h : s.ListsInOrder) : s.deleteKey.ListsInOrder := by
  constructor
  · exact (sameButTags_clearTags _).inOrder h.osts
  · exact h.mdts
  · exact (sameButTags_clearTags _).inOrder h.osss
  · exact h.mdss

theorem ListsInOrder.tagKey (h : s.ListsInOrder) : s.tagKey.ListsInOrder := by
  unfold Ltop.tagKey
  split_ifs
  · exact ⟨(sameButTags_tagNthOst _ _ _).inOrder h.osts, h.mdts, h.osss, h.mdss⟩
  · constructor
    · exact (sameButTags_tagNthOst_targets _ _ _).inOrder h.osts
    · exact h.mdts
    · exact (sameButTags_tagNthOst _ _ _).inOrder h.osss
    · exact h.mdss

theorem listsInOrder_sortKey (hcols : s.InColumns) (h : s.ListsInOrder) (k : Char) :
    (s.sortKey k).ListsInOrder := by
  unfold sortKey
  by_cases hk : k ∉ sortKeys
  · rw [if_pos hk]
    exact h
  · rw [if_neg hk]
    by_cases hwin : s.nav.inOstwin
    · rw [if_pos hwin]
      have hlt := getSortIndex_lt k hcols.ostFp_lt
      exact ⟨inOrder_sortTgtlist hlt _ _, h.mdts, inOrder_sortTgtlist hlt _ _, h.mdss⟩
    · rw [if_neg hwin]
      have hlt := getSortIndex_lt k hcols.mdtFp_lt
      exact ⟨h.osts, inOrder_sortTgtlist hlt _ _, h.osss, inOrder_sortTgtlist hlt _ _⟩

theorem inColumns_sortKey (h : s.InColumns) (k : Char) : (s.sortKey k).InColumns := by
  unfold sortKey
  by_cases hk : k ∉ sortKeys
  · rw [if_pos hk]
    exact h
  · rw [if_neg hk]
    by_cases hwin : s.nav.inOstwin
    · rw [if_pos hwin]
      exact ⟨getSortIndex_lt k h.ostFp_lt, h.mdtFp_lt⟩
    · rw [if_neg hwin]
      exact ⟨h.ostFp_lt, getSortIndex_lt k h.mdtFp_lt⟩

/-- The lists, and what their order depends on, are the same. -/
structure KeepsLists (s k : Ltop) : Prop where
  ostFp_eq : k.ostFp = s.ostFp
  mdtFp_eq : k.mdtFp = s.mdtFp
  tcycle_eq : k.tcycle = s.tcycle
  lists_eq : k.lists = s.lists
  ossData_eq : k.ossData = s.ossData
  mdsData_eq : k.mdsData = s.mdsData

theorem KeepsLists.inColumns {k : Ltop} (h : KeepsLists s k) (hs : s.InColumns) : k.InColumns := by
  constructor
  · rw [h.ostFp_eq]
    exact hs.ostFp_lt
  · rw [h.mdtFp_eq]
    exact hs.mdtFp_lt

theorem KeepsLists.listsInOrder {k : Ltop} (h : KeepsLists s k) (hs : s.ListsInOrder) :
    k.ListsInOrder := by
  obtain ⟨hostFp, hmdtFp, htcycle, hlists, hoss, hmds⟩ := h
  constructor
  · rw [hostFp, htcycle, hlists]
    exact hs.osts
  · rw [hmdtFp, htcycle, hlists]
    exact hs.mdts
  · rw [hostFp, htcycle, hoss]
    exact hs.osss
  · rw [hmdtFp, htcycle, hmds]
    exact hs.mdss

theorem keepsLists_setFs (newfs : Text) : KeepsLists s (s.setFs newfs) := by
  unfold setFs
  split_ifs <;> exact ⟨rfl, rfl, rfl, rfl, rfl, rfl⟩

theorem keepsLists_fsKey {tnow : ℤ} {cerebro : Cerebro} {keys : List MenuKey} {k : Ltop}
    (h : s.fsKey number tnow cerebro keys = some k) : KeepsLists s k := by
  unfold fsKey at h
  obtain ⟨r, -, rfl⟩ := Option.map_eq_some_iff.mp h
  cases chooseFs r.1 0 keys with
  | none => exact ⟨rfl, rfl, rfl, rfl, rfl, rfl⟩
  | some fs =>
    obtain ⟨hostFp, hmdtFp, htcycle, hlists, hoss, hmds⟩ :=
      keepsLists_setFs (s := { s with playf := r.2 }) fs
    exact ⟨hostFp, hmdtFp, htcycle, hlists, hoss, hmds⟩

theorem keepsLists_recordKey : KeepsLists s s.recordKey := by
  unfold recordKey
  split_ifs <;> exact ⟨rfl, rfl, rfl, rfl, rfl, rfl⟩

/-- A key that plays the file asks for new summaries, and with them to sort. -/
theorem playKey_cases {play : Player ℚ → Option (Player ℚ)} {keyTime : ℤ} {k : Ltop}
    (h : s.playKey play keyTime = some k) :
    k = s ∨ (k.recompute = true ∧ k.ostFp = s.ostFp ∧ k.mdtFp = s.mdtFp) := by
  unfold playKey at h
  cases hfile : s.playf with
  | none =>
    rw [hfile] at h
    exact .inl (Option.some.inj h).symm
  | some f =>
    rw [hfile] at h
    obtain ⟨p, -, rfl⟩ := Option.map_eq_some_iff.mp h
    exact .inr ⟨rfl, rfl, rfl⟩

theorem ready_playKey {play : Player ℚ → Option (Player ℚ)} {keyTime : ℤ} {k : Ltop}
    (hcols : s.InColumns) (hs : s.ListsInOrder) (h : s.playKey play keyTime = some k) :
    k.InColumns ∧ k.Ready := by
  obtain rfl | ⟨hcompute, hostFp, hmdtFp⟩ := playKey_cases h
  · exact ⟨hcols, .inr hs⟩
  · refine ⟨⟨?_, ?_⟩, .inl hcompute⟩
    · rw [hostFp]
      exact hcols.ostFp_lt
    · rw [hmdtFp]
      exact hcols.mdtFp_lt

theorem ready_key {k : LtopKey} {keyTime : ℤ} {t : Ltop} (hcols : s.InColumns)
    (hs : s.ListsInOrder) (h : s.key number k keyTime = some t) : t.InColumns ∧ t.Ready := by
  have hkeeps : ∀ t, KeepsLists s t → t.InColumns ∧ t.Ready :=
    fun t ht => ⟨ht.inColumns hcols, .inr (ht.listsInOrder hs)⟩
  cases k with
  | fs tnow cerebro keys => exact hkeeps t (keepsLists_fsKey h)
  | left => exact ready_playKey hcols hs h
  | backspace => exact ready_playKey hcols hs h
  | right => exact ready_playKey hcols hs h
  | tab => exact ready_playKey hcols hs h
  | nav k =>
    obtain rfl := Option.some.inj h
    exact hkeeps _ ⟨rfl, rfl, rfl, rfl, rfl, rfl⟩
  | proportional =>
    obtain rfl := Option.some.inj h
    exact hkeeps _ ⟨rfl, rfl, rfl, rfl, rfl, rfl⟩
  | quit =>
    obtain rfl := Option.some.inj h
    exact hkeeps _ ⟨rfl, rfl, rfl, rfl, rfl, rfl⟩
  | help =>
    obtain rfl := Option.some.inj h
    exact hkeeps _ ⟨rfl, rfl, rfl, rfl, rfl, rfl⟩
  | timeout =>
    obtain rfl := Option.some.inj h
    exact hkeeps _ ⟨rfl, rfl, rfl, rfl, rfl, rfl⟩
  | other =>
    obtain rfl := Option.some.inj h
    exact hkeeps _ ⟨rfl, rfl, rfl, rfl, rfl, rfl⟩
  | pause =>
    obtain rfl := Option.some.inj h
    split_ifs <;> exact hkeeps _ ⟨rfl, rfl, rfl, rfl, rfl, rfl⟩
  | compress =>
    obtain rfl := Option.some.inj h
    unfold compressKey
    split_ifs <;> exact hkeeps _ ⟨rfl, rfl, rfl, rfl, rfl, rfl⟩
  | record =>
    obtain rfl := Option.some.inj h
    exact hkeeps _ keepsLists_recordKey
  | delete =>
    obtain rfl := Option.some.inj h
    exact ⟨⟨hcols.ostFp_lt, hcols.mdtFp_lt⟩, .inr hs.deleteKey⟩
  | tag =>
    obtain rfl := Option.some.inj h
    refine ⟨?_, .inr hs.tagKey⟩
    unfold Ltop.tagKey
    split_ifs <;> exact ⟨hcols.ostFp_lt, hcols.mdtFp_lt⟩
  | sort k =>
    obtain rfl := Option.some.inj h
    exact ⟨inColumns_sortKey hcols k, .inr (listsInOrder_sortKey hcols hs k)⟩

theorem ready_keyed {i : LtopInput} {k : Ltop} (hcols : s.InColumns) (hs : s.ListsInOrder)
    (h : s.keyed number i = some k) : k.InColumns ∧ k.Ready := by
  unfold keyed at h
  obtain ⟨t, ht, rfl⟩ := Option.map_eq_some_iff.mp h
  have hready := ready_key hcols hs ht
  unfold endHelp
  split
  · exact hready
  · exact hready
  · obtain ⟨hcols', hcompute | hs'⟩ := hready
    · exact ⟨⟨hcols'.ostFp_lt, hcols'.mdtFp_lt⟩, .inl hcompute⟩
    · exact ⟨⟨hcols'.ostFp_lt, hcols'.mdtFp_lt⟩, .inr ⟨hs'.osts, hs'.mdts, hs'.osss, hs'.mdss⟩⟩

theorem ready_emptyOut (hcols : s.InColumns) (hs : s.Ready) :
    s.emptyOut.InColumns ∧ s.emptyOut.Ready := by
  unfold emptyOut
  split_ifs
  · refine ⟨⟨hcols.ostFp_lt, hcols.mdtFp_lt⟩, ?_⟩
    obtain hcompute | hs := hs
    · exact .inl hcompute
    · exact .inr ⟨inOrder_nil hcols.ostFp_lt _, inOrder_nil hcols.mdtFp_lt _, hs.osss, hs.mdss⟩
  · exact ⟨hcols, hs⟩

theorem columns_sample {tnow : ℤ} {cerebro : Cerebro} {t : Ltop}
    (h : s.sample number tnow cerebro = some t) : t.ostFp = s.ostFp ∧ t.mdtFp = s.mdtFp := by
  unfold sample at h
  cases hfile : s.playf with
  | none =>
    rw [hfile] at h
    obtain rfl := Option.some.inj h
    exact ⟨rfl, rfl⟩
  | some f =>
    rw [hfile] at h
    obtain ⟨p, -, rfl⟩ := Option.map_eq_some_iff.mp h
    exact ⟨rfl, rfl⟩

theorem ready_resample {i : LtopInput} {t : Ltop} (hcols : s.InColumns) (hs : s.Ready)
    (h : s.resample number i = some t) : t.InColumns ∧ t.Ready := by
  unfold resample at h
  split_ifs at h with hdue
  · obtain ⟨u, hu, rfl⟩ := Option.map_eq_some_iff.mp h
    obtain ⟨hostFp, hmdtFp⟩ := columns_sample hu
    refine ⟨⟨?_, ?_⟩, .inl rfl⟩
    · show u.ostFp < ostCol.length
      rw [hostFp]
      exact hcols.ostFp_lt
    · show u.mdtFp < mdtCol.length
      rw [hmdtFp]
      exact hcols.mdtFp_lt
  · obtain rfl := Option.some.inj h
    exact ⟨hcols, hs⟩

theorem inOrder_sortLists (hcols : s.InColumns) (hs : s.resort = true ∨ s.ListsInOrder) :
    s.sortLists.InColumns ∧ s.sortLists.ListsInOrder := by
  unfold sortLists
  by_cases hresort : s.resort = true
  · rw [if_pos hresort]
    refine ⟨⟨hcols.ostFp_lt, hcols.mdtFp_lt⟩, ?_⟩
    constructor
    · exact inOrder_sortTgtlist hcols.ostFp_lt _ _
    · exact inOrder_sortTgtlist hcols.mdtFp_lt _ _
    · exact inOrder_sortTgtlist hcols.ostFp_lt _ _
    · exact inOrder_sortTgtlist hcols.mdtFp_lt _ _
  · rw [if_neg hresort]
    exact ⟨hcols, hs.resolve_left hresort⟩

theorem inOrder_relayout (lines : ℤ) (hcols : s.InColumns) (hs : s.Ready) :
    (s.relayout lines).InColumns ∧ (s.relayout lines).ListsInOrder := by
  unfold relayout
  have hcount : (s.count.resize lines).recompute = s.recompute ∧
      KeepsLists s (s.count.resize lines) := by
    unfold resize count
    split_ifs <;> exact ⟨rfl, ⟨rfl, rfl, rfl, rfl, rfl, rfl⟩⟩
  obtain ⟨hcompute, hkeeps⟩ := hcount
  have hcols' := hkeeps.inColumns hcols
  unfold summarize
  by_cases hrec : (s.count.resize lines).recompute = true
  · rw [if_pos hrec]
    exact inOrder_sortLists ⟨hcols'.ostFp_lt, hcols'.mdtFp_lt⟩ (.inl rfl)
  · rw [if_neg hrec]
    rw [hcompute] at hrec
    exact inOrder_sortLists hcols' (.inr (hkeeps.listsInOrder (hs.resolve_left hrec)))

theorem inOrder_pass (hcols : s.InColumns) (hs : s.ListsInOrder) (i : LtopInput) :
    (s.pass number i).InColumns ∧ (s.pass number i).ListsInOrder := by
  unfold Ltop.pass
  split_ifs with hended
  · exact ⟨hcols, hs⟩
  · cases hsampled : s.sampled number i with
    | none =>
      exact ⟨⟨hcols.ostFp_lt, hcols.mdtFp_lt⟩, ⟨hs.osts, hs.mdts, hs.osss, hs.mdss⟩⟩
    | some r =>
      unfold sampled at hsampled
      obtain ⟨k, hk, hr⟩ := Option.bind_eq_some_iff.mp hsampled
      obtain ⟨hcols₁, hs₁⟩ := ready_keyed hcols hs hk
      obtain ⟨hcols₂, hs₂⟩ := ready_emptyOut hcols₁ hs₁
      obtain ⟨hcols₃, hs₃⟩ := ready_resample hcols₂ hs₂ hr
      exact inOrder_relayout i.lines hcols₃ hs₃

theorem inOrder_begin (lines : ℤ) (hcols : s.InColumns) (hoss : s.ossData = [])
    (hmds : s.mdsData = []) : (s.begin lines).InColumns ∧ (s.begin lines).ListsInOrder := by
  refine ⟨⟨hcols.ostFp_lt, hcols.mdtFp_lt⟩, ?_⟩
  constructor
  · exact inOrder_sortTgtlist hcols.ostFp_lt _ _
  · exact inOrder_sortTgtlist hcols.mdtFp_lt _ _
  · show InOrder ostCol s.ostFp s.tcycle s.ossData
    rw [hoss]
    exact inOrder_nil hcols.ostFp_lt _
  · show InOrder mdtCol s.mdtFp s.tcycle s.mdsData
    rw [hmds]
    exact inOrder_nil hcols.mdtFp_lt _

theorem servers_sample {tnow : ℤ} {cerebro : Cerebro} {t : Ltop}
    (h : s.sample number tnow cerebro = some t) :
    t.ossData = s.ossData ∧ t.mdsData = s.mdsData := by
  unfold sample at h
  cases hfile : s.playf with
  | none =>
    rw [hfile] at h
    obtain rfl := Option.some.inj h
    exact ⟨rfl, rfl⟩
  | some f =>
    rw [hfile] at h
    obtain ⟨p, -, rfl⟩ := Option.map_eq_some_iff.mp h
    exact ⟨rfl, rfl⟩

theorem initFs_lists {o : Options} {tnow : ℤ} {cerebro : Cerebro}
    (h : initFs number o tnow cerebro = some s) :
    s.ostFp = 0 ∧ s.mdtFp = 0 ∧ s.ossData = [] ∧ s.mdsData = [] := by
  unfold initFs at h
  split_ifs at h
  · obtain rfl := Option.some.inj h
    exact ⟨rfl, rfl, rfl, rfl⟩
  · obtain ⟨r, -, hr⟩ := Option.bind_eq_some_iff.mp h
    obtain ⟨fs, -, rfl⟩ := Option.map_eq_some_iff.mp hr
    exact ⟨rfl, rfl, rfl, rfl⟩

theorem inOrder_start {o : Options} {findTime pollTime lines : ℤ} {findCerebro cerebro : Cerebro}
    (h : start number o findTime findCerebro pollTime cerebro lines = some s) :
    s.InColumns ∧ s.ListsInOrder := by
  unfold start at h
  obtain ⟨t, ht, hsampled⟩ := Option.bind_eq_some_iff.mp h
  obtain ⟨u, hu, hbegin⟩ := Option.bind_eq_some_iff.mp hsampled
  split_ifs at hbegin
  obtain rfl := Option.some.inj hbegin
  obtain ⟨hostFp, hmdtFp, hoss, hmds⟩ := initFs_lists ht
  obtain ⟨hostFp', hmdtFp'⟩ := columns_sample hu
  obtain ⟨hoss', hmds'⟩ := servers_sample hu
  have hcols : u.InColumns := by
    constructor
    · rw [hostFp', hostFp]
      decide
    · rw [hmdtFp', hmdtFp]
      decide
  exact inOrder_begin lines hcols (hoss'.trans hoss) (hmds'.trans hmds)

end

end Ltop

end Lmt
