import Lmt.Scripts.Rollup

/-!
# Starting again with days, weeks, months and years

A run over a longer table of hours starts each table again with its last period, and
writes the same as a run that starts from nothing: the periods before are complete, and
the last one is replaced.
-/

namespace Lmt

open Loops Runs

theorem updateVar_comm (v : AggSums) (a b : AggRow) :
    OtherAgg.updateVar (OtherAgg.updateVar v a) b =
      OtherAgg.updateVar (OtherAgg.updateVar v b) a := by
  have hsum (x : ℚ) (a b : Option ℚ) :
      b.elim (a.elim x fun y => x + y) (fun z => (a.elim x fun y => x + y) + z) =
        a.elim (b.elim x fun y => x + y) fun z => (b.elim x fun y => x + y) + z := by
    cases a <;> cases b <;> simp [add_right_comm]
  have hmin (x : ℚ) (a b : Option ℚ) :
      b.elim (a.elim x fun y => min x y) (fun z => min (a.elim x fun y => min x y) z) =
        a.elim (b.elim x fun y => min x y) fun z => min (b.elim x fun y => min x y) z := by
    cases a <;> cases b <;> simp [min_right_comm]
  have hmax (x : ℚ) (a b : Option ℚ) :
      b.elim (a.elim x fun y => max x y) (fun z => max (a.elim x fun y => max x y) z) =
        a.elim (b.elim x fun y => max x y) fun z => max (b.elim x fun y => max x y) z := by
    cases a <;> cases b <;> simp [max_right_comm]
  have hcount (x : ℕ) (a b : Option ℕ) :
      b.elim (a.elim x fun y => x + y) (fun z => (a.elim x fun y => x + y) + z) =
        a.elim (b.elim x fun y => x + y) fun z => (b.elim x fun y => x + y) + z := by
    cases a <;> cases b <;> simp [Nat.add_right_comm]
  simp only [OtherAgg.updateVar, hsum, hmin, hmax, hcount]

theorem periodRow_perm {rows rows' : List AggRow} (h : rows.Perm rows') :
    periodRow rows = periodRow rows' := by
  have hrun : run OtherAgg.updateVar OtherAgg.initVar rows =
      run OtherAgg.updateVar OtherAgg.initVar rows' :=
    h.foldl_eq' (fun a _ b _ v => updateVar_comm v a b) _
  rw [periodRow, periodRow, hrun, h.length_eq]

/-- A period depends on its own hours. -/
theorem keyRows_perm {h h' : AggTable} {interval : Interval} {k : AggKey}
    (heq : ∀ i, k.timestamp ≤ i.timestamp → i.timestamp < interval.next k.timestamp →
      h.find? i = h'.find? i) : (keyRows h interval k).Perm (keyRows h' interval k) := by
  have hnodup (t : AggTable) : t.rows.Nodup := List.Nodup.of_map _ t.nodup_keys
  refine List.Perm.map _ (List.Perm.filter _ ?_)
  refine (List.perm_ext_iff_of_nodup ((hnodup h).filter _) ((hnodup h').filter _)).mpr fun r => ?_
  simp only [List.mem_filter, decide_eq_true_eq]
  refine and_congr_left fun hr => ?_
  have hfind := heq r.1 hr.1 hr.2.1
  rw [← Prod.mk.eta (p := r), ← KeyedTable.find?_eq_some, ← KeyedTable.find?_eq_some, hfind]

theorem mem_timestamps {t : AggTable} {u : DateTime} :
    u ∈ t.timestamps ↔ ∃ k : AggKey, k.timestamp = u ∧ (t.find? k).isSome := by
  simp only [← KeyedTable.mem_keys_iff, AggTable.timestamps, KeyedTable.keys, List.mem_map]
  constructor
  · rintro ⟨r, hr, rfl⟩
    exact ⟨r.1, rfl, r, hr, rfl⟩
  · rintro ⟨_, rfl, r, hr, rfl⟩
    exact ⟨r, hr, rfl⟩

/-- A table of hours after its final hour has been written again, and later ones have
been added. -/
structure GrowsInTime (h h' : AggTable) : Prop where
  earlier : ∀ final ∈ getFinalTimestamp h.timestamps, ∀ k : AggKey, k.timestamp < final →
    h'.find? k = h.find? k
  kept : ∀ final ∈ getFinalTimestamp h.timestamps, ∀ k : AggKey, k.timestamp = final →
    (h.find? k).isSome → (h'.find? k).isSome

section

variable {h h' : AggTable} (hgrow : GrowsInTime h h') {first final : DateTime}
variable (hfirst : getFirstTimestamp h.timestamps none = some first)
variable (hfinal : getFinalTimestamp h.timestamps = some final)

include hgrow hfinal

theorem isSome_of_grows {k : AggKey} (hk : (h.find? k).isSome) : (h'.find? k).isSome := by
  have hle := (getFinalTimestamp_eq_some.mp hfinal).2 _ (mem_timestamps.mpr ⟨k, rfl, hk⟩)
  rcases hle.lt_or_eq with hlt | heq
  · rwa [hgrow.earlier final hfinal k hlt]
  · exact hgrow.kept final hfinal k heq hk

theorem mem_timestamps_of_grows {t : DateTime} (ht : t ∈ h.timestamps) : t ∈ h'.timestamps := by
  obtain ⟨k, hk, hsome⟩ := mem_timestamps.mp ht
  exact mem_timestamps.mpr ⟨k, hk, isSome_of_grows hgrow hfinal hsome⟩

theorem exists_final_of_grows :
    ∃ final', getFinalTimestamp h'.timestamps = some final' ∧ final ≤ final' := by
  have hmem := mem_timestamps_of_grows hgrow hfinal (getFinalTimestamp_eq_some.mp hfinal).1
  cases hfinal' : getFinalTimestamp h'.timestamps with
  | none =>
    rw [getFinalTimestamp_eq_none.mp hfinal'] at hmem
    cases hmem
  | some final' => exact ⟨final', rfl, (getFinalTimestamp_eq_some.mp hfinal').2 final hmem⟩

theorem keyRows_ne_nil_of_grows {interval : Interval} {k : AggKey}
    (hrows : keyRows h interval k ≠ []) : keyRows h' interval k ≠ [] := by
  obtain ⟨row, hrow⟩ := List.exists_mem_of_ne_nil _ hrows
  obtain ⟨r, hr, -⟩ := List.mem_map.mp hrow
  obtain ⟨hr, hid⟩ := List.mem_filter.mp hr
  obtain ⟨hr, hperiod⟩ := List.mem_filter.mp hr
  have hsome : (h.find? r.1).isSome := KeyedTable.mem_keys_iff.mp (List.mem_map_of_mem hr)
  obtain ⟨row', hrow'⟩ := Option.isSome_iff_exists.mp (isSome_of_grows hgrow hfinal hsome)
  have hmem : (r.1, row') ∈ h'.rows := KeyedTable.find?_eq_some.mp hrow'
  exact List.ne_nil_of_mem (List.mem_map_of_mem (List.mem_filter.mpr
    ⟨List.mem_filter.mpr ⟨hmem, hperiod⟩, hid⟩))

/-- A period that ends before the final hour is complete. -/
theorem keyRows_perm_of_grows {interval : Interval} {k : AggKey}
    (hend : interval.next k.timestamp ≤ final) :
    (keyRows h interval k).Perm (keyRows h' interval k) :=
  keyRows_perm fun i _ hi => (hgrow.earlier final hfinal i (hi.trans_le hend)).symm

include hfirst

theorem first_of_grows : getFirstTimestamp h'.timestamps none = some first := by
  obtain ⟨hmem, hmin⟩ := getFirstTimestamp_eq_some.mp hfirst
  refine getFirstTimestamp_eq_some.mpr ⟨mem_timestamps_of_grows hgrow hfinal hmem, fun u hu => ?_⟩
  rcases lt_or_ge u final with hlt | hge
  · obtain ⟨k, rfl, hk⟩ := mem_timestamps.mp hu
    rw [hgrow.earlier final hfinal k hlt] at hk
    exact hmin _ (mem_timestamps.mpr ⟨k, rfl, hk⟩)
  · exact ((getFinalTimestamp_eq_some.mp hfinal).2 _ hmem).trans hge

end

/-- A period before the restart ends before it, so it is complete; the restart is
written again with all rows it had. -/
theorem find?_update_update {h h' : AggTable} (hgrow : GrowsInTime h h') {interval : Interval}
    {start final final' : DateTime} (hfinal : getFinalTimestamp h.timestamps = some final)
    (hstored : StoredTime final) (hstored' : StoredTime final') (hle : start ≤ final)
    (hfinals : final ≤ final') (k : AggKey) :
    (updateAggTable h' interval
        ((getFinalTimestamp
          (updateAggTable h interval start final .empty).timestamps).getD start) final'
        (updateAggTable h interval start final .empty)).find? k =
      (updateAggTable h' interval start final' .empty).find? k := by
  have hwritten (k : AggKey) : PeriodWritten h interval (periods interval start final) k ↔
      ((updateAggTable h interval start final .empty).find? k).isSome := by
    rw [find?_updateAggTable]
    split_ifs with hk
    · simp [hk]
    · simp [hk]
  cases hlast : getFinalTimestamp (updateAggTable h interval start final .empty).timestamps with
  | none =>
    have hnone : (updateAggTable h interval start final .empty).find? k = none := by
      rw [← Option.not_isSome_iff_eq_none]
      intro hk
      have hmem := mem_timestamps.mpr ⟨k, rfl, hk⟩
      rw [getFinalTimestamp_eq_none.mp hlast] at hmem
      cases hmem
    rw [Option.getD_none, find?_updateAggTable, hnone, find?_updateAggTable, KeyedTable.find?_empty]
  | some last =>
    obtain ⟨hmem, hmax⟩ := getFinalTimestamp_eq_some.mp hlast
    obtain ⟨k', rfl, hk'⟩ := mem_timestamps.mp hmem
    have hperiod := ((hwritten k').mpr hk').2.1
    have hle' := le_final_of_mem_periods hstored hle hperiod
    have hfrom := mem_periods_from hstored hle hperiod hfinals hstored' (b := k.timestamp)
    rw [Option.getD_some, find?_updateAggTable, find?_updateAggTable h' interval start]
    by_cases hnew : PeriodWritten h' interval (periods interval k'.timestamp final') k
    · obtain ⟨hid, htime, hrows⟩ := hnew
      rw [if_pos ⟨hid, htime, hrows⟩, if_pos ⟨hid, (hfrom.mpr htime).1, hrows⟩]
    rw [if_neg hnew]
    rcases lt_or_ge k.timestamp k'.timestamp with hlt | hge
    · -- a period before the restart
      have htimes : k.timestamp ∈ periods interval start final ↔
          k.timestamp ∈ periods interval start final' :=
        mem_periods_congr hstored hle hfinals hstored' (hlt.trans_le hle')
      rw [find?_updateAggTable]
      by_cases htime : k.timestamp ∈ periods interval start final
      · have hend := next_le_of_mem_periods hstored hle htime hperiod hlt
        have hperm := keyRows_perm_of_grows hgrow hfinal (hend.trans hle')
        have hnil : keyRows h interval k = [] ↔ keyRows h' interval k = [] := by
          rw [← List.length_eq_zero_iff, hperm.length_eq, List.length_eq_zero_iff]
        refine if_congr ?_ (congrArg some (periodRow_perm hperm)) rfl
        rw [PeriodWritten, PeriodWritten, htimes, ne_eq, ne_eq, hnil]
      · rw [if_neg fun hk => htime hk.2.1, if_neg fun hk => htime (htimes.mpr hk.2.1)]
    · -- the restart and later periods: nothing is left of the first run
      have hnot : ¬PeriodWritten h' interval (periods interval start final') k :=
        fun hk => hnew ⟨hk.1, hfrom.mp ⟨hk.2.1, hge⟩, hk.2.2⟩
      rw [if_neg hnot, KeyedTable.find?_empty, ← Option.not_isSome_iff_eq_none, ← hwritten]
      intro hk
      have hlast' : k.timestamp = k'.timestamp :=
        (hmax _ (mem_timestamps.mpr ⟨k, rfl, (hwritten k).mp hk⟩)).antisymm hge
      have hstart : k.timestamp ∈ periods interval k'.timestamp final' :=
        (mem_periods hstored' (hle'.trans hfinals)).mpr ⟨0, hlast'.symm, Or.inl rfl⟩
      exact hnew ⟨hk.1, hstart, keyRows_ne_nil_of_grows hgrow hfinal hk.2.2⟩

theorem processAggTables_of_some {hourly : AggTable} {first final : DateTime}
    (hfirst : getFirstTimestamp hourly.timestamps none = some first)
    (hfinal : getFinalTimestamp hourly.timestamps = some final) (replaceAll : Bool)
    (tables : Interval → AggTable) (interval : Interval) :
    processAggTables replaceAll hourly tables interval =
      updateAggTable hourly interval (startTimestamp replaceAll interval first (tables interval))
        final (tables interval) := by
  rw [processAggTables, hfirst, hfinal]

/-- A run after the hours have grown leaves the same days, weeks, months and years as a
run over all hours into empty tables. -/
theorem incremental_rollup_eq_rebuild (h h' : HourTable) (hne : h.table.timestamps ≠ [])
    (hgrow : GrowsInTime h.table h'.table) (interval : Interval) (k : AggKey) :
    (processAggTables false h'.table (processAggTables false h.table fun _ => .empty)
        interval).find? k =
      (processAggTables false h'.table (fun _ => .empty) interval).find? k := by
  obtain ⟨first, hfirst⟩ := Option.ne_none_iff_exists'.mp (mt getFirstTimestamp_eq_none.mp hne)
  obtain ⟨final, hfinal⟩ := exists_final_of_first hfirst
  obtain ⟨final', hfinal', hfinals⟩ := exists_final_of_grows hgrow hfinal
  have hfirst' := first_of_grows hgrow hfirst hfinal
  have hle := (interval.roundDown_le first).trans (first_le_final hfirst hfinal)
  have hstored := h.stored final (getFinalTimestamp_eq_some.mp hfinal).1
  have hstored' := h'.stored final' (getFinalTimestamp_eq_some.mp hfinal').1
  rw [processAggTables_of_some hfirst' hfinal', processAggTables_empty hfirst' hfinal',
    processAggTables_empty hfirst hfinal, startTimestamp, if_neg Bool.false_ne_true]
  exact find?_update_update hgrow hfinal hstored hstored' hle hfinals k

/-- Later rows that are added leave the earlier ones as they are. -/
theorem growsInTime_of_append {h h' : AggTable} {later : List (AggKey × AggRow)}
    (hrows : h'.rows = h.rows ++ later)
    (hlater : ∀ t ∈ h.timestamps, ∀ r ∈ later, t ≤ r.1.timestamp) : GrowsInTime h h' := by
  constructor
  · intro final hfinal k hk
    have hmem : final ∈ h.timestamps := (getFinalTimestamp_eq_some.mp hfinal).1
    refine Option.ext fun v => ?_
    rw [KeyedTable.find?_eq_some, KeyedTable.find?_eq_some, hrows, List.mem_append]
    exact or_iff_left fun hrow => hk.not_ge (hlater final hmem (k, v) hrow)
  · intro _ _ k _ hk
    obtain ⟨v, hv⟩ := Option.isSome_iff_exists.mp hk
    have hmem : (k, v) ∈ h'.rows := by
      rw [hrows]
      exact List.mem_append_left _ (KeyedTable.find?_eq_some.mp hv)
    exact Option.isSome_iff_exists.mpr ⟨v, KeyedTable.find?_eq_some.mpr hmem⟩

def firstMidnightRows : List (AggKey × AggRow) := midnightRows.take 1

theorem firstMidnightRows_nodup : (firstMidnightRows.map Prod.fst).Nodup := by decide

def firstMidnight : AggTable := ⟨firstMidnightRows, firstMidnightRows_nodup⟩

theorem firstMidnight_stored : ∀ t ∈ firstMidnight.timestamps, StoredTime t := by decide

theorem firstMidnight_ne_nil : firstMidnight.timestamps ≠ [] := by decide

theorem firstMidnight_append : midnightHours.rows = firstMidnight.rows ++ midnightRows.drop 1 := rfl

theorem firstMidnight_grows : GrowsInTime firstMidnight midnightHours := by
  apply growsInTime_of_append firstMidnight_append
  decide

theorem incremental_rollup_eq_rebuild_midnight :
    (processAggTables false midnightHours (processAggTables false firstMidnight fun _ => .empty)
        .day).find? ⟨1, aggEpoch, 1⟩ =
      (processAggTables false midnightHours (fun _ => .empty) .day).find? ⟨1, aggEpoch, 1⟩ :=
  incremental_rollup_eq_rebuild ⟨firstMidnight, firstMidnight_stored⟩ midnightTable
    firstMidnight_ne_nil firstMidnight_grows .day ⟨1, aggEpoch, 1⟩

end Lmt
