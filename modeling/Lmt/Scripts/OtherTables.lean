import Lmt.Scripts.Periods

/-!
# The rows that `lmt_update_other_agg` writes

A row is written for each period, target and variable with rows in the table of
hours, whatever order the loops have. All other rows stay.
-/

namespace Lmt

open Loops Runs

def keyRows (hourly : AggTable) (interval : Interval) (k : AggKey) : List AggRow :=
  targetRows hourly interval k.variableId k.timestamp k.id

def PeriodWritten (hourly : AggTable) (interval : Interval) (times : List DateTime) (k : AggKey) :
    Prop :=
  k.id ≠ 0 ∧ k.timestamp ∈ times ∧ keyRows hourly interval k ≠ []

instance (hourly : AggTable) (interval : Interval) (times : List DateTime) (k : AggKey) :
    Decidable (PeriodWritten hourly interval times k) :=
  inferInstanceAs (Decidable (_ ∧ _ ∧ _))

section

variable (hourly : AggTable) (interval : Interval) (varId : ℕ) (start : DateTime)

theorem mem_periodIds {id : ℕ} :
    id ∈ periodIds hourly interval varId start ↔
      id ≠ 0 ∧ targetRows hourly interval varId start id ≠ [] := by
  simp only [periodIds, targetRows, List.mem_dedup, List.mem_filter, decide_eq_true_eq,
    List.mem_map, ne_eq, List.map_eq_nil_iff, List.filter_eq_nil_iff, not_forall, not_not,
    exists_prop]
  exact and_comm

theorem nodup_periodKeys :
    (((periodIds hourly interval varId start).map fun id => (AggKey.mk id start varId,
      periodRow (targetRows hourly interval varId start id))).map Prod.fst).Nodup := by
  rw [List.map_map]
  exact (List.nodup_dedup _).map fun id id' h => (AggKey.mk.inj h).1

theorem find?_processPeriod (sink : AggTable) (k : AggKey) :
    (processPeriod hourly interval varId sink start).find? k =
      if k.timestamp = start ∧ k.variableId = varId ∧ k.id ≠ 0 ∧ keyRows hourly interval k ≠ [] then
        some (periodRow (keyRows hourly interval k))
      else sink.find? k := by
  rw [processPeriod, KeyedTable.find?_replaceAll (nodup_periodKeys hourly interval varId start)]
  have hlookup (row : AggRow) := KeyedTable.find?_eq_some
    (t := ⟨_, nodup_periodKeys hourly interval varId start⟩) (k := k) (v := row)
  simp only [KeyedTable.find?, List.mem_map, Prod.mk.injEq, mem_periodIds] at hlookup
  obtain ⟨id, t, var⟩ := k
  split_ifs with hk
  · obtain ⟨rfl, rfl, hid, hrows⟩ := hk
    rw [(hlookup _).mpr ⟨id, ⟨hid, hrows⟩, rfl, rfl⟩, Option.some_or]
    rfl
  · refine (congrArg (Option.or · _)
        (Option.eq_none_iff_forall_ne_some.mpr fun row hrow => ?_)).trans
      Option.none_or
    obtain ⟨id', ⟨hid, hrows⟩, heq, -⟩ := (hlookup row).mp hrow
    obtain ⟨rfl, rfl, rfl⟩ := AggKey.mk.inj heq
    exact hk ⟨rfl, rfl, hid, hrows⟩

end

theorem mem_getTablesVariableIds {hourly : AggTable} {interval : Interval} {k : AggKey}
    (h : keyRows hourly interval k ≠ []) : k.variableId ∈ getTablesVariableIds hourly := by
  obtain ⟨row, hrow⟩ := List.exists_mem_of_ne_nil _ h
  obtain ⟨r, hr, -⟩ := List.mem_map.mp hrow
  obtain ⟨hmem, hcond⟩ := List.mem_filter.mp (List.mem_of_mem_filter hr)
  rw [decide_eq_true_iff] at hcond
  rw [getTablesVariableIds, List.mem_insertionSort, List.mem_dedup]
  exact List.mem_map.mpr ⟨r, hmem, hcond.2.2⟩

theorem find?_updateAggTable (hourly : AggTable) (interval : Interval) (start final : DateTime)
    (sink : AggTable) (k : AggKey) :
    (updateAggTable hourly interval start final sink).find? k =
      if PeriodWritten hourly interval (periods interval start final) k then
        some (periodRow (keyRows hourly interval k))
      else sink.find? k := by
  have hvariable (sink : AggTable) (varId : ℕ) (k : AggKey) :=
    KeyedTable.find?_run
      (fun sink start k => find?_processPeriod hourly interval varId start sink k)
      sink (periods interval start final) k
  rw [updateAggTable, KeyedTable.find?_run hvariable]
  refine if_congr ?_ rfl rfl
  constructor
  · rintro ⟨_, -, _, hstart, rfl, rfl, hid, hrows⟩
    exact ⟨hid, hstart, hrows⟩
  · rintro ⟨hid, hstart, hrows⟩
    exact ⟨_, mem_getTablesVariableIds hrows, _, hstart, rfl, rfl, hid, hrows⟩

end Lmt
