import Lmt.Database.MdtRuns

/-!
# The log of a run of the inserter

The events of a run are in its history under the connections they were made
through. What a run adds to the data tables is in the history, the rows of
`TIMESTAMP_INFO` in the history are in the table, and each reading in it is
another reading of the clock.
-/

namespace Lmt

open Attempts FormattedText Runs

/-- The ids and the `TS_ID`s of the rows of a data table. -/
def Tables.stamps (t : Tables) : DataTable → List (ℕ × ℕ)
  | .ost => t.ostData.keys
  | .oss => t.ossData.keys
  | .mds => t.mdsData.keys
  | .mdsOps => t.mdsOpsData.map fun r => (r.mdsId, r.tsId)
  | .router => t.routerData.keys

def Event.reading? : Event → Option ℕ
  | .reading now => some now
  | _ => none

def Event.isTimestamp : Event → Bool
  | .timestamp _ _ => true
  | _ => false

def Event.isMdsOps : Event → Bool
  | .row .mdsOps _ _ => true
  | _ => false

/-- The clock readings of a history, the newest first. -/
def readings (past : List Event) : List ℕ := past.filterMap Event.reading?

theorem readings_append (events past : List Event) :
    readings (events ++ past) = readings events ++ readings past :=
  List.filterMap_append

/-- The events of a run under the connections they were made through. -/
abbrev Log := List ((Text × ℕ) × Event)

def Log.of (log : Log) (key : Text × ℕ) : List Event :=
  (log.filter fun e => e.1 = key).map Prod.snd

def Log.all (log : Log) : List Event := log.map Prod.snd

theorem Log.of_append (log log' : Log) (key : Text × ℕ) :
    (log ++ log').of key = log.of key ++ log'.of key := by
  rw [Log.of, List.filter_append, List.map_append]
  rfl

theorem Log.of_map_self (events : List Event) (key : Text × ℕ) :
    Log.of (events.map (key, ·)) key = events := by
  induction events with
  | nil => rfl
  | cons e events ih =>
    simp only [Log.of, List.map_cons, List.filter_cons, decide_true, if_true] at ih ⊢
    rw [ih]

theorem Log.of_map_of_ne (events : List Event) {key key' : Text × ℕ} (h : key ≠ key') :
    Log.of (events.map (key, ·)) key' = [] := by
  induction events with
  | nil => rfl
  | cons e events ih =>
    simp only [Log.of, List.map_cons, List.filter_cons, decide_eq_false h] at ih ⊢
    exact ih

theorem Log.all_map (events : List Event) (key : Text × ℕ) :
    Log.all (events.map (key, ·)) = events := by
  rw [Log.all, List.map_map]
  exact List.map_id events

variable (site : Site)

/-- What the clock shows from one reading to another, the newest first. -/
def Site.readings (first past : ℕ) : List ℕ :=
  ((List.range' first (past - first)).filterMap site.clock).reverse

theorem Site.readings_append {a b c : ℕ} (hab : a ≤ b) (hbc : b ≤ c) :
    site.readings a c = site.readings b c ++ site.readings a b := by
  have hrange : List.range' a (c - a) = List.range' a (b - a) ++ List.range' b (c - b) := by
    have hlength : c - a = b - a + (c - b) := by omega
    rw [hlength, ← List.range'_append_1, Nat.add_sub_cancel' hab]
  rw [Site.readings, hrange, List.filterMap_append, List.reverse_append]
  rfl

theorem Site.readings_one (n : ℕ) : site.readings n (n + 1) = (site.clock n).toList := by
  rw [Site.readings, Nat.add_sub_cancel_left, List.range'_one]
  cases h : site.clock n <;> simp [h]

/-- Neither timestamps nor data rows change. -/
structure Tables.SameStamps (t u : Tables) : Prop where
  timestampInfo : u.timestampInfo = t.timestampInfo
  stamps : ∀ table, u.stamps table = t.stamps table

/-- An insert into one data table, which may be refused since the key is there. -/
structure Tables.AddsRow (table : DataTable) (key : ℕ × ℕ) (t u : Tables) : Prop where
  timestampInfo : u.timestampInfo = t.timestampInfo
  added : u.stamps table = t.stamps table ++ [key] ∨
    key ∈ t.stamps table ∧ u.stamps table = t.stamps table
  others : ∀ other, other ≠ table → u.stamps other = t.stamps other

/-- Only what no stamp depends on changes, and nothing happens. -/
structure Quiet (s t : Db) : Prop where
  key : t.handle.key = s.handle.key
  timestamp : t.handle.timestamp = s.handle.timestamp
  timestampId : t.handle.timestampId = s.handle.timestampId
  clockReads : t.world.clockReads = s.world.clockReads
  events : t.world.events = s.world.events
  tables : s.tables.SameStamps t.tables
  others : ∀ d, d ≠ s.handle.name → t.world.tables d = s.world.tables d

/-- What happens to the database and to the clock is in the history. -/
structure Noted (w : World) (log : Log) (v : World) : Prop where
  events : v.events = log ++ w.events
  stamps : ∀ d table key, key ∈ (v.tables d).stamps table →
    key ∈ (w.tables d).stamps table ∨ ∃ conn, .row table key.1 key.2 ∈ log.of (d, conn)
  kept : ∀ d, (w.tables d).timestampInfo.rows ⊆ (v.tables d).timestampInfo.rows
  timestamps : ∀ d conn tsId timestamp, .timestamp tsId timestamp ∈ log.of (d, conn) →
    (tsId, timestamp) ∈ (v.tables d).timestampInfo.rows
  clockReads : w.clockReads ≤ v.clockReads
  readings : (readings log.all).Sublist (site.readings w.clockReads v.clockReads)

/-- The steps on one handle with their events, the newest first. -/
structure HandleLog (s : Db) (events : List Event) (t : Db) : Prop where
  key : t.handle.key = s.handle.key
  noted : Noted site s.world (events.map (s.handle.key, ·)) t.world

section

variable {site}

theorem World.Opened.noted {w v : World} (h : w.Opened v) : Noted site w [] v where
  events := h.events
  stamps d table key hkey := Or.inl (h.tables ▸ hkey)
  kept d := by rw [h.tables]; exact List.Subset.refl _
  timestamps := by simp [Log.of]
  clockReads := h.clockReads
  readings := List.nil_sublist _

theorem Noted.trans {w v u : World} {past log : Log} (hwv : Noted site w past v)
    (hvu : Noted site v log u) : Noted site w (log ++ past) u where
  events := by rw [hvu.events, hwv.events, List.append_assoc]
  stamps d table key hkey := by
    rcases hvu.stamps d table key hkey with hkey | ⟨conn, he⟩
    · rcases hwv.stamps d table key hkey with hkey | ⟨conn, he⟩
      · exact Or.inl hkey
      · exact Or.inr ⟨conn, by rw [Log.of_append]; exact List.mem_append_right _ he⟩
    · exact Or.inr ⟨conn, by rw [Log.of_append]; exact List.mem_append_left _ he⟩
  kept d := List.Subset.trans (hwv.kept d) (hvu.kept d)
  timestamps d conn tsId timestamp he := by
    rw [Log.of_append] at he
    rcases List.mem_append.mp he with he | he
    · exact hvu.timestamps _ _ _ _ he
    · exact hvu.kept _ (hwv.timestamps _ _ _ _ he)
  clockReads := hwv.clockReads.trans hvu.clockReads
  readings := by
    rw [Site.readings_append site hwv.clockReads hvu.clockReads, Log.all, List.map_append,
      readings_append]
    exact hvu.readings.append hwv.readings

theorem HandleLog.trans {s t u : Db} {past events : List Event} (hst : HandleLog site s past t)
    (htu : HandleLog site t events u) : HandleLog site s (events ++ past) u := by
  refine ⟨htu.key.trans hst.key, ?_⟩
  have hnoted := htu.noted
  rw [hst.key] at hnoted
  rw [List.map_append]
  exact hst.noted.trans hnoted

theorem HandleLog.quiet {s t : Db} (h : Quiet s t) : HandleLog site s [] t := by
  have htables (d : Text) : (s.world.tables d).SameStamps (t.world.tables d) := by
    by_cases hd : d = s.handle.name
    · have hname : t.handle.name = s.handle.name := congrArg Prod.fst h.key
      have hsame := h.tables
      rwa [Db.tables, Db.tables, hname, ← hd] at hsame
    · rw [h.others d hd]
      exact ⟨rfl, fun _ => rfl⟩
  refine ⟨h.key, h.events, fun d table key hkey => Or.inl ?_, fun d => ?_, by simp [Log.of],
    h.clockReads.ge, List.nil_sublist _⟩
  · rwa [(htables d).stamps] at hkey
  · rw [(htables d).timestampInfo]
    exact List.Subset.refl _

theorem HandleLog.read (s : Db) :
    HandleLog site s ((site.clock s.world.clockReads).toList.map .reading) (s.tick site) := by
  refine ⟨rfl, ?_, fun d table key hkey => Or.inl hkey, fun d => List.Subset.refl _, ?_,
    Nat.le_succ _, ?_⟩
  · simp only [Db.tick, List.map_map]
    rfl
  · intro d conn tsId timestamp he
    cases hclock : site.clock s.world.clockReads <;> simp [hclock, Log.of] at he
  · rw [Log.all_map]
    change List.Sublist _ (site.readings s.world.clockReads (s.world.clockReads + 1))
    rw [Site.readings_one]
    cases site.clock s.world.clockReads <;> exact List.Sublist.refl _

theorem HandleLog.timestamp (s : Db) (timestamp : ℕ) :
    HandleLog site s [.timestamp s.tables.timestampInfo.next timestamp]
      (s.insertTimestamp timestamp) := by
  have htables (d : Text) : (s.insertTimestamp timestamp).world.tables d =
      if d = s.handle.name then
        { s.tables with timestampInfo := s.tables.timestampInfo.insert timestamp }
      else s.world.tables d := by
    simp only [Db.insertTimestamp, Db.note, Db.update, World.tables_update, Function.update_apply]
    rfl
  refine ⟨rfl, rfl, fun d table key hkey => Or.inl ?_, fun d => ?_, ?_, le_rfl,
    List.nil_sublist _⟩
  · rw [htables] at hkey
    split_ifs at hkey with hd
    · subst hd
      cases table <;> exact hkey
    · exact hkey
  · rw [htables]
    split_ifs with hd
    · subst hd
      rw [AutoTable.rows_insert]
      exact List.subset_append_left _ _
    · exact List.Subset.refl _
  · intro d conn tsId timestamp' he
    by_cases hkey : s.handle.key = (d, conn)
    · rw [hkey, Log.of_map_self, List.mem_singleton] at he
      cases he
      have hd : d = s.handle.name := (congrArg Prod.fst hkey).symm
      rw [htables, if_pos hd, AutoTable.rows_insert]
      exact List.mem_append_right _ (List.mem_singleton_self _)
    · rw [Log.of_map_of_ne _ hkey] at he
      cases he

theorem HandleLog.row {s : Db} {insert? : Tables → Option Tables} {table : DataTable} {id : ℕ}
    (h : s.tables.AddsRow table (id, s.handle.timestampId) ((insert? s.tables).getD s.tables)) :
    HandleLog site s [.row table id s.handle.timestampId]
      (s.insertRow table (id, s.handle.timestampId) insert?) := by
  have htables (d : Text) :
      (s.insertRow table (id, s.handle.timestampId) insert?).world.tables d =
        if d = s.handle.name then (insert? s.tables).getD s.tables else s.world.tables d := by
    simp only [Db.insertRow, Db.note, Db.update, World.tables_update, Function.update_apply]
    rfl
  refine ⟨rfl, rfl, fun d table' key hkey => ?_, fun d => ?_, ?_, le_rfl, List.nil_sublist _⟩
  · rw [htables] at hkey
    split_ifs at hkey with hd
    · subst hd
      by_cases htable : table' = table
      · subst htable
        rcases h.added with hadded | ⟨-, hsame⟩
        · rw [hadded, List.mem_append, List.mem_singleton] at hkey
          rcases hkey with hkey | rfl
          · exact Or.inl hkey
          · refine Or.inr ⟨s.handle.conn, ?_⟩
            have hself := Log.of_map_self [Event.row table' id s.handle.timestampId] s.handle.key
            exact hself.symm ▸ List.mem_singleton_self _
        · exact Or.inl (hsame ▸ hkey)
      · exact Or.inl (h.others table' htable ▸ hkey)
    · exact Or.inl hkey
  · rw [htables]
    split_ifs with hd
    · subst hd
      rw [h.timestampInfo]
      exact List.Subset.refl _
    · exact List.Subset.refl _
  · intro d conn tsId timestamp he
    by_cases hkey : s.handle.key = (d, conn)
    · rw [hkey, Log.of_map_self, List.mem_singleton] at he
      cases he
    · rw [Log.of_map_of_ne _ hkey] at he
      cases he

end

end Lmt
