import Lmt.Library.Records
import Lmt.Database.Handles

/-!
# One `TS_ID` for a timestamp

A handle adds a timestamp when it is later than the one it added last, which the
handle remembers and a new handle does not. So the timestamps that are added
through one connection are the records of its clock readings, and a timestamp is
added twice when it is a record of two connections.
-/

namespace Lmt

open Attempts FormattedText Records Runs

/-- The column `TIMESTAMP` of a database. -/
def World.timestamps (w : World) (dbname : Text) : List ℕ :=
  (w.tables dbname).timestampInfo.rows.map Prod.snd

/-- What the inserter added to it since it was started in `w`. -/
def addedTimestamps (w : World) (s : Inserter) (dbname : Text) : List ℕ :=
  (s.world.timestamps dbname).drop (w.timestamps dbname).length

/-- The records of the connections to a database, in the order of their time. -/
def World.newTimestamps (w : World) (dbname : Text) : List ℕ :=
  (((records 0 w.stamped).filter fun e => e.1.1 = dbname).map Prod.snd).reverse

/-- The tables grow by the records, and the connections of the history were made. -/
structure TimestampsAdded (start w : World) : Prop where
  timestamps : ∀ d, w.timestamps d = start.timestamps d ++ w.newTimestamps d
  connected : ∀ e ∈ w.stamped, e.1.2 < w.connections

/-- The handle remembers the latest reading of its connection. -/
structure TimestampCached (h : Handle) (w : World) : Prop where
  conn : h.conn < w.connections
  timestamp : h.timestamp = latest 0 w.stamped (h.name, h.conn)

variable {start : World}

theorem invariant_timestamps : Invariant (TimestampsAdded start) TimestampCached where
  aside {h w v} haside hQ := by
    obtain ⟨new, hnew, hkeys⟩ := haside.stamped
    refine ⟨hQ.conn.trans_le haside.connections, ?_⟩
    rw [hnew, latest_append hkeys, hQ.timestamp]
  opened {w v} hopened hP := by
    refine ⟨fun d => ?_, fun e he => ?_⟩
    · have h := hP.timestamps d
      rwa [World.timestamps, World.newTimestamps, ← hopened.tables, ← hopened.stamped] at h
    · rw [hopened.stamped] at he
      exact (hP.connected e he).trans_le hopened.connections
  fresh {h w v} hP hfresh hopened hlt := by
    refine ⟨hfresh.conn ▸ hlt, ?_⟩
    rw [hopened.stamped, hfresh.timestamp, latest_eq_bot]
    intro e he heq
    have hconn := hP.connected e he
    rw [heq, hfresh.conn] at hconn
    exact lt_irrefl _ hconn

theorem timestamps_update {w : World} {dbname : Text} {f : Tables → Tables}
    (h : ∀ t, (f t).timestampInfo = t.timestampInfo) (d : Text) :
    (w.update dbname f).timestamps d = w.timestamps d := by
  by_cases hd : d = dbname
  · subst hd
    simp [World.timestamps, h]
  · simp [World.timestamps, hd]

theorem newTimestamps_accept {s : Db} {now : ℕ} (hQ : TimestampCached s.handle s.world)
    (h : now ≤ s.handle.timestamp) (d : Text) :
    (s.stamp now).world.newTimestamps d = s.world.newTimestamps d := by
  have hnot : ¬latest 0 s.world.stamped (s.handle.name, s.handle.conn) < now := by
    rw [← hQ.timestamp]
    omega
  simp only [World.newTimestamps, Db.stamp, records, if_neg hnot]

theorem newTimestamps_insert {s : Db} {now : ℕ} (hQ : TimestampCached s.handle s.world)
    (h : s.handle.timestamp < now) (d : Text) :
    ((s.insertTimestamp now).stamp now).world.newTimestamps d =
      s.world.newTimestamps d ++ if s.handle.name = d then [now] else [] := by
  have hlt : latest 0 s.world.stamped (s.handle.name, s.handle.conn) < now := by
    rw [← hQ.timestamp]
    exact h
  have hrecords : records 0 ((s.insertTimestamp now).stamp now).world.stamped =
      ((s.handle.name, s.handle.conn), now) :: records 0 s.world.stamped := if_pos hlt
  rw [World.newTimestamps, hrecords, List.filter_cons]
  split_ifs with h₁ h₂ h₂
  · simp [World.newTimestamps]
  · simp at h₁
    exact absurd h₁ h₂
  · simp [h₂] at h₁
  · simp [World.newTimestamps]

theorem timestamps_insert (s : Db) (now : ℕ) (d : Text) :
    ((s.insertTimestamp now).stamp now).world.timestamps d =
      s.world.timestamps d ++ if s.handle.name = d then [now] else [] := by
  split_ifs with hd
  · subst hd
    simp [World.timestamps, Db.stamp, Db.insertTimestamp, Db.note, Db.update]
  · simp [World.timestamps, Db.stamp, Db.insertTimestamp, Db.note, Db.update, Ne.symm hd]

theorem latest_stamp (s : Db) (now : ℕ) :
    latest 0 (s.stamp now).world.stamped (s.handle.name, s.handle.conn) =
      max now (latest 0 s.world.stamped (s.handle.name, s.handle.conn)) :=
  latest_cons_self _ _

theorem timestamps_effect {s t : Db} (h : Effect s t) (hP : TimestampsAdded start s.world)
    (hQ : TimestampCached s.handle s.world) :
    TimestampsAdded start t.world ∧ TimestampCached t.handle t.world := by
  have hconnected (now : ℕ) :
      ∀ e ∈ ((s.handle.name, s.handle.conn), now) :: s.world.stamped,
        e.1.2 < s.world.connections := by
    intro e he
    rcases List.mem_cons.mp he with rfl | he
    · exact hQ.conn
    · exact hP.connected e he
  cases h with
  | call n => exact ⟨⟨hP.timestamps, hP.connected⟩, hQ.conn, hQ.timestamp⟩
  | tick => exact ⟨⟨hP.timestamps, hP.connected⟩, hQ.conn, hQ.timestamp⟩
  | note event => exact ⟨⟨hP.timestamps, hP.connected⟩, hQ.conn, hQ.timestamp⟩
  | cache idhash => exact ⟨hP, hQ.conn, hQ.timestamp⟩
  | insert f hf =>
    refine ⟨⟨fun d => ?_, hP.connected⟩, hQ.conn, hQ.timestamp⟩
    exact (timestamps_update hf d).trans (hP.timestamps d)
  | accept now hnow =>
    refine ⟨⟨fun d => ?_, hconnected now⟩, hQ.conn, ?_⟩
    · rw [newTimestamps_accept hQ hnow]
      exact hP.timestamps d
    · have hlatest := latest_stamp s now
      rw [← hQ.timestamp, max_eq_right hnow] at hlatest
      exact hlatest.symm
  | insertTimestamp now hnow =>
    refine ⟨⟨fun d => ?_, hconnected now⟩, hQ.conn, ?_⟩
    · rw [newTimestamps_insert hQ hnow, timestamps_insert, hP.timestamps, List.append_assoc]
    · have hlatest := latest_stamp s now
      rw [← hQ.timestamp, max_eq_left hnow.le] at hlatest
      exact hlatest.symm

/-- What the inserter added after any metrics, clock readings and errors. -/
theorem addedTimestamps_run (site : Site) (w : World) (ms : List Metric) (dbname : Text) :
    addedTimestamps w (run (metricUpdate site) (.start w) ms) dbname =
      (run (metricUpdate site) (.start w) ms).world.newTimestamps dbname := by
  have hstart : (Inserter.start w).Holds (TimestampsAdded w) TimestampCached := by
    refine ⟨⟨fun d => ?_, by simp [Inserter.start]⟩, by simp [Inserter.start]⟩
    simp [World.timestamps, World.newTimestamps, Inserter.start, records]
  have hstep (s : Inserter) (m : Metric) (hs : s.Holds (TimestampsAdded w) TimestampCached)
      (_ : True) : (metricUpdate site s m).Holds (TimestampsAdded w) TimestampCached :=
    holds_metricUpdate site invariant_timestamps timestamps_effect hs m
  have hrun : (run (metricUpdate site) (.start w) ms).Holds (TimestampsAdded w) TimestampCached :=
    invariant_run hstep hstart (by simp)
  rw [addedTimestamps, hrun.1.timestamps, List.drop_left]

/-- No timestamp is added twice to a database if and only if no rounded clock
reading is later than all earlier readings of two different connections. -/
theorem timestamps_added_once_iff (site : Site) (w : World) (ms : List Metric) (dbname : Text) :
    (addedTimestamps w (run (metricUpdate site) (.start w) ms) dbname).Nodup ↔
      ∀ c c' timestamp,
        IsRecord 0 (run (metricUpdate site) (.start w) ms).world.stamped
          ((dbname, c), timestamp) →
        IsRecord 0 (run (metricUpdate site) (.start w) ms).world.stamped
          ((dbname, c'), timestamp) → c = c' := by
  rw [addedTimestamps_run, World.newTimestamps, List.nodup_reverse, nodup_values_iff]
  constructor
  · intro h c c' timestamp hc hc'
    have heq := h _ _ hc hc' (by simp) (by simp) rfl
    exact congrArg Prod.snd heq
  · rintro h ⟨⟨d, c⟩, t⟩ ⟨⟨d', c'⟩, t'⟩ ha hb hd hd' ht
    simp only [decide_eq_true_eq] at hd hd' ht
    subst hd hd' ht
    rw [h c c' t ha hb]

section

/-- A router reports at 115 seconds, and the insertion of its sample fails. It
reports again a second later. -/
def reconnectSite : Site where
  databases := lc1Databases
  nodup_databases := nodup_lc1Databases
  autoconf := true
  clock n := [100, 115, 116, 116][n]?
  fails n := n = 26

def routerMetric : Metric where
  name := "lmt_router".toList
  value := some "1.0;rtr1;0.500000;10.000000;1000".toList

/-- The timestamp is added again, since the new handle has forgotten it. -/
theorem timestamp_added_twice :
    ¬(addedTimestamps .empty
      (run (metricUpdate reconnectSite) (.start .empty) [routerMetric, routerMetric])
      "filesystem_lc1".toList).Nodup := by
  decide +kernel

end

end Lmt
