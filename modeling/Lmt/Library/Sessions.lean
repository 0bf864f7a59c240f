import Mathlib.Data.List.Basic
import Mathlib.Tactic

/-!
# Reports of a source that changes its server

Servers report a source, one after the other. A report that is not newer than
the last one is ignored. When another server reports the source, a new session
begins.
-/

namespace Sessions

variable {ρ σ : Type*}

/-- The accepted reports with their times, newest first: those of the session, which come from its
server, and those of the sessions before. -/
structure Session (ρ σ : Type*) where
  server : σ
  time : ℤ
  since : List (ρ × ℤ)
  before : List (ρ × ℤ)
deriving DecidableEq

def Session.all (s : Session ρ σ) : List (ρ × ℤ) := s.since ++ s.before

def Session.Timely (s : Session ρ σ) : Prop := ∀ p ∈ s.all, p.2 ≤ s.time

/-- What is kept of the reports is older than an accepted one. -/
theorem Session.Timely.lt_of_mem {s : Session ρ σ} (h : s.Timely) {t : ℤ} (hlt : s.time < t)
    {p : ρ × ℤ} (hp : p ∈ s.all) : p.2 < t := (h p hp).trans_lt hlt

def Session.takeover (s : Session ρ σ) (server : σ) : Session ρ σ :=
  { server, time := s.time, since := [], before := s.all }

section

variable [DecidableEq σ] (server : ρ → σ)

def Session.report (s : Session ρ σ) (r : ρ) (t : ℤ) : Session ρ σ :=
  if s.time < t then
    let s := if server r = s.server then s else s.takeover (server r)
    { s with time := t, since := (r, t) :: s.since }
  else s

variable {server} {s : Session ρ σ} {r : ρ} {t : ℤ}

theorem Session.report_of_le (h : ¬s.time < t) : s.report server r t = s := if_neg h

theorem Session.report_of_eq (h : s.time < t) (hserver : server r = s.server) :
    s.report server r t = { s with time := t, since := (r, t) :: s.since } := by
  rw [report, if_pos h, if_pos hserver]

/-- Another server takes the source over, and reports it then. -/
theorem Session.report_takeover (h : s.time < t) (hserver : server r ≠ s.server) :
    (s.takeover (server r)).report server r t = s.report server r t := by
  have htakeover : (s.takeover (server r)).time < t := h
  rw [report_of_eq htakeover rfl, report, if_pos h, if_neg hserver]

/-- An accepted report is put before all others. -/
theorem Session.all_report (h : s.time < t) : (s.report server r t).all = (r, t) :: s.all := by
  rw [report, if_pos h]
  split_ifs <;> rfl

theorem Session.report_timely (h : s.Timely) : (s.report server r t).Timely := by
  by_cases hlt : s.time < t
  · have htime : (s.report server r t).time = t := by
      unfold report
      split_ifs <;> rfl
    unfold Timely
    rw [all_report hlt, htime, List.forall_mem_cons]
    exact ⟨le_rfl, fun p hp => (h p hp).trans hlt.le⟩
  · rw [report_of_le hlt]
    exact h

def Session.OfServer (server : ρ → σ) (s : Session ρ σ) : Prop :=
  ∀ p ∈ s.since, server p.1 = s.server

theorem Session.report_ofServer (h : s.OfServer server) (r : ρ) (t : ℤ) :
    (s.report server r t).OfServer server := by
  by_cases hlt : s.time < t
  · unfold report
    rw [if_pos hlt]
    split_ifs with hserver
    · exact List.forall_mem_cons.mpr ⟨hserver, h⟩
    · exact List.forall_mem_cons.mpr ⟨rfl, by simp [takeover]⟩
  · rw [report_of_le hlt]
    exact h

end

end Sessions
