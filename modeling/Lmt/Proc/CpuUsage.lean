import Mathlib.Algebra.Order.Ring.Rat
import Lmt.Proc.Lustre

/-!
# CPU usage (`stat.c`)

The percentage is taken from what the usage and the total have grown by since the
last call. Both are sums of counters modulo `2 ^ 64`, and so are their
differences; the division is exact.
-/

namespace Lmt

open Attempts FormattedText

/-- The first line of `stat`. -/
structure CpuTimes where
  usr : UInt64
  nice : UInt64
  sys : UInt64
  idle : UInt64
  iowait : UInt64
  irq : UInt64
  softirq : UInt64
deriving DecidableEq

def statPath : Text := "stat".toList

/-- `" cpu%*[ ] %lu %lu %lu %lu %lu %lu %lu"` -/
def procStatFormat : List Directive :=
  .space :: ("cpu".toList.map Directive.lit ++
    [.skip (.set none (· == ' ')), .space, .uint64, .space, .uint64, .space, .uint64, .space,
      .uint64, .space, .uint64, .space, .uint64, .space, .uint64])

def scannedTimes : List Scanned → Except Errno CpuTimes
  | [.uint64 usr, .uint64 nice, .uint64 sys, .uint64 idle, .uint64 iowait, .uint64 irq,
      .uint64 softirq] => .ok ⟨usr, nice, sys, idle, iowait, irq, softirq⟩
  | _ => .error .io

def procStat (fs : ProcFs) : ProcM (Except Errno CpuTimes) := do
  match ← procOpen fs statPath with
  | .error e => pure (.error e)
  | .ok () =>
    let vals ← procScanf procStatFormat
    procClose
    pure (scannedTimes vals)

namespace CpuTimes

def usage (t : CpuTimes) : UInt64 := t.usr + t.nice + t.sys + t.irq + t.softirq

def total (t : CpuTimes) : UInt64 :=
  t.usr + t.nice + t.sys + t.idle + t.iowait + t.irq + t.softirq

end CpuTimes

/-- `*pctp` -/
def cpuPercent (ousage ototal usage total : UInt64) : ℚ :=
  if total - ototal > 0 then ((usage - ousage).toNat : ℚ) / (total - ototal).toNat * 100 else 0

/-- What `proc_stat2` gives its caller. -/
structure CpuUsage where
  usage : UInt64
  total : UInt64
  pct : ℚ

def cpuUsage (ousage ototal : UInt64) (t : CpuTimes) : CpuUsage :=
  ⟨t.usage, t.total, cpuPercent ousage ototal t.usage t.total⟩

def procStat2 (fs : ProcFs) (usage total : UInt64) : ProcM (Except Errno CpuUsage) := do
  match ← procStat fs with
  | .error e => pure (.error e)
  | .ok t => pure (.ok (cpuUsage usage total t))

/-- Call after call with the same variables; a call that fails leaves them. -/
def cpuPercents : List ProcFs → UInt64 → UInt64 → ProcM (List ℚ)
  | [], _, _ => pure []
  | fs :: later, usage, total => do
    match ← procStat2 fs usage total with
    | .error _ => cpuPercents later usage total
    | .ok r => do
      let pcts ← cpuPercents later r.usage r.total
      pure (r.pct :: pcts)

namespace CpuTimes

def waiting (t : CpuTimes) : UInt64 := t.idle + t.iowait

instance : Zero CpuTimes := ⟨⟨0, 0, 0, 0, 0, 0, 0⟩⟩

theorem total_eq (t : CpuTimes) : t.total = t.usage + t.waiting := by
  unfold total usage waiting
  grind

/-- What the times in use and the waiting times have grown by do not carry past
`2 ^ 64` when they are added, or add up to it. -/
def NoCarry (t t' : CpuTimes) : Prop :=
  (t'.usage - t.usage).toNat + (t'.waiting - t.waiting).toNat ≤ 2 ^ 64

instance (t t' : CpuTimes) : Decidable (NoCarry t t') := inferInstanceAs (Decidable (_ ≤ _))

/-- The line, before what the file has after it. -/
def text (blanks : ℕ) (t : CpuTimes) (rest : Text) : Text :=
  "cpu".toList ++ (List.replicate (blanks + 1) ' ' ++ (printUInt64 t.usr ++ ' ' ::
    (printUInt64 t.nice ++ ' ' :: (printUInt64 t.sys ++ ' ' :: (printUInt64 t.idle ++ ' ' ::
      (printUInt64 t.iowait ++ ' ' :: (printUInt64 t.irq ++ ' ' ::
        (printUInt64 t.softirq ++ rest))))))))

end CpuTimes

/-- Of two differences modulo `2 ^ 64` the first is at most their sum, unless the
addition carries. -/
theorem toNat_le_toNat_add_iff (a b : UInt64) :
    (a + b = 0 ∨ a.toNat ≤ (a + b).toNat) ↔ a.toNat + b.toNat ≤ 2 ^ 64 := by
  have ha := a.toNat_lt
  have hb := b.toNat_lt
  rw [← UInt64.toNat_inj, UInt64.toNat_add, UInt64.toNat_zero]
  omega

theorem cpuPercent_le_iff (ousage ototal usage total : UInt64) :
    (0 ≤ cpuPercent ousage ototal usage total ∧ cpuPercent ousage ototal usage total ≤ 100) ↔
      (total - ototal = 0 ∨ (usage - ousage).toNat ≤ (total - ototal).toNat) := by
  unfold cpuPercent
  by_cases hzero : total - ototal = 0
  · rw [hzero, if_neg (by decide)]
    simp
  · have hnat : (total - ototal).toNat ≠ 0 := by
      intro h
      exact hzero (UInt64.toNat_inj.mp (h.trans UInt64.toNat_zero.symm))
    have hpos : (0 : ℚ) < (total - ototal).toNat := by exact_mod_cast Nat.pos_of_ne_zero hnat
    have hgt : total - ototal > 0 := by
      rw [gt_iff_lt, UInt64.lt_iff_toNat_lt, UInt64.toNat_zero]
      exact Nat.pos_of_ne_zero hnat
    rw [if_pos hgt]
    constructor
    · rintro ⟨-, hle⟩
      right
      have hdiv : ((usage - ousage).toNat : ℚ) / (total - ototal).toNat ≤ 1 := by linarith
      rw [div_le_one hpos] at hdiv
      exact_mod_cast hdiv
    · intro hle
      have hle' : ((usage - ousage).toNat : ℚ) ≤ (total - ototal).toNat := by
        exact_mod_cast hle.resolve_left hzero
      have hdiv : ((usage - ousage).toNat : ℚ) / (total - ototal).toNat ≤ 1 :=
        (div_le_one hpos).mpr hle'
      have hnonneg : 0 ≤ ((usage - ousage).toNat : ℚ) / (total - ototal).toNat := by positivity
      exact ⟨by linarith, by linarith⟩

/-- The percentage since an earlier reading. -/
theorem cpuUsage_pct_iff (t t' : CpuTimes) :
    (0 ≤ (cpuUsage t.usage t.total t').pct ∧ (cpuUsage t.usage t.total t').pct ≤ 100) ↔
      CpuTimes.NoCarry t t' := by
  have hdiff : t'.total - t.total = t'.usage - t.usage + (t'.waiting - t.waiting) := by
    rw [t.total_eq, t'.total_eq]
    grind
  unfold cpuUsage CpuTimes.NoCarry
  rw [cpuPercent_le_iff, hdiff, toNat_le_toNat_add_iff]

def ShowsTimes (fs : ProcFs) (t : CpuTimes) : Prop :=
  ∃ blanks rest, StopsAt Char.isDigit rest ∧ fs.node statPath = .file (t.text blanks rest)

theorem sscanf_blanks (blanks : ℕ) {rest : Text} (h : StopsAt isSpace rest) (ds : List Directive) :
    sscanf (.skip (.set none (· == ' ')) :: .space :: ds)
      (List.replicate (blanks + 1) ' ' ++ rest) = sscanf ds rest := by
  have hblank : ∀ c ∈ List.replicate (blanks + 1) ' ', (c == ' ') = true := by
    intro c hc
    rw [List.eq_of_mem_replicate hc]
    rfl
  have hstop : StopsAt (· == ' ') rest := by
    intro c hc
    have hspace := h c hc
    rw [isSpace, Bool.or_eq_false_iff] at hspace
    exact hspace.1
  have hread : (Directive.skip (.set none (· == ' '))).read
      (List.replicate (blanks + 1) ' ' ++ rest) = some ([], rest) := by
    simp [Directive.read, assignText, takeWhile_append_stop hblank hstop,
      dropWhile_append_stop hblank hstop]
  have hspace : Directive.space.read rest = some ([], rest) := by
    rw [Directive.read, skipSpace_stop h]
  rw [sscanf_cons hread, sscanf_cons hspace]
  rfl

theorem scannedTimes_text (blanks : ℕ) (t : CpuTimes) {rest : Text}
    (h : StopsAt Char.isDigit rest) :
    scannedTimes (sscanf procStatFormat (t.text blanks rest)) = .ok t := by
  have hdigit (s : Text) : StopsAt Char.isDigit (' ' :: s) := by simp
  have hstart (s : Text) : Directive.space.read ("cpu".toList ++ s) =
      some ([], "cpu".toList ++ s) := rfl
  unfold procStatFormat CpuTimes.text
  rw [sscanf_cons (hstart _), sscanf_literal, sscanf_blanks _ (stopsAt_printUInt64 _ _),
    sscanf_uint64 _ (hdigit _),
    sscanf_space isSpace_space (stopsAt_printUInt64 _ _), sscanf_uint64 _ (hdigit _),
    sscanf_space isSpace_space (stopsAt_printUInt64 _ _), sscanf_uint64 _ (hdigit _),
    sscanf_space isSpace_space (stopsAt_printUInt64 _ _), sscanf_uint64 _ (hdigit _),
    sscanf_space isSpace_space (stopsAt_printUInt64 _ _), sscanf_uint64 _ (hdigit _),
    sscanf_space isSpace_space (stopsAt_printUInt64 _ _), sscanf_uint64 _ (hdigit _),
    sscanf_space isSpace_space (stopsAt_printUInt64 _ _), sscanf_uint64 _ h]
  rfl

theorem exec_procStat2 {fs : ProcFs} {t : CpuTimes} (h : ShowsTimes fs t) (usage total : UInt64) :
    exec (procStat2 fs usage total) .closed =
      (some (.ok (cpuUsage usage total t)), .closed) := by
  obtain ⟨blanks, rest, hrest, hnode⟩ := h
  have hstat : exec (procStat fs) .closed = (some (.ok t), .closed) := by
    rw [procStat, exec_bind_some (exec_procOpen_file hnode)]
    dsimp only
    rw [procScanf, exec_bind_some (exec_reading _ _), exec_bind_some (exec_procClose_file _),
      exec_pure]
    exact congrArg (fun r => (some r, Ctx.closed)) (scannedTimes_text blanks t hrest)
  rw [procStat2, exec_bind_some hstat]
  rfl

theorem exec_cpuPercents_cons {fs : ProcFs} {t : CpuTimes} {trees : List ProcFs} {pcts : List ℚ}
    (h : ShowsTimes fs t)
    (hlater : exec (cpuPercents trees t.usage t.total) .closed = (some pcts, .closed))
    (usage total : UInt64) :
    exec (cpuPercents (fs :: trees) usage total) .closed =
      (some ((cpuUsage usage total t).pct :: pcts), .closed) := by
  rw [cpuPercents, exec_bind_some (exec_procStat2 h _ _)]
  change exec (cpuPercents trees t.usage t.total >>= fun pcts => pure (_ :: pcts)) _ = _
  rw [exec_bind_some hlater]
  rfl

/-- The percentages since a reading, and that each is one exactly when no sum of
two differences carries. -/
theorem exec_cpuPercents {trees : List ProcFs} {readings : List CpuTimes}
    (h : List.Forall₂ ShowsTimes trees readings) (t : CpuTimes) :
    ∃ pcts, exec (cpuPercents trees t.usage t.total) .closed = (some pcts, .closed) ∧
      ((∀ pct ∈ pcts, 0 ≤ pct ∧ pct ≤ 100) ↔ List.IsChain CpuTimes.NoCarry (t :: readings)) := by
  induction h generalizing t with
  | nil => exact ⟨[], rfl, by simp⟩
  | @cons fs t' trees readings hfs _ ih =>
    obtain ⟨pcts, hexec, hiff⟩ := ih t'
    refine ⟨(cpuUsage t.usage t.total t').pct :: pcts, exec_cpuPercents_cons hfs hexec _ _, ?_⟩
    rw [List.forall_mem_cons, hiff, cpuUsage_pct_iff, List.isChain_cons_cons]

/-- All percentages are percentages exactly when no step between two readings, the
first from zero, carries. -/
theorem cpuPercents_iff {trees : List ProcFs} {readings : List CpuTimes}
    (h : List.Forall₂ ShowsTimes trees readings) :
    ∃ pcts, exec (cpuPercents trees 0 0) .closed = (some pcts, .closed) ∧
      ((∀ pct ∈ pcts, 0 ≤ pct ∧ pct ≤ 100) ↔ List.IsChain CpuTimes.NoCarry (0 :: readings)) :=
  exec_cpuPercents h 0

def statTree (t : CpuTimes) : ProcFs where
  sys _ := .missing .noent
  proc path := if path = statPath then .file (t.text 1 " 0\n".toList) else .missing .noent
  garbage := []

theorem showsTimes_statTree (t : CpuTimes) : ShowsTimes (statTree t) t := by
  have hnode : (statTree t).node statPath =
      if statPath = statPath then .file (t.text 1 " 0\n".toList) else .missing .noent := rfl
  exact ⟨1, " 0\n".toList, (stopsAt_cons _ _ _).mpr (by decide), hnode.trans (if_pos rfl)⟩

theorem cpuPercents_iff_idle :
    ∃ pcts, exec (cpuPercents [statTree ⟨10, 0, 0, 90, 0, 0, 0⟩] 0 0) .closed =
        (some pcts, .closed) ∧ ∀ pct ∈ pcts, 0 ≤ pct ∧ pct ≤ 100 := by
  obtain ⟨pcts, hexec, hiff⟩ :=
    cpuPercents_iff (List.Forall₂.cons (showsTimes_statTree ⟨10, 0, 0, 90, 0, 0, 0⟩) .nil)
  exact ⟨pcts, hexec, hiff.mpr (by decide)⟩

/-- The idle time goes back by 5 while the usage grows by 10. -/
theorem cpuPercents_exceeds :
    ∃ pcts, exec (cpuPercents
        [statTree ⟨100, 0, 0, 900, 0, 0, 0⟩, statTree ⟨110, 0, 0, 895, 0, 0, 0⟩] 0 0) .closed =
      (some pcts, .closed) ∧ ¬∀ pct ∈ pcts, 0 ≤ pct ∧ pct ≤ 100 := by
  obtain ⟨pcts, hexec, hiff⟩ :=
    exec_cpuPercents (.cons (showsTimes_statTree ⟨100, 0, 0, 900, 0, 0, 0⟩)
      (.cons (showsTimes_statTree ⟨110, 0, 0, 895, 0, 0, 0⟩) .nil)) 0
  exact ⟨pcts, hexec, hiff.not.mpr (by decide)⟩

end Lmt
