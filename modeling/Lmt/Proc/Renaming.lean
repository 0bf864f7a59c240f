import Lmt.Proc.Paths

/-!
# MDT stats under their new names

Since 2.0 the keys of an MDT's stats may begin with `mds_`. The prefix is dropped
in place, so a node stays in the chain of its old key. It is found by its new
key because the slot of a key depends on its last two characters only.
-/

namespace Lmt

open Attempts FormattedText HashTables

structure IsStatLine (key gap value : Text) : Prop where
  key_word : ∀ c ∈ key, isSpace c = false
  gap_ne_nil : gap ≠ []
  gap_blank : ∀ c ∈ gap, isSpace c = true ∧ c ≠ '\n'
  value_ne_nil : value ≠ []
  value_start : StopsAt isSpace value
  value_line : '\n' ∉ value

/-- A line of a stats file: a key, white space and a value. -/
structure StatLine where
  key : Text
  gap : Text
  value : Text
  isLine : IsStatLine key gap value

namespace StatLine

def text (l : StatLine) : Text := l.key ++ (l.gap ++ l.value)

theorem parseStat_text (l : StatLine) : parseStat l.text = some (l.key, l.value) := by
  obtain ⟨key, gap, value, hkey, hne, hgap, hvalue, hstart, -⟩ := l
  obtain ⟨b, gap, rfl⟩ := List.exists_cons_of_ne_nil hne
  have hword : ∀ c ∈ key, (!isSpace c) = true := fun c hc => by simp [hkey c hc]
  have hb : isSpace b = true := (hgap b (by simp)).1
  have hrest : ∀ c ∈ gap, isSpace c = true := fun c hc => (hgap c (by simp [hc])).1
  have hstop : StopsAt (fun c => !isSpace c) (b :: (gap ++ value)) := by simp [hb]
  have hskip : skipSpace (gap ++ value) = value := dropWhile_append_stop hrest hstart
  unfold parseStat text
  dsimp only
  rw [List.cons_append, takeWhile_append_stop hword hstop, dropWhile_append_stop hword hstop,
    if_neg (List.cons_ne_nil _ _), List.drop_one, List.tail_cons, hskip, if_neg hvalue]

theorem newline_notMem (l : StatLine) : '\n' ∉ l.text := by
  unfold text
  rw [List.mem_append, List.mem_append]
  rintro (h | h | h)
  · exact absurd (l.isLine.key_word _ h) (by simp [isSpace_newline])
  · exact (l.isLine.gap_blank _ h).2 rfl
  · exact l.isLine.value_line h

theorem text_ne_nil (l : StatLine) : l.text ≠ [] := by
  simp [text, l.isLine.gap_ne_nil]

end StatLine

/-- The lines of a text; the last one may lack its end. -/
def HasLines (content : Text) (lines : List Text) : Prop :=
  content = (lines.flatMap fun line => line ++ ['\n']) ∨
    content ++ ['\n'] = lines.flatMap fun line => line ++ ['\n']

theorem linesOf_of_hasLines {len : ℕ} (hlen : 2 ≤ len) {content : Text} {lines : List Text}
    (hlines : ∀ line ∈ lines, IsLine len line) (hne : ∀ line ∈ lines, line ≠ [])
    (h : HasLines content lines) : linesOf len content = lines := by
  have hempty : IsLine len [] := ⟨by simp, by rw [List.length_nil]; omega⟩
  rcases h with rfl | h
  · have hlast := linesOf_terminated hlen hlines hempty
    rw [List.append_nil, if_pos rfl, List.append_nil] at hlast
    exact hlast
  · rcases List.eq_nil_or_concat' lines with rfl | ⟨lines, last, rfl⟩
    · simp at h
    · rw [List.flatMap_append, List.flatMap_singleton, ← List.append_assoc] at h
      rw [List.append_cancel_right h]
      have hinit : ∀ line ∈ lines, IsLine len line := fun line hline =>
        hlines line (List.mem_append_left _ hline)
      have hsplit := linesOf_terminated hlen hinit (hlines last (by simp))
      rwa [if_neg (hne last (by simp))] at hsplit

theorem rekeyMdtStats_suffix (key : Text) : ∃ start, key = start ++ rekeyMdtStats key := by
  unfold rekeyMdtStats
  split_ifs
  · exact ⟨key.take 4, (List.take_append_drop 4 key).symm⟩
  · exact ⟨[], rfl⟩

theorem slot_rekeyMdtStats {key : Text}
    (h : rekeyMdtStats key ≠ key → 2 ≤ (rekeyMdtStats key).length) :
    slot (rekeyMdtStats key) = slot key := by
  by_cases hkey : rekeyMdtStats key = key
  · rw [hkey]
  · obtain ⟨start, hstart⟩ := rekeyMdtStats_suffix key
    calc slot (rekeyMdtStats key) = slot (start ++ rekeyMdtStats key) :=
          (slot_append (h hkey) start).symm
      _ = slot key := by rw [← hstart]

/-- A value is found under the new key. -/
theorem find_rekeyed {h : StatsTable} (hv : h.Valid slot) {key val : Text}
    (hfind : h.find slot key = some val)
    (hshort : rekeyMdtStats key ≠ key → 2 ≤ (rekeyMdtStats key).length)
    (hdistinct : ∀ k, (h.find slot k).isSome → rekeyMdtStats k = rekeyMdtStats key → k = key) :
    (h.forEach fun n => (rekeyMdtStats n.1, n.2)).find slot (rekeyMdtStats key) = some val := by
  apply HashTable.find_forEach hv (f := fun n => (rekeyMdtStats n.1, n.2)) hfind
  · exact slot_rekeyMdtStats hshort
  · intro n hn hkey
    have hplaced := hv.placed _ n hn
    rw [← hplaced] at hn
    exact hdistinct n.1 (by rw [hv.find_eq_some_iff.mpr hn]; rfl) hkey

section

variable {fs : ProcFs} {name content : Text} {lines : List StatLine}

theorem lastValue_split {before after : List StatLine} {line : StatLine}
    (hlast : ∀ l ∈ after, l.key ≠ line.key) :
    lastValue ((before ++ line :: after).map StatLine.text) line.key = some line.value := by
  induction before with
  | nil =>
    have hnone : lastValue (after.map StatLine.text) line.key = none := by
      induction after with
      | nil => rfl
      | cons l after ih =>
        rw [List.map_cons, lastValue_cons l.parseStat_text,
          ih fun m hm => hlast m (by simp [hm]), if_neg (hlast l (by simp)).symm]
        rfl
    rw [List.nil_append, List.map_cons, lastValue_cons line.parseStat_text, hnone, if_pos rfl]
    rfl
  | cons l before ih =>
    rw [List.cons_append, List.map_cons, lastValue_cons l.parseStat_text, ih]
    rfl

theorem exists_of_lastValue {key : Text} (h : (lastValue (lines.map StatLine.text) key).isSome) :
    ∃ l ∈ lines, l.key = key := by
  induction lines with
  | nil => simp at h
  | cons l lines ih =>
    rw [List.map_cons, lastValue_cons l.parseStat_text] at h
    by_cases hkey : key = l.key
    · exact ⟨l, by simp, hkey.symm⟩
    · rw [if_neg hkey, Option.or_none] at h
      obtain ⟨m, hm, hkey⟩ := ih h
      exact ⟨m, by simp [hm], hkey⟩

/-- Since 2.0.56 the keys are renamed and nothing else. -/
theorem wp_finishHashstats (hversion : packedVersion 2 0 56 0 ≤ lustreVersion fs)
    (hname : occurs name "-MDT" = true) (h : StatsTable)
    (Q : Except Errno StatsTable → Ctx → Prop) (ctx : Ctx) :
    wp (finishHashstats fs name h) Q ctx ↔
      Q (.ok (h.forEach fun n => (rekeyMdtStats n.1, n.2))) ctx := by
  have hlustre20 : lustre20 ≤ lustreVersion fs := Int32.le_trans (by decide) hversion
  have hlate : ¬lustreVersion fs < packedVersion 2 0 56 0 := Int32.not_lt.mpr hversion
  unfold finishHashstats
  rw [if_pos (by simp [hname, hlustre20]), fixMdtStats, completeMdtStats, if_neg hlate]
  rfl

/-- Each key is found without its prefix, with the value of its last line. -/
theorem procLustreHashstats_renamed (hversion : packedVersion 2 0 56 0 ≤ lustreVersion fs)
    (hname : occurs name "-MDT" = true)
    (hfile : fs.node (fmtArgs "fs/lustre/mdt/%s/md_stats".toList [name]) = .file content)
    (hlines : HasLines content (lines.map StatLine.text))
    (hlength : ∀ l ∈ lines, l.text.length < 255)
    (hdistinct : ∀ l ∈ lines, ∀ m ∈ lines,
      rekeyMdtStats l.key = rekeyMdtStats m.key → l.key = m.key)
    (hshort : ∀ l ∈ lines, rekeyMdtStats l.key ≠ l.key → 2 ≤ (rekeyMdtStats l.key).length) :
    ∃ h, exec (procLustreHashstats fs name) .closed = (some (.ok h), .closed) ∧
      ∀ before line after, lines = before ++ line :: after → (∀ l ∈ after, l.key ≠ line.key) →
        h.find slot (rekeyMdtStats line.key) = some line.value ∧
          procLustreParsestat h (rekeyMdtStats line.key) = parsedStat line.value := by
  have hlustre20 : lustre20 ≤ lustreVersion fs := Int32.le_trans (by decide) hversion
  have htmpl : statsTmpl fs name = .ok "fs/lustre/mdt/%s/md_stats".toList := by
    rw [statsTmpl, if_pos hname, mdtDir, if_pos hlustre20, if_pos hlustre20]
    rfl
  have htexts : linesOf 256 content = lines.map StatLine.text := by
    apply linesOf_of_hasLines (by omega) _ _ hlines
    · intro text htext
      obtain ⟨l, hl, rfl⟩ := List.mem_map.mp htext
      exact ⟨l.newline_notMem, Nat.succ_lt_succ (hlength l hl)⟩
    · intro text htext
      obtain ⟨l, -, rfl⟩ := List.mem_map.mp htext
      exact l.text_ne_nil
  have hvalues : ∀ text ∈ lines.map StatLine.text, (parseStat text).isSome := by
    intro text htext
    obtain ⟨l, -, rfl⟩ := List.mem_map.mp htext
    rw [l.parseStat_text]
    rfl
  obtain ⟨h, hrun, hv, hfind⟩ := foldlM_hashStatsLine (HashTable.valid_empty slot) hvalues
  have hstats : statsOf content = .ok h := by rw [statsOf, htexts, hrun]
  have hwp : wp (procLustreHashstats fs name) (fun r ctx =>
      r = .ok (h.forEach fun n => (rekeyMdtStats n.1, n.2)) ∧ ctx = .closed) .closed := by
    rw [wp_procLustreHashstats, htmpl]
    refine ⟨versionReadable_of_le (by decide) hversion, content, hfile, ?_⟩
    rw [hstats]
    exact (wp_finishHashstats hversion hname h _ _).mpr ⟨rfl, rfl⟩
  obtain ⟨r, ctx, hexec, rfl, rfl⟩ := wp_iff.mp hwp
  refine ⟨_, hexec, ?_⟩
  intro before line after hsplit hlast
  have hmem : line ∈ lines := by rw [hsplit]; simp
  have hvalue : h.find slot line.key = some line.value := by
    rw [hfind, hsplit, lastValue_split hlast]
    rfl
  have hkeys : ∀ k, (h.find slot k).isSome → rekeyMdtStats k = rekeyMdtStats line.key →
      k = line.key := by
    intro k hk heq
    rw [hfind, HashTable.find_empty, Option.or_none] at hk
    obtain ⟨l, hl, rfl⟩ := exists_of_lastValue hk
    exact hdistinct l hl line hmem heq
  have hnew := find_rekeyed hv hvalue (hshort line hmem) hkeys
  refine ⟨hnew, ?_⟩
  rw [procLustreParsestat, hnew]

end

theorem isStatLine_blank {key value : Text} (hkey : key.any isSpace = false) (hne : value ≠ [])
    (hstart : StopsAt isSpace value) (hline : '\n' ∉ value) : IsStatLine key [' '] value where
  key_word := fun c hc => Bool.eq_false_iff.mpr (List.any_eq_false.mp hkey c hc)
  gap_ne_nil := List.cons_ne_nil _ _
  gap_blank := by
    intro c hc
    rw [List.mem_singleton.mp hc]
    exact ⟨isSpace_space, by decide⟩
  value_ne_nil := hne
  value_start := hstart
  value_line := hline

theorem isStatLine_open : IsStatLine "mds_open".toList [' '] "5 samples [reqs]".toList :=
  isStatLine_blank (by decide) (by decide) ((stopsAt_cons _ _ _).mpr (by decide)) (by decide)

theorem isStatLine_close : IsStatLine "close".toList [' '] "3 samples [reqs]".toList :=
  isStatLine_blank (by decide) (by decide) ((stopsAt_cons _ _ _).mpr (by decide)) (by decide)

theorem isStatLine_reopen : IsStatLine "mds_open".toList [' '] "7 samples [reqs]".toList :=
  isStatLine_blank (by decide) (by decide) ((stopsAt_cons _ _ _).mpr (by decide)) (by decide)

/-- A tree of 2.10.8 with three lines in its `md_stats`. -/
def renamedTree : ProcFs where
  sys _ := .missing .noent
  proc path :=
    if path = versionPath then .file "2.10.8_4.chaos".toList
    else if path = "fs/lustre/mdt/lc1-MDT0000/md_stats".toList then
      .file "mds_open 5 samples [reqs]\nclose 3 samples [reqs]\nmds_open 7 samples [reqs]\n".toList
    else .missing .noent
  garbage := []

theorem procLustreHashstats_renamed_open :
    ∃ h, exec (procLustreHashstats renamedTree "lc1-MDT0000".toList) .closed =
        (some (.ok h), .closed) ∧
      h.find slot "open".toList = some "7 samples [reqs]".toList := by
  obtain ⟨h, hexec, hfind⟩ := @procLustreHashstats_renamed renamedTree "lc1-MDT0000".toList _
    [⟨_, _, _, isStatLine_open⟩, ⟨_, _, _, isStatLine_close⟩, ⟨_, _, _, isStatLine_reopen⟩]
    (by decide) (by decide) rfl (Or.inl rfl) (by decide) (by decide) (by decide)
  exact ⟨h, hexec, (hfind [_, _] _ [] rfl (by simp)).1⟩

end Lmt
