import Lmt.Ltop.Recording

/-!
# Rewinding a playback

`_play_file` stores the file offset after it has read the first line of a batch.
Rewinding to that offset therefore leaves out this line: the next call plays the
other lines of the batch, or the batch after it when there are none, or finds
nothing at the end of the file and ends the program.
-/

namespace Lmt

open FormattedText

def playedText (f f' : PlayFile) : Text := (f.content.drop f.pos).take (f'.pos - f.pos)

theorem playedText_fileAt (pre read rest : Text) (eof eof' : Bool) :
    playedText (fileAt pre (read ++ rest) eof) (fileAt (pre ++ read) rest eof') = read := by
  simp [playedText, fileAt]

theorem toTime_injective : Function.Injective toTime := by
  intro t u h
  have h64 : t.toInt64 = u.toInt64 := Int64.toInt_inj.mp h
  simpa using congrArg Int64.toUInt64 h64

section

variable {V : Type*} [Inhabited V] (point : Text → Reading → V) (fs : Option Text) (staleSecs : ℤ)

def Player.rewind (p : Player V) (count : ℕ) : Player V :=
  let r := rewindFile count (p.timeSeries.getD []) p.file
  { p with timeSeries := p.timeSeries.map fun _ => r.2.1, file := r.2.2 }

/-- The next call reads exactly the lines of the batch and reports its time. -/
def ReadsBatch (p : Player V) (b : Batch) : Prop :=
  ∃ q, playFile point fs staleSecs p = some q ∧ playedText p.file q.file = b.text ∧
    q.tp = toTime b.tnow

theorem playFile_end {p : Player V} {pre : Text} (hfile : p.file = fileAt pre [] false) :
    playFile point fs staleSecs p = none := by
  simp [playFile, playLoop, hfile, fscanf_end]

theorem playFile_batch_played (b : Batch) {pre rest : Text} (hrest : Follows b.tnow rest)
    {p q : Player V} (hfile : p.file = fileAt pre (b.text ++ rest) false)
    (hq : playFile point fs staleSecs p = some q) :
    playedText p.file q.file = b.text ∧ q.tp = toTime b.tnow := by
  obtain ⟨d, hd⟩ := playFile_batch point fs staleSecs b hrest p hfile
  obtain rfl := Option.some.inj (hd.symm.trans hq)
  exact ⟨by rw [hfile]; exact playedText_fileAt _ _ _ _ _, rfl⟩

theorem not_readsBatch {b : Batch} {todo : List Batch} (hsep : Separated (b :: todo)) (pre : Text)
    {p : Player V}
    (hfile : p.file =
      fileAt (pre ++ b.first.line) (linesText b.others ++ recordingText todo) false) :
    ¬ReadsBatch point fs staleSecs p b := by
  have hnext : ∀ c ∈ todo.head?, c.tnow ≠ b.tnow :=
    fun c hc => ((List.isChain_cons.mp hsep).1 c hc).symm
  rintro ⟨q, hq, htext, htp⟩
  cases hothers : b.others with
  | cons r rs =>
    -- the remaining lines are a batch of their own, which is shorter
    have hothers' : ∀ s ∈ r :: rs, s ∈ b.first :: b.others := fun s hs => by simp [hothers, hs]
    let c : Batch := { tnow := b.tnow, first := r, others := rs,
                       valid := fun s hs => b.valid s (hothers' s hs)
                       same := fun s hs => b.same s (hothers' s hs), tnow_ne := b.tnow_ne }
    have hc : linesText b.others = c.text := by rw [hothers]; rfl
    rw [hc] at hfile
    have hplayed := (playFile_batch_played point fs staleSecs c (follows_recordingText hnext) hfile
      hq).1
    have hlen : c.text.length = b.text.length := by rw [← hplayed, htext]
    have hline := List.length_pos_iff.mpr b.first.line_ne_nil
    have hb : b.text = b.first.line ++ c.text := by rw [← hc]; rfl
    rw [hb, List.length_append] at hlen
    omega
  | nil =>
    rw [hothers, linesText_nil, List.nil_append] at hfile
    cases todo with
    | nil => simp [playFile_end point fs staleSecs hfile] at hq
    | cons c todo =>
      have hafter : ∀ d ∈ todo.head?, d.tnow ≠ c.tnow := fun d hd =>
        ((List.isChain_cons.mp (List.isChain_cons.mp hsep).2).1 d hd).symm
      have hplayed := (playFile_batch_played point fs staleSecs c (follows_recordingText hafter)
        hfile hq).2
      exact hnext c (by simp) (toTime_injective (hplayed.symm.trans htp))

@[simp] theorem fseek_fseek (f : PlayFile) (p q : ℕ) : fseek (fseek f p) q = fseek f q := rfl

/-- Dequeueing `count` entries ends at the offset of the last one. -/
theorem rewindFile_tsEntries (later : List Batch) (b : Batch) (prev : List Batch) (f : PlayFile) :
    rewindFile (later.length + 1) (tsEntries (later ++ b :: prev)) f =
      (later.length + 1, tsEntries prev, fseek f (b.ts (recordingText prev.reverse)).p) := by
  induction later generalizing f with
  | nil => rfl
  | cons c later ih => rw [List.cons_append, List.length_cons, tsEntries, rewindFile, ih]; rfl

/-- `_rewind_file_to` stops at some batch, at the offset stored for it. -/
theorem rewindFileTo_tsEntries (target : ℤ) {played : List Batch} (h : played ≠ [])
    (f : PlayFile) :
    ∃ later b prev, played = later ++ b :: prev ∧
      rewindFileTo target (tsEntries played) f =
        (tsEntries prev, fseek f (b.ts (recordingText prev.reverse)).p) := by
  induction played generalizing f with
  | nil => exact absurd rfl h
  | cons b prev ih =>
    rw [tsEntries, rewindFileTo]
    split_ifs with hstop
    · exact ⟨[], b, prev, rfl, rfl⟩
    · by_cases hprev : prev = []
      · subst hprev
        exact ⟨[], b, [], rfl, rfl⟩
      · obtain ⟨later, c, prev', rfl, hto⟩ :=
          ih hprev (fseek f (b.ts (recordingText prev.reverse)).p)
        exact ⟨b :: later, c, prev', rfl, hto⟩

theorem length_tsEntries (bs : List Batch) : (tsEntries bs).length = bs.length := by
  induction bs with
  | nil => rfl
  | cons b bs ih => simp [tsEntries, ih]

theorem fseek_ts (pre : Text) (b : Batch) (rest : Text) (f : PlayFile)
    (hf : f.content = pre ++ (b.text ++ rest)) :
    fseek f (b.ts pre).p = fileAt (pre ++ b.first.line) (linesText b.others ++ rest) false := by
  simp [fseek, fileAt, Batch.ts, hf, Batch.text, Batch.records]

/-- After any number of calls and for every count, the call after
`_rewind_file` does not read the batch of that many calls ago, and
`_rewind_file_to` stops inside a batch for every target. -/
theorem rewind_misses_batch_start {bs : List Batch} (hsep : Separated bs) (lists : TargetLists V)
    (tp tdiff : ℤ) {n k : ℕ} (hk : 1 ≤ k) (hkn : k ≤ n) (hn : n ≤ bs.length) :
    ∃ q ts b, playTimes point fs staleSecs n
        ⟨lists, some [], ⟨recordingText bs, 0, false⟩, tp, tdiff⟩ = some q ∧
      q.timeSeries = some ts ∧ bs[n - k]? = some b ∧
      ¬ReadsBatch point fs staleSecs (q.rewind k) b ∧
      ∀ target, (rewindFileTo target ts q.file).1.length < n ∧
        (rewindFileTo target ts q.file).2.pos ≠
          (recordingText (bs.take (rewindFileTo target ts q.file).1.length)).length := by
  obtain ⟨q, hq, hplayed⟩ := playTimes_batches point fs staleSecs (bs.take n) (bs.drop n)
    (by rwa [List.take_append_drop])
    (p := ⟨lists, some [], ⟨recordingText bs, 0, false⟩, tp, tdiff⟩)
    (by rw [List.take_append_drop]; rfl)
  have hcontent : q.file.content = recordingText bs := by
    rw [hplayed.file, fileAt, ← recordingText_append, List.take_append_drop]
  have hseries : q.timeSeries = some (tsEntries (bs.take n).reverse) := by
    simp [hplayed.timeSeries]
  have hlen : (bs.take n).length = n := by rw [List.length_take]; omega
  rw [hlen] at hq
  -- a played batch with the ones before and after it
  have hsplit {prev later : List Batch} {b : Batch} (h : (bs.take n).reverse = later ++ b :: prev) :
      bs = prev.reverse ++ b :: (later.reverse ++ bs.drop n) := by
    have := congrArg List.reverse h
    rw [List.reverse_reverse] at this
    conv_lhs => rw [← List.take_append_drop n bs, this]
    simp
  obtain ⟨b, prev, hdrop⟩ : ∃ b prev, (bs.take n).reverse.drop (k - 1) = b :: prev := by
    refine List.exists_cons_of_ne_nil (List.ne_nil_of_length_pos ?_)
    rw [List.length_drop, List.length_reverse]
    omega
  have hback := (List.take_append_drop (k - 1) (bs.take n).reverse).symm
  rw [hdrop] at hback
  have hlater : ((bs.take n).reverse.take (k - 1)).length + 1 = k := by
    rw [List.length_take, List.length_reverse]
    omega
  have hprev : prev.length = n - k := by
    have := congrArg List.length hdrop
    simp only [List.length_drop, List.length_reverse, List.length_cons] at this
    omega
  generalize (bs.take n).reverse.take (k - 1) = later at hback hlater
  have hbs := hsplit hback
  refine ⟨q, _, b, hq, hseries, ?_, ?_, fun target => ?_⟩
  · rw [hbs, List.getElem?_append_right (by simp [hprev])]
    simp [hprev]
  · have htail : Separated (b :: (later.reverse ++ bs.drop n)) := by
      unfold Separated at hsep
      rw [hbs] at hsep
      exact (List.isChain_append.mp hsep).2.1
    refine not_readsBatch point fs staleSecs htail (recordingText prev.reverse) ?_
    rw [Player.rewind, hseries, Option.getD_some, hback, ← hlater, rewindFile_tsEntries]
    refine fseek_ts _ _ _ _ ?_
    rw [hcontent]
    conv_lhs => rw [hbs]
    simp
  · have hne : (bs.take n).reverse ≠ [] := by rw [hback]; simp
    obtain ⟨later', b', prev', hplayed', hto⟩ := rewindFileTo_tsEntries target hne q.file
    have hcount := congrArg List.length hplayed'
    simp only [List.length_reverse, hlen, List.length_append, List.length_cons] at hcount
    have hstart : bs.take prev'.length = prev'.reverse := by
      rw [hsplit hplayed']
      exact List.take_left' (by simp)
    have hline := List.length_pos_iff.mpr b'.first.line_ne_nil
    rw [hto, length_tsEntries, hstart]
    refine ⟨by omega, ?_⟩
    simp only [fseek, Batch.ts, List.length_append]
    omega

end

section

/-- A line with an OST metric that the server recorded at the given time. -/
def sampleLine (tnow : UInt64) (server : String) : Record where
  tnow := tnow
  trcv := tnow - 5
  node := server.toList
  name := "lmt_ost".toList
  s := ("2;" ++ server ++ ";1.000000;2.000000;" ++ server ++
    "-OST0000;1;2;3;4;5;6;7;8;9;10;11;12;13;COMPLETE").toList

def sampleBatch : Batch where
  tnow := 100
  first := sampleLine 100 "oss1"
  others := [sampleLine 100 "oss2"]
  valid := by decide +kernel
  same := by decide
  tnow_ne := by decide

def laterBatch : Batch where
  tnow := 130
  first := sampleLine 130 "oss1"
  others := []
  valid := by decide +kernel
  same := by decide
  tnow_ne := by decide

theorem rewind_misses_batch_start_sample :
    ∃ q, playTimes (fun _ => Reading.exact) none 60 2
        ⟨.empty, some [], ⟨recordingText [sampleBatch, laterBatch], 0, false⟩, 0, 0⟩ = some q ∧
      ¬ReadsBatch (fun _ => Reading.exact) none 60 (q.rewind 1) laterBatch := by
  have hsep : Separated [sampleBatch, laterBatch] := by simp [Separated, sampleBatch, laterBatch]
  obtain ⟨q, ts, b, hq, -, hb, hmiss, -⟩ :=
    rewind_misses_batch_start (fun _ => Reading.exact) none 60 hsep .empty 0 0
      (n := 2) (k := 1) le_rfl (by omega) le_rfl
  obtain rfl : laterBatch = b := Option.some.inj hb
  exact ⟨q, hq, hmiss⟩

/-- Rewinding by the one batch that was read plays its second line only. -/
theorem rewindFile_skips_first_line :
    ∃ q, playTimes (fun _ => Reading.exact) none 60 1
        ⟨.empty, some [], ⟨recordingText [sampleBatch, laterBatch], 0, false⟩, 0, 0⟩ = some q ∧
      (playFile (fun _ => Reading.exact) none 60 (q.rewind 1)).map
          (fun r => playedText (q.rewind 1).file r.file) = some (sampleLine 100 "oss2").line ∧
      ¬ReadsBatch (fun _ => Reading.exact) none 60 (q.rewind 1) sampleBatch := by
  have hrun : (playTimes (fun _ => Reading.exact) none 60 1
      ⟨.empty, some [], ⟨recordingText [sampleBatch, laterBatch], 0, false⟩, 0, 0⟩).bind
        (fun q => (playFile (fun _ => Reading.exact) none 60 (q.rewind 1)).map
          fun r => playedText (q.rewind 1).file r.file) = some (sampleLine 100 "oss2").line := by
    decide +kernel
  obtain ⟨q, hq, hr⟩ := Option.bind_eq_some_iff.mp hrun
  refine ⟨q, hq, hr, ?_⟩
  rintro ⟨r, hplay, htext, -⟩
  rw [hplay, Option.map_some, htext, Option.some.injEq] at hr
  exact absurd hr (by decide +kernel)

end

end Lmt
