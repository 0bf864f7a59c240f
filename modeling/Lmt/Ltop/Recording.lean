import Lmt.Ltop.Playback

/-!
# Recordings and what playing them does

A recording is a list of batches, each a nonempty list of lines with one time.
Played from the start, the n-th call reads exactly the n-th batch, and the
offset it stores lies behind the first line of that batch.
-/

namespace Lmt

open FormattedText

structure Record where
  tnow : UInt64
  trcv : UInt64
  node : Text
  name : Text
  s : Text
deriving DecidableEq

def Record.line (r : Record) : Text := recordLine r.tnow r.trcv r.node r.name r.s

/-- A nonempty text without white space of at most `width` characters. -/
def IsWord (width : ℕ) (t : Text) : Prop :=
  t ≠ [] ∧ t.length ≤ width ∧ ∀ c ∈ t, isSpace c = false

/-- A metric value that fits one line and the buffer of `_play_file`. -/
def IsValue (s : Text) : Prop :=
  s ≠ [] ∧ s.length < 65536 ∧ StopsAt isSpace s ∧ ∀ c ∈ s, c ≠ '\n'

/-- A line that `_play_file` reads as it was written. -/
structure Record.Valid (r : Record) : Prop where
  node : IsWord 63 r.node
  name : IsWord 15 r.name
  value : IsValue r.s
  version : (scanVersion r.s).isSome

-- the characters of the text are checked, not all characters there are
instance (width : ℕ) (t : Text) : Decidable (IsWord width t) :=
  have : Decidable (∀ c ∈ t, isSpace c = false) := List.decidableBAll _ t
  inferInstanceAs (Decidable (_ ∧ _ ∧ _))

instance (s : Text) : Decidable (IsValue s) :=
  have : Decidable (StopsAt isSpace s) := Option.decidableForallMem s.head?
  have : Decidable (∀ c ∈ s, c ≠ '\n') := List.decidableBAll _ s
  inferInstanceAs (Decidable (_ ∧ _ ∧ _ ∧ _))

instance (r : Record) : Decidable r.Valid :=
  decidable_of_iff (IsWord 63 r.node ∧ IsWord 15 r.name ∧ IsValue r.s ∧ (scanVersion r.s).isSome)
    ⟨fun h => ⟨h.1, h.2.1, h.2.2.1, h.2.2.2⟩, fun h => ⟨h.node, h.name, h.value, h.version⟩⟩

theorem IsWord.stopsAt {width : ℕ} {t : Text} (h : IsWord width t) (rest : Text) :
    StopsAt isSpace (t ++ rest) := by
  obtain ⟨c, t, rfl⟩ := List.exists_cons_of_ne_nil h.1
  simpa using h.2.2 c (by simp)

theorem IsValue.stopsAt {s : Text} (h : IsValue s) (rest : Text) : StopsAt isSpace (s ++ rest) := by
  obtain ⟨hne, -, hstop, -⟩ := h
  obtain ⟨c, t, rfl⟩ := List.exists_cons_of_ne_nil hne
  simpa using hstop

theorem scanf_line {r : Record} (h : r.Valid) {rest : Text} (hr : StopsAt isSpace rest) :
    scanf playFormat (r.line ++ rest) =
      ([.uint64 r.tnow, .uint64 r.trcv, .text r.node, .text r.name, .text r.s], rest) := by
  have hblank (t : Text) : StopsAt (fun c => !isSpace c) (' ' :: t) := by simp [isSpace_space]
  have hdigit (t : Text) : StopsAt Char.isDigit (' ' :: t) := by simp
  have hset : (Directive.set (some 65536) (· != '\n')).read (r.s ++ '\n' :: rest) =
      some ([.text r.s], '\n' :: rest) :=
    read_set_width h.value.1 h.value.2.1.le (by simpa using h.value.2.2.2) (by simp)
  simp only [playFormat, Record.line, recordLine, List.append_assoc, List.cons_append,
    List.nil_append]
  rw [scanf_cons (read_uint64 _ (hdigit _)),
    scanf_cons (read_space isSpace_space (stopsAt_printUInt64 _ _)),
    scanf_cons (read_uint64 _ (hdigit _)),
    scanf_cons (read_space isSpace_space (h.node.stopsAt _)),
    scanf_cons (read_word h.node.1 (h.node.2.1.trans (by omega)) h.node.2.2 (hblank _)),
    scanf_cons (read_space isSpace_space (h.name.stopsAt _)),
    scanf_cons (read_word h.name.1 (h.name.2.1.trans (by omega)) h.name.2.2 (hblank _)),
    scanf_cons (read_space isSpace_space (h.value.stopsAt _)),
    scanf_cons hset, scanf_cons (read_space isSpace_newline hr)]
  rfl

def fileAt (pre suf : Text) (eof : Bool) : PlayFile := ⟨pre ++ suf, pre.length, eof⟩

@[simp] theorem eof_fileAt (pre suf : Text) (eof : Bool) : (fileAt pre suf eof).eof = eof := rfl

theorem fscanf_line {r : Record} (h : r.Valid) {rest : Text} (hr : StopsAt isSpace rest)
    (pre : Text) (eof : Bool) :
    fscanf playFormat (fileAt pre (r.line ++ rest) eof) =
      ([.uint64 r.tnow, .uint64 r.trcv, .text r.node, .text r.name, .text r.s],
        fileAt (pre ++ r.line) rest (eof || rest.isEmpty)) := by
  have hlen : (pre ++ (r.line ++ rest)).length - rest.length = (pre ++ r.line).length := by
    simp only [List.length_append]
    omega
  simp only [fscanf, fileAt, List.drop_left, scanf_line h hr, hlen, List.append_assoc]

theorem fscanf_end (pre : Text) (eof : Bool) :
    fscanf playFormat (fileAt pre [] eof) = ([], fileAt pre [] true) := by
  simp [fscanf, fileAt, playFormat, scanf, Directive.read, scanUInt64, skipSpace, scanSign]

/-- Lines with one time. -/
structure Batch where
  tnow : UInt64
  first : Record
  others : List Record
  valid : ∀ r ∈ first :: others, r.Valid
  same : ∀ r ∈ first :: others, r.tnow = tnow
  tnow_ne : tnow ≠ 0

namespace Batch

def records (b : Batch) : List Record := b.first :: b.others

end Batch

def linesText (rs : List Record) : Text := rs.flatMap Record.line

def Batch.text (b : Batch) : Text := linesText b.records

def recordingText (bs : List Batch) : Text := bs.flatMap Batch.text

@[simp] theorem linesText_nil : linesText [] = [] := rfl

@[simp] theorem linesText_cons (r : Record) (rs : List Record) :
    linesText (r :: rs) = r.line ++ linesText rs := rfl

@[simp] theorem recordingText_nil : recordingText [] = [] := rfl

@[simp] theorem recordingText_cons (b : Batch) (bs : List Batch) :
    recordingText (b :: bs) = b.text ++ recordingText bs := rfl

@[simp] theorem recordingText_append (bs cs : List Batch) :
    recordingText (bs ++ cs) = recordingText bs ++ recordingText cs := by
  simp [recordingText]

theorem Record.line_ne_nil (r : Record) : r.line ≠ [] := by
  simp [Record.line, recordLine]

theorem stopsAt_linesText (rs : List Record) {rest : Text} (h : StopsAt isSpace rest) :
    StopsAt isSpace (linesText rs ++ rest) := by
  cases rs with
  | nil => exact h
  | cons r rs =>
    simp only [linesText_cons, Record.line, recordLine, List.append_assoc]
    exact stopsAt_printUInt64 _ _

/-- What stands behind a batch with time `t`: nothing, or a batch with another time. -/
inductive Follows (t : UInt64) : Text → Prop
  | nil : Follows t []
  | line {r : Record} {rest : Text} : r.Valid → r.tnow ≠ t → StopsAt isSpace rest →
      Follows t (r.line ++ rest)

theorem Follows.stopsAt {t : UInt64} {rest : Text} (h : Follows t rest) : StopsAt isSpace rest := by
  cases h with
  | nil => simp
  | @line r rest _ _ _ => simpa using stopsAt_linesText [r] ‹_›

theorem stopsAt_recordingText (bs : List Batch) : StopsAt isSpace (recordingText bs) := by
  induction bs with
  | nil => simp
  | cons b bs ih => exact stopsAt_linesText b.records ih

theorem follows_recordingText {t : UInt64} {bs : List Batch} (h : ∀ b ∈ bs.head?, b.tnow ≠ t) :
    Follows t (recordingText bs) := by
  cases bs with
  | nil => exact .nil
  | cons b bs =>
    rw [recordingText_cons, Batch.text, Batch.records, linesText_cons, List.append_assoc]
    refine .line (b.valid _ (by simp)) ?_ (stopsAt_linesText _ (stopsAt_recordingText bs))
    rw [b.same _ (by simp)]
    exact h b (by simp)

section

variable {V : Type*} [Inhabited V] (point : Text → Reading → V)

def playRecord (fs : Option Text) (staleSecs : ℤ) (st : TargetLists V) (r : Record) :
    TargetLists V :=
  match scanVersion r.s with
  | none => st
  | some vers =>
    playDecode point fs staleSecs (toTime r.tnow) (toTime r.trcv) r.name r.s vers st

variable (fs : Option Text) (staleSecs : ℤ) (timeSeries : Bool) (fuel : ℕ)

/-- The loop inside a batch with time `t`, of which the text `pre` was read. -/
def insideBatch (lists : TargetLists V) (pre suf : Text) (eof : Bool) (t : UInt64) (tdiff : ℤ)
    (ts : Option Ts) : PlayLoop V :=
  { lists, file := fileAt pre suf eof, tmark := t, pos := pre.length, tdiff, ts }

theorem playLoop_line {r : Record} (h : r.Valid) {rest : Text} (hr : StopsAt isSpace rest)
    (st : PlayLoop V) {pre : Text} {eof : Bool} (hmark : st.tmark = 0 ∨ st.tmark = r.tnow)
    (hfile : st.file = fileAt pre (r.line ++ rest) eof) :
    playLoop point fs staleSecs timeSeries (fuel + 1) st =
      playLoop point fs staleSecs timeSeries fuel
        (insideBatch (playRecord point fs staleSecs st.lists r) (pre ++ r.line) rest
          (eof || rest.isEmpty) r.tnow st.tdiff
          (if st.ts.isNone && timeSeries then some ⟨(pre ++ r.line).length, r.tnow⟩
            else st.ts)) := by
  have hgo : ¬(st.tmark ≠ 0 ∧ st.tmark ≠ r.tnow) := by tauto
  obtain ⟨vers, hvers⟩ := Option.isSome_iff_exists.mp h.version
  simp only [playLoop, hfile, fscanf_line h hr, if_neg hgo, hvers, playRecord]
  rfl

theorem playLoop_end {t : UInt64} (ht : t ≠ 0) {rest : Text} (hrest : Follows t rest)
    (lists : TargetLists V) (pre : Text) (eof : Bool) (tdiff : ℤ) (ts : Option Ts) :
    ∃ d, playLoop point fs staleSecs timeSeries (fuel + 1)
        (insideBatch lists pre rest eof t tdiff ts) =
      some (insideBatch lists pre rest rest.isEmpty t d ts) := by
  cases hrest with
  | nil =>
    refine ⟨tdiff, ?_⟩
    simp [playLoop, insideBatch, fscanf_end]
  | @line r rest hr hne hstop =>
    have hother : t ≠ 0 ∧ t ≠ r.tnow := ⟨ht, hne.symm⟩
    have hmore : (r.line ++ rest).isEmpty = false := by simp [r.line_ne_nil]
    refine ⟨timeDiff r.tnow t, ?_⟩
    simp only [playLoop, insideBatch, fscanf_line hr hstop, if_pos hother, hmore]
    simp [fseek, fileAt]

theorem playLoop_lines {t : UInt64} (ht : t ≠ 0) {rest : Text} (hrest : Follows t rest)
    {rs : List Record} (hvalid : ∀ r ∈ rs, r.Valid) (hsame : ∀ r ∈ rs, r.tnow = t)
    (hfuel : rs.length ≤ fuel) (lists : TargetLists V) (pre : Text) (eof : Bool) (tdiff : ℤ)
    {ts : Option Ts} (hts : ts.isSome = timeSeries) :
    ∃ d, playLoop point fs staleSecs timeSeries (fuel + 1)
        (insideBatch lists pre (linesText rs ++ rest) eof t tdiff ts) =
      some (insideBatch (rs.foldl (playRecord point fs staleSecs) lists) (pre ++ linesText rs) rest
        rest.isEmpty t d ts) := by
  induction rs generalizing fuel lists pre eof with
  | nil =>
    simpa using playLoop_end point fs staleSecs timeSeries fuel ht hrest lists pre eof tdiff ts
  | cons r rs ih =>
    have hr := hvalid r (by simp)
    have htnow : r.tnow = t := hsame r (by simp)
    have hkeep : (if (ts.isNone && timeSeries) = true then
        some (⟨(pre ++ r.line).length, t⟩ : Ts) else ts) = ts := by
      cases ts <;> simp_all
    obtain ⟨fuel, rfl⟩ : ∃ k, fuel = k + 1 :=
      ⟨fuel - 1, by simp only [List.length_cons] at hfuel; omega⟩
    have hline := playLoop_line point fs staleSecs timeSeries (fuel + 1) hr
      (stopsAt_linesText rs hrest.stopsAt)
      (insideBatch lists pre (linesText (r :: rs) ++ rest) eof t tdiff ts) (Or.inr htnow.symm)
      (by rw [linesText_cons, List.append_assoc]; rfl)
    obtain ⟨d, hd⟩ := ih fuel (fun r hr => hvalid r (by simp [hr]))
      (fun r hr => hsame r (by simp [hr])) (by simpa using hfuel)
      (playRecord point fs staleSecs lists r) (pre ++ r.line)
      (eof || (linesText rs ++ rest).isEmpty)
    refine ⟨d, ?_⟩
    simp only [insideBatch, htnow, hkeep] at hline hd ⊢
    rw [hline, hd]
    simp only [List.foldl_cons, linesText_cons, List.append_assoc]

theorem length_linesText_le (rs : List Record) : rs.length ≤ (linesText rs).length := by
  induction rs with
  | nil => simp
  | cons r rs ih =>
    have := List.length_pos_iff.mpr r.line_ne_nil
    simp only [linesText_cons, List.length_append, List.length_cons]
    omega

/-- The entry of `time_series` for a batch that starts behind `pre`. -/
def Batch.ts (pre : Text) (b : Batch) : Ts := ⟨(pre ++ b.first.line).length, b.tnow⟩

/-- One call reads one batch: its lines are applied, the file stands behind it,
and the stored offset lies behind its first line. -/
theorem playFile_batch (b : Batch) {pre rest : Text} (hrest : Follows b.tnow rest) (p : Player V)
    (hfile : p.file = fileAt pre (b.text ++ rest) false) :
    ∃ d, playFile point fs staleSecs p =
      some { lists := b.records.foldl (playRecord point fs staleSecs) p.lists
             timeSeries := p.timeSeries.map (b.ts pre :: ·)
             file := fileAt (pre ++ b.text) rest rest.isEmpty
             tp := toTime b.tnow
             tdiff := d } := by
  have hfirst : b.first.tnow = b.tnow := b.same _ (by simp)
  have hstop := stopsAt_linesText b.others hrest.stopsAt
  have htext : b.text = b.first.line ++ linesText b.others := rfl
  obtain ⟨fuel, hfuel, hlines⟩ : ∃ k, p.file.content.length = k + 1 ∧ b.others.length ≤ k := by
    have hline := List.length_pos_iff.mpr b.first.line_ne_nil
    have hlines := length_linesText_le b.others
    refine ⟨p.file.content.length - 1, ?_, ?_⟩ <;>
      simp only [hfile, fileAt, htext, List.length_append] <;> omega
  have hloop := playLoop_line point fs staleSecs p.timeSeries.isSome (fuel + 1)
    (b.valid b.first (by simp)) hstop
    { lists := p.lists, file := p.file, tmark := 0, pos := 0, tdiff := 0, ts := none }
    (Or.inl rfl) (by rw [hfile, htext, List.append_assoc])
  have hts : (if (Option.isNone (none : Option Ts) && p.timeSeries.isSome) = true then
      some (b.ts pre) else none).isSome = p.timeSeries.isSome := by
    cases p.timeSeries <;> rfl
  obtain ⟨d, hd⟩ := playLoop_lines point fs staleSecs p.timeSeries.isSome fuel b.tnow_ne hrest
    (fun r hr => b.valid r (by simp [hr])) (fun r hr => b.same r (by simp [hr])) hlines
    (playRecord point fs staleSecs p.lists b.first) (pre ++ b.first.line)
    (false || (linesText b.others ++ rest).isEmpty) 0 hts
  rw [hfirst] at hloop
  have heof : p.file.eof = false := by rw [hfile, eof_fileAt]
  refine ⟨if rest.isEmpty then p.tdiff else d, ?_⟩
  rw [playFile, if_neg (by simp [heof]), hfuel, hloop]
  simp only [Batch.ts] at hd
  rw [hd]
  cases hseries : p.timeSeries <;>
    simp [insideBatch, b.tnow_ne, htext, fileAt, Batch.records, Batch.ts]

/-- The entries of `time_series` for batches played from the start, the last
batch first. -/
def tsEntries : List Batch → List Ts
  | [] => []
  | b :: prev => b.ts (recordingText prev.reverse) :: tsEntries prev

def Separated (bs : List Batch) : Prop := bs.IsChain fun b c => b.tnow ≠ c.tnow

/-- `q` is `p` after playing the batches `done`, with `todo` still to come. -/
structure Played (p q : Player V) (done todo : List Batch) : Prop where
  lists : q.lists =
    (done.flatMap Batch.records).foldl (playRecord point fs staleSecs) p.lists
  timeSeries : q.timeSeries = p.timeSeries.map (tsEntries done.reverse ++ ·)
  file : q.file =
    fileAt (recordingText done) (recordingText todo) (!done.isEmpty && todo.isEmpty)
  tp : q.tp = (done.getLast?.map fun b => toTime b.tnow).getD p.tp

theorem isEmpty_recordingText (bs : List Batch) : (recordingText bs).isEmpty = bs.isEmpty := by
  cases bs with
  | nil => rfl
  | cons b bs => simp [Batch.text, Batch.records, Record.line_ne_nil]

/-- As many calls as there are batches in `done` play exactly these. -/
theorem playTimes_batches (done todo : List Batch) (hsep : Separated (done ++ todo))
    {p : Player V} (hfile : p.file = fileAt [] (recordingText (done ++ todo)) false) :
    ∃ q, playTimes point fs staleSecs done.length p = some q ∧
      Played point fs staleSecs p q done todo := by
  induction done using List.reverseRecOn generalizing todo with
  | nil =>
    refine ⟨p, rfl, ⟨rfl, ?_, by simpa using hfile, rfl⟩⟩
    cases p.timeSeries <;> simp [tsEntries]
  | append_singleton init b ih =>
    rw [List.append_assoc] at hsep hfile
    obtain ⟨q, hq, hplayed⟩ := ih _ hsep hfile
    have hnext : ∀ c ∈ todo.head?, c.tnow ≠ b.tnow := by
      have htail := (List.isChain_append.mp hsep).2.1
      exact fun c hc => ((List.isChain_cons.mp htail).1 c hc).symm
    have hbatch : q.file = fileAt (recordingText init) (b.text ++ recordingText todo) false := by
      simpa using hplayed.file
    obtain ⟨d, hd⟩ := playFile_batch point fs staleSecs b (follows_recordingText hnext) q hbatch
    have hplay : playTimes point fs staleSecs (init ++ [b]).length p =
        playFile point fs staleSecs q := by
      rw [List.length_append, List.length_singleton, playTimes, hq, Option.bind_some]
    refine ⟨_, hplay.trans hd, ⟨?_, ?_, ?_, ?_⟩⟩
    · simp [hplayed.lists]
    · simp only [hplayed.timeSeries, List.reverse_append, List.reverse_singleton]
      cases p.timeSeries <;> simp [tsEntries]
    · have hsome : (init ++ [b]).isEmpty = false := by cases init <;> rfl
      simp [isEmpty_recordingText, hsome]
    · simp

end

end Lmt
