import Lmt.Library.HashTables
import Lmt.Ltop.Targets
import Lmt.Proc.Context

/-!
# Stats files (`lustre.c`)

A stats file has lines `<key> <value>`. They are put into a hash table, where
the last line of a key wins, or added to what is in the table already. A value
of the table is a text; it is parsed when it is used.
-/

namespace Lmt

open Attempts FormattedText HashTables

abbrev statsHashSize : ℕ := 64

def hashKeyString (str : Text) : UInt32 :=
  str.foldl (fun hval c => hval + (31 * hval + c.val)) 0

def slot (key : Text) : Fin statsHashSize := Fin.ofNat statsHashSize (hashKeyString key).toNat

abbrev StatsTable := HashTable Text Text statsHashSize

/-- `_parse_stat`: the key and the value of a line; `none` stands for `EIO`. -/
def parseStat (s : Text) : Option (Text × Text) :=
  let key := s.takeWhile fun c => !isSpace c
  let rest := s.dropWhile fun c => !isSpace c
  if rest = [] then none
  else if skipSpace (rest.drop 1) = [] then none
  else some (key, skipSpace (rest.drop 1))

/-- `_hash_insert_lastinwins`, and whether it did insert. -/
def hashInsertLastinwins (h : StatsTable) (key val : Text) : StatsTable × Bool :=
  match h.insert slot key val with
  | some h' => (h', true)
  | none =>
    match (h.remove slot key).insert slot key val with
    | some h' => (h', true)
    | none => (h.remove slot key, false)

/-- The body of the loop of `_hash_stats`. -/
def hashStatsLine (h : StatsTable) (line : Text) : Except (StatsTable × Errno) StatsTable :=
  match parseStat line with
  | none => .error (h, .io)
  | some (key, val) =>
    match hashInsertLastinwins h key val with
    | (h', true) => .ok h'
    | (h', false) => .error (h', .exist)

/-- What a loop over the lines returns, and the table it leaves. -/
def statsResult : Except (StatsTable × Errno) StatsTable → Except Errno Unit × StatsTable
  | .ok h => (.ok (), h)
  | .error (h, e) => (.error e, h)

/-- `_hash_stats`; the table is changed also when it fails. -/
def hashStats (h : StatsTable) : ProcM (Except Errno Unit × StatsTable) :=
  statsResult <$> procGetsLoop 256 hashStatsLine h

/-- What `_parse_stat_node` gets from a value. -/
@[ext] structure StatNode where
  count : UInt64
  min : UInt64
  max : UInt64
  sum : UInt64
  sumsq : UInt64
deriving DecidableEq

instance : Zero StatNode := ⟨⟨0, 0, 0, 0, 0⟩⟩

instance : Add StatNode :=
  ⟨fun m n => ⟨m.count + n.count, m.min + n.min, m.max + n.max, m.sum + n.sum, m.sumsq + n.sumsq⟩⟩

def statNumbers : List Directive :=
  [.space, .skip (.set none fun c => !isSpace c), .space, .uint64, .space, .uint64, .space,
    .uint64, .space, .uint64]

/-- `"%lu samples %*s %lu %lu %lu %lu"` -/
def statFormat : List Directive :=
  .uint64 :: .space :: ("samples".toList.map Directive.lit ++ statNumbers)

/-- The number of an assigned conversion; the variables are zero before. -/
def uint64At (vals : List Scanned) (i : ℕ) : UInt64 :=
  match vals[i]? with
  | some (.uint64 n) => n
  | _ => 0

/-- `_parse_stat_node`; `none` stands for `EIO`. -/
def parseStatNode (val : Text) : Option StatNode :=
  let vals := sscanf statFormat val
  if vals.length < 1 then none
  else some ⟨uint64At vals 0, uint64At vals 1, uint64At vals 2, uint64At vals 3, uint64At vals 4⟩

/-- `"%lu samples [reqs] %lu %lu %lu %lu"` -/
def printStatNode (n : StatNode) : Text :=
  printUInt64 n.count ++ " samples [reqs] ".toList ++ printUInt64 n.min ++ [' '] ++
    printUInt64 n.max ++ [' '] ++ printUInt64 n.sum ++ [' '] ++ printUInt64 n.sumsq

def snapshotTime : Text := "snapshot_time".toList

/-- The body of the loop of `_hash_aggregate_stats`. A value that is not one of a
stat ends the loop without an error. -/
def hashAggregateLine (h : StatsTable) (line : Text) :
    Except (StatsTable × Option Errno) StatsTable :=
  match parseStat line with
  | none => .error (h, some .io)
  | some (key, val) =>
    if key = snapshotTime then .ok h
    else
      match parseStatNode val with
      | none => .error (h, none)
      | some new =>
        match h.find slot key with
        | none =>
          match h.insert slot key (printStatNode (0 + new)) with
          | some h' => .ok h'
          | none => .error (h, some .exist)
        | some oldval =>
          match parseStatNode oldval with
          | none => .error (h, none)
          | some old =>
            match (h.remove slot key).insert slot key (printStatNode (old + new)) with
            | some h' => .ok h'
            | none => .error (h.remove slot key, some .exist)

def aggregateResult :
    Except (StatsTable × Option Errno) StatsTable → Except Errno Unit × StatsTable
  | .ok h => (.ok (), h)
  | .error (h, none) => (.ok (), h)
  | .error (h, some e) => (.error e, h)

def hashAggregateStats (h : StatsTable) : ProcM (Except Errno Unit × StatsTable) :=
  aggregateResult <$> procGetsLoop 256 hashAggregateLine h

def rekeyMdtStats (key : Text) : Text :=
  if strstr key "mds_".toList = some 0 then key.drop 4 else key

/-- What `_parse_stat_node` returns, and the counters; they are zero when there
is nothing to parse. -/
def parsedStat (val : Text) : Except Errno Unit × StatNode :=
  match parseStatNode val with
  | none => (.error .io, 0)
  | some n => (.ok (), n)

def procLustreParsestat (stats : StatsTable) (key : Text) : Except Errno Unit × StatNode :=
  match stats.find slot key with
  | none => (.error .inval, 0)
  | some val => parsedStat val

theorem hashKeyString_concat (s : Text) (c : Char) :
    hashKeyString (s ++ [c]) = hashKeyString s + (31 * hashKeyString s + c.val) := by
  simp only [hashKeyString, List.foldl_append, List.foldl_cons, List.foldl_nil]

theorem toNat_hashKeyString_concat (s : Text) (c : Char) :
    (hashKeyString (s ++ [c])).toNat = (32 * (hashKeyString s).toNat + c.toNat) % 2 ^ 32 := by
  rw [hashKeyString_concat, UInt32.toNat_add, UInt32.toNat_add, UInt32.toNat_mul]
  have h31 : UInt32.toNat 31 = 31 := rfl
  have hc : c.val.toNat = c.toNat := rfl
  rw [h31, hc]
  omega

/-- Multiplying by 32 twice leaves nothing of the characters before the last two. -/
theorem slot_append_pair (s : Text) (a b : Char) :
    (slot (s ++ [a, b]) : ℕ) = (32 * a.toNat + b.toNat) % 64 := by
  have hsplit : s ++ [a, b] = s ++ [a] ++ [b] := by simp
  rw [hsplit]
  change (hashKeyString (s ++ [a] ++ [b])).toNat % 64 = _
  rw [toNat_hashKeyString_concat, toNat_hashKeyString_concat]
  omega

/-- The slot of a key of two or more characters is the slot of its end. -/
theorem slot_append {t : Text} (ht : 2 ≤ t.length) (s : Text) : slot (s ++ t) = slot t := by
  rw [← List.length_reverse] at ht
  rcases hrev : t.reverse with _ | ⟨b, _ | ⟨a, u⟩⟩
  · rw [hrev, List.length_nil] at ht
    omega
  · rw [hrev, List.length_singleton] at ht
    omega
  · have hends : t = u.reverse ++ [a, b] := by
      rw [← List.reverse_reverse t, hrev, List.reverse_cons, List.reverse_cons,
        List.append_assoc, List.singleton_append]
    apply Fin.ext
    rw [hends, ← List.append_assoc, slot_append_pair, slot_append_pair]

section

variable {h h' : StatsTable} {key val : Text}

theorem hashInsertLastinwins_spec (key val : Text) (hv : h.Valid slot) :
    ∃ h', hashInsertLastinwins h key val = (h', true) ∧ h'.Valid slot ∧
      ∀ k, h'.find slot k = if k = key then some val else h.find slot k := by
  unfold hashInsertLastinwins
  cases hins : h.insert slot key val with
  | some h' => exact ⟨h', rfl, hv.insert hins, HashTable.find_insert hins⟩
  | none =>
    have hnone : (h.remove slot key).find slot key = none := by
      rw [HashTable.find_remove hv, if_pos rfl]
    have hins' := (HashTable.insert_eq_some_iff (d := val)).mpr ⟨hnone, rfl⟩
    refine ⟨_, by rw [hins'], (hv.remove key).insert hins', ?_⟩
    intro k
    rw [HashTable.find_insert hins', HashTable.find_remove hv]
    split_ifs <;> rfl

theorem hashStatsLine_ok {line : Text} (hv : h.Valid slot)
    (hline : parseStat line = some (key, val)) :
    ∃ h', hashStatsLine h line = .ok h' ∧ h'.Valid slot ∧
      ∀ k, h'.find slot k = if k = key then some val else h.find slot k := by
  obtain ⟨h', hins, hv', hfind⟩ := hashInsertLastinwins_spec key val hv
  refine ⟨h', ?_, hv', hfind⟩
  unfold hashStatsLine
  rw [hline]
  dsimp only
  rw [hins]

def lastValue (lines : List Text) (key : Text) : Option Text :=
  ((lines.filterMap parseStat).reverse.find? (·.1 = key)).map Prod.snd

@[simp] theorem lastValue_nil (key : Text) : lastValue [] key = none := rfl

theorem lastValue_cons {line : Text} (hline : parseStat line = some (key, val))
    (lines : List Text) (k : Text) :
    lastValue (line :: lines) k = (lastValue lines k).or (if k = key then some val else none) := by
  unfold lastValue
  rw [List.filterMap_cons_some hline, List.reverse_cons, List.find?_append, Option.map_or]
  congr 1
  by_cases hk : k = key
  · rw [if_pos hk, List.find?_cons_of_pos (by simpa using hk.symm)]
    rfl
  · have hne : ¬key = k := fun h => hk h.symm
    rw [if_neg hk, List.find?_cons_of_neg (by simpa using hne)]
    rfl

theorem foldlM_hashStatsLine {lines : List Text} (hv : h.Valid slot)
    (hlines : ∀ line ∈ lines, (parseStat line).isSome) :
    ∃ h', lines.foldlM hashStatsLine h = .ok h' ∧ h'.Valid slot ∧
      ∀ k, h'.find slot k = (lastValue lines k).or (h.find slot k) := by
  induction lines generalizing h with
  | nil => exact ⟨h, rfl, hv, fun k => by simp⟩
  | cons line lines ih =>
    obtain ⟨⟨key, val⟩, hline⟩ := Option.isSome_iff_exists.mp (hlines line (by simp))
    obtain ⟨h₁, hstep, hv₁, hfind₁⟩ := hashStatsLine_ok hv hline
    obtain ⟨h', hrun, hv', hfind⟩ := ih hv₁ fun l hl => hlines l (by simp [hl])
    refine ⟨h', ?_, hv', ?_⟩
    · rw [List.foldlM_cons, hstep]
      exact hrun
    · intro k
      rw [hfind, hfind₁, lastValue_cons hline, Option.or_assoc]
      congr 1
      split_ifs <;> rfl

/-- A line without a value stops the loop. -/
theorem foldlM_hashStatsLine_error {lines : List Text} (hv : h.Valid slot)
    (hlines : ¬∀ line ∈ lines, (parseStat line).isSome) :
    ∃ h', lines.foldlM hashStatsLine h = .error (h', .io) := by
  induction lines generalizing h with
  | nil => simp at hlines
  | cons line lines ih =>
    rw [List.foldlM_cons]
    cases hline : parseStat line with
    | none => exact ⟨h, by rw [hashStatsLine, hline]; rfl⟩
    | some n =>
      obtain ⟨key, val⟩ := n
      obtain ⟨h₁, hstep, hv₁, -⟩ := hashStatsLine_ok hv hline
      obtain ⟨h', hrun⟩ := ih hv₁ (by simpa [hline] using hlines)
      exact ⟨h', by rw [hstep]; exact hrun⟩

end

def notStat (val : Text) : Bool := (parseStatNode val).isNone

/-- The lines that end the aggregation of a file without an error: the value of
the line, or the one that the key has already, is not one of a stat. -/
def endsAggregation (base : Text → Option Text) (line : Text) : Bool :=
  match parseStat line with
  | none => false
  | some (key, val) =>
    key != snapshotTime && (notStat val || (base key).any notStat)

section

variable {h : StatsTable} {line key val : Text}

theorem hashAggregateLine_none (hline : parseStat line = none) :
    hashAggregateLine h line = .error (h, some .io) := by
  rw [hashAggregateLine, hline]

theorem hashAggregateLine_snapshot (hline : parseStat line = some (snapshotTime, val)) :
    hashAggregateLine h line = .ok h := by
  rw [hashAggregateLine, hline]
  exact if_pos rfl

theorem hashAggregateLine_ends (hends : endsAggregation (h.find slot) line = true) :
    hashAggregateLine h line = .error (h, none) := by
  unfold endsAggregation at hends
  cases hline : parseStat line with
  | none => simp [hline] at hends
  | some n =>
    obtain ⟨key, val⟩ := n
    rw [hline] at hends
    simp only [Bool.and_eq_true, Bool.or_eq_true, bne_iff_ne, notStat] at hends
    obtain ⟨hkey, hval⟩ := hends
    rw [hashAggregateLine, hline]
    dsimp only
    rw [if_neg hkey]
    cases hnew : parseStatNode val with
    | none => rfl
    | some new =>
      rw [hnew] at hval
      obtain ⟨oldval, hold, hnone⟩ := (Option.any_eq_true _ _).mp (hval.resolve_left (by simp))
      rw [notStat, Option.isNone_iff_eq_none] at hnone
      dsimp only
      rw [hold]
      dsimp only
      rw [hnone]

def statOf (val : Option Text) : StatNode := (val.bind parseStatNode).getD 0

theorem hashAggregateLine_adds (hv : h.Valid slot) (hline : parseStat line = some (key, val))
    (hkey : key ≠ snapshotTime) (hends : endsAggregation (h.find slot) line = false) :
    ∃ h', hashAggregateLine h line = .ok h' ∧ h'.Valid slot ∧
      ∀ k, h'.find slot k =
        if k = key then some (printStatNode (statOf (h.find slot key) + statOf (some val)))
        else h.find slot k := by
  have hends' : notStat val = false ∧ (h.find slot key).any notStat = false := by
    simpa [endsAggregation, hline, hkey] using hends
  obtain ⟨hval, hold⟩ := hends'
  obtain ⟨new, hnew⟩ : ∃ new, parseStatNode val = some new :=
    Option.isSome_iff_exists.mp (by simpa [notStat] using hval)
  have hstat : statOf (some val) = new := by rw [statOf, Option.bind_some, hnew, Option.getD_some]
  rw [hashAggregateLine, hline]
  dsimp only
  rw [if_neg hkey, hnew, hstat]
  dsimp only
  cases hfind : h.find slot key with
  | none =>
    have hins := (HashTable.insert_eq_some_iff
      (d := printStatNode (0 + new))).mpr ⟨hfind, rfl⟩
    dsimp only
    rw [hins]
    exact ⟨_, rfl, hv.insert hins, HashTable.find_insert hins⟩
  | some oldval =>
    rw [hfind] at hold
    obtain ⟨old, hparse⟩ : ∃ old, parseStatNode oldval = some old :=
      Option.isSome_iff_exists.mp (by simpa [notStat] using hold)
    have hnone : (h.remove slot key).find slot key = none := by
      rw [HashTable.find_remove hv, if_pos rfl]
    have hins := (HashTable.insert_eq_some_iff
      (d := printStatNode (old + new))).mpr ⟨hnone, rfl⟩
    have hstatOld : statOf (some oldval) = old := by
      rw [statOf, Option.bind_some, hparse, Option.getD_some]
    dsimp only
    rw [hparse, hstatOld]
    dsimp only
    rw [hins]
    refine ⟨_, rfl, (hv.remove key).insert hins, ?_⟩
    intro k
    rw [HashTable.find_insert hins, HashTable.find_remove hv]
    split_ifs <;> rfl

end

theorem sscanf_statNumbers (n : StatNode) :
    sscanf statNumbers
      (' ' :: ("[reqs]".toList ++ ' ' :: (printUInt64 n.min ++ ' ' :: (printUInt64 n.max ++ ' ' ::
        (printUInt64 n.sum ++ ' ' :: printUInt64 n.sumsq))))) =
      [.uint64 n.min, .uint64 n.max, .uint64 n.sum, .uint64 n.sumsq] := by
  have hdigit (s : Text) : StopsAt Char.isDigit (' ' :: s) := by simp
  have hunit (rest : Text) : (Directive.skip (.set none fun c => !isSpace c)).read
      ("[reqs]".toList ++ ' ' :: rest) = some ([], ' ' :: rest) := rfl
  have hstart (rest : Text) : StopsAt isSpace ("[reqs]".toList ++ rest) :=
    (stopsAt_cons _ _ _).mpr (by decide)
  have hlast : StopsAt isSpace (printUInt64 n.sumsq) := by
    simpa using stopsAt_printUInt64 n.sumsq []
  unfold statNumbers
  rw [sscanf_space isSpace_space (hstart _), sscanf_cons (hunit _),
    sscanf_space isSpace_space (stopsAt_printUInt64 _ _), sscanf_uint64 _ (hdigit _),
    sscanf_space isSpace_space (stopsAt_printUInt64 _ _), sscanf_uint64 _ (hdigit _),
    sscanf_space isSpace_space (stopsAt_printUInt64 _ _), sscanf_uint64 _ (hdigit _),
    sscanf_space isSpace_space hlast]
  have hend := sscanf_uint64 n.sumsq (stopsAt_nil Char.isDigit) []
  rw [List.append_nil, sscanf_nil] at hend
  rw [hend]
  rfl

theorem parseStatNode_printStatNode (n : StatNode) : parseStatNode (printStatNode n) = some n := by
  have hprint : printStatNode n = printUInt64 n.count ++ ' ' :: ("samples".toList ++
      (' ' :: ("[reqs]".toList ++ ' ' :: (printUInt64 n.min ++ ' ' :: (printUInt64 n.max ++ ' ' ::
        (printUInt64 n.sum ++ ' ' :: printUInt64 n.sumsq)))))) := by
    have htext : " samples [reqs] ".toList =
        ' ' :: ("samples".toList ++ ' ' :: ("[reqs]".toList ++ [' '])) := rfl
    unfold printStatNode
    rw [htext]
    simp only [List.append_assoc, List.cons_append, List.nil_append]
  have hdigit (s : Text) : StopsAt Char.isDigit (' ' :: s) := by simp
  have hstart (rest : Text) : StopsAt isSpace ("samples".toList ++ rest) :=
    (stopsAt_cons _ _ _).mpr (by decide)
  unfold parseStatNode statFormat
  rw [hprint, sscanf_uint64 _ (hdigit _), sscanf_space isSpace_space (hstart _), sscanf_literal,
    sscanf_statNumbers]
  rfl

end Lmt
