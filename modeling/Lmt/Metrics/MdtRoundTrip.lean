import Lmt.Metrics.Mdt

/-!
# The MDT metric is read back as it was written

A record is 6 fields and three for each operation of the table. The last record
has lost its trailing separator, which the reader accepts because a recovery
string or a printed number is never empty.
-/

namespace Lmt

open FormattedText SeparatedFields

/-- All calls of the writer succeed and give these results. -/
structure MdtServer.Reports (ctx : MdtServer) (node : Text) (cpu mem : ℕ)
    (records : List MdtReading) : Prop where
  nonempty : records ≠ []
  targets : ∃ names, ctx.mdtlist = some names ∧
    List.Forall₂ (fun name r => ctx.target name = some r) names records
  nodename : ctx.nodename = some node
  cpupct : ctx.cpupct = some cpu
  mempct : ctx.mempct = some mem

/-- A target name and a recovery string as the metric can carry them. -/
structure MdtReading.Valid (r : MdtReading) : Prop where
  uuid : IsField ';' r.uuid
  recovStr : IsField ';' r.recovStr

def MdtReading.opRecords (r : MdtReading) : List (List Text) :=
  optabMdtV3.map fun op => (r.stats op).fields

def MdtReading.fields (r : MdtReading) : List Text := r.infoFields ++ r.opRecords.flatten

/-- The whole metric before its last separator is chomped. -/
def mdtText (node : Text) (cpu mem : ℕ) (records : List MdtReading) : Text :=
  terminate ';' (serverHeader ['3'] node cpu mem) ++
    (records.map MdtReading.fields).flatMap (terminate ';')

theorem OpStat.isField_fields (o : OpStat) : ∀ f ∈ o.fields, IsField ';' f := by
  simp [OpStat.fields, isField_printUInt64]

theorem OpStat.length_fields (o : OpStat) : o.fields.length = 3 := rfl

theorem MdtReading.length_fields (r : MdtReading) : r.fields.length = mdtfields 3 := by
  have hops : r.opRecords.flatten.length = optabMdtV3.length * 3 := by
    simp [MdtReading.opRecords, List.length_flatten, Function.comp_def, OpStat.length_fields]
  rw [MdtReading.fields, List.length_append, hops]
  rfl

theorem MdtReading.isField_fields {r : MdtReading} (h : r.Valid) :
    ∀ f ∈ r.fields, IsField ';' f := by
  intro f hf
  rw [MdtReading.fields, List.mem_append] at hf
  rcases hf with hf | hf
  · simp only [MdtReading.infoFields, List.mem_cons, List.not_mem_nil, or_false] at hf
    rcases hf with rfl | rfl | rfl | rfl | rfl | rfl
    all_goals first | exact isField_printUInt64 _ | exact h.uuid | exact h.recovStr
  · obtain ⟨fs, hfs, hf⟩ := List.mem_flatten.mp hf
    obtain ⟨op, -, rfl⟩ := List.mem_map.mp hfs
    exact OpStat.isField_fields _ f hf

theorem appendMdtop_eq (stats : Text → OpStat) (len : ℤ) (s key : Text) :
    appendMdtop stats len s key = appendChecked len s (terminate ';' (stats key).fields) := by
  simp only [appendMdtop, getMdtop, appendChecked, Option.bind_eq_bind]
  cases snprintfChecked (len - s.length) (terminate ';' (stats key).fields) <;> rfl

theorem getMdtstring_eq (r : MdtReading) (len : ℤ) :
    getMdtstring r len = snprintfChecked len (terminate ';' r.fields) := by
  have hops : List.Forall₂
      (fun op t => ∀ s, appendMdtop r.stats len s op = appendChecked len s t) optabMdtV3
      (r.opRecords.map (terminate ';')) := by
    rw [MdtReading.opRecords, List.map_map, List.forall₂_map_right_iff]
    exact List.forall₂_same.mpr fun op _ s => appendMdtop_eq r.stats len s op
  have htext : terminate ';' r.fields =
      terminate ';' r.infoFields ++ (r.opRecords.map (terminate ';')).flatten := by
    rw [MdtReading.fields, terminate_append, terminate_flatten, List.flatMap_def]
  simp only [getMdtstring, snprintfChecked_eq, Option.bind_eq_bind]
  by_cases hinfo : ((terminate ';' r.infoFields).length : ℤ) < len
  · rw [if_pos hinfo, Option.bind_some, foldlM_eq_appendChecked hops, foldlM_appendChecked _ hinfo,
      htext]
  · rw [if_neg hinfo, if_neg (by rw [htext, List.length_append]; omega)]
    rfl

theorem appendMdt_eq {ctx : MdtServer} {name : Text} {r : MdtReading}
    (h : ctx.target name = some r) (len : ℤ) (s : Text) :
    appendMdt ctx len s name = appendChecked len s (terminate ';' r.fields) := by
  simp only [appendMdt, h, getMdtstring_eq, appendChecked, Option.bind_eq_bind, Option.bind_some]
  cases snprintfChecked (len - s.length) (terminate ';' r.fields) <;> rfl

/-- The result is the chomped metric, or a failure when the metric before that
and its NUL do not fit. -/
theorem lmtMdtStringV3_eq {ctx : MdtServer} {node : Text} {cpu mem : ℕ}
    {records : List MdtReading} (h : ctx.Reports node cpu mem records) (len : ℤ) :
    lmtMdtStringV3 ctx len =
      if ((mdtText node cpu mem records).length : ℤ) < len then
        some (chomp (mdtText node cpu mem records)) else none := by
  obtain ⟨names, hlist, htargets⟩ := h.targets
  have hne : names ≠ [] := by
    rintro rfl
    exact h.nonempty (List.forall₂_nil_left_iff.mp htargets)
  have hloop (s : Text) : names.foldlM (appendMdt ctx len) s =
      (records.map fun r => terminate ';' r.fields).foldlM (appendChecked len) s := by
    apply foldlM_eq_appendChecked
    rw [List.forall₂_map_right_iff]
    exact htargets.imp fun _ _ hr s => appendMdt_eq hr len s
  have htext : mdtText node cpu mem records =
      terminate ';' (serverHeader ['3'] node cpu mem) ++
        (records.map fun r => terminate ';' r.fields).flatten := by
    simp [mdtText, List.flatMap_def, Function.comp_def]
  simp only [lmtMdtStringV3, hlist, h.nodename, h.cpupct, h.mempct, Option.bind_eq_bind,
    Option.bind_some, hne, if_false, snprintfChecked_eq, hloop]
  by_cases hhead : ((terminate ';' (serverHeader ['3'] node cpu mem)).length : ℤ) < len
  · rw [if_pos hhead, Option.bind_some, foldlM_appendChecked _ hhead, ← htext]
    split_ifs <;> rfl
  · rw [if_neg hhead, if_neg (by rw [htext, List.length_append]; omega)]
    rfl

/-- Chomping removes the separator after the last record only. -/
theorem chomp_mdtText {node : Text} {cpu mem : ℕ} {records : List MdtReading}
    (hne : records ≠ []) :
    chomp (mdtText node cpu mem records) =
      terminate ';' (serverHeader ['3'] node cpu mem) ++
        joined ';' (records.map MdtReading.fields).flatten := by
  have hfields : (records.map MdtReading.fields).flatten ≠ [] := by
    obtain ⟨r, rs, rfl⟩ := List.exists_cons_of_ne_nil hne
    simp [MdtReading.fields, MdtReading.infoFields]
  rw [mdtText, ← terminate_flatten, terminate_eq_joined ';' hfields, ← List.append_assoc, chomp]
  simp

theorem lmtMdtDecodeV3_chomp {node : Text} {cpu mem : ℕ} {records : List MdtReading}
    (hne : records ≠ []) (hnode : IsField ';' node) (hrecords : ∀ r ∈ records, r.Valid) :
    lmtMdtDecodeV1V2V3 (chomp (mdtText node cpu mem records)) 3 =
      some { mdsname := node, pctCpu := (cpu : ℚ) / 10 ^ 6, pctMem := (mem : ℚ) / 10 ^ 6,
             mdtinfo := records.map fun r => joined ';' r.fields } := by
  have hversion : ∀ c ∈ ['3'], c.isDigit = true := List.forall_mem_singleton.mpr rfl
  have hscan := sscanf_serverHeader cpu mem (by simp) hversion hnode
  have hskip := strskip_serverHeader cpu mem (isField_of_isDigit (by simp) hversion) hnode
  have hlen : ∀ fs ∈ records.map MdtReading.fields, fs.length = mdtfields 3 := by
    simp [MdtReading.length_fields]
  have hfields : ∀ fs ∈ records.map MdtReading.fields, ∀ f ∈ fs, IsField ';' f := by
    intro fs hfs
    obtain ⟨r, hr, rfl⟩ := List.mem_map.mp hfs
    exact MdtReading.isField_fields (hrecords r hr)
  have hgroups := strskipcpyAll_unterminated (by decide) hlen hfields
  rw [chomp_mdtText hne]
  simp only [lmtMdtDecodeV1V2V3, parseAndSkipMdsInfoV1, hscan, hskip, hgroups, Option.map_some]
  simp

/-- One group of counters with its name is read back. -/
theorem lmtMdtDecodeV1Mdops_label (o : OpStat) {op : Text} (hop : IsField ';' op) :
    lmtMdtDecodeV1Mdops (strappendfield (joined ';' o.fields) op ';') =
      some { opname := op, samples := o.count, sum := o.sum, sumsquares := o.sumsq } := by
  have hname (ds : List Directive) :
      sscanf (upToSemicolon :: ds) op = .text op :: sscanf ds [] := by
    simpa using sscanf_upToSemicolon hop (stopsAt_nil _) ds
  have hscan : sscanf mdopsFormat (strappendfield (joined ';' o.fields) op ';') =
      [.uint64 o.count, .uint64 o.sum, .uint64 o.sumsq, .text op] := by
    simp only [mdopsFormat, strappendfield, OpStat.fields, joined, List.append_assoc,
      List.cons_append]
    repeat rw [sscanf_uint64 _ (by simp), sscanf_lit]
    rw [hname]
    rfl
  simp only [lmtMdtDecodeV1Mdops, hscan]

theorem labelMdops_map (ops : List Text) (f : Text → Text) :
    labelMdops (ops.map f) ops = some (ops.map fun op => strappendfield (f op) op ';') := by
  induction ops with
  | nil => rfl
  | cons op ops ih => simp [labelMdops, ih]

/-- The slots in which the decoder returns what the encoder read. -/
def MdtReading.info (r : MdtReading) : MdtInfo where
  mdtname := r.uuid
  inodesFree := r.filesfree
  inodesTotal := r.filestotal
  kbytesFree := r.kbytesfree
  kbytesTotal := r.kbytestotal
  recoveryStatus := some r.recovStr
  mdops := optabMdtV3.map fun op => strappendfield (joined ';' (r.stats op).fields) op ';'

theorem isField_optabMdtV3 : ∀ op ∈ optabMdtV3, IsField ';' op := by
  have h : ∀ op ∈ optabMdtV3, op ≠ [] ∧ ';' ∉ op := by decide +kernel
  exact h

theorem MdtReading.decode_mdops (r : MdtReading) :
    r.info.mdops.map lmtMdtDecodeV1Mdops =
      optabMdtV3.map fun op =>
        some { opname := op, samples := (r.stats op).count, sum := (r.stats op).sum,
               sumsquares := (r.stats op).sumsq } := by
  rw [MdtReading.info, List.map_map]
  exact List.map_congr_left fun op hop => lmtMdtDecodeV1Mdops_label _ (isField_optabMdtV3 op hop)

theorem lmtMdtDecodeV3Mdtinfo_fields {r : MdtReading} (h : r.Valid) :
    lmtMdtDecodeV3Mdtinfo (joined ';' r.fields) = some r.info := by
  let first := [r.uuid, printUInt64 r.filesfree, printUInt64 r.filestotal,
    printUInt64 r.kbytesfree, printUInt64 r.kbytestotal]
  let ops := joined ';' r.opRecords.flatten
  have hops : r.opRecords.flatten ≠ [] := by
    simp [MdtReading.opRecords, optabMdtV3, OpStat.fields]
  have htext : joined ';' r.fields = terminate ';' first ++ (r.recovStr ++ ';' :: ops) := by
    rw [MdtReading.fields, joined_append ';' _ hops]
    simp [MdtReading.infoFields, first, ops]
  have hscan : sscanf mdtinfoFormat (terminate ';' first ++ (r.recovStr ++ ';' :: ops)) =
      [.text r.uuid, .uint64 r.filesfree, .uint64 r.filestotal, .uint64 r.kbytesfree,
        .uint64 r.kbytestotal] := by
    simp only [mdtinfoFormat, first, terminate_cons, terminate_nil, List.append_assoc,
      List.cons_append, List.nil_append]
    rw [sscanf_upToSemicolon h.uuid (by simp), sscanf_lit]
    repeat rw [sscanf_uint64 _ (by simp), sscanf_lit]
    rfl
  have hfirst : ∀ f ∈ first, ';' ∉ f := by
    simp [first, h.uuid.sep_notMem, (isField_printUInt64 _).sep_notMem]
  have hskip : strskip (terminate ';' first ++ (r.recovStr ++ ';' :: ops)) 5 ';' =
      some (r.recovStr ++ ';' :: ops) := by
    simpa [first] using strskip_terminate hfirst (r.recovStr ++ ';' :: ops) 0
  have hrecov : decodeRecoveryStatus (r.recovStr ++ ';' :: ops) 3 =
      some (some r.recovStr, ops) := by
    have hscan : sscanf [upToSemicolon] (r.recovStr ++ ';' :: ops) = [.text r.recovStr] :=
      sscanf_upToSemicolon h.recovStr (by simp) []
    simp [decodeRecoveryStatus, hscan, strskip_field h.recovStr.sep_notMem]
  have hgroups : strskipcpyAll 3 ';' ops = (r.opRecords.map (joined ';'), []) := by
    apply strskipcpyAll_unterminated (by omega)
    · simp [MdtReading.opRecords, OpStat.fields]
    · intro fs hfs
      obtain ⟨op, -, rfl⟩ := List.mem_map.mp hfs
      exact OpStat.isField_fields _
  have hlabel : labelMdops (r.opRecords.map (joined ';')) optabMdtV3 = some r.info.mdops := by
    rw [MdtReading.opRecords, List.map_map]
    exact labelMdops_map optabMdtV3 _
  simp only [lmtMdtDecodeV3Mdtinfo, lmtMdtDecodeMdtinfoHelper, htext, hscan, hskip,
    Option.bind_eq_bind, Option.bind_some, hrecov, hgroups, if_true, hlabel]
  rfl

/-- Whatever the writer returns is read back: every record in order, and every
operation's counters under the name they were written for. -/
theorem mdt_metric_round_trip {ctx : MdtServer} {node : Text} {cpu mem : ℕ}
    {records : List MdtReading} (h : ctx.Reports node cpu mem records)
    (hnode : IsField ';' node) (hrecords : ∀ r ∈ records, r.Valid) (len : ℤ) (s : Text)
    (hs : lmtMdtStringV3 ctx len = some s) :
    ∃ m, lmtMdtDecodeV1V2V3 s 3 = some m ∧ m.mdsname = node ∧
      m.pctCpu = (cpu : ℚ) / 10 ^ 6 ∧ m.pctMem = (mem : ℚ) / 10 ^ 6 ∧
      List.Forall₂ (fun group (r : MdtReading) =>
        ∃ info, lmtMdtDecodeV3Mdtinfo group = some info ∧ info.mdtname = r.uuid ∧
          info.inodesFree = r.filesfree ∧ info.inodesTotal = r.filestotal ∧
          info.kbytesFree = r.kbytesfree ∧ info.kbytesTotal = r.kbytestotal ∧
          info.recoveryStatus = some r.recovStr ∧
          info.mdops.map lmtMdtDecodeV1Mdops =
            optabMdtV3.map fun op =>
              some { opname := op, samples := (r.stats op).count, sum := (r.stats op).sum,
                     sumsquares := (r.stats op).sumsq }) m.mdtinfo records := by
  rw [lmtMdtStringV3_eq h] at hs
  split_ifs at hs with hfits
  obtain rfl := Option.some.inj hs
  refine ⟨_, lmtMdtDecodeV3_chomp h.nonempty hnode hrecords, rfl, rfl, rfl, ?_⟩
  rw [List.forall₂_map_left_iff]
  refine List.forall₂_same.mpr fun r hr => ?_
  exact ⟨r.info, lmtMdtDecodeV3Mdtinfo_fields (hrecords r hr), rfl, rfl, rfl, rfl, rfl, rfl,
    r.decode_mdops⟩

section

/-- A reading whose counters differ between the operations and between the slots. -/
def sampleMdt (name : String) (base : UInt64) : MdtReading where
  uuid := name.toList
  filesfree := base
  filestotal := base + 1
  kbytesfree := base + 2
  kbytestotal := base + 3
  recovStr := "COMPLETE 1 0s remaining".toList
  stats op := ⟨base + .ofNat op.length, base, 18446744073709551615⟩

def sampleMds : MdtServer where
  mdtlist := some ["lc1-MDT0000".toList, "lc1-MDT0001".toList]
  nodename := some "mds1".toList
  cpupct := some 500000
  mempct := some 100000000
  target name := some (sampleMdt (.ofList name) (.ofNat name.length))

theorem mdt_metric_round_trip_sample :
    ∃ s m, lmtMdtStringV3 sampleMds 4096 = some s ∧ lmtMdtDecodeV1V2V3 s 3 = some m ∧
      m.mdsname = "mds1".toList ∧ m.mdtinfo.length = 2 := by
  have hsome : (lmtMdtStringV3 sampleMds 4096).isSome = true := by decide +kernel
  obtain ⟨s, hs⟩ := Option.isSome_iff_exists.mp hsome
  have h : sampleMds.Reports "mds1".toList 500000 100000000
      [sampleMdt "lc1-MDT0000" 11, sampleMdt "lc1-MDT0001" 11] :=
    { nonempty := by simp
      targets := ⟨_, rfl, .cons rfl (.cons rfl .nil)⟩
      nodename := rfl
      cpupct := rfl
      mempct := rfl }
  have hrecords : ∀ r ∈ [sampleMdt "lc1-MDT0000" 11, sampleMdt "lc1-MDT0001" 11], r.Valid := by
    intro r hr
    simp only [List.mem_cons, List.not_mem_nil, or_false] at hr
    rcases hr with rfl | rfl <;> constructor <;> constructor <;> decide
  obtain ⟨m, hm, hname, -, -, hinfo⟩ :=
    mdt_metric_round_trip h (by constructor <;> decide) hrecords 4096 s hs
  exact ⟨s, m, hs, hm, hname, hinfo.length_eq⟩

end

end Lmt
