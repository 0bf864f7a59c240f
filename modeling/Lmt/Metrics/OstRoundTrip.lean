import Lmt.Metrics.Ost

/-!
# The OST metric is read back as it was written

The writer fills its buffer record by record and gives up at the first one that
does not fit, so its result is the whole metric or a failure. The reader cuts
the metric into groups of 15 fields, one for each record that was written.
-/

namespace Lmt

open FormattedText SeparatedFields

/-- All calls of the writer succeed and give these results. -/
structure OstServer.Reports (ctx : OstServer) (node : Text) (cpu mem : ℕ)
    (records : List OstReading) : Prop where
  nonempty : records ≠ []
  targets : ∃ names, ctx.ostlist = some names ∧
    List.Forall₂ (fun name r => ctx.target name = some r) names records
  nodename : ctx.nodename = some node
  cpupct : ctx.cpupct = some cpu
  mempct : ctx.mempct = some mem

def ostText (node : Text) (cpu mem : ℕ) (records : List OstReading) : Text :=
  terminate ';' (serverHeader ['2'] node cpu mem) ++
    (records.map OstReading.fields).flatMap (terminate ';')

theorem appendOst_eq {ctx : OstServer} {name : Text} {r : OstReading}
    (h : ctx.target name = some r) (len : ℤ) (s : Text) :
    appendOst ctx len s name = appendChecked len s (terminate ';' r.fields) := by
  simp only [appendOst, h, getOststringV2, appendChecked, Option.bind_eq_bind, Option.bind_some]
  cases snprintfChecked (len - s.length) (terminate ';' r.fields) <;> rfl

theorem foldlM_appendOst {ctx : OstServer} {names : List Text} {records : List OstReading}
    (h : List.Forall₂ (fun name r => ctx.target name = some r) names records) (len : ℤ)
    (s : Text) :
    names.foldlM (appendOst ctx len) s =
      (records.map fun r => terminate ';' r.fields).foldlM (appendChecked len) s := by
  apply foldlM_eq_appendChecked
  rw [List.forall₂_map_right_iff]
  exact h.imp fun _ _ hr s => appendOst_eq hr len s

/-- The result is the whole metric, or a failure when it and its NUL do not fit. -/
theorem lmtOstStringV2_eq {ctx : OstServer} {node : Text} {cpu mem : ℕ}
    {records : List OstReading} (h : ctx.Reports node cpu mem records) (len : ℤ) :
    lmtOstStringV2 ctx len =
      if ((ostText node cpu mem records).length : ℤ) < len then
        some (ostText node cpu mem records) else none := by
  obtain ⟨names, hlist, htargets⟩ := h.targets
  have hne : names ≠ [] := by
    rintro rfl
    exact h.nonempty (List.forall₂_nil_left_iff.mp htargets)
  have htext : ostText node cpu mem records =
      terminate ';' (serverHeader ['2'] node cpu mem) ++
        (records.map fun r => terminate ';' r.fields).flatten := by
    simp [ostText, List.flatMap_def, Function.comp_def]
  simp only [lmtOstStringV2, hlist, h.nodename, h.cpupct, h.mempct, Option.bind_eq_bind,
    Option.bind_some, hne, if_false, snprintfChecked_eq, foldlM_appendOst htargets]
  by_cases hhead : ((terminate ';' (serverHeader ['2'] node cpu mem)).length : ℤ) < len
  · rw [if_pos hhead, htext, ← foldlM_appendChecked _ hhead]
    rfl
  · rw [if_neg hhead, if_neg (by rw [htext, List.length_append]; omega)]
    rfl

theorem lmtOstDecodeV2_ostText {node : Text} {cpu mem : ℕ} {records : List OstReading}
    (hnode : IsField ';' node) (hrecords : ∀ r ∈ records, r.Valid) :
    lmtOstDecodeV2 (ostText node cpu mem records) =
      some { ossname := node, pctCpu := (cpu : ℚ) / 10 ^ 6, pctMem := (mem : ℚ) / 10 ^ 6,
             ostinfo := records.map fun r => joined ';' r.fields } := by
  have hlen : ∀ fs ∈ records.map OstReading.fields, fs.length = 15 := by
    simp [OstReading.length_fields]
  have hfields : ∀ fs ∈ records.map OstReading.fields, ∀ f ∈ fs, ';' ∉ f := by
    intro fs hfs f hf
    obtain ⟨r, hr, rfl⟩ := List.mem_map.mp hfs
    exact (OstReading.isField_fields (hrecords r hr) f hf).sep_notMem
  have hgroups := strskipcpyAll_records (by omega) hlen hfields []
  simp only [List.append_nil, strskipcpyAll_nil] at hgroups
  have hversion : ∀ c ∈ ['2'], c.isDigit = true := List.forall_mem_singleton.mpr rfl
  have hscan := sscanf_serverHeader cpu mem (by simp) hversion hnode
  have hskip := strskip_serverHeader cpu mem (isField_of_isDigit (by simp) hversion) hnode
  simp only [lmtOstDecodeV2, ostText, hscan, hskip, hgroups]
  simp

/-- Whatever the writer returns is read back: the server with its printed
percentages, and every record in order with each value in its own slot. When
the metric and its NUL do not fit the buffer the writer fails. -/
theorem ost_metric_round_trip {ctx : OstServer} {node : Text} {cpu mem : ℕ}
    {records : List OstReading} (h : ctx.Reports node cpu mem records)
    (hnode : IsField ';' node) (hrecords : ∀ r ∈ records, r.Valid) (len : ℤ) :
    (∀ s, lmtOstStringV2 ctx len = some s →
      ∃ m, lmtOstDecodeV2 s = some m ∧ m.ossname = node ∧
        m.pctCpu = (cpu : ℚ) / 10 ^ 6 ∧ m.pctMem = (mem : ℚ) / 10 ^ 6 ∧
        m.ostinfo.map lmtOstDecodeV2Ostinfo = records.map fun r => some r.info) ∧
    (len < (ostText node cpu mem records).length + 1 → lmtOstStringV2 ctx len = none) := by
  rw [lmtOstStringV2_eq h]
  refine ⟨fun s hs => ?_, fun hlen => if_neg (by omega)⟩
  split_ifs at hs with hfits
  obtain rfl := Option.some.inj hs
  refine ⟨_, lmtOstDecodeV2_ostText hnode hrecords, rfl, rfl, rfl, ?_⟩
  rw [List.map_map]
  exact List.map_congr_left fun r hr => lmtOstDecodeV2Ostinfo_fields (hrecords r hr)

section

def sampleOst : OstReading where
  uuid := "lc1-OST0000".toList
  filesfree := 1
  filestotal := 2
  kbytesfree := 3
  kbytestotal := 4
  readBytes := 5
  writeBytes := 6
  iops := 7
  numExports := 8
  lockCount := 9
  grantRate := 10
  cancelRate := 11
  connect := 12
  reconnect := 18446744073709551615
  recovStr := "COMPLETE 1 0s remaining".toList

def sampleOss : OstServer where
  ostlist := some ["lc1-OST0000".toList, "lc1-OST0001".toList]
  nodename := some "oss1".toList
  cpupct := some 12500000
  mempct := some 99000001
  target _ := some sampleOst

theorem sampleOst_valid : sampleOst.Valid := by
  constructor <;> constructor <;> decide

theorem sampleOss_reports :
    sampleOss.Reports "oss1".toList 12500000 99000001 [sampleOst, sampleOst] where
  nonempty := by simp
  targets := ⟨_, rfl, .cons rfl (.cons rfl .nil)⟩
  nodename := rfl
  cpupct := rfl
  mempct := rfl

theorem ost_metric_round_trip_sample :
    ∃ s m, lmtOstStringV2 sampleOss 256 = some s ∧ lmtOstDecodeV2 s = some m ∧
      m.ossname = "oss1".toList ∧
      m.ostinfo.map lmtOstDecodeV2Ostinfo = [some sampleOst.info, some sampleOst.info] := by
  have hs : lmtOstStringV2 sampleOss 256 =
      some (ostText "oss1".toList 12500000 99000001 [sampleOst, sampleOst]) := by
    decide +kernel
  have hrecords : ∀ r ∈ [sampleOst, sampleOst], r.Valid := by simp [sampleOst_valid]
  obtain ⟨m, hm, hname, -, -, hinfo⟩ :=
    (ost_metric_round_trip sampleOss_reports (by constructor <;> decide) hrecords 256).1 _ hs
  exact ⟨_, m, hs, hm, hname, hinfo⟩

end

end Lmt
