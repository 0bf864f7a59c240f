import Lmt.Metrics.OstRoundTrip
import Lmt.Metrics.MdtRoundTrip

/-!
# Truncated metrics

A metric that was cut at any place is refused, or its groups are the first
groups of the whole metric. Only the very last field may have lost characters,
since a nonempty part of a field is a field.
-/

namespace Lmt

open FormattedText SeparatedFields

/-- The groups of `n` fields are the first ones of `full`, the last field of the
last group possibly cut short. -/
structure Truncated (n : ℕ) (sep : Char) (groups full : List Text) : Prop where
  complete : ∀ g ∈ groups, g.count sep + 1 = n
  shortened : groups <+: full ∨
    ∃ init fs f f', init ++ [joined sep (fs ++ [f])] <+: full ∧
      groups = init ++ [joined sep (fs ++ [f'])] ∧ sep ∉ f ∧ f' <+: f ∧ f' ≠ []

theorem Truncated.nil (n : ℕ) (sep : Char) (full : List Text) : Truncated n sep [] full :=
  ⟨by simp, Or.inl (List.nil_prefix)⟩

theorem Truncated.cons {n : ℕ} {sep : Char} {groups full : List Text} {g : Text}
    (hg : g.count sep + 1 = n) (h : Truncated n sep groups full) :
    Truncated n sep (g :: groups) (g :: full) := by
  refine ⟨by simpa [hg] using h.complete, ?_⟩
  rcases h.shortened with hp | ⟨init, fs, f, f', hp, rfl, hf⟩
  · exact Or.inl ((List.prefix_cons_inj g).mpr hp)
  · exact Or.inr ⟨g :: init, fs, f, f', (List.prefix_cons_inj g).mpr hp, rfl, hf⟩

section

variable {n : ℕ} {sep : Char}

theorem strskipcpyAll_prefix_record {r : List Text} (hlen : r.length = n)
    (h : ∀ f ∈ r, IsField sep f) {p : Text} (hp : p <+: terminate sep r) (full : List Text) :
    (strskipcpyAll n sep p).2 ≠ [] ∨
      Truncated n sep (strskipcpyAll n sep p).1 (joined sep r :: full) := by
  rcases prefix_terminate hp with rfl | ⟨gs, f, hs, q, rfl, rfl, hq⟩
  · by_cases hr : r = []
    · subst hr
      exact Or.inr (Truncated.nil n sep _)
    · have hsep : ∀ f ∈ r, sep ∉ f := fun f hf => (h f hf).sep_notMem
      have hcpy := strskipcpy_record hr hsep []
      rw [hlen, List.append_nil] at hcpy
      rw [strskipcpyAll_cons hcpy, strskipcpyAll_nil]
      exact Or.inr (.cons (by rw [count_joined sep hr hsep, hlen]) (.nil n sep full))
  have hgs : ∀ g ∈ gs, sep ∉ g := fun g hg => (h g (by simp [hg])).sep_notMem
  have hf : IsField sep f := h f (by simp)
  have hqs : sep ∉ q := fun hs => hf.sep_notMem (hq.subset hs)
  simp only [List.length_append, List.length_cons] at hlen
  by_cases hwhole : hs = [] ∧ q ≠ []
  · -- The cut is in the last field: it passes for a whole one.
    obtain ⟨rfl, hqne⟩ := hwhole
    have hcpy := strskipcpy_unterminated hgs (⟨hqne, hqs⟩ : IsField sep q)
    rw [show gs.length + 1 = n by simpa using hlen] at hcpy
    rw [strskipcpyAll_cons hcpy, strskipcpyAll_nil]
    refine Or.inr ⟨?_, Or.inr ⟨[], gs, f, q, by simp, by simp [joined_concat], hf.sep_notMem, hq,
      hqne⟩⟩
    simp only [List.mem_singleton, forall_eq, List.count_append, count_terminate sep hgs,
      List.count_eq_zero.mpr hqs]
    simpa using hlen
  · have hshort : gs.length + (if q = [] then 0 else 1) < n := by
      split_ifs with hq0
      · omega
      · have : hs ≠ [] := fun he => hwhole ⟨he, hq0⟩
        have := List.length_pos_iff.mpr this
        omega
    rw [strskipcpyAll_none (strskipcpy_short hgs hqs hshort)]
    by_cases hp0 : terminate sep gs ++ q = []
    · exact Or.inr (.nil n sep _)
    · exact Or.inl hp0

theorem strskipcpyAll_prefix (hn : 0 < n) {recs : List (List Text)}
    (hlen : ∀ r ∈ recs, r.length = n) (h : ∀ r ∈ recs, ∀ f ∈ r, IsField sep f) {p : Text}
    (hp : p <+: recs.flatMap (terminate sep)) :
    (strskipcpyAll n sep p).2 ≠ [] ∨
      Truncated n sep (strskipcpyAll n sep p).1 (recs.map (joined sep)) := by
  induction recs generalizing p with
  | nil =>
    obtain rfl := List.prefix_nil.mp hp
    exact Or.inr (.nil n sep _)
  | cons r recs ih =>
    have hr := hlen r (by simp)
    rw [List.flatMap_cons] at hp
    rcases prefix_append_inside_or_past hp with hp | ⟨q, rfl, hq⟩
    · exact strskipcpyAll_prefix_record hr (h r (by simp)) hp _
    · have hne : r ≠ [] := by
        rintro rfl
        exact hn.ne hr
      have hsep : ∀ f ∈ r, sep ∉ f := fun f hf => (h r (by simp) f hf).sep_notMem
      have hcpy := strskipcpy_record hne hsep q
      rw [hr] at hcpy
      rw [strskipcpyAll_cons hcpy]
      rcases ih (fun r hr => hlen r (by simp [hr])) (fun r hr => h r (by simp [hr])) hq with h' | h'
      · exact Or.inl h'
      · exact Or.inr (h'.cons (by rw [count_joined sep hne hsep, hr]))

/-- Skipping as many fields as a truncated record has whole ends at the end. -/
theorem strskip_prefix_terminate {fs : List Text} (h : ∀ f ∈ fs, IsField sep f) {p rest : Text}
    (hp : p <+: terminate sep fs) (hs : strskip p fs.length sep = some rest) : rest = [] := by
  have hsep : ∀ f ∈ fs, sep ∉ f := fun f hf => (h f hf).sep_notMem
  rcases prefix_terminate hp with rfl | ⟨gs, f, hs', q, rfl, rfl, hq⟩
  · have := strskip_terminate hsep [] 0
    simp only [List.append_nil, Nat.add_zero, strskip_zero] at this
    exact Option.some.inj (hs.symm.trans this)
  · have hgs : ∀ g ∈ gs, sep ∉ g := fun g hg => hsep g (by simp [hg])
    have hqs : sep ∉ q := fun hs => hsep f (by simp) (hq.subset hs)
    rw [List.length_append, List.length_cons, strskip_terminate hgs] at hs
    by_cases hq0 : q = []
    · simp [hq0] at hs
    · rw [strskip_last hq0 hqs] at hs
      cases hs' with
      | nil => exact (Option.some.inj (by simpa using hs)).symm
      | cons g gs => simp at hs

end

/-- A message the OST writer can produce from well formed names. -/
def OstMessage (s : Text) : Prop :=
  ∃ ctx node cpu mem records len, OstServer.Reports ctx node cpu mem records ∧
    IsField ';' node ∧ (∀ r ∈ records, r.Valid) ∧ lmtOstStringV2 ctx len = some s

/-- A message the MDT writer can produce from well formed names. -/
def MdtMessage (s : Text) : Prop :=
  ∃ ctx node cpu mem records len, MdtServer.Reports ctx node cpu mem records ∧
    IsField ';' node ∧ (∀ r ∈ records, r.Valid) ∧ lmtMdtStringV3 ctx len = some s

theorem isField_serverHeader {version node : Text} (cpu mem : ℕ) (hv : IsField ';' version)
    (hn : IsField ';' node) : ∀ f ∈ serverHeader version node cpu mem, IsField ';' f := by
  simp [serverHeader, hv, hn, isField_printMillionths]

theorem lmtOstDecodeV2_prefix {node : Text} {cpu mem : ℕ} {records : List OstReading}
    (hnode : IsField ';' node) (hrecords : ∀ r ∈ records, r.Valid) {p : Text}
    (hp : p <+: ostText node cpu mem records) {m : OstMetric} (hm : lmtOstDecodeV2 p = some m) :
    Truncated 15 ';' m.ostinfo (records.map fun r => joined ';' r.fields) := by
  have hversion : ∀ c ∈ ['2'], c.isDigit = true := List.forall_mem_singleton.mpr rfl
  have hhead := isField_serverHeader cpu mem (isField_of_isDigit (by simp) hversion) hnode
  simp only [lmtOstDecodeV2] at hm
  split at hm
  case h_2 => cases hm
  case h_1 =>
    cases hs : strskip p 4 ';' with
    | none => simp [hs] at hm
    | some s =>
      simp only [hs] at hm
      split_ifs at hm with hrest
      obtain rfl := Option.some.inj hm
      rcases prefix_append_inside_or_past hp with hp | ⟨q, rfl, hq⟩
      · obtain rfl := strskip_prefix_terminate hhead hp hs
        exact .nil 15 ';' _
      · rw [strskip_serverHeader cpu mem (isField_of_isDigit (by simp) hversion) hnode] at hs
        obtain rfl := Option.some.inj hs
        have hcut := strskipcpyAll_prefix (n := 15) (by omega) (by simp [OstReading.length_fields])
          (fun fs hfs => by
            obtain ⟨r, hr, rfl⟩ := List.mem_map.mp hfs
            exact OstReading.isField_fields (hrecords r hr)) hq
        rw [List.map_map] at hcut
        exact hcut.resolve_left fun h => hrest (List.length_pos_iff.mpr h)

theorem lmtMdtDecodeV3_prefix {node : Text} {cpu mem : ℕ} {records : List MdtReading}
    (hnode : IsField ';' node) (hrecords : ∀ r ∈ records, r.Valid) {p : Text}
    (hp : p <+: mdtText node cpu mem records) {m : MdtMetric}
    (hm : lmtMdtDecodeV1V2V3 p 3 = some m) :
    Truncated (mdtfields 3) ';' m.mdtinfo (records.map fun r => joined ';' r.fields) := by
  have hversion : ∀ c ∈ ['3'], c.isDigit = true := List.forall_mem_singleton.mpr rfl
  have hhead := isField_serverHeader cpu mem (isField_of_isDigit (by simp) hversion) hnode
  simp only [lmtMdtDecodeV1V2V3, parseAndSkipMdsInfoV1] at hm
  split at hm
  case h_1 => cases hm
  case h_2 heq =>
    split at heq
    case h_2 => cases heq
    case h_1 =>
      cases hs : strskip p 4 ';' with
      | none => simp [hs] at heq
      | some s =>
        simp only [hs, Option.map_some, Option.some.injEq, Prod.mk.injEq] at heq
        obtain ⟨-, rfl⟩ := heq
        split_ifs at hm with hrest
        obtain rfl := Option.some.inj hm
        rcases prefix_append_inside_or_past hp with hp | ⟨q, rfl, hq⟩
        · obtain rfl := strskip_prefix_terminate hhead hp hs
          exact .nil (mdtfields 3) ';' _
        · rw [strskip_serverHeader cpu mem (isField_of_isDigit (by simp) hversion) hnode] at hs
          obtain rfl := Option.some.inj hs
          have hcut := strskipcpyAll_prefix (n := mdtfields 3) (by decide)
            (by simp [MdtReading.length_fields])
            (fun fs hfs => by
              obtain ⟨r, hr, rfl⟩ := List.mem_map.mp hfs
              exact MdtReading.isField_fields (hrecords r hr)) hq
          rw [List.map_map] at hcut
          exact hcut.resolve_left fun h => hrest (List.length_pos_iff.mpr h)

/-- A prefix of a message is refused or yields the first groups of the message,
all complete, up to a shortened last field. -/
theorem truncated_metric_never_misaligns {s p : Text} (hp : p <+: s) :
    (OstMessage s → lmtOstDecodeV2 p = none ∨
      ∃ m full, lmtOstDecodeV2 p = some m ∧ lmtOstDecodeV2 s = some full ∧
        Truncated 15 ';' m.ostinfo full.ostinfo) ∧
    (MdtMessage s → lmtMdtDecodeV1V2V3 p 3 = none ∨
      ∃ m full, lmtMdtDecodeV1V2V3 p 3 = some m ∧ lmtMdtDecodeV1V2V3 s 3 = some full ∧
        Truncated (mdtfields 3) ';' m.mdtinfo full.mdtinfo) := by
  constructor
  · rintro ⟨ctx, node, cpu, mem, records, len, h, hnode, hrecords, hs⟩
    rw [lmtOstStringV2_eq h] at hs
    split_ifs at hs with hfits
    obtain rfl := Option.some.inj hs
    cases hm : lmtOstDecodeV2 p with
    | none => exact Or.inl rfl
    | some m =>
      exact Or.inr ⟨m, _, rfl, lmtOstDecodeV2_ostText hnode hrecords,
        lmtOstDecodeV2_prefix hnode hrecords hp hm⟩
  · rintro ⟨ctx, node, cpu, mem, records, len, h, hnode, hrecords, hs⟩
    rw [lmtMdtStringV3_eq h] at hs
    split_ifs at hs with hfits
    obtain rfl := Option.some.inj hs
    have hchomp : chomp (mdtText node cpu mem records) <+: mdtText node cpu mem records := by
      unfold chomp
      split_ifs
      · exact List.dropLast_prefix _
      · exact List.prefix_rfl
    cases hm : lmtMdtDecodeV1V2V3 p 3 with
    | none => exact Or.inl rfl
    | some m =>
      exact Or.inr ⟨m, _, rfl, lmtMdtDecodeV3_chomp h.nonempty hnode hrecords,
        lmtMdtDecodeV3_prefix hnode hrecords (hp.trans hchomp) hm⟩

/-- A metric of two OSTs that lost a part of its last field. -/
theorem truncated_metric_never_misaligns_sample :
    ∃ s p m full, p <+: s ∧ p.length + 15 = s.length ∧ OstMessage s ∧
      lmtOstDecodeV2 p = some m ∧ lmtOstDecodeV2 s = some full ∧
      Truncated 15 ';' m.ostinfo full.ostinfo := by
  have hs : lmtOstStringV2 sampleOss 256 =
      some (ostText "oss1".toList 12500000 99000001 [sampleOst, sampleOst]) := by
    decide +kernel
  have hnode : IsField ';' "oss1".toList := by constructor <;> decide
  have hmessage : OstMessage (ostText "oss1".toList 12500000 99000001 [sampleOst, sampleOst]) :=
    ⟨sampleOss, _, _, _, _, 256, sampleOss_reports, hnode, by simp [sampleOst_valid], hs⟩
  have hp := List.take_prefix 180 (ostText "oss1".toList 12500000 99000001 [sampleOst, sampleOst])
  have haccepted : lmtOstDecodeV2 ((ostText "oss1".toList 12500000 99000001
      [sampleOst, sampleOst]).take 180) ≠ none := by
    decide +kernel
  obtain ⟨m, full, hm, hfull, hcut⟩ :=
    ((truncated_metric_never_misaligns hp).1 hmessage).resolve_left haccepted
  exact ⟨_, _, m, full, hp, by decide +kernel, hmessage, hm, hfull, hcut⟩

end Lmt
