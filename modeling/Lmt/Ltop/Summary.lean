import Lmt.Library.Grouping
import Lmt.Ltop.Sorting

/-!
# Summaries of the servers

`_summarize_target` makes one record for every server that has a fresh target: a
copy of its first one, into which the others are merged. The two kinds of target
differ in the samples that are merged.
-/

namespace Lmt

open FormattedText Grouping

section

variable {V : Type*}

/-- Both samples have as many data points, collected at the same times. -/
def Sample.SameTimes (s1 s2 : Sample V) : Prop :=
  s1.valid = s2.valid ∧ (0 < s1.valid → s1.time1 = s2.time1) ∧ (1 < s1.valid → s1.time0 = s2.time0)

instance (s1 s2 : Sample V) : Decidable (s1.SameTimes s2) :=
  inferInstanceAs (Decidable (_ ∧ _ ∧ _))

theorem Sample.SameTimes.refl (s : Sample V) : s.SameTimes s := ⟨rfl, fun _ => rfl, fun _ => rfl⟩

theorem Sample.SameTimes.symm {s1 s2 : Sample V} (h : s1.SameTimes s2) : s2.SameTimes s1 := by
  obtain ⟨hvalid, h1, h0⟩ := h
  refine ⟨hvalid.symm, ?_, ?_⟩
  · intro hpos
    exact (h1 (by omega)).symm
  · intro hpos
    exact (h0 (by omega)).symm

theorem Sample.SameTimes.trans {s1 s2 s3 : Sample V} (h : s1.SameTimes s2) (h' : s2.SameTimes s3) :
    s1.SameTimes s3 := by
  obtain ⟨hvalid, h1, h0⟩ := h
  obtain ⟨hvalid', h1', h0'⟩ := h'
  refine ⟨hvalid.trans hvalid', ?_, ?_⟩
  · intro hpos
    exact (h1 hpos).trans (h1' (by omega))
  · intro hpos
    exact (h0 hpos).trans (h0' (by omega))

def Sample.withPoints (s : Sample V) (val1 val0 : V) : Sample V :=
  { s with
    val1 := if 0 < s.valid then val1 else s.val1
    val0 := if 1 < s.valid then val0 else s.val0 }

theorem sampleCombine_of_sameTimes {s1 s2 : Sample V} (h : s1.SameTimes s2) (op : V → V → V) :
    sampleCombine op s1 s2 = s1.withPoints (op s1.val1 s2.val1) (op s1.val0 s2.val0) := by
  obtain ⟨hvalid, h1, h0⟩ := h
  unfold sampleCombine
  rw [if_neg (by simpa using hvalid), if_neg fun hc => hc.2 (h1 hc.1),
    if_neg fun hc => hc.2 (h0 hc.1)]
  rfl

theorem sampleCombine_of_not_sameTimes {s1 s2 : Sample V} (h : ¬s1.SameTimes s2)
    (op : V → V → V) : sampleCombine op s1 s2 = s1 := by
  unfold sampleCombine
  by_cases hvalid : s1.valid = s2.valid
  · by_cases h1 : 0 < s1.valid ∧ s1.time1 ≠ s2.time1
    · rw [if_neg (by simpa using hvalid), if_pos h1]
    · have h0 : 1 < s1.valid ∧ s1.time0 ≠ s2.time0 := by
        by_contra h0
        apply h
        refine ⟨hvalid, ?_, ?_⟩
        · intro hpos
          by_contra htime
          exact h1 ⟨hpos, htime⟩
        · intro hpos
          by_contra htime
          exact h0 ⟨hpos, htime⟩
      rw [if_neg (by simpa using hvalid), if_neg h1, if_pos h0]
  · rw [if_pos hvalid]

def Sample.matching (s : Sample V) (samples : List (Sample V)) : List (Sample V) :=
  samples.filter s.SameTimes

theorem withPoints_withPoints (s : Sample V) (val1 val0 val1' val0' : V) :
    (s.withPoints val1 val0).withPoints val1' val0' = s.withPoints val1' val0' := by
  unfold Sample.withPoints
  dsimp only
  congr 1 <;> split_ifs <;> rfl

theorem withPoints_self (s : Sample V) : s.withPoints s.val1 s.val0 = s := by
  unfold Sample.withPoints
  simp

/-- Merging a list of samples merges the data points of the matching ones. -/
theorem foldl_sampleCombine (op : V → V → V) (s : Sample V) (samples : List (Sample V)) :
    samples.foldl (sampleCombine op) s =
      s.withPoints (((s.matching samples).map Sample.val1).foldl op s.val1)
        (((s.matching samples).map Sample.val0).foldl op s.val0) := by
  induction samples generalizing s with
  | nil => exact (withPoints_self s).symm
  | cons s' samples ih =>
    rw [List.foldl_cons, ih]
    by_cases h : s.SameTimes s'
    · have hmatching : s.matching (s' :: samples) = s' :: s.matching samples :=
        List.filter_cons_of_pos (by simpa using h)
      have hsame : (s.withPoints (op s.val1 s'.val1) (op s.val0 s'.val0)).matching samples =
          s.matching samples := rfl
      rw [sampleCombine_of_sameTimes h, withPoints_withPoints, hsame, hmatching, List.map_cons,
        List.map_cons, List.foldl_cons, List.foldl_cons]
      unfold Sample.withPoints
      dsimp only
      congr 1
      · split_ifs with hpos <;> rfl
      · split_ifs with hpos <;> rfl
    · have hmatching : s.matching (s' :: samples) = s.matching samples :=
        List.filter_cons_of_neg (by simpa using h)
      rw [sampleCombine_of_not_sameTimes h, hmatching]

end

def countName (n : ℕ) : Text := '(' :: (Nat.toDigits 10 n ++ [')'])

/-- `strtoul (name + 1)`. The count of a list's records is far from the limits
of the program's integers. -/
def nameCount (name : Text) : ℕ := digitsValue ((name.drop 1).takeWhile Char.isDigit)

theorem nameCount_countName (n : ℕ) : nameCount (countName n) = n := by
  have hdigits : (Nat.toDigits 10 n ++ [')']).takeWhile Char.isDigit = Nat.toDigits 10 n :=
    takeWhile_append_stop (fun c hc => isDigit_of_mem_printed hc) (by simp)
  rw [nameCount, countName, List.drop_one, List.tail_cons, hdigits]
  exact Nat.ofDigitChars_toDigits (by omega) (by omega)

/-- `generic_target_t` without its samples. -/
structure TargetInfo where
  fsname : Text
  name : Text
  servername : Text
  tgtMetricTimestamp : ℤ
  recovStatus : Text
  tgtstate : Text
  tag : Bool
deriving DecidableEq

/-- What `_summarize_target` merges into the fields that all targets have. -/
def summarizeInfo (target server : TargetInfo) : TargetInfo :=
  { server with
    tgtMetricTimestamp :=
      if target.tgtMetricTimestamp < server.tgtMetricTimestamp then target.tgtMetricTimestamp
      else server.tgtMetricTimestamp
    tgtstate := if target.tgtstate ≠ "F".toList then target.tgtstate else server.tgtstate
    recovStatus :=
      if target.recovStatus.take 8 ≠ "COMPLETE".toList then target.recovStatus
      else server.recovStatus
    name := countName (nameCount server.name + 1) }

def GenericTarget.info (t : GenericTarget ℚ) : TargetInfo where
  fsname := t.fsname
  name := t.name
  servername := t.servername
  tgtMetricTimestamp := t.tgtMetricTimestamp
  recovStatus := t.recovStatus
  tgtstate := t.tgtstate
  tag := t.tag

def GenericTarget.withInfo (t : GenericTarget ℚ) (info : TargetInfo) : GenericTarget ℚ where
  fsname := info.fsname
  name := info.name
  servername := info.servername
  tgtMetricTimestamp := info.tgtMetricTimestamp
  recovStatus := info.recovStatus
  tgtstate := info.tgtstate
  pctCpu := t.pctCpu
  pctMem := t.pctMem
  tag := info.tag

def summarizeCommon (target server : GenericTarget ℚ) : GenericTarget ℚ :=
  server.withInfo (summarizeInfo target.info server.info)

theorem name_summarizeCommon (target server : GenericTarget ℚ) :
    (summarizeCommon target server).name = countName (nameCount server.name + 1) := rfl

theorem tag_summarizeCommon (target server : GenericTarget ℚ) :
    (summarizeCommon target server).tag = server.tag := rfl

/-- A kind of target as `_summarize_target` is called with it. `Field` names the
samples that are merged and `op` says how their data points are. -/
structure TargetKind (R Field : Type*) where
  common : R → GenericTarget ℚ
  setCommon : GenericTarget ℚ → R → R
  update : R → R → R
  field : Field → R → Sample ℚ
  op : Field → ℚ → ℚ → ℚ
  common_setCommon : ∀ c r, common (setCommon c r) = c
  common_update : ∀ target server,
    common (update target server) =
      { common server with tag := (common (update target server)).tag }
  field_setCommon : ∀ k c r, field k (setCommon c r) = field k r
  field_update : ∀ k target server,
    field k (update target server) = sampleCombine (op k) (field k server) (field k target)
  op_comm : ∀ k a b, op k a b = op k b a
  op_assoc : ∀ k a b c, op k (op k a b) c = op k a (op k b c)

namespace TargetKind

variable {R Field : Type*} (kind : TargetKind R Field)

def servername (r : R) : Text := (kind.common r).servername

def start (target : R) : R :=
  kind.setCommon { kind.common target with name := countName 1 } target

def merge (target server : R) : R :=
  let server := kind.update target server
  kind.setCommon (summarizeCommon (kind.common target) (kind.common server)) server

def summarizeStep (tnow staleSecs : ℤ) (serverData : List R) (target : R) : List R :=
  if tnow - (kind.common target).tgtMetricTimestamp > staleSecs then serverData
  else
    mergeOrAppend (fun server => kind.servername server = kind.servername target)
      (kind.merge target) (kind.start target) serverData

def summarizeTarget (targetData : List R) (tnow staleSecs : ℤ) : List R :=
  targetData.foldl (kind.summarizeStep tnow staleSecs) []

/-- The target's data is not older than `staleSecs`. -/
def Fresh (tnow staleSecs : ℤ) (target : R) : Prop :=
  tnow - (kind.common target).tgtMetricTimestamp ≤ staleSecs

instance (tnow staleSecs : ℤ) (target : R) : Decidable (kind.Fresh tnow staleSecs target) :=
  inferInstanceAs (Decidable (_ ≤ _))

def freshOn (tnow staleSecs : ℤ) (servername : Text) (targetData : List R) : List R :=
  (targetData.filter (kind.Fresh tnow staleSecs)).filter (kind.servername · = servername)

def findServer (servername : Text) (serverData : List R) : Option R :=
  serverData.find? (kind.servername · = servername)

theorem servername_start (target : R) :
    kind.servername (kind.start target) = kind.servername target := by
  rw [servername, start, common_setCommon]
  rfl

theorem servername_merge (target server : R) :
    kind.servername (kind.merge target server) = kind.servername server := by
  rw [servername, merge, common_setCommon, common_update]
  rfl

theorem field_start (k : Field) (target : R) :
    kind.field k (kind.start target) = kind.field k target :=
  kind.field_setCommon k _ target

theorem field_merge (k : Field) (target server : R) :
    kind.field k (kind.merge target server) =
      sampleCombine (kind.op k) (kind.field k server) (kind.field k target) := by
  rw [merge, field_setCommon, field_update]

theorem summarizeTarget_eq_group (targetData : List R) (tnow staleSecs : ℤ) :
    kind.summarizeTarget targetData tnow staleSecs =
      group kind.servername kind.servername kind.start kind.merge
        (targetData.filter (kind.Fresh tnow staleSecs)) := by
  rw [summarizeTarget, group, List.foldl_filter]
  congr 1
  funext serverData target
  rw [summarizeStep]
  by_cases hfresh : kind.Fresh tnow staleSecs target
  · rw [if_neg (not_lt.mpr hfresh), decide_eq_true hfresh, if_pos rfl]
    rfl
  · have hstale : tnow - (kind.common target).tgtMetricTimestamp > staleSecs := not_le.mp hfresh
    rw [if_pos hstale, decide_eq_false hfresh, if_neg Bool.false_ne_true]

theorem nodup_summarizeTarget (targetData : List R) (tnow staleSecs : ℤ) :
    ((kind.summarizeTarget targetData tnow staleSecs).map kind.servername).Nodup := by
  rw [summarizeTarget_eq_group]
  exact nodup_group kind.servername_start kind.servername_merge _

theorem mem_map_summarizeTarget (targetData : List R) (tnow staleSecs : ℤ) (servername : Text) :
    servername ∈ (kind.summarizeTarget targetData tnow staleSecs).map kind.servername ↔
      kind.freshOn tnow staleSecs servername targetData ≠ [] := by
  rw [summarizeTarget_eq_group, mem_map_group kind.servername_start kind.servername_merge, freshOn]
  constructor
  · intro h hnil
    obtain ⟨target, htarget, hname⟩ := List.mem_map.mp h
    exact List.filter_eq_nil_iff.mp hnil target htarget (by simpa using hname)
  · intro h
    obtain ⟨target, htarget⟩ := List.exists_mem_of_ne_nil _ h
    obtain ⟨hmem, hname⟩ := List.mem_filter.mp htarget
    exact List.mem_map.mpr ⟨target, hmem, by simpa using hname⟩

theorem findServer_summarizeTarget (targetData : List R) (tnow staleSecs : ℤ) (servername : Text) :
    kind.findServer servername (kind.summarizeTarget targetData tnow staleSecs) =
      record kind.start kind.merge (kind.freshOn tnow staleSecs servername targetData) := by
  rw [findServer, summarizeTarget_eq_group, find?_group kind.servername_start kind.servername_merge]
  rfl

theorem length_summarizeTarget (targetData : List R) (tnow staleSecs : ℤ) :
    (kind.summarizeTarget targetData tnow staleSecs).length =
      ((targetData.filter (kind.Fresh tnow staleSecs)).map kind.servername).dedup.length := by
  rw [summarizeTarget_eq_group, length_group kind.servername_start kind.servername_merge]

theorem name_foldl_merge (targets : List R) (first : R) :
    (kind.common (targets.foldl (fun server target => kind.merge target server)
      (kind.start first))).name = countName (targets.length + 1) := by
  induction targets using List.reverseRecOn with
  | nil =>
    rw [List.foldl_nil, start, common_setCommon]
    rfl
  | append_singleton targets target ih =>
    rw [List.foldl_append, List.foldl_cons, List.foldl_nil, merge, common_setCommon,
      name_summarizeCommon, common_update]
    dsimp only
    rw [ih, nameCount_countName, List.length_append]
    rfl

/-- A merged sample has the data points of the first target, merged with those
of the others that were collected at the same times. -/
theorem field_foldl_merge (k : Field) (targets : List R) (first : R) :
    kind.field k (targets.foldl (fun server target => kind.merge target server)
        (kind.start first)) =
      (kind.field k first).withPoints
        ((((kind.field k first).matching (targets.map (kind.field k))).map Sample.val1).foldl
          (kind.op k) (kind.field k first).val1)
        ((((kind.field k first).matching (targets.map (kind.field k))).map Sample.val0).foldl
          (kind.op k) (kind.field k first).val0) := by
  have hfold : kind.field k (targets.foldl (fun server target => kind.merge target server)
        (kind.start first)) =
      targets.foldl (fun s target => sampleCombine (kind.op k) s (kind.field k target))
        (kind.field k (kind.start first)) := field_foldl (kind.field_merge k) targets _
  rw [hfold, kind.field_start, ← List.foldl_map, foldl_sampleCombine]

end TargetKind

/-- The samples of an OST that are merged. -/
inductive OstField where
  | rbytes | wbytes | iops | numExports | lockCount | grantRate | cancelRate | connect | kbytesFree
  | kbytesTotal
deriving DecidableEq

section

variable {V : Type*}

def Oststat.field : OstField → Oststat V → Sample V
  | .rbytes => Oststat.rbytes
  | .wbytes => Oststat.wbytes
  | .iops => Oststat.iops
  | .numExports => Oststat.numExports
  | .lockCount => Oststat.lockCount
  | .grantRate => Oststat.grantRate
  | .cancelRate => Oststat.cancelRate
  | .connect => Oststat.connect
  | .kbytesFree => Oststat.kbytesFree
  | .kbytesTotal => Oststat.kbytesTotal

/-- The samples of an MDT that are merged. -/
inductive MdtField where
  | inodesFree | inodesTotal | «open» | close | getattr | setattr | link | unlink | mkdir | rmdir
  | statfs | rename | kbytesFree | kbytesTotal | getxattr | readBytes | writeBytes
deriving DecidableEq

def Mdtstat.field : MdtField → Mdtstat V → Sample V
  | .inodesFree => Mdtstat.inodesFree
  | .inodesTotal => Mdtstat.inodesTotal
  | .open => Mdtstat.open
  | .close => Mdtstat.close
  | .getattr => Mdtstat.getattr
  | .setattr => Mdtstat.setattr
  | .link => Mdtstat.link
  | .unlink => Mdtstat.unlink
  | .mkdir => Mdtstat.mkdir
  | .rmdir => Mdtstat.rmdir
  | .statfs => Mdtstat.statfs
  | .rename => Mdtstat.rename
  | .kbytesFree => Mdtstat.kbytesFree
  | .kbytesTotal => Mdtstat.kbytesTotal
  | .getxattr => Mdtstat.getxattr
  | .readBytes => Mdtstat.readBytes
  | .writeBytes => Mdtstat.writeBytes

end

def singleOstUpdateSummary (ost summary : Oststat ℚ) : Oststat ℚ :=
  { summary with
    rbytes := sampleAdd summary.rbytes ost.rbytes
    wbytes := sampleAdd summary.wbytes ost.wbytes
    iops := sampleAdd summary.iops ost.iops
    kbytesFree := sampleAdd summary.kbytesFree ost.kbytesFree
    kbytesTotal := sampleAdd summary.kbytesTotal ost.kbytesTotal
    lockCount := sampleAdd summary.lockCount ost.lockCount
    grantRate := sampleAdd summary.grantRate ost.grantRate
    cancelRate := sampleAdd summary.cancelRate ost.cancelRate
    connect := sampleAdd summary.connect ost.connect
    -- missing clients on OSTs are to show in the exports of the OSS
    numExports := sampleMin summary.numExports ost.numExports
    common.tag := if ost.common.tag then ost.common.tag else summary.common.tag }

/-- The percentages of CPU and memory are those of the first MDT. -/
def singleMdtUpdateSummary (mdt summary : Mdtstat ℚ) : Mdtstat ℚ :=
  { summary with
    «open» := sampleAdd summary.open mdt.open
    close := sampleAdd summary.close mdt.close
    getattr := sampleAdd summary.getattr mdt.getattr
    setattr := sampleAdd summary.setattr mdt.setattr
    link := sampleAdd summary.link mdt.link
    unlink := sampleAdd summary.unlink mdt.unlink
    mkdir := sampleAdd summary.mkdir mdt.mkdir
    rmdir := sampleAdd summary.rmdir mdt.rmdir
    statfs := sampleAdd summary.statfs mdt.statfs
    rename := sampleAdd summary.rename mdt.rename
    inodesTotal := sampleAdd summary.inodesTotal mdt.inodesTotal
    inodesFree := sampleAdd summary.inodesFree mdt.inodesFree
    kbytesTotal := sampleAdd summary.kbytesTotal mdt.kbytesTotal
    kbytesFree := sampleAdd summary.kbytesFree mdt.kbytesFree
    getxattr := sampleAdd summary.getxattr mdt.getxattr
    readBytes := sampleAdd summary.readBytes mdt.readBytes
    writeBytes := sampleAdd summary.writeBytes mdt.writeBytes }

def OstField.op : OstField → ℚ → ℚ → ℚ
  | .numExports => min
  | _ => (· + ·)

def MdtField.op : MdtField → ℚ → ℚ → ℚ := fun _ => (· + ·)

theorem OstField.op_comm (k : OstField) (a b : ℚ) : k.op a b = k.op b a := by
  cases k with
  | numExports => exact min_comm a b
  | _ => exact add_comm a b

theorem OstField.op_assoc (k : OstField) (a b c : ℚ) : k.op (k.op a b) c = k.op a (k.op b c) := by
  cases k with
  | numExports => exact min_assoc a b c
  | _ => exact add_assoc a b c

theorem field_singleOstUpdateSummary (k : OstField) (ost summary : Oststat ℚ) :
    (singleOstUpdateSummary ost summary).field k =
      sampleCombine k.op (summary.field k) (ost.field k) := by
  cases k <;> rfl

theorem field_singleMdtUpdateSummary (k : MdtField) (mdt summary : Mdtstat ℚ) :
    (singleMdtUpdateSummary mdt summary).field k =
      sampleCombine k.op (summary.field k) (mdt.field k) := by
  cases k <;> rfl

theorem common_singleOstUpdateSummary (ost summary : Oststat ℚ) :
    (singleOstUpdateSummary ost summary).common =
      { summary.common with tag := (singleOstUpdateSummary ost summary).common.tag } := rfl

theorem common_singleMdtUpdateSummary (mdt summary : Mdtstat ℚ) :
    (singleMdtUpdateSummary mdt summary).common =
      { summary.common with tag := (singleMdtUpdateSummary mdt summary).common.tag } := rfl

theorem Oststat.common_setCommon (c : GenericTarget ℚ) (o : Oststat ℚ) :
    { o with common := c }.common = c := rfl

theorem Mdtstat.common_setCommon (c : GenericTarget ℚ) (m : Mdtstat ℚ) :
    { m with common := c }.common = c := rfl

theorem Oststat.field_setCommon (k : OstField) (c : GenericTarget ℚ) (o : Oststat ℚ) :
    { o with common := c }.field k = o.field k := by
  cases k <;> rfl

theorem Mdtstat.field_setCommon (k : MdtField) (c : GenericTarget ℚ) (m : Mdtstat ℚ) :
    { m with common := c }.field k = m.field k := by
  cases k <;> rfl

theorem MdtField.op_comm (k : MdtField) (a b : ℚ) : k.op a b = k.op b a := add_comm a b

theorem MdtField.op_assoc (k : MdtField) (a b c : ℚ) : k.op (k.op a b) c = k.op a (k.op b c) :=
  add_assoc a b c

def ostKind : TargetKind (Oststat ℚ) OstField where
  common := Oststat.common
  setCommon c o := { o with common := c }
  update := singleOstUpdateSummary
  field := Oststat.field
  op := OstField.op
  common_setCommon := Oststat.common_setCommon
  common_update := common_singleOstUpdateSummary
  field_setCommon := Oststat.field_setCommon
  field_update := field_singleOstUpdateSummary
  op_comm := OstField.op_comm
  op_assoc := OstField.op_assoc

def mdtKind : TargetKind (Mdtstat ℚ) MdtField where
  common := Mdtstat.common
  setCommon c m := { m with common := c }
  update := singleMdtUpdateSummary
  field := Mdtstat.field
  op := MdtField.op
  common_setCommon := Mdtstat.common_setCommon
  common_update := common_singleMdtUpdateSummary
  field_setCommon := Mdtstat.field_setCommon
  field_update := field_singleMdtUpdateSummary
  op_comm := MdtField.op_comm
  op_assoc := MdtField.op_assoc

/-- The `oss_data` that `_summarize_ost` makes. -/
def summarizeOst (ostData : List (Oststat ℚ)) (tnow staleSecs : ℤ) : List (Oststat ℚ) :=
  listSort (fun o1 o2 => cmpTgtstatByserver o1.common o2.common)
    (ostKind.summarizeTarget ostData tnow staleSecs)

/-- The `mds_data` that `_summarize_mdt` makes. -/
def summarizeMdt (mdtData : List (Mdtstat ℚ)) (tnow staleSecs : ℤ) : List (Mdtstat ℚ) :=
  listSort (fun m1 m2 => cmpTgtstatByserver m1.common m2.common)
    (mdtKind.summarizeTarget mdtData tnow staleSecs)

/-- `_copy_mdtstat` leaves the samples of the free and the total space to both records. So
the first fresh MDT of each server that is not in `done` gets those of its server. -/
def shareSpace (tnow staleSecs : ℤ) (mdsData : List (Mdtstat ℚ)) (done : List Text) :
    List (Mdtstat ℚ) → List (Mdtstat ℚ)
  | [] => []
  | m :: mdtData =>
    if tnow - m.common.tgtMetricTimestamp > staleSecs ∨ m.common.servername ∈ done then
      m :: shareSpace tnow staleSecs mdsData done mdtData
    else
      ((mdtKind.findServer m.common.servername mdsData).elim m fun mds =>
          { m with kbytesFree := mds.kbytesFree, kbytesTotal := mds.kbytesTotal }) ::
        shareSpace tnow staleSecs mdsData (m.common.servername :: done) mdtData

section

variable {R Field : Type*} (kind : TargetKind R Field) (f : R → R → ℤ)

theorem nodup_listSort_summarizeTarget (targetData : List R) (tnow staleSecs : ℤ) :
    ((listSort f (kind.summarizeTarget targetData tnow staleSecs)).map kind.servername).Nodup :=
  ((perm_listSort f _).map kind.servername).nodup_iff.mpr
    (kind.nodup_summarizeTarget targetData tnow staleSecs)

theorem findServer_listSort (targetData : List R) (tnow staleSecs : ℤ) (servername : Text) :
    kind.findServer servername (listSort f (kind.summarizeTarget targetData tnow staleSecs)) =
      record kind.start kind.merge (kind.freshOn tnow staleSecs servername targetData) := by
  rw [← kind.findServer_summarizeTarget]
  exact find?_perm (perm_listSort f _)
    (nodup_listSort_summarizeTarget kind f targetData tnow staleSecs) servername

end

end Lmt
