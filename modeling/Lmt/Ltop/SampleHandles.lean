import Lmt.Library.Stores
import Lmt.Ltop.Summary

/-!
# Samples behind handles

A record of `ltop` does not hold its samples but pointers to them. A summary
starts as a byte copy of a target's record, in which the pointers are replaced
one by one by pointers to copies of the samples. Then the samples of other
targets are added to it in place.
-/

namespace Lmt

open FormattedText Grouping Stores

/-- The fields of a record that are samples; `Field` names those that are merged. -/
inductive SampleField (Field : Type*) where
  | pctCpu
  | pctMem
  | field (k : Field)
deriving DecidableEq

abbrev OstSample := SampleField OstField

abbrev MdtSample := SampleField MdtField

/-- A record with a handle for each sample. -/
structure Stored (F : Type*) where
  info : TargetInfo
  handle : F → ℕ

def Stored.servername {F : Type*} (r : Stored F) : Text := r.info.servername

def copyOststatFields : List OstSample :=
  [.field .rbytes, .field .wbytes, .field .iops, .field .numExports, .field .lockCount,
    .field .grantRate, .field .cancelRate, .field .connect, .field .kbytesFree,
    .field .kbytesTotal, .pctCpu, .pctMem]

/-- `_copy_mdtstat`. The free and the total space are not among them. -/
def copyMdtstatFields : List MdtSample :=
  [.field .inodesFree, .field .inodesTotal, .field .open, .field .close, .field .getattr,
    .field .setattr, .field .link, .field .unlink, .field .mkdir, .field .rmdir, .field .statfs,
    .field .rename, .pctCpu, .pctMem, .field .getxattr, .field .readBytes, .field .writeBytes]

def singleOstUpdateOps : List (OstSample × (Sample ℚ → Sample ℚ → Sample ℚ)) :=
  [(.field .rbytes, sampleAdd), (.field .wbytes, sampleAdd), (.field .iops, sampleAdd),
    (.field .kbytesFree, sampleAdd), (.field .kbytesTotal, sampleAdd),
    (.field .lockCount, sampleAdd), (.field .grantRate, sampleAdd),
    (.field .cancelRate, sampleAdd), (.field .connect, sampleAdd), (.field .numExports, sampleMin)]

def singleMdtUpdateOps : List (MdtSample × (Sample ℚ → Sample ℚ → Sample ℚ)) :=
  [(.field .open, sampleAdd), (.field .close, sampleAdd), (.field .getattr, sampleAdd),
    (.field .setattr, sampleAdd), (.field .link, sampleAdd), (.field .unlink, sampleAdd),
    (.field .mkdir, sampleAdd), (.field .rmdir, sampleAdd), (.field .statfs, sampleAdd),
    (.field .rename, sampleAdd), (.field .inodesTotal, sampleAdd), (.field .inodesFree, sampleAdd),
    (.field .kbytesTotal, sampleAdd), (.field .kbytesFree, sampleAdd),
    (.field .getxattr, sampleAdd), (.field .readBytes, sampleAdd), (.field .writeBytes, sampleAdd)]

def destroyOststatFields : List OstSample :=
  [.field .rbytes, .field .wbytes, .field .iops, .field .numExports, .field .lockCount,
    .field .grantRate, .field .cancelRate, .field .connect, .field .kbytesFree,
    .field .kbytesTotal, .pctCpu, .pctMem]

/-- The field of an `mdtstat_t` where an `oststat_t` has the given one. -/
def mdtFieldAt : OstField → MdtField
  | .rbytes => .inodesFree
  | .wbytes => .inodesTotal
  | .iops => .open
  | .numExports => .close
  | .lockCount => .getattr
  | .grantRate => .setattr
  | .cancelRate => .link
  | .connect => .unlink
  | .kbytesFree => .mkdir
  | .kbytesTotal => .rmdir

def mdtSampleAt : OstSample → MdtSample
  | .pctCpu => .pctCpu
  | .pctMem => .pctMem
  | .field k => .field (mdtFieldAt k)

/-- A kind of record as `_summarize_target` is called with it. -/
structure StoredKind (F : Type*) where
  copied : List F
  ops : List (F × (Sample ℚ → Sample ℚ → Sample ℚ))
  /-- a target's tag is passed on to its server -/
  passesTag : Bool
  /-- what the destructor of the server list gives back -/
  destroyed : List F
  nodup_copied : copied.Nodup
  nodup_ops : (ops.map Prod.fst).Nodup
  nodup_destroyed : destroyed.Nodup
  destroyed_subset : destroyed ⊆ copied

def ostStored : StoredKind OstSample where
  copied := copyOststatFields
  ops := singleOstUpdateOps
  passesTag := true
  destroyed := destroyOststatFields
  nodup_copied := by decide
  nodup_ops := by decide
  nodup_destroyed := by decide
  destroyed_subset := by decide

/-- The list of the MDSs is made with the destructor of the OSTs. -/
def mdtStored : StoredKind MdtSample where
  copied := copyMdtstatFields
  ops := singleMdtUpdateOps
  passesTag := false
  destroyed := destroyOststatFields.map mdtSampleAt
  nodup_copied := by decide
  nodup_ops := by decide
  nodup_destroyed := by decide
  destroyed_subset := by decide

namespace StoredKind

variable {F : Type*} [DecidableEq F] (kind : StoredKind F) (A : Allocator (Sample ℚ))

/-- The record of a server after another target, but for its samples. -/
def mergeInfo (target server : Stored F) : Stored F :=
  { server with
    info := summarizeInfo target.info
      { server.info with tag := kind.passesTag && target.info.tag || server.info.tag } }

def summarizeStep (tnow staleSecs : ℤ) (st : List (Stored F) × Store (Sample ℚ))
    (target : Stored F) : Option (List (Stored F) × Store (Sample ℚ)) :=
  if tnow - target.info.tgtMetricTimestamp > staleSecs then some st
  else
    match st.1.find? (·.servername = target.servername) with
    | some server =>
      (combineFields target.handle server.handle kind.ops st.2).map fun s =>
        (mergeOrAppend (·.servername = target.servername) (kind.mergeInfo target) target st.1, s)
    | none =>
      (copyFields A target.handle kind.copied target.handle st.2).map fun p =>
        (st.1 ++ [⟨{ target.info with name := countName 1 }, p.1⟩], p.2)

def emptyOut (serverData : List (Stored F)) (s : Store (Sample ℚ)) : Option (Store (Sample ℚ)) :=
  serverData.foldlM (fun s r => freeFields r.handle kind.destroyed s) s

def summarize (tnow staleSecs : ℤ) (targetData serverData : List (Stored F))
    (s : Store (Sample ℚ)) : Option (List (Stored F) × Store (Sample ℚ)) :=
  (kind.emptyOut serverData s).bind fun s =>
    (targetData.foldlM (kind.summarizeStep A tnow staleSecs) ([], s)).map fun st =>
      (listSort (fun r1 r2 => cmpServerNames r1.servername r2.servername) st.1, st.2)

end StoredKind

/-- The lists of targets with their samples: no two fields share a sample. -/
structure StoredTargets where
  ostData : List (Stored OstSample)
  mdtData : List (Stored MdtSample)
  store : Store (Sample ℚ)
  ost_mem : ∀ o ∈ ostData, ∀ f, o.handle f ∈ store
  mdt_mem : ∀ m ∈ mdtData, ∀ f, m.handle f ∈ store
  ost_injective : ∀ o ∈ ostData, Function.Injective o.handle
  mdt_injective : ∀ m ∈ mdtData, Function.Injective m.handle
  ost_disjoint : ostData.Pairwise fun o o' => ∀ f f', o.handle f ≠ o'.handle f'
  mdt_disjoint : mdtData.Pairwise fun m m' => ∀ f f', m.handle f ≠ m'.handle f'
  disjoint : ∀ o ∈ ostData, ∀ m ∈ mdtData, ∀ f f', o.handle f ≠ m.handle f'

/-- The lists of servers, and the store behind all records. -/
structure Summaries where
  ossData : List (Stored OstSample)
  mdsData : List (Stored MdtSample)
  store : Store (Sample ℚ)

/-- A call of `_summarize_ost` or of `_summarize_mdt`. -/
inductive Rebuild where
  | oss (tnow staleSecs : ℤ)
  | mds (tnow staleSecs : ℤ)

namespace StoredTargets

variable (t : StoredTargets) (A : Allocator (Sample ℚ))

def start : Summaries := ⟨[], [], t.store⟩

def rebuild (s : Summaries) : Rebuild → Option Summaries
  | .oss tnow staleSecs =>
    (ostStored.summarize A tnow staleSecs t.ostData s.ossData s.store).map fun st =>
      { s with ossData := st.1, store := st.2 }
  | .mds tnow staleSecs =>
    (mdtStored.summarize A tnow staleSecs t.mdtData s.mdsData s.store).map fun st =>
      { s with mdsData := st.1, store := st.2 }

def rebuilt (calls : List Rebuild) : Option Summaries := calls.foldlM (t.rebuild A) t.start

end StoredTargets

end Lmt
