import Lmt.Ltop.Decode
import Lmt.Metrics.Mdt
import Lmt.Proc.Discipline

/-!
# The states of the OSTs from an MDS to `ltop`

An MDS reads the state of its connection to every OST from the proc or sys tree,
shortens it to the one character that is documented for `ltop`, and puts all of
them in one metric. `ltop` shows the character in the row of the OST.
-/

namespace Lmt

open Attempts FormattedText SeparatedFields

def oscStates : List (Text × Char) :=
  [("CLOSED".toList, 'C'), ("NEW".toList, 'N'), ("DISCONN".toList, 'D'),
    ("CONNECTING".toList, 'c'), ("REPLAY".toList, 'r'), ("REPLAY_LOCKS".toList, 'l'),
    ("REPLAY_WAIT".toList, 'w'), ("RECOVER".toList, 'R'), ("FULL".toList, 'F'),
    ("EVICTED".toList, 'E')]

def oscState (state : Text) : Text :=
  match oscStates.lookup state with
  | some c => [c]
  | none => ['?']

/-- `_get_oscstring`: the text of one OSC in a buffer of `len` bytes. -/
def getOscstring (fs : ProcFs) (name : Text) (len : ℤ) : ProcM (Option Text) := do
  match ← procLustreOscinfo fs name with
  | .error _ => pure none
  | .ok (uuid, state) => pure (snprintfChecked len (terminate ';' [uuid, oscState state]))

/-- The loop of `lmt_osc_string_v1` over the OSCs. -/
def appendOscs (fs : ProcFs) (len : ℤ) : List Text → Text → ProcM (Option Text)
  | [], s => pure (some s)
  | name :: names, s => do
    match ← getOscstring fs name (len - s.length) with
    | none => pure none
    | some t => appendOscs fs len names (s ++ t)

/-- `lmt_osc_string_v1` with the node name that `uname` gives; `none` for a return value
of -1. -/
def lmtOscStringV1 (fs : ProcFs) (nodename : Option Text) (len : ℤ) : ProcM (Option Text) := do
  match ← procLustreOsclist fs with
  | .error _ => pure none
  | .ok osclist =>
    if osclist = [] then pure none
    else
      match nodename with
      | none => pure none
      | some node =>
        match snprintfChecked len (terminate ';' [['1'], node]) with
        | none => pure none
        | some s => Option.map chomp <$> appendOscs fs len osclist s

def oscinfoOf : Node → Except Errno (Text × Text)
  | .missing e => .error e
  | .dir _ => .error .ok
  | .file content =>
    match (scanf [.word 31, .space, .word 31] content).1 with
    | [.text s1, .text s2] => .ok (trimUuid s1, s2)
    | _ => .error .io

/-- The uuid of the OST behind an OSC and the state of the connection. -/
def ProcFs.oscinfo (fs : ProcFs) (name : Text) : Except Errno (Text × Text) :=
  oscinfoOf (fs.node (oscPath fs name))

def ProcFs.oscNames (fs : ProcFs) : Except Errno (List Text) :=
  match fs.node (if oscInProc (lustreVersion fs) then "fs/lustre/osc".toList
    else "kernel/debug/lustre/osp/".toList) with
  | .missing e => .error e
  | .file _ => .error .ok
  | .dir entries => .ok (subdirNames entries)

/-- The uuids of the OSTs are names that can stand in a metric. -/
def ProcFs.OscUuids (fs : ProcFs) : Prop :=
  ∀ names, fs.oscNames = .ok names → ∀ name ∈ names, ∀ o, fs.oscinfo name = .ok o →
    IsField ';' o.1

section

variable {fs : ProcFs} {names : List Text} {node s t : Text} {len : ℤ}

theorem wp_procLustreOscinfo (name : Text) (Q : Except Errno (Text × Text) → Ctx → Prop) :
    wp (procLustreOscinfo fs name) Q .closed ↔
      VersionReadable fs ∧ (fs.node (oscPath fs name)).isDir = false ∧
        Q (fs.oscinfo name) .closed := by
  unfold procLustreOscinfo ProcFs.oscinfo
  rw [wp_bind, wp_packedLustreVersion]
  apply and_congr_right
  intro _
  change wp (procOpen fs (oscPath fs name) >>= _) _ .closed ↔ _
  rw [wp_bind, wp_procOpen]
  cases fs.node (oscPath fs name) with
  | missing e => simp [Node.isDir, oscinfoOf]
  | file content =>
    simp only [procScanf, wp_bind, wp_reading_file, wp_procClose_file, wp_pure, Node.isDir,
      true_and]
    rfl
  | dir entries => simp [procScanf, Node.isDir]

theorem wp_procLustreOsclist (Q : Except Errno (List Text) → Ctx → Prop) :
    wp (procLustreOsclist fs) Q .closed ↔
      VersionReadable fs ∧
        (fs.node (if oscInProc (lustreVersion fs) then "fs/lustre/osc".toList
          else "kernel/debug/lustre/osp/".toList)).isFile = false ∧ Q fs.oscNames .closed := by
  unfold procLustreOsclist ProcFs.oscNames
  rw [wp_bind, wp_packedLustreVersion]
  apply and_congr_right
  intro _
  rw [wp_subdirlist]
  cases fs.node _ with
  | missing e => simp [Node.isFile]
  | file content => simp [Node.isFile]
  | dir entries => simp [Node.isFile]

def oscFields (o : Text × Text) : List Text := [o.1, oscState o.2]

/-- The whole metric before its last separator is chomped. -/
def oscText (node : Text) (oscs : List (Text × Text)) : Text :=
  terminate ';' [['1'], node] ++ (oscs.map oscFields).flatMap (terminate ';')

theorem exists_of_appendOscs
    (h : wp (appendOscs fs len names s) (fun r _ => r = some t) .closed) :
    ∃ oscs, List.Forall₂ (fun name o => fs.oscinfo name = .ok o) names oscs ∧
      t = s ++ (oscs.map oscFields).flatMap (terminate ';') := by
  induction names generalizing s with
  | nil =>
    cases h
    exact ⟨[], .nil, by simp⟩
  | cons name names ih =>
    unfold appendOscs getOscstring at h
    rw [wp_bind, wp_bind, wp_procLustreOscinfo] at h
    obtain ⟨-, -, h⟩ := h
    cases hosc : fs.oscinfo name with
    | error e => simp [hosc] at h
    | ok o =>
      simp only [hosc, wp_pure, snprintfChecked_eq] at h
      by_cases hfits : ((terminate ';' [o.1, oscState o.2]).length : ℤ) < len - s.length
      · rw [if_pos hfits] at h
        obtain ⟨oscs, hoscs, rfl⟩ := ih h
        exact ⟨o :: oscs, .cons hosc hoscs, by simp [oscFields]⟩
      · rw [if_neg hfits] at h
        simp at h

theorem exists_of_lmtOscStringV1
    (h : wp (lmtOscStringV1 fs (some node) len) (fun r _ => r = some s) .closed) :
    ∃ names oscs, fs.oscNames = .ok names ∧
      List.Forall₂ (fun name o => fs.oscinfo name = .ok o) names oscs ∧ oscs ≠ [] ∧
      s = chomp (oscText node oscs) := by
  unfold lmtOscStringV1 at h
  rw [wp_bind, wp_procLustreOsclist] at h
  obtain ⟨-, -, h⟩ := h
  cases hnames : fs.oscNames with
  | error e => simp [hnames] at h
  | ok names =>
    simp only [hnames, wp_ite, wp_pure] at h
    by_cases hempty : names = []
    · rw [if_pos hempty] at h
      simp at h
    · rw [if_neg hempty, snprintfChecked_eq] at h
      by_cases hhead : ((terminate ';' [['1'], node]).length : ℤ) < len
      · rw [if_pos hhead, wp_map] at h
        obtain ⟨r, ctx, hexec, hs⟩ := wp_iff.mp h
        obtain ⟨t, rfl, rfl⟩ := Option.map_eq_some_iff.mp hs
        obtain ⟨oscs, hoscs, rfl⟩ := exists_of_appendOscs ((wp_of_exec hexec).mpr rfl)
        refine ⟨names, oscs, rfl, hoscs, ?_, rfl⟩
        rintro rfl
        exact hempty (List.forall₂_nil_right_iff.mp hoscs)
      · rw [if_neg hhead] at h
        simp at h

theorem isField_oscState (state : Text) : IsField ';' (oscState state) := by
  unfold oscState
  cases h : oscStates.lookup state with
  | none => constructor <;> decide
  | some c =>
    have hchar : ∀ e ∈ oscStates, ';' ≠ e.2 := by decide
    obtain ⟨l₁, l₂, hsplit, -⟩ := List.lookup_eq_some_iff.mp h
    have hc := hchar (state, c) (by simp [hsplit])
    exact ⟨by simp, by simpa using hc⟩

theorem isField_oscFields {o : Text × Text} (ho : IsField ';' o.1) :
    ∀ f ∈ oscFields o, IsField ';' f := by
  simp [oscFields, ho, isField_oscState]

theorem lmtOscDecodeV1Oscinfo_fields {o : Text × Text} (ho : IsField ';' o.1) :
    lmtOscDecodeV1Oscinfo (joined ';' (oscFields o)) =
      some { oscname := o.1, oscstate := oscState o.2 } := by
  have hstate := isField_oscState o.2
  have hscan : sscanf [upToSemicolon, .lit ';', upToSemicolon, .lit ';']
      (o.1 ++ ';' :: oscState o.2) = [.text o.1, .text (oscState o.2)] := by
    have hlast := sscanf_upToSemicolon hstate (stopsAt_nil _) [.lit ';']
    rw [List.append_nil] at hlast
    rw [sscanf_upToSemicolon ho (by simp), sscanf_lit, hlast]
    rfl
  have hskip : strskip (o.1 ++ ';' :: oscState o.2) 2 ';' = some [] := by
    rw [strskip_field ho.sep_notMem, strskip_last hstate.ne_nil hstate.sep_notMem, strskip_zero]
  simp [lmtOscDecodeV1Oscinfo, oscFields, joined, hscan, hskip]

theorem chomp_oscText {oscs : List (Text × Text)} (hne : oscs ≠ []) :
    chomp (oscText node oscs) =
      terminate ';' [['1'], node] ++ joined ';' (oscs.map oscFields).flatten := by
  have hfields : (oscs.map oscFields).flatten ≠ [] := by
    obtain ⟨o, os, rfl⟩ := List.exists_cons_of_ne_nil hne
    simp [oscFields]
  unfold oscText chomp
  rw [← terminate_flatten, terminate_eq_joined ';' hfields]
  generalize terminate ';' [['1'], node] = header
  rw [← List.append_assoc]
  simp

theorem lmtOscDecodeV1_chomp {oscs : List (Text × Text)} (hnode : IsField ';' node)
    (hne : oscs ≠ []) (hoscs : ∀ o ∈ oscs, IsField ';' o.1) :
    lmtOscDecodeV1 (chomp (oscText node oscs)) =
      some { mdsname := node, oscinfo := oscs.map fun o => joined ';' (oscFields o) } := by
  have hlen : ∀ fs ∈ oscs.map oscFields, fs.length = 2 := by
    intro fs hfs
    obtain ⟨o, -, rfl⟩ := List.mem_map.mp hfs
    rfl
  have hfields : ∀ fs ∈ oscs.map oscFields, ∀ f ∈ fs, IsField ';' f := by
    intro fs hfs
    obtain ⟨o, ho, rfl⟩ := List.mem_map.mp hfs
    exact isField_oscFields (hoscs o ho)
  have hgroups := strskipcpyAll_unterminated (by decide) hlen hfields
  rw [chomp_oscText hne]
  generalize joined ';' (oscs.map oscFields).flatten = body at hgroups ⊢
  have hversion : (Directive.skip .float).read (['1'] ++ ';' :: (node ++ ';' :: body)) =
      some ([], ';' :: (node ++ ';' :: body)) := by
    have hstop : StopsAt continuesFloat (';' :: (node ++ ';' :: body)) :=
      (stopsAt_cons _ _ _).mpr (by decide)
    have hdot : StopsAt (· == '.') (';' :: (node ++ ';' :: body)) :=
      (stopsAt_cons _ _ _).mpr (by decide)
    have hfloat := scanFloat_digits (List.cons_ne_nil '1' [])
      (List.forall_mem_singleton.mpr rfl) hstop hdot
    rw [List.singleton_append] at hfloat
    simp [Directive.read, hfloat]
  have hscan : sscanf [.skip .float, .lit ';', upToSemicolon]
      (terminate ';' [['1'], node] ++ body) = [.text node] := by
    have hstop : StopsAt (· != ';') (';' :: body) := by simp
    have hname := sscanf_upToSemicolon hnode hstop []
    simpa [hname] using sscanf_cons hversion [.lit ';', upToSemicolon]
  have hheader : ∀ f ∈ [['1'], node], ';' ∉ f := by simp [hnode.sep_notMem]
  have hskip : strskip (terminate ';' [['1'], node] ++ body) 2 ';' = some body := by
    simpa using strskip_terminate hheader body 0
  unfold lmtOscDecodeV1
  simp only [hscan, hskip, hgroups]
  simp

variable {V : Type*} [Inhabited V]

/-- `ltop` applies the metric to the row of every OST of its file system. -/
theorem decodeOscV1_chomp {oscs : List (Text × Text)} (hnode : IsField ';' node)
    (hne : oscs ≠ []) (hoscs : ∀ o ∈ oscs, IsField ';' o.1) (sel : Option Text)
    (ostData : List (Oststat V)) (tnow trcv staleSecs : ℤ) :
    decodeOscV1 (chomp (oscText node oscs)) sel ostData tnow trcv staleSecs =
      (oscs.filter fun o => fsSelected sel o.1).foldl
        (fun ostData o => updateOsc o.1 (oscState o.2) ostData tnow trcv staleSecs) ostData := by
  unfold decodeOscV1
  rw [lmtOscDecodeV1_chomp hnode hne hoscs]
  dsimp only
  clear hne
  induction oscs generalizing ostData with
  | nil => rfl
  | cons o oscs ih =>
    have hinfo := lmtOscDecodeV1Oscinfo_fields (hoscs o (by simp))
    have hrest := fun ostData => ih (fun o ho => hoscs o (by simp [ho])) ostData
    rw [List.map_cons, List.foldl_cons, hrest]
    unfold decodeOscinfo
    rw [hinfo]
    by_cases hsel : fsSelected sel o.1
    · simp [hsel]
    · simp [hsel]

theorem isField_of_forall₂ {oscs : List (Text × Text)}
    (h : List.Forall₂ (fun name o => fs.oscinfo name = .ok o) names oscs)
    (huuid : ∀ name ∈ names, ∀ o, fs.oscinfo name = .ok o → IsField ';' o.1) :
    ∀ o ∈ oscs, IsField ';' o.1 := by
  induction h with
  | nil => simp
  | cons hname _ ih =>
    intro o ho
    rcases List.mem_cons.mp ho with rfl | ho
    · exact huuid _ (by simp) _ hname
    · exact ih (fun name hmem => huuid name (by simp [hmem])) o ho

end

/-- An MDS with two OSCs, of which one has a state that is not known. -/
def oscTree : ProcFs where
  sys _ := .missing .noent
  proc path :=
    if path = versionPath then .file "lustre: 2.0.50\n".toList
    else if path = "fs/lustre/osc".toList then
      .dir [⟨"lc1-OST0001-osc".toList, .dir⟩, ⟨"lc1-OST0000-osc".toList, .dir⟩]
    else if path = "fs/lustre/osc/lc1-OST0000-osc/ost_server_uuid".toList then
      .file "lc1-OST0000_UUID\tFULL\n".toList
    else if path = "fs/lustre/osc/lc1-OST0001-osc/ost_server_uuid".toList then
      .file "lc1-OST0001_UUID\tIDLE\n".toList
    else .missing .noent
  garbage := []

theorem oscTree_uuids : oscTree.OscUuids := by
  intro names hnames
  have heq : oscTree.oscNames = .ok ["lc1-OST0000-osc".toList, "lc1-OST0001-osc".toList] := by
    decide +kernel
  have hfull : oscTree.oscinfo "lc1-OST0000-osc".toList =
      .ok ("lc1-OST0000".toList, "FULL".toList) := by decide +kernel
  have hidle : oscTree.oscinfo "lc1-OST0001-osc".toList =
      .ok ("lc1-OST0001".toList, "IDLE".toList) := by decide +kernel
  rw [heq] at hnames
  cases hnames
  intro name hname o ho
  simp only [List.mem_cons, List.not_mem_nil, or_false] at hname
  rcases hname with rfl | rfl
  · rw [hfull] at ho
    cases ho
    constructor <;> decide
  · rw [hidle] at ho
    cases ho
    constructor <;> decide

end Lmt
