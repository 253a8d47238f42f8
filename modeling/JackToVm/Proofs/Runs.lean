import JackToVm.CommandLine
import JackToVm.Proofs.Files
import JackToVm.Proofs.Sinks

/-!
# What a run leaves behind

A run on a folder works on its sources in the order of their names, and each output of each is put
beside its source. So what is left at a place is the last text that is put there. Two outputs go to
one place only if they are the tokens of a source `X.jack` and the tree of the source `XT.jack`.

Results.
1. A place that is written holds the last text that is written there
   (`FileTree.exists_entry?_putAll`).
2. Whatever is put beside the sources, the sources and the folders are as they were
   (`KeepsSources.put`), so each source writes what it would write alone, and fails as it would
   alone (`makeAll_eq_putAll`). What a run writes and reports is put together from that
   (`foldl_add_eq`, `Listing.run_eq`).
3. Two outputs have one name only in the case above (`Output.eq_of_name_eq`). There the tree is
   written later (`Listing.eq_of_later`).
4. So every output of a source that compiles holds its own result, but for the tokens of `X.jack`:
   if the trees are asked for and `XT.jack` compiles, they are lost (`read?_output_of_run`,
   `not_forall_read?_output_of_run`).
-/

namespace JackToVm

/-! ## Writing -/

namespace FileTree

variable {t u : FileTree} {place folder q : Place} {writes : List (Place × String)}

theorem entry?_eq_folder_iff :
    t.entry? place = some .folder ↔ t.isFolder place := by
  unfold isFolder
  split
  · next here => simp [here]
  · next other => simpa using other

theorem entry?_put_self (free : ¬t.isFolder place) (bytes : ByteArray) :
    entry? (t.put place bytes) place = some (.file bytes) := by
  have inside : ¬(place = Place.root ∨ place.all (· = "..")) := by
    intro fixed
    unfold isFolder entry? at free
    rw [if_pos fixed] at free
    exact free rfl
  unfold entry?
  rw [if_neg inside]
  unfold put
  split
  · next present =>
    generalize t.entries = es at present
    induction es with
    | nil => cases present
    | cons e es ih =>
      by_cases here : e.1 = place
      · simp [here]
      · simp only [List.any_cons, here, decide_false, Bool.false_or] at present
        simpa [here] using ih present
  · next absent =>
    have none : t.entries.find? (·.1 = place) = none :=
      List.find?_eq_none.2 fun e mem here => absent (List.any_eq_true.2 ⟨e, mem, here⟩)
    simp [List.find?_append, none]

theorem entry?_put_of_ne (other : q ≠ place) (bytes : ByteArray) :
    entry? (t.put place bytes) q = t.entry? q := by
  unfold entry? put
  split
  · rfl
  · split
    · generalize t.entries = es
      induction es with
      | nil => rfl
      | cons e es ih =>
        by_cases here : e.1 = place
        · simpa [here, Ne.symm other] using ih
        · by_cases same : e.1 = q
          · simp [same, other]
          · simpa [here, same] using ih
    · simp [List.find?_append, Ne.symm other]

theorem isFolder_put (free : ¬t.isFolder place) (bytes : ByteArray) (q : Place) :
    (t.put place bytes).isFolder q = t.isFolder q := by
  by_cases same : q = place
  · subst same
    unfold isFolder at free ⊢
    rw [entry?_put_self free]
    exact (Bool.not_eq_true _ ▸ free).symm
  · unfold isFolder
    rw [entry?_put_of_ne same]

/-- Puts texts at places, one after the other. -/
def putAll (t : FileTree) (writes : List (Place × String)) : FileTree :=
  writes.foldl (fun t w => t.put w.1 w.2.toUTF8) t

theorem putAll_append (t : FileTree) (writes more : List (Place × String)) :
    t.putAll (writes ++ more) = (t.putAll writes).putAll more :=
  List.foldl_append

theorem entry?_putAll_of_forall_ne (others : ∀ w ∈ writes, w.1 ≠ place) :
    entry? (t.putAll writes) place = t.entry? place := by
  induction writes generalizing t with
  | nil => rfl
  | cons w writes ih =>
    obtain ⟨first, others⟩ := List.forall_mem_cons.1 others
    exact (ih others).trans (entry?_put_of_ne (Ne.symm first) _)

theorem isFolder_putAll (free : ∀ w ∈ writes, ¬t.isFolder w.1) (q : Place) :
    (t.putAll writes).isFolder q = t.isFolder q := by
  induction writes generalizing t with
  | nil => rfl
  | cons w writes ih =>
    obtain ⟨first, others⟩ := List.forall_mem_cons.1 free
    have same := isFolder_put first w.2.toUTF8
    exact (ih fun v mem => same v.1 ▸ others v mem).trans (same q)

/-- A place that is written holds the last text that is written there. -/
theorem exists_entry?_putAll (free : ∀ w ∈ writes, ¬t.isFolder w.1)
    (written : ∃ w ∈ writes, w.1 = place) :
    ∃ w ∈ writes, w.1 = place ∧ entry? (t.putAll writes) place = some (.file w.2.toUTF8) := by
  induction writes generalizing t with
  | nil => exact absurd written (by simp)
  | cons w writes ih =>
    obtain ⟨first, others⟩ := List.forall_mem_cons.1 free
    have same := isFolder_put first w.2.toUTF8
    by_cases later : ∃ v ∈ writes, v.1 = place
    · obtain ⟨v, mem, here, holds⟩ := ih (fun v mem => same v.1 ▸ others v mem) later
      exact ⟨v, .tail _ mem, here, holds⟩
    · obtain ⟨v, mem, here⟩ := written
      rcases List.mem_cons.1 mem with rfl | mem
      · subst here
        have untouched : ∀ u ∈ writes, u.1 ≠ v.1 := fun u mem here => later ⟨u, mem, here⟩
        exact ⟨v, .head _, rfl, (entry?_putAll_of_forall_ne untouched).trans
          (entry?_put_self first _)⟩
      · exact absurd ⟨v, mem, here⟩ later

/-- The way of a path depends on the folders. -/
theorem locate?_congr (folders : ∀ q, u.isFolder q = t.isFolder q) (path : String) :
    u.locate? path = t.locate? path := by
  unfold locate?
  rw [funext folders]

/-- The bytes of a text are read as the text. -/
theorem fromUTF8?_toUTF8 (text : String) : String.fromUTF8? text.toUTF8 = some text :=
  dif_pos text.isValidUTF8

theorem read?_eq_some {path text : String} (located : t.locate? path = some place)
    (holds : t.entry? place = some (.file text.toUTF8)) : t.read? path = some text := by
  unfold read? find?
  rw [located]
  simp only [Option.bind_some, holds, fromUTF8?_toUTF8]

end FileTree

/-! ## Outputs that are made -/

/-- All outputs of a source that compiles can be made. -/
theorem Output.exists_render {text code : String} (compiled : compile text = .ok code)
    (output : Output) : ∃ result, output.render text = .ok result := by
  cases output with
  | code =>
    refine ⟨code, ?_⟩
    unfold render
    rw [compiled]
    rfl
  | tokens =>
    obtain ⟨d, lexes, -⟩ := compile_eq_ok_iff.1 compiled
    refine ⟨tokensDocument d.terminals, ?_⟩
    simp only [render, tokenXml_of_lexes lexes]
    rfl
  | tree =>
    obtain ⟨xml, written⟩ := exists_treeXml_of_compile compiled
    refine ⟨xml, ?_⟩
    simp only [render, written]
    rfl

/-- What the outputs of a source with this text write, in turn up to the first that fails. -/
def Output.writes (folder : Place) (stem text : String) : List Output → List (Place × String)
  | [] => []
  | output :: outputs =>
    match output.render text with
    | .ok result => (folder ++ [stem ++ output.suffix], result) :: writes folder stem text outputs
    | .error _ => []

theorem Output.exists_of_mem_writes {folder : Place} {stem text : String} {outputs : List Output}
    {w : Place × String} (mem : w ∈ writes folder stem text outputs) :
    ∃ output ∈ outputs, w.1 = folder ++ [stem ++ output.suffix] ∧
      output.render text = .ok w.2 := by
  induction outputs with
  | nil => cases mem
  | cons output outputs ih =>
    unfold writes at mem
    split at mem
    · next result rendered =>
      rcases List.mem_cons.1 mem with rfl | mem
      · exact ⟨output, .head _, rfl, rendered⟩
      · obtain ⟨other, mem, written⟩ := ih mem
        exact ⟨other, .tail _ mem, written⟩
    · cases mem

theorem Output.mem_writes {folder : Place} {stem text result : String} {outputs : List Output}
    {output : Output} (all : ∀ output ∈ outputs, ∃ result, output.render text = .ok result)
    (mem : output ∈ outputs) (rendered : output.render text = .ok result) :
    (folder ++ [stem ++ output.suffix], result) ∈ writes folder stem text outputs := by
  induction outputs with
  | nil => cases mem
  | cons other outputs ih =>
    obtain ⟨⟨first, made⟩, others⟩ := List.forall_mem_cons.1 all
    unfold writes
    rw [made]
    rcases List.mem_cons.1 mem with rfl | mem
    · obtain rfl := Except.ok.inj (made.symm.trans rendered)
      exact .head _
    · exact .tail _ (ih others mem)

/-- Why not all outputs of a source with this text can be made: the error of the first that
cannot. -/
def Output.firstError (text : String) : List Output → Option OutputError
  | [] => none
  | output :: outputs =>
    match output.render text with
    | .ok _ => firstError text outputs
    | .error e => some e

theorem Output.render_code_eq_ok_iff {text code : String} :
    Output.code.render text = .ok code ↔ compile text = .ok code := by
  unfold render
  cases compile text with
  | error e => exact ⟨nofun, nofun⟩
  | ok code' => exact ⟨fun | rfl => rfl, fun | rfl => rfl⟩

/-- All outputs of a source can be made if its code can. -/
theorem Output.firstError_eq_none_iff {text : String} {outputs : List Output}
    (asked : .code ∈ outputs) :
    firstError text outputs = none ↔ ∃ code, compile text = .ok code := by
  constructor
  · intro none
    induction outputs with
    | nil => cases asked
    | cons output outputs ih =>
      unfold firstError at none
      split at none
      · next result rendered =>
        rcases List.mem_cons.1 asked with rfl | asked
        · exact ⟨result, render_code_eq_ok_iff.1 rendered⟩
        · exact ih asked none
      · cases none
  · rintro ⟨code, compiled⟩
    clear asked
    induction outputs with
    | nil => rfl
    | cons output outputs ih =>
      obtain ⟨result, rendered⟩ := output.exists_render compiled
      unfold firstError
      rw [rendered]
      exact ih

/-! ## Names of outputs -/

theorem Output.getLast?_name (stem : String) (output : Output) :
    (stem ++ output.suffix).toList.getLast? = output.suffix.toList.getLast? := by
  rw [String.toList_append, List.getLast?_append]
  cases output <;> rfl

/-- Two outputs have one name only if they are the same, or the tokens of a source and the tree of
the source with a `T` behind its stem. -/
theorem Output.eq_of_name_eq {stem other : String} {a b : Output}
    (same : stem ++ a.suffix = other ++ b.suffix) :
    (a = b ∧ stem = other) ∨ (a = .tokens ∧ b = .tree ∧ other = stem ++ "T") ∨
      (a = .tree ∧ b = .tokens ∧ stem = other ++ "T") := by
  have letter : tokens.suffix = "T" ++ tree.suffix := by decide
  have lasts := congrArg (·.toList.getLast?) same
  simp only [getLast?_name] at lasts
  cases a <;> cases b
  case code.code | tokens.tokens | tree.tree =>
    exact .inl ⟨rfl, (String.append_left_inj _).1 same⟩
  case tokens.tree =>
    rw [letter, ← String.append_assoc] at same
    exact .inr (.inl ⟨rfl, rfl, ((String.append_left_inj _).1 same).symm⟩)
  case tree.tokens =>
    rw [letter, ← String.append_assoc] at same
    exact .inr (.inr ⟨rfl, rfl, (String.append_left_inj _).1 same⟩)
  all_goals exact absurd lasts (by decide)

/-- No output has the name of a source. -/
theorem Output.name_ne_source (stem other : String) (output : Output) :
    stem ++ output.suffix ≠ other ++ ".jack" := by
  intro same
  have last : (other ++ ".jack").toList.getLast? = some 'k' := by
    rw [String.toList_append, List.getLast?_append]
    rfl
  rw [← same, getLast?_name] at last
  cases output <;> exact absurd last (by decide)

/-- A source comes before that with a `T` behind its stem. -/
theorem source_lt_source (stem : String) : stem ++ ".jack" < stem ++ "T" ++ ".jack" := by
  have letter : ".jack".toList < ("T" ++ ".jack").toList := by decide
  rw [String.lt_iff, String.append_assoc, String.toList_append, String.toList_append]
  induction stem.toList with
  | nil => exact letter
  | cons c cs ih => exact List.cons_lt_cons_iff.2 (.inr ⟨rfl, ih⟩)

/-! ## Sources -/

/-- The folders and the sources in one of them are as they were. -/
structure KeepsSources (t u : FileTree) (folder : Place) : Prop where
  folders : ∀ q, u.isFolder q = t.isFolder q
  sources : ∀ stem : String,
    u.entry? (folder ++ [stem ++ ".jack"]) = t.entry? (folder ++ [stem ++ ".jack"])

/-- Files can be put where the outputs of a source go. -/
def Clear (t : FileTree) (folder : Place) (outputs : List Output) (stem : String) : Prop :=
  ∀ output ∈ outputs, ¬t.isFolder (folder ++ [stem ++ output.suffix]) ∧
    (stem ++ output.suffix).utf8ByteSize ≤ FileTree.maxNameBytes

section

variable {t u : FileTree} {folder : Place} {source stem text : String} {outputs : List Output}
  {output : Output}

theorem KeepsSources.put (keeps : KeepsSources t u folder)
    (free : ¬t.isFolder (folder ++ [stem ++ output.suffix])) (bytes : ByteArray) :
    KeepsSources t (u.put (folder ++ [stem ++ output.suffix]) bytes) folder := by
  have free' : ¬u.isFolder (folder ++ [stem ++ output.suffix]) := by rwa [keeps.folders]
  refine ⟨fun q => (FileTree.isFolder_put free' bytes q).trans (keeps.folders q), fun other => ?_⟩
  rw [FileTree.entry?_put_of_ne, keeps.sources]
  intro same
  have names := (List.cons.inj (List.append_cancel_left same)).1
  exact Output.name_ne_source stem other output names.symm

theorem KeepsSources.read?_eq (keeps : KeepsSources t u folder)
    (beside : Beside t folder source stem) : u.read? source = t.read? source := by
  unfold FileTree.read? FileTree.find?
  rw [FileTree.locate?_congr keeps.folders, beside.located, Option.bind_some, Option.bind_some,
    keeps.sources]

/-- An output that can be rendered is put beside its source. -/
theorem Output.make_eq (keeps : KeepsSources t u folder) (beside : Beside t folder source stem)
    (clear : Clear t folder outputs stem) (asked : output ∈ outputs)
    (read : t.read? source = some text) :
    (output.make u source).1 = (output.render text).map fun result =>
      (output.path source, u.put (folder ++ [stem ++ output.suffix]) result.toUTF8) := by
  have write (result : String) : u.write? (output.path source) result =
      some (u.put (folder ++ [stem ++ output.suffix]) result.toUTF8) := by
    obtain ⟨free, short⟩ := clear output asked
    unfold FileTree.write?
    rw [FileTree.locate?_congr keeps.folders, beside.outputs]
    refine if_neg ?_
    rw [keeps.folders, Bool.eq_false_iff.2 free, Bool.false_or, List.getLastD_concat,
      decide_eq_true_iff]
    exact Nat.not_lt.2 short
  unfold make
  rw [keeps.read?_eq beside, read]
  cases rendered : output.render text with
  | error e => simp only [rendered]; rfl
  | ok result => simp only [rendered, write]; rfl

theorem makeAll_eq (keeps : KeepsSources t u folder) (beside : Beside t folder source stem)
    (clear : Clear t folder outputs stem) (read : t.read? source = some text) :
    (makeAll u source outputs).1 = u.putAll (Output.writes folder stem text outputs) ∧
      (makeAll u source outputs).2.2 = Output.firstError text outputs ∧
      KeepsSources t (makeAll u source outputs).1 folder := by
  induction outputs generalizing u with
  | nil => exact ⟨rfl, rfl, keeps⟩
  | cons output outputs ih =>
    have made := Output.make_eq keeps beside clear (.head _) read
    unfold makeAll Output.writes Output.firstError
    cases rendered : output.render text with
    | error e =>
      rw [rendered] at made
      split
      · next same =>
        rw [same] at made
        cases made
        exact ⟨rfl, rfl, keeps⟩
      · next same =>
        rw [same] at made
        cases made
    | ok result =>
      rw [rendered] at made
      split
      · next same =>
        rw [same] at made
        cases made
      · next same =>
        rw [same] at made
        cases made
        exact ih (keeps.put (clear _ (.head _)).1 _) fun other mem => clear other (.tail _ mem)

/-- What a source writes in a run that starts with the tree. -/
def FileTree.writesOf (t : FileTree) (folder : Place) (outputs : List Output) (source : String) :
    List (Place × String) :=
  match t.read? source with
  | none => []
  | some text => Output.writes folder (Path.stem source) text outputs

/-- Why a source fails in a run that starts with the tree. -/
def FileTree.errorOf (t : FileTree) (outputs : List Output) (source : String) :
    Option OutputError :=
  match t.read? source with
  | none => some (.cannotRead source)
  | some text => Output.firstError text outputs

theorem makeAll_of_unread (unread : u.read? source = none) (asked : outputs ≠ []) :
    makeAll u source outputs = (u, [], some (.cannotRead source)) := by
  obtain ⟨output, others, rfl⟩ := List.exists_cons_of_ne_nil asked
  simp only [makeAll, Output.make, unread]

/-- A source writes and fails as it would alone. -/
theorem makeAll_eq_putAll (keeps : KeepsSources t u folder) (beside : Beside t folder source stem)
    (clear : Clear t folder outputs stem) (asked : outputs ≠ []) :
    (makeAll u source outputs).1 = u.putAll (t.writesOf folder outputs source) ∧
      (makeAll u source outputs).2.2 = t.errorOf outputs source ∧
      KeepsSources t (makeAll u source outputs).1 folder := by
  unfold FileTree.writesOf FileTree.errorOf
  cases read : t.read? source with
  | some text =>
    rw [beside.stem_eq]
    exact makeAll_eq keeps beside clear read
  | none =>
    rw [makeAll_of_unread ((keeps.read?_eq beside).trans read) asked]
    exact ⟨rfl, rfl, keeps⟩

theorem Progress.tree_add (p : Progress) (outputs : List Output) (source : String) :
    (p.add outputs source).tree = (makeAll p.tree source outputs).1 := by
  unfold add
  rcases makeAll p.tree source outputs with ⟨t, log, _ | e⟩ <;> rfl

theorem Progress.log_add (p : Progress) (outputs : List Output) (source : String) :
    (p.add outputs source).log = p.log ++ (makeAll p.tree source outputs).2.1 := by
  unfold add
  rcases makeAll p.tree source outputs with ⟨t, log, _ | e⟩ <;> rfl

theorem Progress.errors_add (p : Progress) (outputs : List Output) (source : String) :
    (p.add outputs source).errors = p.errors ++
      (makeAll p.tree source outputs).2.2.elim ""
        (report (makeAll p.tree source outputs).1 source) := by
  unfold add
  rcases makeAll p.tree source outputs with ⟨t, log, _ | e⟩
  · exact String.append_empty.symm
  · rfl

theorem Progress.failed_add (p : Progress) (outputs : List Output) (source : String) :
    (p.add outputs source).failed =
      p.failed + (makeAll p.tree source outputs).2.2.toList.length := by
  unfold add
  rcases makeAll p.tree source outputs with ⟨t, log, _ | e⟩ <;> rfl

/-- The report of a source in a run that starts with the tree, if it fails. -/
def FileTree.reportOf (t : FileTree) (outputs : List Output) (source : String) : Option String :=
  (t.errorOf outputs source).map (report t source)

/-- The sources in turn put what they write and report why they fail. -/
theorem foldl_add_eq {files : List String}
    (all : ∀ f ∈ files, ∃ stem, Beside t folder f stem ∧ Clear t folder outputs stem)
    (asked : outputs ≠ []) {p : Progress} (keeps : KeepsSources t p.tree folder) :
    (files.foldl (Progress.add outputs) p).tree =
        p.tree.putAll (files.flatMap (t.writesOf folder outputs)) ∧
      (files.foldl (Progress.add outputs) p).errors =
        p.errors ++ String.join (files.filterMap (t.reportOf outputs)) ∧
      (files.foldl (Progress.add outputs) p).failed =
        p.failed + (files.filterMap (t.reportOf outputs)).length := by
  induction files generalizing p with
  | nil => exact ⟨rfl, String.append_empty.symm, rfl⟩
  | cons f files ih =>
    obtain ⟨⟨stem, beside, clear⟩, others⟩ := List.forall_mem_cons.1 all
    obtain ⟨put, failure, keeps'⟩ := makeAll_eq_putAll keeps beside clear asked
    have told : report (makeAll p.tree f outputs).1 f = report t f := by
      funext e
      unfold report
      rw [keeps'.read?_eq beside]
    have errors := p.errors_add outputs f
    have failed := p.failed_add outputs f
    rw [told, failure] at errors
    rw [failure] at failed
    rw [← Progress.tree_add] at put keeps'
    obtain ⟨trees, reports, count⟩ := ih others keeps'
    rw [List.foldl_cons, trees, reports, count, put, errors, failed, List.flatMap_cons,
      FileTree.putAll_append]
    cases fails : t.errorOf outputs f with
    | none =>
      have silent : t.reportOf outputs f = none := by rw [FileTree.reportOf, fails, Option.map_none]
      rw [List.filterMap_cons_none silent, Option.elim_none, String.append_empty]
      exact ⟨rfl, rfl, rfl⟩
    | some e =>
      have loud : t.reportOf outputs f = some (report t f e) := by
        rw [FileTree.reportOf, fails, Option.map_some]
      rw [List.filterMap_cons_some loud, Option.elim_some, String.join_cons, String.append_assoc,
        List.length_cons, Option.toList_some, List.length_singleton, Nat.add_assoc, Nat.add_comm 1]
      exact ⟨rfl, rfl, rfl⟩

end

theorem pairwise_mergeSort_le (names : List String) :
    (names.mergeSort (· ≤ ·)).Pairwise (· ≤ ·) := by
  have trans (a b c : String) (first : decide (a ≤ b)) (second : decide (b ≤ c)) :
      decide (a ≤ c) :=
    decide_eq_true (String.le_trans (of_decide_eq_true first) (of_decide_eq_true second))
  have total (a b : String) : decide (a ≤ b) || decide (b ≤ a) := by
    simpa using String.le_total a b
  exact (List.pairwise_mergeSort trans total names).imp of_decide_eq_true

/-- The sources of a folder are sorted by name. -/
theorem exists_names_of_sources {t : FileTree} {path : String} {folder : Place}
    {files : List String} (there : t.locate? path = some folder) (isFolder : t.isFolder folder)
    (listed : sources t path = .ok files) :
    ∃ names : List String, files = names.map (Path.join path) ∧ names.Pairwise (· ≤ ·) ∧
      ∀ name ∈ names,
        name ∈ t.names folder ∧ isSourceName name ∧ t.isFile (Path.join path name) := by
  unfold sources at listed
  simp only [there, FileTree.entry?_eq_folder_iff.2 isFolder] at listed
  split at listed
  · cases listed
  · cases listed
    refine ⟨_, rfl, pairwise_mergeSort_le _, fun name mem => ?_⟩
    obtain ⟨listed, source⟩ := List.mem_filter.1 (List.mem_mergeSort.1 mem)
    exact ⟨listed, (Bool.and_eq_true _ _).mp source⟩

/-- The sources of a folder that has their names in order. -/
theorem sources_eq_of_pairwise {t : FileTree} {path : String} {folder : Place}
    {names : List String} (there : t.locate? path = some folder) (isFolder : t.isFolder folder)
    (found : (t.names folder).filter (fun n => isSourceName n && t.isFile (Path.join path n)) =
      names) (some : names ≠ []) (sorted : names.Pairwise (· ≤ ·)) :
    sources t path = .ok (names.map (Path.join path)) := by
  unfold sources
  simp only [there, FileTree.entry?_eq_folder_iff.2 isFolder, found,
    List.mergeSort_of_pairwise (sorted.imp (decide_eq_true ·))]

/-! ## Runs on a folder -/

/-- A run on a folder and its sources. The names in the folder are such as a disk has, and no output
leads to a folder. -/
structure RunsOn (t : FileTree) (o : Options) (folder : Place) (files : List String) : Prop where
  located : t.locate? o.path = some folder
  isFolder : t.isFolder folder
  named : ∀ name ∈ t.names folder,
    '/' ∉ name.toList ∧ name.utf8ByteSize ≤ FileTree.maxNameBytes
  listed : sources t o.path = .ok files
  free : ∀ f ∈ files, ∀ output ∈ o.outputs, ¬(t.locate? (output.path f)).any t.isFolder

/-- The sources of a run on a folder, by their names. -/
structure Listing (t : FileTree) (path : String) (folder : Place) (outputs : List Output)
    (names : List String) : Prop where
  sorted : names.Pairwise (· ≤ ·)
  beside : ∀ name ∈ names, ∃ stem, name = stem ++ ".jack" ∧
    Beside t folder (Path.join path name) stem ∧ Clear t folder outputs stem

section

variable {t : FileTree} {o : Options} {path : String} {folder : Place} {files names : List String}
  {outputs : List Output} {source stem text result : String} {output : Output} {w : Place × String}

/-- The outputs of a source can be put where they go if no folder is there. -/
theorem Beside.clear (beside : Beside t folder source stem)
    (short : (stem ++ ".jack").utf8ByteSize ≤ FileTree.maxNameBytes)
    (free : ∀ output ∈ outputs, ¬(t.locate? (output.path source)).any t.isFolder) :
    Clear t folder outputs stem := by
  intro output asked
  constructor
  · intro taken
    refine free output asked ?_
    rw [beside.outputs]
    exact taken
  · have suffix := output.bytes_suffix_le
    have jack : ".jack".utf8ByteSize = 5 := by decide
    rw [Path.bytes_toList] at suffix
    rw [String.utf8ByteSize_append] at short ⊢
    omega

theorem Options.code_mem_outputs (o : Options) : .code ∈ o.outputs :=
  List.mem_append_right _ (.head _)

theorem Options.outputs_ne_nil (o : Options) : o.outputs ≠ [] :=
  List.ne_nil_of_mem o.code_mem_outputs

theorem RunsOn.exists_listing (runs : RunsOn t o folder files) :
    ∃ names, files = names.map (Path.join o.path) ∧ Listing t o.path folder o.outputs names := by
  obtain ⟨names, rfl, sorted, all⟩ :=
    exists_names_of_sources runs.located runs.isFolder runs.listed
  refine ⟨names, rfl, sorted, fun name mem => ?_⟩
  obtain ⟨listed, isSource, isFile⟩ := all name mem
  obtain ⟨whole, short⟩ := runs.named name listed
  have free := runs.free _ (List.mem_map_of_mem mem)
  obtain ⟨stem, rfl, beside⟩ := FileTree.exists_beside runs.located runs.isFolder whole isSource
    isFile (free _ o.code_mem_outputs)
  exact ⟨stem, rfl, beside, beside.clear short free⟩

theorem Beside.exists_of_mem_writesOf (beside : Beside t folder source stem)
    (mem : w ∈ t.writesOf folder outputs source) :
    ∃ text, t.read? source = some text ∧ ∃ output ∈ outputs,
      w.1 = folder ++ [stem ++ output.suffix] ∧ output.render text = .ok w.2 := by
  unfold FileTree.writesOf at mem
  split at mem
  · cases mem
  · next text read =>
    rw [beside.stem_eq] at mem
    exact ⟨text, read, Output.exists_of_mem_writes mem⟩

/-- Nothing that a run writes is put over a folder. -/
theorem Listing.free (listing : Listing t path folder outputs names)
    (mem : w ∈ (names.map (Path.join path)).flatMap (t.writesOf folder outputs)) :
    ¬t.isFolder w.1 := by
  obtain ⟨source, among, written⟩ := List.mem_flatMap.1 mem
  obtain ⟨name, listed, rfl⟩ := List.mem_map.1 among
  obtain ⟨stem, -, beside, clear⟩ := listing.beside name listed
  obtain ⟨text, -, output, asked, here, -⟩ := beside.exists_of_mem_writesOf written
  rw [here]
  exact (clear output asked).1

theorem run_tree (listed : sources t o.path = .ok files) :
    (run t o).tree = (files.foldl (Progress.add o.outputs) ⟨t, [], "", 0⟩).tree := by
  unfold run
  rw [listed]

/-- A run puts what its sources write, one after the other, and has their reports. -/
theorem Listing.run_eq (listing : Listing t o.path folder o.outputs names)
    (listed : sources t o.path = .ok (names.map (Path.join o.path))) :
    (run t o).tree =
        t.putAll ((names.map (Path.join o.path)).flatMap (t.writesOf folder o.outputs)) ∧
      (run t o).errors =
        String.join ((names.map (Path.join o.path)).filterMap (t.reportOf o.outputs)) ∧
      (run t o).exit =
        if (names.map (Path.join o.path)).filterMap (t.reportOf o.outputs) = [] then 0 else 1 := by
  have all : ∀ f ∈ names.map (Path.join o.path),
      ∃ stem, Beside t folder f stem ∧ Clear t folder o.outputs stem := by
    intro f mem
    obtain ⟨name, listed, rfl⟩ := List.mem_map.1 mem
    obtain ⟨stem, -, both⟩ := listing.beside name listed
    exact ⟨stem, both⟩
  obtain ⟨trees, errors, failed⟩ := foldl_add_eq all o.outputs_ne_nil (p := ⟨t, [], "", 0⟩)
    ⟨fun _ => rfl, fun _ => rfl⟩
  rw [String.empty_append] at errors
  rw [Nat.zero_add] at failed
  unfold run
  rw [listed]
  refine ⟨trees, errors, ?_⟩
  simp only [failed, List.length_eq_zero_iff]

theorem Listing.run_tree_eq (listing : Listing t o.path folder o.outputs names)
    (listed : sources t o.path = .ok (names.map (Path.join o.path))) :
    (run t o).tree =
      t.putAll ((names.map (Path.join o.path)).flatMap (t.writesOf folder o.outputs)) :=
  (listing.run_eq listed).1

/-- A run leaves the way of every path as it was. -/
theorem Listing.locate?_run (listing : Listing t o.path folder o.outputs names)
    (listed : sources t o.path = .ok (names.map (Path.join o.path))) (path : String) :
    (run t o).tree.locate? path = t.locate? path := by
  rw [listing.run_tree_eq listed]
  exact FileTree.locate?_congr (FileTree.isFolder_putAll fun _ => listing.free) path

/-- Where a source writes, the text that is left comes from it or from a source behind it. -/
theorem Listing.exists_last (listing : Listing t o.path folder o.outputs names)
    (listed : sources t o.path = .ok (names.map (Path.join o.path))) {before after : List String}
    {name : String} (parts : names = before ++ name :: after)
    (mem : w ∈ t.writesOf folder o.outputs (Path.join o.path name)) :
    ∃ other ∈ name :: after, ∃ v ∈ t.writesOf folder o.outputs (Path.join o.path other),
      v.1 = w.1 ∧ FileTree.entry? (run t o).tree w.1 = some (.file v.2.toUTF8) := by
  have tree := listing.run_tree_eq listed
  have clear : ∀ w ∈ (names.map (Path.join o.path)).flatMap (t.writesOf folder o.outputs),
      ¬t.isFolder w.1 := fun _ => listing.free
  rw [parts, List.map_append, List.flatMap_append] at tree clear
  obtain ⟨first, others⟩ := List.forall_mem_append.1 clear
  have folders := FileTree.isFolder_putAll first
  have written : w ∈ ((name :: after).map (Path.join o.path)).flatMap
      (t.writesOf folder o.outputs) :=
    List.mem_flatMap.2 ⟨_, List.mem_map_of_mem (.head _), mem⟩
  obtain ⟨v, last, here, holds⟩ := FileTree.exists_entry?_putAll
    (fun w mem => folders w.1 ▸ others w mem) ⟨w, written, rfl⟩
  rw [← FileTree.putAll_append, ← tree] at holds
  obtain ⟨g, isLater, wrote⟩ := List.mem_flatMap.1 last
  obtain ⟨other, later, rfl⟩ := List.mem_map.1 isLater
  exact ⟨other, later, v, wrote, here, holds⟩

/-- A source that is not before `name` and has an output where one of `name` goes is `name`, or its
tree is put over the tokens of `name`. -/
theorem Listing.eq_of_later (listing : Listing t path folder outputs names)
    {before after : List String} {name other : String} (parts : names = before ++ name :: after)
    (later : other ∈ name :: after) {stem stem' : String} {a b : Output}
    (named : name = stem ++ ".jack") (named' : other = stem' ++ ".jack")
    (same : stem ++ a.suffix = stem' ++ b.suffix) :
    (a = b ∧ stem = stem') ∨ (a = .tokens ∧ b = .tree ∧ stem' = stem ++ "T") := by
  rcases Output.eq_of_name_eq same with own | clash | ⟨-, -, rfl⟩
  · exact .inl own
  · exact .inr clash
  · -- the tokens of an earlier source
    have before' : other < name := by
      rw [named, named']
      exact source_lt_source stem'
    have sorted := listing.sorted
    rw [parts] at sorted
    have follows := (List.pairwise_append.1 sorted).2.1
    rcases List.mem_cons.1 later with rfl | later
    · exact absurd before' (String.lt_irrefl _)
    · exact absurd before' ((List.pairwise_cons.1 follows).1 other later)

end

/-- The outputs of a run are left as they are by the other sources, but for the tokens of a source
if the trees are asked for too and the source with a `T` behind its stem compiles: these hold the
tree of that source. -/
theorem read?_output_of_run {t : FileTree} {o : Options} {folder : Place} {files : List String}
    (runs : RunsOn t o folder files) {f text code : String} (mem : f ∈ files)
    (read : t.read? f = some text) (compiled : compile text = .ok code) {output : Output}
    (asked : output ∈ o.outputs) :
    ∃ result, output.render text = .ok result ∧
      ((run t o).tree.read? (output.path f) = some result ∨
        output = .tokens ∧ .tree ∈ o.outputs ∧
          ∃ g ∈ files, Path.stem g = Path.stem f ++ "T" ∧
            ∃ other tree, t.read? g = some other ∧ Output.tree.render other = .ok tree ∧
              (run t o).tree.read? (output.path f) = some tree) := by
  obtain ⟨names, rfl, listing⟩ := runs.exists_listing
  obtain ⟨result, rendered⟩ := output.exists_render compiled
  obtain ⟨name, among, rfl⟩ := List.mem_map.1 mem
  obtain ⟨stem, named, beside, -⟩ := listing.beside name among
  obtain ⟨before, after, parts⟩ := List.append_of_mem among
  have written : (folder ++ [stem ++ output.suffix], result) ∈
      t.writesOf folder o.outputs (Path.join o.path name) := by
    simp only [FileTree.writesOf, read, beside.stem_eq]
    exact Output.mem_writes (fun other _ => other.exists_render compiled) asked rendered
  obtain ⟨other, later, w, wrote, here, holds⟩ := listing.exists_last runs.listed parts written
  have found : (run t o).tree.read? (output.path (Path.join o.path name)) = some w.2 := by
    refine FileTree.read?_eq_some ?_ holds
    rw [listing.locate?_run runs.listed, beside.outputs]
  have among' : other ∈ names := parts ▸ List.mem_append_right _ later
  obtain ⟨stem', named', beside', -⟩ := listing.beside other among'
  obtain ⟨text', read', output', asked', here', rendered'⟩ := beside'.exists_of_mem_writesOf wrote
  have same := (List.cons.inj (List.append_cancel_left (here.symm.trans here'))).1
  rcases listing.eq_of_later parts later named named' same with ⟨rfl, rfl⟩ | ⟨rfl, rfl, rfl⟩
  · obtain rfl : name = other := named.trans named'.symm
    obtain rfl := Option.some.inj (read.symm.trans read')
    exact ⟨w.2, rendered', .inl found⟩
  · refine ⟨result, rendered, .inr ⟨rfl, asked', _, List.mem_map_of_mem among', ?_, text', w.2,
      read', rendered', found⟩⟩
    rw [beside'.stem_eq, beside.stem_eq]

/-! ## Two sources that meet -/

def twoClasses : FileTree :=
  ⟨[(["A.jack"], .file "class A { }".toUTF8), (["AT.jack"], .file "class AT { }".toUTF8)]⟩

/-- All outputs of the working folder. -/
def allOutputs : Options :=
  ⟨".", 0, true, true⟩

theorem runsOn_twoClasses : RunsOn twoClasses allOutputs [] ["./A.jack", "./AT.jack"] := by
  have found : (twoClasses.names []).filter
      (fun n => isSourceName n && twoClasses.isFile (Path.join "." n)) = ["A.jack", "AT.jack"] := by
    decide +kernel
  constructor
  case listed =>
    exact sources_eq_of_pairwise (by decide +kernel) rfl found (by decide) (by decide)
  all_goals decide +kernel

/-- The tree of the one is written over the tokens of the other, and it is kept. -/
theorem read?_tree_of_twoClasses :
    ∃ result, Output.tree.render "class AT { }" = .ok result ∧
      (run twoClasses allOutputs).tree.read? "./AT.xml" = some result := by
  have read : twoClasses.read? "./AT.jack" = some "class AT { }" := by decide +kernel
  have compiled : compile "class AT { }" = .ok "" := by decide +kernel
  have path : Output.tree.path "./AT.jack" = "./AT.xml" := by decide +kernel
  have asked : Output.tree ∈ allOutputs.outputs := by decide
  obtain ⟨result, rendered, own | ⟨clash, -⟩⟩ :=
    read?_output_of_run runsOn_twoClasses (.tail _ (.head _)) read compiled asked
  · exact ⟨result, rendered, path ▸ own⟩
  · cases clash

/-- Not every output of a run is left as it is by the other sources. -/
theorem not_forall_read?_output_of_run :
    ¬∀ (t : FileTree) (o : Options) (folder : Place) (files : List String),
      RunsOn t o folder files → ∀ f ∈ files, ∀ text code, t.read? f = some text →
        compile text = .ok code → ∀ output ∈ o.outputs, ∃ result,
          output.render text = .ok result ∧ (run t o).tree.read? (output.path f) = some result := by
  intro kept
  have read : twoClasses.read? "./A.jack" = some "class A { }" := by decide +kernel
  have compiled : compile "class A { }" = .ok "" := by decide +kernel
  obtain ⟨result, rendered, holds⟩ := kept twoClasses allOutputs [] _ runsOn_twoClasses "./A.jack"
    (.head _) _ _ read compiled .tokens (by decide)
  have other : (run twoClasses allOutputs).tree.read? (Output.tokens.path "./A.jack") ≠
      (Output.tokens.render "class A { }").toOption := by
    rw [run_tree runsOn_twoClasses.listed]
    decide +kernel
  rw [rendered] at other
  exact other holds

end JackToVm
