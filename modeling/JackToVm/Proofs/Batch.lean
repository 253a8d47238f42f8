import JackToVm.Proofs.Orders

/-!
# A folder of sources

A run on a folder does with each of its sources what it would do with it alone. A source that does
not compile costs a report, and nothing of the others.

What is said here is about the disk: sources are files at places, with their bytes (`SourceIn`),
and a run is looked at for what it leaves at places.

Results.
1. The sources that a run works on are the files of the folder with the extension, each once
   (`mem_sourceNames_iff`, `FileTree.Distinct.sourceNames_nodup`, `Batch.exists_sorted`).
2. What is written where the code of a source goes is its code (`Listing.compile_of_mem_writes`).
   So the code is there if the source compiles (`Sorted.entry?_code`), and else nothing is put there
   (`Sorted.entry?_code_of_not_compiles`).
3. A source fails if it does not compile, and only then (`SourceIn.errorOf_eq_none_iff`); the run
   reports every failure once, in the order of the bytes of the names (`Sorted.reports`).
4. All of it together: `Batch.isolates`.
-/

namespace JackToVm

/-! ## Sources -/

/-- A source in a folder, by its stem and its bytes: a file with the extension `jack`, which is not
all of its name, unless its path is too long. -/
structure SourceIn (t : FileTree) (path : String) (folder : Place) (stem : String)
    (bytes : ByteArray) : Prop where
  named : stem ≠ ""
  here : t.entry? (folder ++ [stem ++ ".jack"]) = some (.file bytes)
  short : (Path.join path (stem ++ ".jack")).utf8ByteSize ≤ FileTree.maxPathBytes

/-- The bytes are a text, and the text is a class that compiles. -/
def Compiles (bytes : ByteArray) : Prop :=
  ∃ text code, String.fromUTF8? bytes = some text ∧ compile text = .ok code

/-- A run on a folder that has sources. The disk is such as disks are, and no output leads to a
folder. -/
structure Batch (t : FileTree) (o : Options) (folder : Place) : Prop where
  located : t.locate? o.path = some folder
  isFolder : t.isFolder folder
  distinct : t.Distinct
  named : ∀ name ∈ t.names folder,
    '/' ∉ name.toList ∧ name.utf8ByteSize ≤ FileTree.maxNameBytes
  exists_source : ∃ stem bytes, SourceIn t o.path folder stem bytes
  free : ∀ stem bytes, SourceIn t o.path folder stem bytes → ∀ output ∈ o.outputs,
    ¬(t.locate? (output.path (Path.join o.path (stem ++ ".jack")))).any t.isFolder

section

variable {t : FileTree} {o : Options} {path name stem : String} {folder place : Place}
  {bytes bytes' : ByteArray}

theorem FileTree.isFile_iff :
    t.isFile path ↔ ∃ place bytes, t.locate? path = some place ∧
      t.entry? place = some (.file bytes) := by
  unfold isFile find?
  constructor
  · intro isFile
    split at isFile
    · next bytes found =>
      obtain ⟨place, there, here⟩ := Option.bind_eq_some_iff.1 found
      exact ⟨place, bytes, there, here⟩
    · cases isFile
  · rintro ⟨place, bytes, there, here⟩
    rw [there, Option.bind_some, here]

theorem FileTree.mem_entries_of_file (here : t.entry? place = some (.file bytes)) :
    (place, .file bytes) ∈ t.entries := by
  unfold entry? at here
  split at here
  · cases here
  · obtain ⟨e, found, file⟩ := Option.map_eq_some_iff.1 here
    have same : e.1 = place := by simpa using List.find?_some found
    exact same ▸ file ▸ List.mem_of_find?_eq_some found

/-- The name that an entry has in a folder. -/
theorem FileTree.name_eq_some_iff :
    (if place.dropLast = folder then place.getLast? else none) = some name ↔
      place = folder ++ [name] := by
  rw [Option.ite_none_right_eq_some]
  constructor
  · rintro ⟨rfl, last⟩
    exact (List.dropLast_append_getLast? name last).symm
  · rintro rfl
    exact ⟨List.dropLast_concat, List.getLast?_concat⟩

theorem FileTree.mem_names_of_file (here : t.entry? (folder ++ [name]) = some (.file bytes)) :
    name ∈ t.names folder :=
  List.mem_filterMap.2 ⟨_, mem_entries_of_file here, name_eq_some_iff.2 rfl⟩

/-- The path of a file in a folder leads to its name in the folder. -/
theorem FileTree.locate?_join (there : t.locate? path = some folder) (isFolder : t.isFolder folder)
    (isName : Path.IsName name.toList) (short : (Path.join path name).utf8ByteSize ≤ maxPathBytes) :
    t.locate? (Path.join path name) = some (folder ++ [name]) := by
  obtain ⟨xs, opens, -, joined⟩ := (locate?_eq_some_iff.1 there).1.exists_join isFolder
  rw [opens.locate?_eq isName (joined name) short, String.ofList_toList]

theorem isName_source (whole : '/' ∉ (stem ++ ".jack").toList) :
    Path.IsName (stem ++ ".jack").toList := by
  refine Path.isName_of_length whole ?_
  rw [String.toList_append, List.length_append]
  exact Nat.lt_add_left _ (by decide)

theorem SourceIn.locate? (source : SourceIn t path folder stem bytes)
    (there : t.locate? path = some folder) (isFolder : t.isFolder folder)
    (whole : '/' ∉ (stem ++ ".jack").toList) :
    t.locate? (Path.join path (stem ++ ".jack")) = some (folder ++ [stem ++ ".jack"]) :=
  FileTree.locate?_join there isFolder (isName_source whole) source.short

/-- The sources are the files whose names have the extension. -/
theorem mem_sourceNames_iff (there : t.locate? path = some folder) (isFolder : t.isFolder folder)
    (whole : ∀ name ∈ t.names folder, '/' ∉ name.toList) :
    name ∈ t.sourceNames path folder ↔
      ∃ stem bytes, name = stem ++ ".jack" ∧ SourceIn t path folder stem bytes := by
  unfold FileTree.sourceNames
  rw [List.mem_filter, Bool.and_eq_true]
  constructor
  · rintro ⟨listed, isSource, isFile⟩
    obtain ⟨stem, named, some⟩ := Path.exists_of_hasExtension (whole name listed) isSource
    obtain rfl : name = String.ofList stem ++ ".jack" := by
      rw [← String.toList_inj, named, String.toList_append, String.toList_ofList (l := stem)]
      rfl
    have named' : String.ofList stem ≠ "" := by simpa using some
    have short := FileTree.short_of_isFile isFile
    obtain ⟨place, bytes, leads, here⟩ := FileTree.isFile_iff.1 isFile
    rw [FileTree.locate?_join there isFolder (isName_source (whole _ listed)) short] at leads
    obtain rfl := Option.some.inj leads
    exact ⟨_, bytes, rfl, named', here, short⟩
  · rintro ⟨stem, bytes, rfl, source⟩
    have listed := FileTree.mem_names_of_file source.here
    have leads := source.locate? there isFolder (whole _ listed)
    refine ⟨listed, ?_, FileTree.isFile_iff.2 ⟨_, bytes, leads, source.here⟩⟩
    have isName := isName_source (whole _ listed)
    rw [String.toList_append] at isName
    exact Path.hasExtension_append isName (by simpa using source.named) (by decide)
      String.toList_append

/-- No source is listed twice. -/
theorem FileTree.Distinct.sourceNames_nodup (distinct : t.Distinct)
    (there : t.locate? path = some folder) (isFolder : t.isFolder folder)
    (whole : ∀ name ∈ t.names folder, '/' ∉ name.toList) :
    (t.sourceNames path folder).Nodup := by
  refine List.pairwise_filter.2 (List.pairwise_filterMap.2 (distinct.imp_of_mem ?_))
  intro a b first _ apart name named name' named' source _ same
  subst same
  have listed : name ∈ t.sourceNames path folder :=
    List.mem_filter.2 ⟨List.mem_filterMap.2 ⟨a, first, named⟩, source⟩
  obtain ⟨stem, bytes, rfl, found⟩ := (mem_sourceNames_iff there isFolder whole).1 listed
  obtain ⟨place, entry⟩ := a
  obtain rfl := FileTree.name_eq_some_iff.1 named
  obtain ⟨rfl, -⟩ := apart (FileTree.name_eq_some_iff.1 named').symm
  cases distinct.eq_of_mem first (FileTree.mem_entries_of_file found.here)

/-- A source is read as it is on the disk. -/
theorem SourceIn.read? (source : SourceIn t path folder stem bytes)
    (there : t.locate? path = some folder) (isFolder : t.isFolder folder)
    (whole : ∀ name ∈ t.names folder, '/' ∉ name.toList) :
    t.read? (Path.join path (stem ++ ".jack")) = String.fromUTF8? bytes := by
  have listed := FileTree.mem_names_of_file source.here
  unfold FileTree.read? FileTree.find?
  rw [source.locate? there isFolder (whole _ listed), Option.bind_some, source.here]

/-! ## What the sources write -/

/-- Whatever is written is an output of a source. -/
theorem Listing.exists_of_mem_writes {outputs : List Output} {names : List String}
    {w : Place × String} (listing : Listing t path folder outputs names)
    (mem : w ∈ (names.map (Path.join path)).flatMap (t.writesOf folder outputs)) :
    ∃ stem, stem ++ ".jack" ∈ names ∧
      ∃ text, t.read? (Path.join path (stem ++ ".jack")) = some text ∧
        ∃ output ∈ outputs, w.1 = folder ++ [stem ++ output.suffix] ∧
          output.render text = .ok w.2 := by
  obtain ⟨source, among, written⟩ := List.mem_flatMap.1 mem
  obtain ⟨name, listed, rfl⟩ := List.mem_map.1 among
  obtain ⟨stem, rfl, beside, -⟩ := listing.beside name listed
  exact ⟨stem, listed, beside.exists_of_mem_writesOf written⟩

/-- What is written as the code of a source is its code. -/
theorem Listing.compile_of_mem_writes {outputs : List Output} {names : List String}
    {w : Place × String} (listing : Listing t path folder outputs names)
    (mem : w ∈ (names.map (Path.join path)).flatMap (t.writesOf folder outputs))
    (here : w.1 = folder ++ [stem ++ ".vm"]) :
    ∃ text, t.read? (Path.join path (stem ++ ".jack")) = some text ∧ compile text = .ok w.2 := by
  obtain ⟨stem', -, text, read, output, -, there, rendered⟩ := listing.exists_of_mem_writes mem
  have same : stem ++ Output.code.suffix = stem' ++ output.suffix :=
    (List.cons.inj (List.append_cancel_left (here.symm.trans there))).1
  rcases Output.eq_of_name_eq same with ⟨rfl, rfl⟩ | ⟨code, -⟩ | ⟨code, -⟩
  · exact ⟨text, read, Output.render_code_eq_ok_iff.1 rendered⟩
  · cases code
  · cases code

/-! ## The sources of a run in order -/

/-- The sources of a run on a folder, sorted by name. -/
structure Sorted (t : FileTree) (o : Options) (folder : Place) (names : List String) : Prop where
  listed : sources t o.path = .ok (names.map (Path.join o.path))
  ordered : names.Pairwise (· < ·)
  mem_iff : ∀ name, name ∈ names ↔
    ∃ stem bytes, name = stem ++ ".jack" ∧ SourceIn t o.path folder stem bytes
  listing : Listing t o.path folder o.outputs names

theorem Batch.exists_sorted (batch : Batch t o folder) : ∃ names, Sorted t o folder names := by
  obtain ⟨there, isFolder, distinct, named, ⟨stem, bytes, source⟩, free⟩ := batch
  have whole := fun name mem => (named name mem).1
  have found {name : String} : name ∈ t.sourceNames o.path folder ↔ _ :=
    mem_sourceNames_iff there isFolder whole
  have nonempty : t.sourceNames o.path folder ≠ [] :=
    List.ne_nil_of_mem (found.2 ⟨stem, bytes, rfl, source⟩)
  have listed := sources_of_isFolder there isFolder
  have perm := List.mergeSort_perm (t.sourceNames o.path folder) (· ≤ ·)
  rw [if_neg nonempty] at listed
  generalize (t.sourceNames o.path folder).mergeSort (· ≤ ·) = names at listed perm
  have runs : RunsOn t o folder (names.map (Path.join o.path)) := by
    refine ⟨there, isFolder, named, listed, fun f mem => ?_⟩
    obtain ⟨name, among, rfl⟩ := List.mem_map.1 mem
    obtain ⟨stem, bytes, rfl, source⟩ := found.1 (perm.mem_iff.1 among)
    exact free stem bytes source
  obtain ⟨names', same, listing⟩ := runs.exists_listing
  obtain rfl := List.map_injective_iff.2 (Path.join_injective o.path) same
  have apart := perm.nodup_iff.2 (distinct.sourceNames_nodup there isFolder whole)
  refine ⟨names, listed, ?_, fun name => perm.mem_iff.trans found, listing⟩
  refine (listing.sorted.and apart).imp fun {a b} ⟨before, other⟩ => ?_
  by_contra notBefore
  exact other (String.le_antisymm before (String.not_lt.1 notBefore))

theorem Batch.read?_source (batch : Batch t o folder)
    (source : SourceIn t o.path folder stem bytes) :
    t.read? (Path.join o.path (stem ++ ".jack")) = String.fromUTF8? bytes :=
  source.read? batch.located batch.isFolder fun name mem => (batch.named name mem).1

/-- The code of a source that compiles is left where it is put. -/
theorem Sorted.entry?_code {names : List String} (sorted : Sorted t o folder names)
    (batch : Batch t o folder) (source : SourceIn t o.path folder stem bytes) {text code : String}
    (valid : String.fromUTF8? bytes = some text) (compiled : compile text = .ok code) :
    (run t o).tree.entry? (folder ++ [stem ++ ".vm"]) = some (.file code.toUTF8) := by
  have read := batch.read?_source source
  rw [valid] at read
  have among := (sorted.mem_iff _).2 ⟨stem, bytes, rfl, source⟩
  obtain ⟨stem', same, beside, -⟩ := sorted.listing.beside _ among
  obtain rfl := (String.append_left_inj _).1 same
  have own : (folder ++ [stem ++ ".vm"], code) ∈
      t.writesOf folder o.outputs (Path.join o.path (stem ++ ".jack")) := by
    simp only [FileTree.writesOf, read, beside.stem_eq]
    exact Output.mem_writes (fun other _ => other.exists_render compiled) o.code_mem_outputs
      (Output.render_code_eq_ok_iff.2 compiled)
  obtain ⟨w, mem, here, holds⟩ := FileTree.exists_entry?_putAll (fun _ => sorted.listing.free)
    ⟨_, List.mem_flatMap.2 ⟨_, List.mem_map_of_mem among, own⟩, rfl⟩
  obtain ⟨text', read', compiled'⟩ := sorted.listing.compile_of_mem_writes mem here
  obtain rfl := Option.some.inj (read.symm.trans read')
  obtain rfl := Except.ok.inj (compiled.symm.trans compiled')
  rw [sorted.listing.run_tree_eq sorted.listed]
  exact holds

/-- Where a source that does not compile would put its code, nothing is put. -/
theorem Sorted.entry?_code_of_not_compiles {names : List String}
    (sorted : Sorted t o folder names) (batch : Batch t o folder)
    (source : SourceIn t o.path folder stem bytes) (failing : ¬Compiles bytes) :
    (run t o).tree.entry? (folder ++ [stem ++ ".vm"]) = t.entry? (folder ++ [stem ++ ".vm"]) := by
  rw [sorted.listing.run_tree_eq sorted.listed]
  refine FileTree.entry?_putAll_of_forall_ne fun w mem here => failing ?_
  obtain ⟨text, read, compiled⟩ := sorted.listing.compile_of_mem_writes mem here
  rw [batch.read?_source source] at read
  exact ⟨text, _, read, compiled⟩

/-- Nothing is put where no output of a source goes. -/
theorem Sorted.entry?_of_forall_ne {names : List String} (sorted : Sorted t o folder names)
    (apart : ∀ stem bytes, SourceIn t o.path folder stem bytes →
      ∀ output ∈ o.outputs, place ≠ folder ++ [stem ++ output.suffix]) :
    (run t o).tree.entry? place = t.entry? place := by
  rw [sorted.listing.run_tree_eq sorted.listed]
  refine FileTree.entry?_putAll_of_forall_ne fun w mem here => ?_
  obtain ⟨stem, among, -, -, output, asked, there, -⟩ := sorted.listing.exists_of_mem_writes mem
  obtain ⟨stem', bytes, same, source⟩ := (sorted.mem_iff _).1 among
  obtain rfl := (String.append_left_inj _).1 same
  exact apart stem bytes source output asked (here.symm.trans there)

/-! ## What they report -/

/-- A source fails if it does not compile, and only then. -/
theorem SourceIn.errorOf_eq_none_iff (source : SourceIn t o.path folder stem bytes)
    (batch : Batch t o folder) :
    t.errorOf o.outputs (Path.join o.path (stem ++ ".jack")) = none ↔ Compiles bytes := by
  unfold FileTree.errorOf Compiles
  rw [batch.read?_source source]
  cases String.fromUTF8? bytes with
  | none => exact ⟨nofun, fun ⟨_, _, read, _⟩ => nomatch read⟩
  | some text =>
    refine (Output.firstError_eq_none_iff o.code_mem_outputs).trans ⟨?_, ?_⟩
    · rintro ⟨code, compiled⟩
      exact ⟨text, code, rfl, compiled⟩
    · rintro ⟨text', code, read, compiled⟩
      obtain rfl := Option.some.inj read
      exact ⟨code, compiled⟩

/-- The sources that fail, each with its error. -/
def FileTree.failures (t : FileTree) (o : Options) (names : List String) :
    List (String × OutputError) :=
  names.filterMap fun name => (t.errorOf o.outputs (Path.join o.path name)).map (name, ·)

theorem FileTree.mem_failures_iff {names : List String} {e : OutputError} :
    (name, e) ∈ t.failures o names ↔
      name ∈ names ∧ t.errorOf o.outputs (Path.join o.path name) = some e := by
  unfold failures
  rw [List.mem_filterMap]
  constructor
  · rintro ⟨other, mem, failed⟩
    obtain ⟨e', error, same⟩ := Option.map_eq_some_iff.1 failed
    obtain ⟨rfl, rfl⟩ := Prod.mk.inj same
    exact ⟨mem, error⟩
  · rintro ⟨mem, failed⟩
    exact ⟨name, mem, by rw [failed]; rfl⟩

/-- The reports of a run: one for each source that fails, in the order of the bytes of their names,
with the error that ends the work on it. -/
structure Reports (t : FileTree) (o : Options) (folder : Place)
    (failures : List (String × OutputError)) : Prop where
  ordered : failures.Pairwise fun a b => utf8 a.1 < utf8 b.1
  mem_iff : ∀ name, (∃ e, (name, e) ∈ failures) ↔
    ∃ stem bytes, name = stem ++ ".jack" ∧ SourceIn t o.path folder stem bytes ∧ ¬Compiles bytes
  errorOf : ∀ name e, (name, e) ∈ failures →
    t.errorOf o.outputs (Path.join o.path name) = some e
  errors : (run t o).errors =
    String.join (failures.map fun f => report t (Path.join o.path f.1) f.2)

/-- A run reports its failures, and fails if there are any. -/
theorem Sorted.run_eq {names : List String} (sorted : Sorted t o folder names) :
    (run t o).errors =
        String.join ((t.failures o names).map fun f => report t (Path.join o.path f.1) f.2) ∧
      (run t o).exit = if t.failures o names = [] then 0 else 1 := by
  have told : (names.map (Path.join o.path)).filterMap (t.reportOf o.outputs) =
      (t.failures o names).map fun f => report t (Path.join o.path f.1) f.2 := by
    unfold FileTree.failures FileTree.reportOf
    rw [List.filterMap_map, List.map_filterMap]
    simp only [Option.map_map]
    rfl
  obtain ⟨-, errors, exit⟩ := sorted.listing.run_eq sorted.listed
  rw [told] at errors exit
  simp only [List.map_eq_nil_iff] at exit
  exact ⟨errors, exit⟩

theorem Sorted.reports {names : List String} (sorted : Sorted t o folder names)
    (batch : Batch t o folder) : Reports t o folder (t.failures o names) := by
  constructor
  case ordered =>
    refine sorted.ordered.filterMap _ fun a a' before b named b' named' => ?_
    obtain ⟨-, -, rfl⟩ := Option.map_eq_some_iff.1 named
    obtain ⟨-, -, rfl⟩ := Option.map_eq_some_iff.1 named'
    exact lt_iff_utf8_lt.1 before
  case mem_iff =>
    intro name
    simp only [FileTree.mem_failures_iff, sorted.mem_iff]
    constructor
    · rintro ⟨e, ⟨stem, bytes, rfl, source⟩, failed⟩
      refine ⟨stem, bytes, rfl, source, fun compiles => ?_⟩
      rw [(source.errorOf_eq_none_iff batch).2 compiles] at failed
      cases failed
    · rintro ⟨stem, bytes, rfl, source, failing⟩
      have fails := mt (source.errorOf_eq_none_iff batch).1 failing
      obtain ⟨e, failed⟩ := Option.ne_none_iff_exists'.1 fails
      exact ⟨e, ⟨stem, bytes, rfl, source⟩, failed⟩
  case errorOf => exact fun name e mem => (FileTree.mem_failures_iff.1 mem).2
  case errors => exact sorted.run_eq.1

/-! ## Batches -/

/-- What a run on a folder does with each of its sources, whatever the others are:
* it fails if one of them does not compile;
* the code of a source that compiles is written, and there is a report for one that does not, whose
  code is left as it was;
* nothing but outputs of sources is written, so no source is, and nothing in a folder within;
* nothing of this depends on how the disk lists its entries. -/
structure Isolates (t : FileTree) (o : Options) (folder : Place) : Prop where
  exit : (run t o).exit = 0 ∧ (∀ stem bytes, SourceIn t o.path folder stem bytes → Compiles bytes) ∨
    (run t o).exit = 1 ∧ ∃ stem bytes, SourceIn t o.path folder stem bytes ∧ ¬Compiles bytes
  written : ∀ stem bytes text code, SourceIn t o.path folder stem bytes →
    String.fromUTF8? bytes = some text → compile text = .ok code →
      (run t o).tree.entry? (folder ++ [stem ++ ".vm"]) = some (.file code.toUTF8)
  unwritten : ∀ stem bytes, SourceIn t o.path folder stem bytes → ¬Compiles bytes →
    (run t o).tree.entry? (folder ++ [stem ++ ".vm"]) = t.entry? (folder ++ [stem ++ ".vm"])
  reports : ∃ failures, Reports t o folder failures
  others : ∀ place, (∀ stem bytes, SourceIn t o.path folder stem bytes → ∀ output ∈ o.outputs,
    place ≠ folder ++ [stem ++ output.suffix]) → (run t o).tree.entry? place = t.entry? place
  sources : ∀ place stem, place.getLast? = some (stem ++ ".jack") →
    (run t o).tree.entry? place = t.entry? place
  within : ∀ name rest, rest ≠ [] →
    (run t o).tree.entry? (folder ++ name :: rest) = t.entry? (folder ++ name :: rest)
  listed : ∀ u : FileTree, u.entries.Perm t.entries →
    (run u o).exit = (run t o).exit ∧ (run u o).log = (run t o).log ∧
      (run u o).errors = (run t o).errors ∧ (run t o).tree.Alike (run u o).tree

theorem Batch.isolates (batch : Batch t o folder) : Isolates t o folder := by
  obtain ⟨names, sorted⟩ := batch.exists_sorted
  have reports := sorted.reports batch
  constructor
  case exit =>
    rw [sorted.run_eq.2]
    split
    · next none =>
      refine .inl ⟨rfl, fun stem bytes source => ?_⟩
      by_contra failing
      obtain ⟨e, mem⟩ := (reports.mem_iff _).2 ⟨stem, bytes, rfl, source, failing⟩
      rw [none] at mem
      cases mem
    · next some =>
      obtain ⟨⟨name, e⟩, mem⟩ := List.exists_mem_of_ne_nil _ some
      obtain ⟨stem, bytes, -, source, failing⟩ := (reports.mem_iff name).1 ⟨e, mem⟩
      exact .inr ⟨rfl, stem, bytes, source, failing⟩
  case written =>
    exact fun stem bytes text code source => sorted.entry?_code batch source
  case unwritten =>
    exact fun stem bytes source => sorted.entry?_code_of_not_compiles batch source
  case reports => exact ⟨_, reports⟩
  case others => exact fun place => sorted.entry?_of_forall_ne
  case sources =>
    rintro place stem last
    refine sorted.entry?_of_forall_ne fun stem' bytes source output asked here => ?_
    rw [here, List.getLast?_concat] at last
    exact Output.name_ne_source stem' stem output (Option.some.inj last)
  case within =>
    intro name rest deeper
    refine sorted.entry?_of_forall_ne fun stem bytes source output asked here => deeper ?_
    exact (List.cons.inj (List.append_cancel_left here)).2
  case listed => exact fun u perm => run_of_perm batch.distinct perm o

end

/-! ## A folder with sources that fail -/

/-- A class, half a class beside code that is older, and bytes that are no text. -/
def mixedFolder : FileTree :=
  ⟨[(["A.jack"], .file "class A { }".toUTF8), (["B.jack"], .file "class B".toUTF8),
    (["B.vm"], .file "older".toUTF8), (["C.jack"], .file ⟨#[0xff]⟩), (["in"], .folder)]⟩

theorem distinct_mixedFolder : mixedFolder.Distinct := by
  have apart : mixedFolder.entries.Pairwise fun a b => a.1 ≠ b.1 := by decide
  exact apart.imp fun other same => absurd same other

theorem sourceIn_mixedFolder :
    SourceIn mixedFolder "." [] "A" "class A { }".toUTF8 ∧
      SourceIn mixedFolder "." [] "B" "class B".toUTF8 := by
  have here := @distinct_mixedFolder.entry?_eq_some_iff
  refine ⟨⟨by decide, (here (by decide)).2 ?_, by decide⟩,
    ⟨by decide, (here (by decide)).2 ?_, by decide⟩⟩
  · exact .head _
  · exact .tail _ (.head _)

theorem batch_mixedFolder : Batch mixedFolder allOutputs [] := by
  have free : ∀ name ∈ mixedFolder.names [], ∀ output ∈ allOutputs.outputs,
      ¬(mixedFolder.locate? (output.path (Path.join "." name))).any mixedFolder.isFolder := by
    decide +kernel
  constructor
  case distinct => exact distinct_mixedFolder
  case exists_source => exact ⟨_, _, sourceIn_mixedFolder.1⟩
  case free =>
    exact fun stem bytes source => free _ (FileTree.mem_names_of_file source.here)
  all_goals decide +kernel

theorem not_compiles_half : ¬Compiles "class B".toUTF8 := by
  rintro ⟨text, code, read, compiled⟩
  obtain rfl := Option.some.inj ((FileTree.fromUTF8?_toUTF8 _).symm.trans read)
  have none : (compile "class B").toOption = none := by decide +kernel
  rw [compiled] at none
  cases none

/-- The class is compiled, the older code is kept, and the run fails. -/
theorem run_mixedFolder :
    Batch mixedFolder allOutputs [] ∧ (run mixedFolder allOutputs).exit = 1 ∧
      (run mixedFolder allOutputs).tree.entry? ["A.vm"] = some (.file "".toUTF8) ∧
      (run mixedFolder allOutputs).tree.entry? ["B.vm"] = mixedFolder.entry? ["B.vm"] := by
  have isolates := Batch.isolates batch_mixedFolder
  obtain ⟨first, second⟩ := sourceIn_mixedFolder
  refine ⟨batch_mixedFolder, ?_, ?_, ?_⟩
  · rcases isolates.exit with ⟨-, all⟩ | ⟨exit, -⟩
    · exact absurd (all _ _ second) not_compiles_half
    · exact exit
  · exact isolates.written _ _ _ _ first (FileTree.fromUTF8?_toUTF8 _) (by decide +kernel)
  · exact isolates.unwritten _ _ second not_compiles_half

end JackToVm
