import JackToVm.Build
import JackToVm.Proofs.Paths

/-!
# Where sources and outputs are

The path of a source in a folder is a text, a slash and the name of the source. What counts of the
text is the folder that it opens (`FileTree.Opens`): the paths of the outputs have other texts,
since some of them are trimmed, but these open the same folder.

Results.
1. Dropping what names nothing at the end of a path leads to the same place (`FileTree.Leads.trim`).
2. The folder above a folder that a path leads to is there (`FileTree.Grounded.isFolder_step_dots`).
3. The outputs of a source are beside it, by paths that are not longer (`FileTree.exists_beside`).
-/

namespace JackToVm

/-! ## Routes -/

namespace Place

/-- The place where a path starts. -/
def start (cs : List Char) : Place :=
  if cs.head? = some '/' then root else []

theorem route_append (here : Place) (xs ys : List (List Char)) :
    route here (xs ++ ys) =
      ((route here xs).1 ++ (route (route here xs).2 ys).1, (route (route here xs).2 ys).2) := by
  induction xs generalizing here with
  | nil => rfl
  | cons x xs ih => simp only [List.cons_append, route, ih]

theorem step_name {name : List Char} (isName : Path.IsName name) (here : Place) :
    step here name = here ++ [String.ofList name] := by
  unfold step
  rw [if_neg (not_or.2 ⟨isName.ne_nil, isName.ne_dot⟩), if_neg isName.ne_dots]

theorem start_append {xs : List Char} (some : xs ≠ []) (ys : List Char) :
    start (xs ++ ys) = start xs := by
  cases xs with
  | nil => exact absurd rfl some
  | cons c xs => rfl

end Place

namespace FileTree

variable {t : FileTree} {xs : List Char} {place folder : Place}

/-! ## Paths that lead somewhere -/

/-- The path leads to the place, but for its length. -/
structure Leads (t : FileTree) (path : List Char) (place : Place) : Prop where
  ne_nil : path ≠ []
  passed : ∀ p ∈ (Place.route (Place.start path) (Path.components path)).1, t.isFolder p
  there : (Place.route (Place.start path) (Path.components path)).2 = place

theorem locate?_eq_some_iff {path : String} :
    t.locate? path = some place ↔
      t.Leads path.toList place ∧ path.utf8ByteSize ≤ maxPathBytes := by
  have unfolded : t.locate? path =
      if path ≠ "" ∧ path.utf8ByteSize ≤ maxPathBytes ∧
          (Place.route (Place.start path.toList) (Path.components path.toList)).1.all t.isFolder
      then some (Place.route (Place.start path.toList) (Path.components path.toList)).2
      else none := rfl
  rw [unfolded, Option.ite_none_right_eq_some, List.all_eq_true, Option.some_inj]
  constructor
  · rintro ⟨⟨some, short, passed⟩, there⟩
    exact ⟨⟨mt String.toList_eq_nil_iff.1 some, passed, there⟩, short⟩
  · rintro ⟨⟨some, passed, there⟩, short⟩
    exact ⟨⟨mt String.toList_eq_nil_iff.2 some, short, passed⟩, there⟩

/-- Names behind the text and a slash are names in the folder. -/
structure Opens (t : FileTree) (xs : List Char) (folder : Place) : Prop where
  passed : ∀ p ∈ (Place.route (Place.start (xs ++ ['/'])) (Path.components xs)).1, t.isFolder p
  there : (Place.route (Place.start (xs ++ ['/'])) (Path.components xs)).2 = folder
  isFolder : t.isFolder folder

theorem leads_append_iff {name : List Char} (whole : '/' ∉ name) :
    t.Leads (xs ++ '/' :: name) place ↔ ∃ folder, t.Opens xs folder ∧ folder.step name = place := by
  have start : Place.start (xs ++ '/' :: name) = Place.start (xs ++ ['/']) := by
    rw [List.append_cons, Place.start_append (by simp)]
  have route : Place.route (Place.start (xs ++ '/' :: name)) (Path.components (xs ++ '/' :: name)) =
      ((Place.route (Place.start (xs ++ ['/'])) (Path.components xs)).1 ++
        [(Place.route (Place.start (xs ++ ['/'])) (Path.components xs)).2],
        (Place.route (Place.start (xs ++ ['/'])) (Path.components xs)).2.step name) := by
    rw [start, Path.components_append_slash, Path.components_of_no_slash whole, Place.route_append]
    rfl
  constructor
  · rintro ⟨-, passed, there⟩
    rw [route] at passed there
    obtain ⟨before, last⟩ := List.forall_mem_append.1 passed
    exact ⟨_, ⟨before, rfl, last _ (.head _)⟩, there⟩
  · rintro ⟨folder, ⟨passed, rfl, isFolder⟩, there⟩
    refine ⟨by simp, ?_, ?_⟩
    · rw [route]
      exact List.forall_mem_append.2 ⟨passed, List.forall_mem_singleton.2 isFolder⟩
    · rw [route]
      exact there

theorem Leads.opens (leads : t.Leads xs folder) (isFolder : t.isFolder folder) :
    t.Opens xs folder := by
  have start := Place.start_append leads.ne_nil ['/']
  exact ⟨start ▸ leads.passed, start ▸ leads.there, isFolder⟩

theorem Opens.leads (opens : t.Opens xs folder) (some : xs ≠ []) : t.Leads xs folder := by
  have start := Place.start_append some ['/']
  exact ⟨some, start ▸ opens.passed, start ▸ opens.there⟩

theorem leads_slash_iff : t.Leads (xs ++ ['/']) place ↔ t.Opens xs place := by
  rw [leads_append_iff List.not_mem_nil]
  exact ⟨fun ⟨_, opens, there⟩ => there ▸ opens, fun opens => ⟨_, opens, rfl⟩⟩

/-- What names nothing at the end of a path can be dropped. -/
theorem leads_trimReversed {r : List Char} (leads : t.Leads r.reverse place) :
    t.Leads (Path.trimReversed r).reverse place := by
  fun_induction Path.trimReversed r with
  | case1 c cs ih =>
    rw [List.reverse_cons, leads_slash_iff] at leads
    exact ih (leads.leads (by simp))
  | case2 cs ih =>
    rw [List.reverse_cons, List.reverse_cons, List.append_assoc,
      show ['/'] ++ ['.'] = '/' :: ['.'] from rfl, leads_append_iff (by decide)] at leads
    obtain ⟨_, opens, rfl⟩ := leads
    refine ih ?_
    rw [List.reverse_cons]
    exact leads_slash_iff.2 opens
  | case3 r => exact leads

theorem Leads.trim (leads : t.Leads xs place) : t.Leads (Path.trim xs) place := by
  unfold Path.trim
  exact leads_trimReversed (by rwa [List.reverse_reverse])

/-! ## Files in a folder -/

/-- The path of a file in a folder is a text that opens the folder, a slash and the name. The text
is that of the folder, or that without a slash at its end. -/
theorem Leads.exists_join {path : String} (leads : t.Leads path.toList folder)
    (isFolder : t.isFolder folder) :
    ∃ xs, t.Opens xs folder ∧
      (path.toList = xs ++ ['/'] ∨ path.toList = xs ∧ xs.getLast? ≠ some '/') ∧
      ∀ name, (Path.join path name).toList = xs ++ '/' :: name.toList := by
  rcases List.eq_nil_or_concat path.toList with empty | ⟨cs, c, here⟩
  · exact absurd empty leads.ne_nil
  · rw [List.concat_eq_append] at here
    have last : path.toList.getLast? = some c := by
      rw [here, List.getLast?_append]
      rfl
    by_cases slash : c = '/'
    · subst slash
      rw [here] at leads
      refine ⟨cs, leads_slash_iff.1 leads, .inl here, fun name => ?_⟩
      unfold Path.join
      rw [last]
      simp [here]
    · refine ⟨path.toList, leads.opens isFolder, .inr ⟨rfl, ?_⟩, fun name => ?_⟩
      · rw [last]
        exact fun same => slash (Option.some.inj same)
      · unfold Path.join
        rw [last]
        split
        · next same => cases same
        · next same => exact absurd (Option.some.inj same) slash
        · simp

/-- Another file name goes into the same folder, by a path that is not longer. -/
theorem Opens.exists_withFileName (opens : t.Opens xs folder) {name : List Char}
    (isName : Path.IsName name) {path : String} (here : path.toList = xs ++ '/' :: name) :
    ∃ ys, t.Opens ys folder ∧ Path.bytes ys ≤ Path.bytes xs ∧
      ∀ new, (Path.withFileName path new).toList = ys ++ '/' :: new.toList := by
  have trimmed := (leads_slash_iff.2 opens).trim
  rw [← String.toList_ofList (l := Path.trim (xs ++ ['/']))] at trimmed
  obtain ⟨ys, opens', text, joined⟩ := trimmed.exists_join opens.isFolder
  rw [String.toList_ofList] at text
  have begins := Path.trim_prefix (xs ++ ['/'])
  refine ⟨ys, opens', ?_, fun new => ?_⟩
  · rcases text with text | ⟨text, noSlash⟩
    · have short := Path.bytes_le_of_prefix (text ▸ begins)
      rw [Path.bytes_append, Path.bytes_append] at short
      omega
    · rw [text, List.prefix_concat_iff] at begins
      rcases begins with whole | begins
      · rw [whole, List.getLast?_append] at noSlash
        exact absurd rfl noSlash
      · exact Path.bytes_le_of_prefix begins
  · rw [List.append_cons] at here
    rw [Path.withFileName_append (.inr ⟨xs, rfl⟩) isName here, joined]

/-! ## Folders above -/

/-- The folders above a place are there. Where a pair of dots is left, all in front of it are. -/
structure Grounded (t : FileTree) (place : Place) : Prop where
  above : ∀ q, q <+: place → q ≠ place → t.isFolder q
  dots : ∀ q, q <+: place → q.getLast? = some ".." → q.all (· = "..")

theorem isFolder_of_all_dots (t : FileTree) (dots : place.all (· = "..")) : t.isFolder place := by
  unfold isFolder entry?
  rw [if_pos (.inr dots)]

theorem isFolder_root (t : FileTree) : t.isFolder Place.root := by
  unfold isFolder entry?
  rw [if_pos (.inl rfl)]

theorem grounded_start (t : FileTree) (cs : List Char) : t.Grounded (Place.start cs) := by
  have empty : t.Grounded [] := by
    refine ⟨fun q isPrefix other => ?_, fun q isPrefix last => ?_⟩
    · exact absurd (List.prefix_nil.1 isPrefix) other
    · rw [List.prefix_nil.1 isPrefix] at last
      cases last
  unfold Place.start
  split
  · refine ⟨fun q isPrefix other => ?_, fun q isPrefix last => ?_⟩
    · rcases List.prefix_concat_iff.1 (show q <+: [] ++ ["/"] from isPrefix) with whole | isPrefix
      · exact absurd whole other
      · exact List.prefix_nil.1 isPrefix ▸ t.isFolder_of_all_dots rfl
    · rcases List.prefix_concat_iff.1 (show q <+: [] ++ ["/"] from isPrefix) with rfl | isPrefix
      · exact absurd last (by decide)
      · exact empty.dots q isPrefix last
  · exact empty

/-- A name more, that is a pair of dots only behind others. -/
theorem Grounded.concat (grounded : t.Grounded place) (here : t.isFolder place) {name : String}
    (dots : name = ".." → place.all (· = "..")) : t.Grounded (place ++ [name]) := by
  constructor
  · intro q isPrefix other
    rcases List.prefix_concat_iff.1 isPrefix with whole | isPrefix
    · exact absurd whole other
    · by_cases same : q = place
      · exact same ▸ here
      · exact grounded.above q isPrefix same
  · intro q isPrefix last
    rcases List.prefix_concat_iff.1 isPrefix with rfl | isPrefix
    · rw [List.getLast?_concat] at last
      obtain rfl := Option.some.inj last
      rw [List.all_append, dots rfl]
      rfl
    · exact grounded.dots q isPrefix last

theorem Grounded.step (grounded : t.Grounded place) (here : t.isFolder place)
    (component : List Char) : t.Grounded (place.step component) := by
  unfold Place.step
  split
  · exact grounded
  · split
    · split
      · next root => exact root ▸ grounded
      · split
        · next last =>
          refine grounded.concat here fun _ => ?_
          rcases last with rfl | last
          · rfl
          · exact grounded.dots _ List.prefix_rfl last
        · have dropped := List.dropLast_prefix place
          refine ⟨fun q isPrefix other => ?_,
            fun q isPrefix => grounded.dots q (isPrefix.trans dropped)⟩
          refine grounded.above q (isPrefix.trans dropped) ?_
          rintro rfl
          exact other (dropped.eq_of_length_le isPrefix.length_le).symm
    · next other =>
      refine grounded.concat here fun same => absurd ?_ other
      rw [← String.toList_ofList (l := component), same]
      rfl

theorem Grounded.route (grounded : t.Grounded place) {components : List (List Char)}
    (passed : ∀ p ∈ (place.route components).1, t.isFolder p) :
    t.Grounded (place.route components).2 := by
  induction components generalizing place with
  | nil => exact grounded
  | cons component components ih =>
    obtain ⟨here, others⟩ := List.forall_mem_cons.1 passed
    exact ih (grounded.step here component) others

theorem Leads.grounded (leads : t.Leads xs place) : t.Grounded place :=
  leads.there ▸ (t.grounded_start xs).route leads.passed

/-- The folder above a folder is there. -/
theorem Grounded.isFolder_step_dots (grounded : t.Grounded place) (here : t.isFolder place) :
    t.isFolder (place.step ['.', '.']) := by
  unfold Place.step
  rw [if_neg (by decide), if_pos rfl]
  split
  · exact t.isFolder_root
  · split
    · next last =>
      refine t.isFolder_of_all_dots ?_
      rcases last with rfl | last
      · rfl
      · rw [List.all_append, grounded.dots _ List.prefix_rfl last]
        rfl
    · next inside =>
      obtain ⟨some, -⟩ := not_or.1 inside
      refine grounded.above _ (List.dropLast_prefix place) fun same => ?_
      have shorter := congrArg List.length same
      rw [List.length_dropLast] at shorter
      have := List.length_pos_iff.2 some
      omega

end FileTree

/-! ## Outputs -/

/-- What the name of an output has behind the stem of the source. -/
def Output.suffix : Output → String
  | code => ".vm"
  | tokens => "T.xml"
  | tree => ".xml"

theorem Output.isName {stem : List Char} (whole : '/' ∉ stem) (some : stem ≠ [])
    (output : Output) : Path.IsName (stem ++ output.suffix.toList) := by
  have long := List.length_pos_iff.2 some
  refine Path.isName_of_length (fun slash => ?_) ?_
  · rcases List.mem_append.1 slash with slash | slash
    · exact whole slash
    · cases output <;> exact absurd slash (by decide)
  · have : 2 < output.suffix.toList.length := by cases output <;> decide
    rw [List.length_append]
    omega

theorem Output.bytes_suffix_le (output : Output) : Path.bytes output.suffix.toList ≤ 5 := by
  rw [Path.bytes_toList]
  cases output <;> decide

/-- A source in a folder, with the stem of its name. Its outputs are in the same folder. -/
structure Beside (t : FileTree) (folder : Place) (source stem : String) : Prop where
  located : t.locate? source = some (folder ++ [stem ++ ".jack"])
  outputs : ∀ output : Output,
    t.locate? (output.path source) = some (folder ++ [stem ++ output.suffix])
  stem_eq : Path.stem source = stem

namespace FileTree

variable {t : FileTree} {xs stem : List Char} {folder : Place} {source : String}

/-- An output of a source has a path that is not longer, in the same folder. -/
theorem Opens.exists_output (opens : t.Opens xs folder)
    (isName : Path.IsName (stem ++ '.' :: ['j', 'a', 'c', 'k'])) (some : stem ≠ [])
    (noDots : stem ≠ ['.'])
    (here : source.toList = xs ++ '/' :: (stem ++ '.' :: ['j', 'a', 'c', 'k'])) (output : Output) :
    ∃ ys, t.Opens ys folder ∧ Path.bytes ys ≤ Path.bytes xs ∧
      (output.path source).toList = ys ++ '/' :: (stem ++ output.suffix.toList) := by
  have front : Path.IsFront (xs ++ ['/']) := .inr ⟨xs, rfl⟩
  have last : '.' ∉ ['j', 'a', 'c', 'k'] := by decide
  have here' := here
  rw [List.append_cons] at here'
  have extension (new : String) : (Path.withExtension source new).toList =
      xs ++ '/' :: (stem ++ '.' :: new.toList) := by
    rw [Path.withExtension_append front isName some last noDots here', ← List.append_cons]
  cases output with
  | code => exact ⟨xs, opens, Nat.le_refl _, extension "vm"⟩
  | tree => exact ⟨xs, opens, Nat.le_refl _, extension "xml"⟩
  | tokens =>
    obtain ⟨ys, opens', short, other⟩ := opens.exists_withFileName isName here
    refine ⟨ys, opens', short, (other _).trans ?_⟩
    rw [Path.stem_append front isName some last here', String.toList_append, String.toList_ofList]
    rfl

/-- A path of some text, a slash and a name leads to the name in the folder. -/
theorem Opens.locate?_eq (opens : t.Opens xs folder) {path : String} {name : List Char}
    (isName : Path.IsName name) (here : path.toList = xs ++ '/' :: name)
    (short : path.utf8ByteSize ≤ maxPathBytes) :
    t.locate? path = some (folder ++ [String.ofList name]) := by
  refine locate?_eq_some_iff.2 ⟨?_, short⟩
  rw [here, ← Place.step_name isName]
  exact (leads_append_iff isName.whole).2 ⟨folder, opens, rfl⟩

/-- A pair of dots leads to the folder above. -/
theorem Opens.any_isFolder_dots (opens : t.Opens xs folder) (grounded : t.Grounded folder)
    {path : String} (here : path.toList = xs ++ '/' :: ['.', '.'])
    (short : path.utf8ByteSize ≤ maxPathBytes) : (t.locate? path).any t.isFolder := by
  have leads : t.Leads path.toList (folder.step ['.', '.']) := by
    rw [here]
    exact (leads_append_iff (by decide)).2 ⟨folder, opens, rfl⟩
  rw [locate?_eq_some_iff.2 ⟨leads, short⟩]
  exact grounded.isFolder_step_dots opens.isFolder

theorem short_of_isFile {path : String} (there : t.isFile path) :
    path.utf8ByteSize ≤ maxPathBytes := by
  unfold FileTree.isFile find? at there
  cases located : t.locate? path with
  | none =>
    rw [located] at there
    cases there
  | some place => exact (locate?_eq_some_iff.1 located).2

/-- Where a source is `..jack`, the path of its code is that of the folder above. -/
theorem Opens.any_isFolder_code (opens : t.Opens xs folder) (grounded : t.Grounded folder)
    (here : source.toList = xs ++ '/' :: (['.'] ++ '.' :: ['j', 'a', 'c', 'k']))
    (short : source.utf8ByteSize ≤ maxPathBytes) :
    (t.locate? (Output.code.path source)).any t.isFolder := by
  have isName : Path.IsName (['.'] ++ '.' :: ['j', 'a', 'c', 'k']) := by
    exact Path.isName_of_length (by decide) (by decide)
  have above : (Path.withExtension source "vm").toList = xs ++ '/' :: ['.', '.'] := by
    rw [List.append_cons] at here ⊢
    exact Path.withExtension_dots (.inr ⟨xs, rfl⟩) isName (by decide) here
  show (t.locate? (Path.withExtension source "vm")).any t.isFolder
  refine opens.any_isFolder_dots grounded above ?_
  have size := Path.utf8ByteSize_eq here
  have size' := Path.utf8ByteSize_eq (show _ = xs ++ '/' :: (['.'] ++ ['.']) from above)
  have jack : Path.bytes ['.', 'j', 'a', 'c', 'k'] = 5 := by decide
  have dot : Path.bytes ['.'] = 1 := by decide
  omega

/-- A source that is not `..jack` is beside its outputs. -/
theorem Opens.beside (opens : t.Opens xs folder) (whole : '/' ∉ stem) (some : stem ≠ [])
    (noDots : stem ≠ ['.'])
    (here : source.toList = xs ++ '/' :: (stem ++ '.' :: ['j', 'a', 'c', 'k']))
    (short : source.utf8ByteSize ≤ maxPathBytes) :
    Beside t folder source (String.ofList stem) := by
  have isName : Path.IsName (stem ++ '.' :: ['j', 'a', 'c', 'k']) := by
    have long := List.length_pos_iff.2 some
    refine Path.isName_of_length ?_ ?_
    · simpa using whole
    · rw [List.length_append]
      simp
  refine ⟨?_, fun output => ?_, ?_⟩
  · rw [opens.locate?_eq isName here short, String.ofList_append]
  · obtain ⟨ys, opens', shorter, there⟩ := opens.exists_output isName some noDots here output
    have size := Path.utf8ByteSize_eq here
    have size' := Path.utf8ByteSize_eq there
    have jack : Path.bytes ['.', 'j', 'a', 'c', 'k'] = 5 := by decide
    have suffix := output.bytes_suffix_le
    rw [opens'.locate?_eq (Output.isName whole some output) there (by omega),
      String.ofList_append, String.ofList_toList]
  · exact Path.stem_append (.inr ⟨xs, rfl⟩) isName some (by decide) (List.append_cons .. ▸ here)

/-- The sources of a folder are beside their outputs, unless an output is the folder above. -/
theorem exists_beside {path name : String} (there : t.locate? path = some folder)
    (isFolder : t.isFolder folder) (whole : '/' ∉ name.toList) (isSource : isSourceName name)
    (isFile : t.isFile (Path.join path name))
    (free : ¬(t.locate? (Output.code.path (Path.join path name))).any t.isFolder) :
    ∃ stem, name = stem ++ ".jack" ∧ Beside t folder (Path.join path name) stem := by
  obtain ⟨leads, -⟩ := locate?_eq_some_iff.1 there
  obtain ⟨xs, opens, -, joined⟩ := leads.exists_join isFolder
  obtain ⟨stem, named, some⟩ := Path.exists_of_hasExtension whole isSource
  have here : (Path.join path name).toList =
      xs ++ '/' :: (stem ++ '.' :: ['j', 'a', 'c', 'k']) := by
    rw [joined name, named]
    rfl
  have short := short_of_isFile isFile
  refine ⟨String.ofList stem, ?_, opens.beside ?_ some ?_ here short⟩
  · rw [← String.toList_inj, named, String.toList_append, String.toList_ofList (l := stem)]
    rfl
  · rw [named] at whole
    exact fun slash => whole (List.mem_append_left _ slash)
  · rintro rfl
    exact free (opens.any_isFolder_code leads.grounded here short)

end FileTree

end JackToVm
