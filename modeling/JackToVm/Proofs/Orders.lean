import Mathlib.Data.List.Pairwise
import Mathlib.Tactic.SplitIfs
import JackToVm.Proofs.Runs

/-!
# The order of names and the order of a listing

The sources of a folder are sorted by name. So two orders have to be looked at: the one in which
texts are sorted, and the one in which the disk happens to list a folder.

Results.
1. Texts are in the order of their bytes (`lt_iff_utf8_lt`): the bytes of the lesser of two
   characters come first, whatever stands behind them (`encoding_append_lt`).
2. Two disks that have the same at every place and list the same names cannot be told apart by a
   run: every step of it does the same on both (`Output.make_congr`, `makeAll_congr`,
   `Progress.Alike.add`, `run_congr`).
3. So the entries of a disk can be listed in any order (`run_of_perm`).
-/

namespace JackToVm

/-! ## The order of texts -/

/-- The bytes of a text. -/
def utf8 (s : String) : List UInt8 :=
  s.toUTF8.data.toList

theorem utf8_eq_flatMap (s : String) : utf8 s = s.toList.flatMap String.utf8EncodeChar := by
  have bytes : s.toUTF8 = (s.toList.flatMap String.utf8EncodeChar).toByteArray := by
    conv_lhs => rw [← String.ofList_toList (s := s)]
    exact String.toByteArray_ofList
  unfold utf8
  rw [bytes, List.toList_data_toByteArray]

theorem ofNat_cons_lt_iff {m n : Nat} (low : m < 256) (low' : n < 256) {xs ys : List UInt8} :
    UInt8.ofNat m :: xs < UInt8.ofNat n :: ys ↔ m < n ∨ m = n ∧ xs < ys := by
  rw [List.cons_lt_cons_iff, UInt8.lt_iff_toNat_lt, ← UInt8.toNat_inj, UInt8.toNat_ofNat',
    UInt8.toNat_ofNat', Nat.mod_eq_of_lt low, Nat.mod_eq_of_lt low']

/-- Numbers are in the order of their digits to the base 64. -/
theorem digits_of_lt {m n : Nat} (less : m < n) :
    m / 262144 < n / 262144 ∨ m / 262144 = n / 262144 ∧
      (m / 4096 % 64 < n / 4096 % 64 ∨ m / 4096 % 64 = n / 4096 % 64 ∧
        (m / 64 % 64 < n / 64 % 64 ∨ m / 64 % 64 = n / 64 % 64 ∧ m % 64 < n % 64)) := by
  have digit {m n : Nat} (less : m < n) : m / 64 < n / 64 ∨ m / 64 = n / 64 ∧ m % 64 < n % 64 := by
    omega
  have nested (n : Nat) : n / 4096 = n / 64 / 64 ∧ n / 262144 = n / 64 / 64 / 64 := by omega
  rw [(nested m).1, (nested m).2, (nested n).1, (nested n).2]
  rcases digit less with less | ⟨same, last⟩
  · rcases digit less with less | ⟨same, third⟩
    · rcases digit less with first | ⟨same, second⟩
      · exact .inl first
      · exact .inr ⟨same, .inl second⟩
    · exact .inr ⟨congrArg (· / 64) same, .inr ⟨congrArg (· % 64) same, .inl third⟩⟩
  · exact .inr ⟨congrArg (· / 64 / 64) same, .inr ⟨congrArg (· / 64 % 64) same,
      .inr ⟨congrArg (· % 64) same, last⟩⟩⟩

/-- Characters are in the order of their bytes: the first byte tells how many there are, and the
others are the digits of the code. -/
theorem encoding_append_lt {c d : Char} (before : c < d) (xs ys : List UInt8) :
    String.utf8EncodeChar c ++ xs < String.utf8EncodeChar d ++ ys := by
  have digits := digits_of_lt (show c.val.toNat < d.val.toNat from before)
  have greatest : d.val.toNat < 0x110000 := by
    have valid := d.valid
    unfold UInt32.isValidChar Nat.isValidChar at valid
    omega
  unfold String.utf8EncodeChar
  dsimp only
  split_ifs
  all_goals
    simp (disch := omega) only [List.cons_append, List.nil_append, ofNat_cons_lt_iff]
    omega

theorem flatMap_encoding_lt {cs ds : List Char} (before : cs < ds) :
    cs.flatMap String.utf8EncodeChar < ds.flatMap String.utf8EncodeChar := by
  induction before with
  | @nil d ds =>
    obtain ⟨b, bs, first⟩ := List.exists_cons_of_ne_nil (String.utf8EncodeChar_ne_nil (c := d))
    rw [List.flatMap_cons, first]
    exact List.nil_lt_cons _ _
  | rel less => exact encoding_append_lt less _ _
  | cons _ ih => exact List.append_left_lt ih

/-- Texts are in the order of their bytes. -/
theorem lt_iff_utf8_lt {s t : String} : s < t ↔ utf8 s < utf8 t := by
  have forward {s t : String} (before : s < t) : utf8 s < utf8 t := by
    rw [utf8_eq_flatMap, utf8_eq_flatMap]
    exact flatMap_encoding_lt (String.lt_iff.1 before)
  refine ⟨forward, fun bytes => ?_⟩
  by_contra notBefore
  have behind := String.not_lt.1 notBefore
  by_cases after : t < s
  · exact List.lt_asymm bytes (forward after)
  · rw [String.le_antisymm (String.not_lt.1 after) behind] at bytes
    exact List.lt_irrefl _ bytes

/-! ## Disks with the same on them -/

section

variable {t u : FileTree} {source path : String} {outputs : List Output}

/-- At every place is the same. -/
def FileTree.Alike (t u : FileTree) : Prop :=
  ∀ place, u.entry? place = t.entry? place

namespace FileTree.Alike

theorem isFolder (alike : t.Alike u) (place : Place) : u.isFolder place = t.isFolder place := by
  unfold FileTree.isFolder
  rw [alike]

theorem locate? (alike : t.Alike u) (path : String) : u.locate? path = t.locate? path :=
  locate?_congr alike.isFolder path

theorem find? (alike : t.Alike u) (path : String) : u.find? path = t.find? path := by
  unfold FileTree.find?
  rw [alike.locate?, funext alike]

theorem isFile (alike : t.Alike u) (path : String) : u.isFile path = t.isFile path := by
  unfold FileTree.isFile
  rw [alike.find?]

theorem read? (alike : t.Alike u) (path : String) : u.read? path = t.read? path := by
  unfold FileTree.read?
  rw [alike.find?]

theorem put (alike : t.Alike u) {place : Place} (free : ¬t.isFolder place) (bytes : ByteArray) :
    (t.put place bytes).Alike (u.put place bytes) := by
  intro q
  by_cases same : q = place
  · rw [same, entry?_put_self free, entry?_put_self (by rwa [alike.isFolder])]
  · rw [entry?_put_of_ne same, entry?_put_of_ne same, alike]

/-- What can be written on the one disk can be written on the other. -/
theorem write? (alike : t.Alike u) (path text : String) :
    t.write? path text = none ∧ u.write? path text = none ∨
      ∃ t' u', t.write? path text = some t' ∧ u.write? path text = some u' ∧ t'.Alike u' := by
  unfold FileTree.write?
  rw [alike.locate?]
  cases t.locate? path with
  | none => exact .inl ⟨rfl, rfl⟩
  | some place =>
    simp only [alike.isFolder]
    split
    · exact .inl ⟨rfl, rfl⟩
    · next allowed =>
      have free := (not_or.1 (mt (Bool.or_eq_true _ _).mpr allowed)).1
      exact .inr ⟨_, _, rfl, rfl, alike.put free _⟩

end FileTree.Alike

/-! ## Runs on them -/

theorem Output.make_congr (alike : t.Alike u) (output : Output) (source : String) :
    (output.make u source).2 = (output.make t source).2 ∧
      ((∃ e, (output.make t source).1 = .error e ∧ (output.make u source).1 = .error e) ∨
        ∃ target t' u', (output.make t source).1 = .ok (target, t') ∧
          (output.make u source).1 = .ok (target, u') ∧ t'.Alike u') := by
  unfold make
  rw [alike.read?]
  cases t.read? source with
  | none => exact ⟨rfl, .inl ⟨_, rfl, rfl⟩⟩
  | some text =>
    cases rendered : output.render text with
    | error e =>
      simp only [rendered]
      exact ⟨trivial, .inl ⟨_, rfl, rfl⟩⟩
    | ok result =>
      simp only [rendered]
      rcases alike.write? (output.path source) result with ⟨none, none'⟩ | ⟨t', u', put, put', same⟩
      · rw [none, none']
        exact ⟨rfl, .inl ⟨_, rfl, rfl⟩⟩
      · rw [put, put']
        exact ⟨rfl, .inr ⟨_, t', u', rfl, rfl, same⟩⟩

theorem makeAll_congr (alike : t.Alike u) (source : String) (outputs : List Output) :
    (makeAll t source outputs).1.Alike (makeAll u source outputs).1 ∧
      (makeAll u source outputs).2 = (makeAll t source outputs).2 := by
  induction outputs generalizing t u with
  | nil => exact ⟨alike, rfl⟩
  | cons output outputs ih =>
    unfold makeAll
    obtain ⟨sameLog, made⟩ := Output.make_congr alike output source
    generalize output.make t source = left at sameLog made
    generalize output.make u source = right at sameLog made
    obtain ⟨result, log⟩ := left
    obtain ⟨result', log'⟩ := right
    obtain rfl : log' = log := sameLog
    rcases made with ⟨e, rfl, rfl⟩ | ⟨target, t', u', rfl, rfl, same⟩
    · exact ⟨alike, rfl⟩
    · obtain ⟨trees, others⟩ := ih same
      exact ⟨trees, by simp only [others]⟩

theorem report_congr (alike : t.Alike u) (e : OutputError) :
    report u source e = report t source e := by
  unfold report
  rw [alike.read?]

/-- Two runs are as far as each other. -/
structure Progress.Alike (p q : Progress) : Prop where
  tree : p.tree.Alike q.tree
  log : q.log = p.log
  errors : q.errors = p.errors
  failed : q.failed = p.failed

theorem Progress.Alike.add {p q : Progress} (alike : p.Alike q) (source : String) :
    (p.add outputs source).Alike (q.add outputs source) := by
  obtain ⟨trees, others⟩ := makeAll_congr alike.tree source outputs
  constructor
  · rwa [tree_add, tree_add]
  · rw [log_add, log_add, others, alike.log]
  · rw [errors_add, errors_add, others, alike.errors, funext (report_congr trees)]
  · rw [failed_add, failed_add, others, alike.failed]

theorem Progress.Alike.foldl_add {p q : Progress} (alike : p.Alike q) (outputs : List Output)
    (files : List String) :
    (files.foldl (Progress.add outputs) p).Alike (files.foldl (Progress.add outputs) q) := by
  induction files generalizing p q with
  | nil => exact alike
  | cons f files ih => exact ih (alike.add f)

/-- Sorting forgets the order of the listing. -/
theorem mergeSort_eq_of_perm {names names' : List String} (perm : names'.Perm names) :
    names'.mergeSort (· ≤ ·) = names.mergeSort (· ≤ ·) := by
  have sorted := pairwise_mergeSort_le
  refine List.Perm.eq_of_pairwise (fun _ _ _ _ => String.le_antisymm) (sorted _) (sorted _) ?_
  exact (List.mergeSort_perm _ _).trans (perm.trans (List.mergeSort_perm _ _).symm)

/-- The names of the sources in a folder, as the disk lists them. -/
def FileTree.sourceNames (t : FileTree) (path : String) (folder : Place) : List String :=
  (t.names folder).filter fun n => isSourceName n && t.isFile (Path.join path n)

theorem sources_of_isFolder {folder : Place} (there : t.locate? path = some folder)
    (isFolder : t.isFolder folder) :
    sources t path =
      if t.sourceNames path folder = [] then .error (.noSources path)
      else .ok (((t.sourceNames path folder).mergeSort (· ≤ ·)).map (Path.join path)) := by
  unfold sources
  simp only [there, FileTree.entry?_eq_folder_iff.2 isFolder]
  split
  · next none => exact (if_pos none).symm
  · next some => exact (if_neg some).symm

theorem sources_congr (alike : t.Alike u)
    (names : ∀ folder, (u.names folder).Perm (t.names folder)) (path : String) :
    sources u path = sources t path := by
  by_cases isFolder : ∃ folder, t.locate? path = some folder ∧ t.isFolder folder
  · obtain ⟨folder, there, isFolder⟩ := isFolder
    have perm : (u.sourceNames path folder).Perm (t.sourceNames path folder) := by
      unfold FileTree.sourceNames
      simp only [alike.isFile]
      exact (names folder).filter _
    rw [sources_of_isFolder there isFolder,
      sources_of_isFolder ((alike.locate? path).trans there) (alike.isFolder folder ▸ isFolder),
      mergeSort_eq_of_perm perm]
    simp only [← List.length_eq_zero_iff, perm.length_eq]
  · -- nothing is listed, unless the path leads to a folder
    unfold sources
    rw [alike.locate?]
    cases there : t.locate? path with
    | none => rfl
    | some place =>
      simp only [alike place]
      cases here : t.entry? place with
      | none => rfl
      | some entry =>
        cases entry with
        | file bytes => rfl
        | folder => exact absurd ⟨place, there, FileTree.entry?_eq_folder_iff.1 here⟩ isFolder

/-- Runs on two disks with the same on them cannot be told apart. -/
theorem run_congr (alike : t.Alike u) (names : ∀ folder, (u.names folder).Perm (t.names folder))
    (o : Options) :
    (run u o).exit = (run t o).exit ∧ (run u o).log = (run t o).log ∧
      (run u o).errors = (run t o).errors ∧ (run t o).tree.Alike (run u o).tree := by
  unfold run
  rw [sources_congr alike names]
  cases sources t o.path with
  | error e => exact ⟨rfl, rfl, rfl, alike⟩
  | ok files =>
    have start : Progress.Alike ⟨t, [], "", 0⟩ ⟨u, [], "", 0⟩ := ⟨alike, rfl, rfl, rfl⟩
    have finish := start.foldl_add o.outputs files
    simp only [finish.log, finish.errors, finish.failed]
    exact ⟨trivial, trivial, trivial, finish.tree⟩

/-! ## Listings -/

/-- No two files are at one place, nor a file and a folder. A folder may be listed again. -/
def FileTree.Distinct (t : FileTree) : Prop :=
  t.entries.Pairwise fun a b => a.1 = b.1 → a.2 = .folder ∧ b.2 = .folder

theorem FileTree.Distinct.perm (distinct : t.Distinct) (perm : u.entries.Perm t.entries) :
    u.Distinct :=
  List.Pairwise.perm distinct perm.symm fun apart same => (apart same.symm).symm

/-- The entries at one place are the same. -/
theorem FileTree.Distinct.eq_of_mem (distinct : t.Distinct) {place : Place} {a b : Entry}
    (first : (place, a) ∈ t.entries) (second : (place, b) ∈ t.entries) : a = b := by
  have alike : t.entries.Pairwise fun a b => a.1 = b.1 → a.2 = b.2 :=
    List.Pairwise.imp (fun apart same => (apart same).1.trans (apart same).2.symm) distinct
  have flipped := alike.imp fun same (here : _ = _) => (same here.symm).symm
  exact alike.forall_of_forall_of_flip (fun _ _ _ => rfl) flipped first second rfl

theorem FileTree.Distinct.entry?_eq_some_iff (distinct : t.Distinct) {place : Place} {e : Entry}
    (inside : ¬(place = Place.root ∨ place.all (· = ".."))) :
    t.entry? place = some e ↔ (place, e) ∈ t.entries := by
  unfold FileTree.entry?
  rw [if_neg inside, Option.map_eq_some_iff]
  constructor
  · rintro ⟨⟨place', e'⟩, found, rfl⟩
    obtain rfl : place' = place := by simpa using List.find?_some found
    exact List.mem_of_find?_eq_some found
  · intro mem
    have present : (t.entries.find? (·.1 = place)).isSome :=
      List.find?_isSome.2 ⟨_, mem, decide_eq_true rfl⟩
    obtain ⟨⟨place', e'⟩, found⟩ := Option.isSome_iff_exists.1 present
    obtain rfl : place' = place := by simpa using List.find?_some found
    exact ⟨_, found, distinct.eq_of_mem (List.mem_of_find?_eq_some found) mem⟩

theorem FileTree.alike_of_perm (distinct : t.Distinct) (perm : u.entries.Perm t.entries) :
    t.Alike u := by
  intro place
  by_cases inside : place = Place.root ∨ place.all (· = "..")
  · unfold FileTree.entry?
    rw [if_pos inside, if_pos inside]
  · refine Option.ext fun e => ?_
    rw [(distinct.perm perm).entry?_eq_some_iff inside, distinct.entry?_eq_some_iff inside,
      perm.mem_iff]

/-- A run does not depend on the order in which the disk lists its entries. -/
theorem run_of_perm (distinct : t.Distinct) (perm : u.entries.Perm t.entries) (o : Options) :
    (run u o).exit = (run t o).exit ∧ (run u o).log = (run t o).log ∧
      (run u o).errors = (run t o).errors ∧ (run t o).tree.Alike (run u o).tree :=
  run_congr (FileTree.alike_of_perm distinct perm) (fun _ => perm.filterMap _) o

end

end JackToVm
