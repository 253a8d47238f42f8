import JackToVm.Path

/-!
# The names in paths

A path is cut into components at its slashes, and its file name is what stands behind the last one.
Here are the changes of a file name told for a path that is a text and a file name: the text in
front of the name is empty or ends with a slash (`IsFront`).

Results.
1. The components of two texts with a slash between them are those of the one and of the other
   (`components_append_slash`).
2. A path is cut into its file name and the text in front of it (`splitName?_append`), and a file
   name into its stem and its extension (`splitExtension_append`).
3. Another extension keeps the text in front of the name (`withExtension_append`); a name that is
   two dots and an extension has no other one (`withExtension_dots`).
4. Another file name goes behind the trimmed text (`withFileName_append`).
-/

namespace JackToVm.Path

/-! ## Components -/

theorem components_ne_nil (cs : List Char) : components cs ≠ [] := by
  cases cs with
  | nil => exact List.cons_ne_nil _ _
  | cons c cs =>
    unfold components
    split
    · exact List.cons_ne_nil _ _
    · split <;> exact List.cons_ne_nil _ _

theorem components_append_slash (xs ys : List Char) :
    components (xs ++ '/' :: ys) = components xs ++ components ys := by
  induction xs with
  | nil =>
    obtain ⟨word, words, here⟩ := List.exists_cons_of_ne_nil (components_ne_nil ys)
    simp only [List.nil_append, components, here, if_true, List.cons_append]
  | cons c xs ih =>
    obtain ⟨word, words, here⟩ := List.exists_cons_of_ne_nil (components_ne_nil xs)
    simp only [List.cons_append, components, ih, here]
    split <;> rfl

theorem components_of_no_slash {name : List Char} (whole : '/' ∉ name) :
    components name = [name] := by
  induction name with
  | nil => rfl
  | cons c cs ih =>
    obtain ⟨other, whole⟩ := not_or.1 (mt List.mem_cons.2 whole)
    simp only [components, ih whole, if_neg (Ne.symm other)]

/-! ## Files in a folder -/

theorem join_injective (folder : String) : Function.Injective (join folder) := by
  intro name other same
  unfold join at same
  split at same
  · exact same
  · exact (String.append_right_inj _).1 same
  · exact (String.append_right_inj _).1 same

/-! ## Names -/

/-- The text in front of a file name. -/
def IsFront (front : List Char) : Prop :=
  front = [] ∨ ∃ cs, front = cs ++ ['/']

/-- The name of a file. -/
structure IsName (name : List Char) : Prop where
  whole : '/' ∉ name
  ne_nil : name ≠ []
  ne_dot : name ≠ ['.']
  ne_dots : name ≠ ['.', '.']

theorem isName_of_length {name : List Char} (whole : '/' ∉ name) (long : 2 < name.length) :
    IsName name := by
  refine ⟨whole, fun same => ?_, fun same => ?_, fun same => ?_⟩
  all_goals
    rw [same] at long
    exact absurd long (by decide)

theorem trimReversed_cons {c : Char} {cs : List Char} (noSlash : c ≠ '/')
    (noDot : c = '.' → cs.head? ≠ some '/') : trimReversed (c :: cs) = c :: cs := by
  unfold trimReversed
  split
  · next same => exact absurd (List.cons.inj same).1 noSlash
  · next same =>
    obtain ⟨rfl, rfl⟩ := List.cons.inj same
    exact absurd rfl (noDot rfl)
  · rfl

/-- A path that ends with a name keeps all of it. -/
theorem trim_append {front name : List Char} (whole : '/' ∉ name) (ne_nil : name ≠ [])
    (ne_dot : name ≠ ['.']) : trim (front ++ name) = front ++ name := by
  obtain ⟨c, others, reversed⟩ := List.exists_cons_of_ne_nil (mt List.reverse_eq_nil_iff.1 ne_nil)
  have inside {d : Char} (mem : d ∈ c :: others) : d ≠ '/' := by
    rintro rfl
    exact whole (List.mem_reverse.1 (reversed ▸ mem))
  unfold trim
  rw [List.reverse_append, reversed, List.cons_append, trimReversed_cons (inside (.head _))]
  · rw [← List.cons_append, ← reversed, ← List.reverse_append, List.reverse_reverse]
  · rintro rfl behind
    cases others with
    | nil => exact ne_dot (List.reverse_eq_iff.1 reversed)
    | cons d others => exact inside (.tail _ (.head _)) (Option.some.inj behind)

theorem splitLast_append {front name : List Char} (isFront : IsFront front)
    (whole : '/' ∉ name) : splitLast (front ++ name) = (front, name) := by
  have inside : ∀ c ∈ name.reverse, decide (c ≠ '/') = true := by
    intro c mem
    refine decide_eq_true ?_
    rintro rfl
    exact whole (List.mem_reverse.1 mem)
  unfold splitLast
  rw [List.reverse_append, List.dropWhile_append_of_pos inside, List.takeWhile_append_of_pos inside]
  rcases isFront with rfl | ⟨cs, rfl⟩
  · simp
  · simp

theorem splitName?_append {front name : List Char} (isFront : IsFront front)
    (isName : IsName name) : splitName? (front ++ name) = some (front, name) := by
  unfold splitName?
  rw [trim_append isName.whole isName.ne_nil isName.ne_dot, splitLast_append isFront isName.whole]
  refine if_neg ?_
  rintro (empty | dot | dots)
  · exact isName.ne_nil empty
  · exact isName.ne_dot dot
  · exact isName.ne_dots dots

/-- Two dots lead to the folder above, they are no name. -/
theorem splitName?_dots {front : List Char} (isFront : IsFront front) :
    splitName? (front ++ ['.', '.']) = none := by
  unfold splitName?
  rw [trim_append (by decide) (by decide) (by decide), splitLast_append isFront (by decide)]
  rfl

/-! ## Extensions -/

section

variable {front stem ext : List Char}

theorem splitExtension_append (some : stem ≠ []) (last : '.' ∉ ext) :
    splitExtension (stem ++ '.' :: ext) = (stem, .some ext) := by
  have inside : ∀ c ∈ ext.reverse, decide (c ≠ '.') = true := by
    intro c mem
    refine decide_eq_true ?_
    rintro rfl
    exact last (List.mem_reverse.1 mem)
  obtain ⟨c, others, reversed⟩ := List.exists_cons_of_ne_nil (mt List.reverse_eq_nil_iff.1 some)
  unfold splitExtension
  rw [List.reverse_append, List.reverse_cons, List.append_assoc, List.singleton_append,
    List.dropWhile_append_of_pos inside, List.takeWhile_append_of_pos inside]
  simp [reversed, ← List.reverse_eq_iff.1 reversed]

/-- A name with an extension is a stem, a dot and the extension. -/
theorem eq_append_of_splitExtension {name : List Char}
    (split : splitExtension name = (stem, some ext)) : name = stem ++ '.' :: ext ∧ stem ≠ [] := by
  have parts := List.takeWhile_append_dropWhile (p := fun c => decide (c ≠ '.')) (l := name.reverse)
  unfold splitExtension at split
  split at split
  · cases split
  · cases split
  · next d others some left =>
    cases split
    have dot : d = '.' := by
      have stops := List.head?_dropWhile_not (fun c => decide (c ≠ '.')) name.reverse
      rw [left] at stops
      simpa using stops
    have whole := congrArg List.reverse parts
    rw [left, dot, List.reverse_reverse, List.reverse_append, List.reverse_cons, List.append_assoc,
      List.singleton_append] at whole
    exact ⟨whole.symm, mt List.reverse_eq_nil_iff.1 some⟩

/-- The file name of a text without slashes is all of it. -/
theorem exists_of_hasExtension {extension name : String} (whole : '/' ∉ name.toList)
    (has : hasExtension extension name) :
    ∃ stem, name.toList = stem ++ '.' :: extension.toList ∧ stem ≠ [] := by
  unfold hasExtension at has
  split at has
  · next front file named =>
    have same : file = name.toList := by
      by_cases trivialName : name.toList = [] ∨ name.toList = ['.'] ∨ name.toList = ['.', '.']
      · exfalso
        rcases trivialName with same | same | same <;> rw [same] at named <;> cases named
      · obtain ⟨ne_nil, ne_dot, ne_dots⟩ := by simpa only [not_or] using trivialName
        have front : IsFront [] := .inl rfl
        have all := splitName?_append front ⟨whole, ne_nil, ne_dot, ne_dots⟩
        rw [List.nil_append, named] at all
        exact congrArg Prod.snd (Option.some.inj all)
    exact ⟨_, same ▸ eq_append_of_splitExtension (Prod.ext rfl (of_decide_eq_true has))⟩
  · cases has

variable {path new : String}

theorem hasExtension_append {extension : String} (isName : IsName (stem ++ '.' :: extension.toList))
    (some : stem ≠ []) (last : '.' ∉ extension.toList)
    (here : path.toList = stem ++ '.' :: extension.toList) : hasExtension extension path := by
  have split := splitName?_append (.inl rfl) isName
  rw [List.nil_append] at split
  unfold hasExtension
  simp only [here, split, splitExtension_append some last, decide_true]

theorem stem_append (isFront : IsFront front) (isName : IsName (stem ++ '.' :: ext))
    (some : stem ≠ []) (last : '.' ∉ ext) (here : path.toList = front ++ (stem ++ '.' :: ext)) :
    Path.stem path = String.ofList stem := by
  simp only [Path.stem, here, splitName?_append isFront isName, splitExtension_append some last]

theorem withoutExtension_append (isFront : IsFront front) (isName : IsName (stem ++ '.' :: ext))
    (some : stem ≠ []) (last : '.' ∉ ext) :
    withoutExtension (front ++ (stem ++ '.' :: ext)) = front ++ (stem ++ ['.']) := by
  simp only [withoutExtension, splitName?_append isFront isName, splitExtension_append some last,
    List.append_assoc]

theorem withExtension_append (isFront : IsFront front) (isName : IsName (stem ++ '.' :: ext))
    (some : stem ≠ []) (last : '.' ∉ ext) (noDots : stem ≠ ['.'])
    (here : path.toList = front ++ (stem ++ '.' :: ext)) :
    (withExtension path new).toList = front ++ (stem ++ '.' :: new.toList) := by
  have bare : IsName (stem ++ ['.']) := by
    refine ⟨fun slash => ?_, by simp, fun dot => ?_, fun dots => ?_⟩
    · rcases List.mem_append.1 slash with slash | slash
      · exact isName.whole (List.mem_append_left _ slash)
      · exact absurd slash (by decide)
    · exact some (List.append_cancel_right (show stem ++ ['.'] = [] ++ ['.'] from dot))
    · exact noDots (List.append_cancel_right (show stem ++ ['.'] = ['.'] ++ ['.'] from dots))
  simp only [withExtension, here, withoutExtension_append isFront isName some last,
    splitName?_append isFront bare, splitExtension_append some List.not_mem_nil]
  simp

theorem withExtension_dots (isFront : IsFront front) (isName : IsName (['.'] ++ '.' :: ext))
    (last : '.' ∉ ext) (here : path.toList = front ++ (['.'] ++ '.' :: ext)) :
    (withExtension path new).toList = front ++ ['.', '.'] := by
  have bare : withoutExtension path.toList = front ++ ['.', '.'] := by
    rw [here, withoutExtension_append isFront isName (by decide) last]
    rfl
  simp only [withExtension, bare, splitName?_dots isFront, String.toList_ofList]

theorem withFileName_append {name : List Char} (isFront : IsFront front) (isName : IsName name)
    (here : path.toList = front ++ name) :
    withFileName path new = join (String.ofList (trim front)) new := by
  simp only [withFileName, here, splitName?_append isFront isName]

end

/-! ## Lengths -/

/-- The number of bytes of a text. -/
def bytes (cs : List Char) : Nat :=
  (String.ofList cs).utf8ByteSize

theorem bytes_append (xs ys : List Char) : bytes (xs ++ ys) = bytes xs + bytes ys := by
  unfold bytes
  rw [String.ofList_append, String.utf8ByteSize_append]

theorem bytes_toList (s : String) : bytes s.toList = s.utf8ByteSize := by
  unfold bytes
  rw [String.ofList_toList]

theorem bytes_le_of_prefix {xs ys : List Char} (begins : xs <+: ys) : bytes xs ≤ bytes ys := by
  obtain ⟨zs, rfl⟩ := begins
  rw [bytes_append]
  exact Nat.le_add_right _ _

theorem utf8ByteSize_eq {path : String} {xs stem zs : List Char}
    (here : path.toList = xs ++ '/' :: (stem ++ zs)) :
    path.utf8ByteSize = bytes xs + 1 + bytes stem + bytes zs := by
  rw [← bytes_toList, here, ← List.singleton_append (l := stem ++ zs), bytes_append, bytes_append,
    bytes_append, ← Nat.add_assoc, ← Nat.add_assoc]
  rfl

theorem trimReversed_suffix (r : List Char) : trimReversed r <:+ r := by
  fun_induction trimReversed r with
  | case1 c cs ih => exact ih.trans (List.suffix_cons _ _)
  | case2 cs ih => exact ih.trans (List.suffix_cons _ _)
  | case3 r => exact List.suffix_rfl

theorem trim_prefix (cs : List Char) : trim cs <+: cs := by
  have dropped := List.reverse_prefix.2 (trimReversed_suffix cs.reverse)
  rwa [List.reverse_reverse] at dropped

end JackToVm.Path
