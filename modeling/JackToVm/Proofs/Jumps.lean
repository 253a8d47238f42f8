import JackToVm.Proofs.Labels
import JackToVm.Proofs.StackDepth
import JackToVm.Proofs.Unambiguity

/-!
# Jumps

The constructs of a class are told apart by numbers, and every instruction that makes a label or
jumps to one mentions the number of its construct.

* A jump leads to one place, in the block that it stands in; a jump on a condition leads forward.
* The instructions from the first to the last that mention a number are the stretch of its
  construct. What is mentioned in a stretch are the construct itself and the constructs inside it,
  and they are mentioned nowhere else. So two stretches are apart or one lies in the other.

Results.
1. `Jumping.conditional` and `Jumping.loop` build these facts for a construct from those for its
   parts; `Statements.jumping` by recursion on the tree, and `ClassDec.jumping`.
2. They are facts about places of the code (`Encloses.exists_stretch`, `Jumping.nested`,
   `exists_target_of_blocks`).
3. The labels and jumps of every class that compiles (`wellLabelled_of_instructions_eq_ok`).
-/

namespace JackToVm

/-! ## Numbers that are mentioned -/

/-- An instruction makes a label of the construct with this number, or jumps to one. -/
def Instruction.Mentions (className : String) (number : Nat) (i : Instruction) : Prop :=
  ∃ purpose ∈ labelPurposes, i.labelName? = some (labelText className purpose number)

/-- Only such numbers are mentioned in a code. -/
def MentionsOnly (className : String) (P : Nat → Prop) (code : List Instruction) : Prop :=
  ∀ i ∈ code, ∀ number, i.Mentions className number → P number

section

variable {className : String} {P Q : Nat → Prop} {i : Instruction} {code code' : List Instruction}

theorem MentionsOnly.append (first : MentionsOnly className P code)
    (more : MentionsOnly className P code') : MentionsOnly className P (code ++ code') :=
  List.forall_mem_append.2 ⟨first, more⟩

theorem MentionsOnly.cons (first : ∀ number, i.Mentions className number → P number)
    (more : MentionsOnly className P code) : MentionsOnly className P (i :: code) :=
  List.forall_mem_cons.2 ⟨first, more⟩

theorem MentionsOnly.nil : MentionsOnly className P [] := by
  simp [MentionsOnly]

theorem MentionsOnly.mono (h : MentionsOnly className P code)
    (wider : ∀ number, P number → Q number) : MentionsOnly className Q code :=
  fun i mem number mentioned => wider number (h i mem number mentioned)

theorem Straight.mentionsOnly (straight : Straight code) : MentionsOnly className P code := by
  rintro i mem number ⟨purpose, -, named⟩
  rw [straight i mem] at named
  cases named

theorem mentions_of_labelName? {purpose : String} (known : purpose ∈ labelPurposes) {n : Nat}
    (named : i.labelName? = some (labelText className purpose n)) : i.Mentions className n :=
  ⟨purpose, known, named⟩

/-- A label tells its number. -/
theorem Instruction.Mentions.unique {m n : Nat} (first : i.Mentions className m)
    (second : i.Mentions className n) : m = n := by
  obtain ⟨p, hp, named⟩ := first
  obtain ⟨q, hq, named'⟩ := second
  rw [named] at named'
  exact (labelText_injective hp hq (Option.some.inj named')).2

theorem Instruction.Mentions.only {n : Nat} (mentioned : i.Mentions className n) (h : P n)
    (number : Nat) (mentioned' : i.Mentions className number) : P number :=
  mentioned.unique mentioned' ▸ h

end

/-! ## Stretches -/

/-- The instructions that mention the numbers from `k` to before `m` stand together, and the first
and the last of them mention `k`. -/
def Encloses (className : String) (k m : Nat) (code : List Instruction) : Prop :=
  ∃ before first inside last behind, code = before ++ first :: (inside ++ last :: behind) ∧
    first.Mentions className k ∧ last.Mentions className k ∧
    MentionsOnly className (fun number => k ≤ number ∧ number < m) inside ∧
    MentionsOnly className (fun number => ¬ (k ≤ number ∧ number < m)) (before ++ behind)

/-- Code around it that mentions other numbers changes nothing. -/
theorem Encloses.extend {className : String} {k m : Nat} {code : List Instruction}
    (h : Encloses className k m code) {before behind : List Instruction}
    (others : MentionsOnly className (fun number => ¬ (k ≤ number ∧ number < m))
      (before ++ behind)) : Encloses className k m (before ++ (code ++ behind)) := by
  obtain ⟨pre, first, inside, last, post, rfl, ofFirst, ofLast, within, outside⟩ := h
  refine ⟨before ++ pre, first, inside, last, post ++ behind, by simp, ofFirst, ofLast, within, ?_⟩
  intro i mem
  simp only [List.mem_append] at mem
  rcases mem with (mem | mem) | mem | mem
  · exact others i (List.mem_append_left _ mem)
  · exact outside i (List.mem_append_left _ mem)
  · exact outside i (List.mem_append_right _ mem)
  · exact others i (List.mem_append_right _ mem)

/-! ## Targets -/

/-- Every jump leads to one of the labels. -/
def Targets (labels : List String) (code : List Instruction) : Prop :=
  ∀ i ∈ code, ∀ name, i.target? = some name → name ∈ labels

/-- A jump on a condition has its label behind it. -/
def Forward : List Instruction → Prop
  | [] => True
  | i :: code => (∀ name, i = .ifGoto name → name ∈ labelsOf code) ∧ Forward code

section

variable {labels labels' : List String} {i : Instruction} {code code' : List Instruction}

theorem Targets.nil : Targets labels [] := by
  simp [Targets]

theorem Targets.cons (first : ∀ name, i.target? = some name → name ∈ labels)
    (more : Targets labels code) : Targets labels (i :: code) :=
  List.forall_mem_cons.2 ⟨first, more⟩

theorem Targets.append (first : Targets labels code) (more : Targets labels code') :
    Targets labels (code ++ code') :=
  List.forall_mem_append.2 ⟨first, more⟩

theorem Targets.mono (h : Targets labels code) (wider : labels ⊆ labels') : Targets labels' code :=
  fun i mem name jumps => wider (h i mem name jumps)

theorem Instruction.labelName?_of_target? {name : String} (h : i.target? = some name) :
    i.labelName? = some name := by
  cases i <;> first | exact h | cases h

theorem Straight.targets (straight : Straight code) : Targets labels code := by
  intro i mem name jumps
  have named := Instruction.labelName?_of_target? jumps
  rw [straight i mem] at named
  cases named

theorem Forward.append (first : Forward code) (second : Forward code') :
    Forward (code ++ code') := by
  induction code with
  | nil => exact second
  | cons i code ih =>
    refine ⟨fun name jumps => ?_, ih first.2⟩
    rw [List.append_eq, labelsOf_append]
    exact List.mem_append_left _ (first.1 name jumps)

/-- An instruction that is no jump on a condition. -/
theorem Forward.cons (other : ∀ name, i ≠ .ifGoto name) (more : Forward code) :
    Forward (i :: code) :=
  ⟨fun name jumps => absurd jumps (other name), more⟩

theorem Straight.forward (straight : Straight code) : Forward code := by
  induction code with
  | nil => trivial
  | cons i code ih =>
    obtain ⟨first, more⟩ := List.forall_mem_cons.1 straight
    refine .cons ?_ (ih more)
    rintro name rfl
    cases first

end

/-! ## Numbered codes -/

/-- A code for `count` constructs that are numbered from `n` on. -/
structure Jumping (className : String) (n count : Nat) (code : List Instruction) : Prop where
  targets : Targets (labelsOf code) code
  forward : Forward code
  mentions : MentionsOnly className (fun k => n ≤ k ∧ k < n + count) code
  encloses : ∀ k, n ≤ k → k < n + count →
    ∃ m, k < m ∧ m ≤ n + count ∧ Encloses className k m code

namespace Jumping

variable {className : String} {n a b : Nat} {code condition body other : List Instruction}

theorem straight (h : Straight code) : Jumping className n 0 code where
  targets := h.targets
  forward := h.forward
  mentions := h.mentionsOnly
  encloses k above below := by omega

/-- Around it stand instructions that mention other numbers. -/
theorem encloses_extend (h : Jumping className n a code) (before behind : List Instruction)
    (others : MentionsOnly className (fun k => ¬ (n ≤ k ∧ k < n + a)) (before ++ behind))
    (k : Nat) (above : n ≤ k) (below : k < n + a) :
    ∃ m, k < m ∧ m ≤ n + a ∧ Encloses className k m (before ++ (code ++ behind)) := by
  obtain ⟨m, after, bound, stretch⟩ := h.encloses k above below
  exact ⟨m, after, bound, stretch.extend (others.mono fun number outside => by omega)⟩

theorem append (first : Jumping className n a code) (second : Jumping className (n + a) b other) :
    Jumping className n (a + b) (code ++ other) where
  targets := by
    rw [labelsOf_append]
    exact (first.targets.mono (List.subset_append_left ..)).append
      (second.targets.mono (List.subset_append_right ..))
  forward := first.forward.append second.forward
  mentions :=
    (first.mentions.mono fun k range => by omega).append
      (second.mentions.mono fun k range => by omega)
  encloses k above below := by
    by_cases early : k < n + a
    · obtain ⟨m, after, bound, stretch⟩ := first.encloses_extend [] other
        (second.mentions.mono fun k range => by omega) k above early
      exact ⟨m, after, by omega, stretch⟩
    · obtain ⟨m, after, bound, stretch⟩ := second.encloses_extend code []
        (by simpa using first.mentions.mono fun k range => by omega) k (by omega) (by omega)
      rw [List.append_nil] at stretch
      exact ⟨m, after, by omega, stretch⟩

/-! A construct has the number `n`. Its code has parts with no construct in them, and between these
the code of one or two lists of statements, which are numbered from `n + 1` on. -/

section

variable {start middle finish : List Instruction} (ofStart : MentionsOnly className (· = n) start)
  (ofMiddle : MentionsOnly className (· = n) middle)
  (ofFinish : MentionsOnly className (· = n) finish) (first : Jumping className (n + 1) a body)
  (second : Jumping className (n + 1 + a) b other)

include ofStart ofMiddle ofFinish first second

theorem mentions_parts : MentionsOnly className (fun k => n ≤ k ∧ k < n + (a + b + 1))
    (start ++ (body ++ (middle ++ (other ++ finish)))) := by
  refine (ofStart.mono ?_).append ((first.mentions.mono ?_).append
    ((ofMiddle.mono ?_).append ((second.mentions.mono ?_).append (ofFinish.mono ?_)))) <;>
    intro k range <;> omega

/-- The constructs inside keep their stretches. -/
theorem encloses_parts (k : Nat) (above : n < k) (below : k < n + (a + b + 1)) :
    ∃ m, k < m ∧ m ≤ n + (a + b + 1) ∧
      Encloses className k m (start ++ (body ++ (middle ++ (other ++ finish)))) := by
  -- The number belongs to the first list of statements or to the second.
  by_cases early : k < n + 1 + a
  · obtain ⟨m, after, bound, stretch⟩ := first.encloses_extend start
      (middle ++ (other ++ finish))
      ((ofStart.mono fun k range => by omega).append ((ofMiddle.mono fun k range => by omega).append
        ((second.mentions.mono fun k range => by omega).append
          (ofFinish.mono fun k range => by omega)))) k above early
    exact ⟨m, after, by omega, stretch⟩
  · obtain ⟨m, after, bound, stretch⟩ := second.encloses_extend
      (start ++ (body ++ middle)) finish
      (((ofStart.mono fun k range => by omega).append
        ((first.mentions.mono fun k range => by omega).append
          (ofMiddle.mono fun k range => by omega))).append
        (ofFinish.mono fun k range => by omega)) k (by omega) (by omega)
    simp only [List.append_assoc] at stretch
    exact ⟨m, after, by omega, stretch⟩

/-- What is left to show for a construct are its jumps and the two ends of its stretch. -/
theorem construct (split : code = start ++ (body ++ (middle ++ (other ++ finish))))
    (targets : Targets (labelsOf code) code) (forward : Forward code)
    (before inside : List Instruction) {opening closing : Instruction}
    (ends : code = before ++ opening :: (inside ++ [closing])) (straight : Straight before)
    (ofOpening : opening.Mentions className n) (ofClosing : closing.Mentions className n) :
    Jumping className n (a + b + 1) code := by
  have mentions := mentions_parts ofStart ofMiddle ofFinish first second
  rw [← split] at mentions
  refine ⟨targets, forward, mentions, fun k above below => ?_⟩
  rcases Nat.eq_or_lt_of_le above with rfl | inner
  · refine ⟨n + (a + b + 1), by omega, Nat.le_refl _, before, opening, inside, closing, [], ends,
      ofOpening, ofClosing, ?_, straight.mentionsOnly.append .nil⟩
    exact fun i mem => mentions i (by simp [ends, mem])
  · rw [split]
    exact encloses_parts ofStart ofMiddle ofFinish first second k inner below

end

/-- The code of a conditional. Without an `else` there is no other body. -/
theorem conditional (straight : Straight condition)
    (first : Jumping className (n + 1) a body) (second : Jumping className (n + 1 + a) b other) :
    Jumping className n (a + b + 1)
      (condition ++ .ifGoto (labelText className "IF_ELSE" n) ::
        (body ++ .goto (labelText className "IF_END" n) ::
          .label (labelText className "IF_ELSE" n) ::
            (other ++ [.label (labelText className "IF_END" n)]))) := by
  have elseKnown : "IF_ELSE" ∈ labelPurposes := by decide
  have endKnown : "IF_END" ∈ labelPurposes := by decide
  have branch := mentions_of_labelName? elseKnown
    (i := .ifGoto (labelText className "IF_ELSE" n)) rfl
  have elseLabel := mentions_of_labelName? elseKnown
    (i := .label (labelText className "IF_ELSE" n)) rfl
  have jump := mentions_of_labelName? endKnown (i := .goto (labelText className "IF_END" n)) rfl
  have endLabel := mentions_of_labelName? endKnown
    (i := .label (labelText className "IF_END" n)) rfl
  have ofStart : MentionsOnly className (· = n)
      (condition ++ [.ifGoto (labelText className "IF_ELSE" n)]) :=
    straight.mentionsOnly.append (.cons (branch.only rfl) .nil)
  have ofMiddle : MentionsOnly className (· = n) [.goto (labelText className "IF_END" n),
      .label (labelText className "IF_ELSE" n)] :=
    .cons (jump.only rfl) (.cons (elseLabel.only rfl) .nil)
  have ofFinish : MentionsOnly className (· = n) [.label (labelText className "IF_END" n)] :=
    .cons (endLabel.only rfl) .nil
  refine construct ofStart ofMiddle ofFinish first second (by simp) ?targets ?forward condition
    (body ++ .goto (labelText className "IF_END" n) :: .label (labelText className "IF_ELSE" n) ::
      other) (by simp) straight branch endLabel
  case targets =>
    simp only [labelsOf_append, labelsOf_cons, straight.labelsOf_eq_nil]
    refine straight.targets.append (.cons ?_ (.append (first.targets.mono ?_) (.cons ?_ (.cons nofun
      (.append (second.targets.mono ?_) (.cons nofun .nil)))))) <;>
      simp +contextual [List.subset_def, Instruction.target?]
  case forward =>
    refine straight.forward.append ⟨?_, first.forward.append (.cons nofun (.cons nofun
      (second.forward.append (.cons nofun trivial))))⟩
    rintro name ⟨⟩
    simp

/-- The code of a loop. -/
theorem loop (straight : Straight condition) (first : Jumping className (n + 1) a body) :
    Jumping className n (a + 1)
      (.label (labelText className "WHILE_EXP" n) ::
        (condition ++ .ifGoto (labelText className "WHILE_END" n) ::
          (body ++ [.goto (labelText className "WHILE_EXP" n),
            .label (labelText className "WHILE_END" n)]))) := by
  have startKnown : "WHILE_EXP" ∈ labelPurposes := by decide
  have endKnown : "WHILE_END" ∈ labelPurposes := by decide
  have startLabel := mentions_of_labelName? startKnown
    (i := .label (labelText className "WHILE_EXP" n)) rfl
  have branch := mentions_of_labelName? endKnown
    (i := .ifGoto (labelText className "WHILE_END" n)) rfl
  have jump := mentions_of_labelName? startKnown
    (i := .goto (labelText className "WHILE_EXP" n)) rfl
  have endLabel := mentions_of_labelName? endKnown
    (i := .label (labelText className "WHILE_END" n)) rfl
  have ofStart : MentionsOnly className (· = n) (.label (labelText className "WHILE_EXP" n) ::
      (condition ++ [.ifGoto (labelText className "WHILE_END" n)])) :=
    .cons (startLabel.only rfl) (straight.mentionsOnly.append (.cons (branch.only rfl) .nil))
  have ofFinish : MentionsOnly className (· = n) [.goto (labelText className "WHILE_EXP" n),
      .label (labelText className "WHILE_END" n)] :=
    .cons (jump.only rfl) (.cons (endLabel.only rfl) .nil)
  have nothing : Jumping className (n + 1 + a) 0 [] := .straight straight_nil
  refine construct ofStart .nil ofFinish first nothing (by simp) ?targets ?forward []
    (condition ++ .ifGoto (labelText className "WHILE_END" n) ::
      (body ++ [.goto (labelText className "WHILE_EXP" n)])) (by simp) straight_nil startLabel
    endLabel
  case targets =>
    simp only [labelsOf_append, labelsOf_cons, straight.labelsOf_eq_nil]
    refine .cons nofun (straight.targets.append (.cons ?_ (.append (first.targets.mono ?_)
      (.cons ?_ (.cons nofun .nil))))) <;>
      simp +contextual [List.subset_def, Instruction.target?]
  case forward =>
    refine .cons nofun (straight.forward.append ⟨?_, first.forward.append (.cons nofun (.cons nofun
      trivial))⟩)
    rintro name ⟨⟩
    simp

end Jumping

/-! ## Statements -/

/-- What a jump decides on is the complement of a condition. -/
theorem Expression.straight_negated (c : Context) (e : Expression) :
    Straight (e.code c ++ [.arithmetic .not]) := by
  simp

mutual

theorem Statement.jumping (c : Context) (n : Nat) (s : Statement) :
    Jumping c.className n s.constructs (s.code c n) := by
  cases s with
  | letVariable | letElement | doCall | returnNothing | returnValue =>
    exact .straight (by simp [Statement.code, Instruction.load, Instruction.store])
  | ifThen e body =>
    rw [Statement.code, List.append_cons]
    exact .conditional (e.straight_negated c) (body.jumping c (n + 1)) (.straight straight_nil)
  | ifElse e body other =>
    rw [Statement.code, List.append_cons]
    exact .conditional (e.straight_negated c) (body.jumping c (n + 1)) (other.jumping c _)
  | whileDo e body =>
    rw [Statement.code, List.append_cons]
    exact .loop (e.straight_negated c) (body.jumping c (n + 1))

theorem Statements.jumping (c : Context) (n : Nat) (ss : Statements) :
    Jumping c.className n ss.constructs (ss.code c n) := by
  cases ss with
  | nil => exact .straight straight_nil
  | cons s ss => exact (s.jumping c n).append (ss.jumping c _)

end

/-! ## Places -/

/-- The block that a place of a code is in. The blocks are counted from 1 on. -/
def blockAt (code : List Instruction) (i : Nat) : Nat :=
  (code.take (i + 1)).countP Instruction.isHeader

/-- The stretch of a number goes from the first to the last place that mention it. -/
structure Stretch (className : String) (code : List Instruction) (number first last : Nat) :
    Prop where
  starts : ∃ x, code[first]? = some x ∧ x.Mentions className number
  ends : ∃ x, code[last]? = some x ∧ x.Mentions className number
  between : ∀ (i : Nat) (x : Instruction), code[i]? = some x → x.Mentions className number →
    first ≤ i ∧ i ≤ last

/-- The labels and the jumps of a code with some constructs. -/
structure WellLabelled (className : String) (constructs : List Construct)
    (code : List Instruction) : Prop where
  /-- There are two labels for each construct. -/
  count : (labelsOf code).length = 2 * constructs.length
  distinct : (labelsOf code).Nodup
  /-- They carry the number of the construct. -/
  labels : (labelsOf code).Perm (labelsFrom className 0 constructs)
  /-- A jump leads to one place, which is in the same block. -/
  target : ∀ (i : Nat) (x : Instruction) (name : String), code[i]? = some x →
    x.target? = some name →
    ∃ j, code[j]? = some (.label name) ∧ (∀ j', code[j']? = some (.label name) → j' = j) ∧
      blockAt code j = blockAt code i
  /-- A jump on a condition leads forward. -/
  forward : ∀ (i j : Nat) (name : String), code[i]? = some (.ifGoto name) →
    code[j]? = some (.label name) → i < j
  stretch : ∀ k < constructs.length, ∃ first last, Stretch className code k first last
  /-- Stretches are apart, or one lies in the other. -/
  nested : ∀ k l, k < constructs.length → l < constructs.length → k ≠ l →
    ∀ first last first' last', Stretch className code k first last →
      Stretch className code l first' last' →
        last < first' ∨ last' < first ∨ (first < first' ∧ last' < last) ∨
          (first' < first ∧ last < last')

/-- No label stands in two places. -/
theorem eq_of_getElem?_label {code : List Instruction} (distinct : (labelsOf code).Nodup)
    {i j : Nat} {name : String} (here : code[i]? = some (.label name))
    (there : code[j]? = some (.label name)) : i = j := by
  induction code generalizing i j with
  | nil => cases here
  | cons x code ih =>
    have once (head : x = .label name) {i : Nat} : code[i]? ≠ some (.label name) := by
      intro again
      rw [labelsOf_cons, head] at distinct
      exact (List.nodup_cons.1 distinct).1 (mem_labelsOf.2 (List.mem_of_getElem? again))
    rw [labelsOf_cons, List.nodup_append] at distinct
    cases i with
    | zero =>
      cases j with
      | zero => rfl
      | succ j => exact absurd there (once (Option.some.inj here))
    | succ i =>
      cases j with
      | zero => exact absurd here (once (Option.some.inj there))
      | succ j => exact congrArg Nat.succ (ih distinct.2.1 here there)

theorem Forward.exists_label {code : List Instruction} (h : Forward code) {i : Nat} {name : String}
    (here : code[i]? = some (.ifGoto name)) : ∃ j, i < j ∧ code[j]? = some (.label name) := by
  induction code generalizing i with
  | nil => cases here
  | cons x code ih =>
    cases i with
    | zero =>
      have label := mem_labelsOf.1 (h.1 name (Option.some.inj here))
      obtain ⟨j, there⟩ := List.mem_iff_getElem?.1 label
      exact ⟨j + 1, Nat.succ_pos j, there⟩
    | succ i =>
      obtain ⟨j, behind, there⟩ := ih h.2 here
      exact ⟨j + 1, Nat.succ_lt_succ behind, there⟩

/-- A place between the ends of a stretch is one that mentions a number of a construct inside. -/
theorem Encloses.exists_stretch {className : String} {k m : Nat} {code : List Instruction}
    (h : Encloses className k m code) (above : k < m) :
    ∃ first last, Stretch className code k first last ∧
      ∀ i x number, code[i]? = some x → x.Mentions className number →
        (first ≤ i ∧ i ≤ last ↔ k ≤ number ∧ number < m) := by
  obtain ⟨before, x, inside, y, behind, rfl, ofFirst, ofLast, within, outside⟩ := h
  have places (i : Nat) (z : Instruction) (number : Nat)
      (here : (before ++ x :: (inside ++ y :: behind))[i]? = some z)
      (mentioned : z.Mentions className number) :
      before.length ≤ i ∧ i ≤ before.length + inside.length + 1 ↔ k ≤ number ∧ number < m := by
    simp only [List.getElem?_append, List.getElem?_cons] at here
    split at here
    · next early =>
      have := outside z (List.mem_append_left _ (List.mem_of_getElem? here)) number mentioned
      omega
    split at here
    · next at_first =>
      cases here
      have := mentioned.unique ofFirst
      omega
    split at here
    · next early =>
      have := within z (List.mem_of_getElem? here) number mentioned
      omega
    split at here
    · next at_last =>
      cases here
      have := mentioned.unique ofLast
      omega
    · have := outside z (List.mem_append_right _ (List.mem_of_getElem? here)) number mentioned
      omega
  refine ⟨before.length, before.length + inside.length + 1,
    ⟨⟨x, by simp, ofFirst⟩, ⟨y, ?_, ofLast⟩, ?_⟩, places⟩
  · simp [Nat.add_assoc]
  · intro i z here mentioned
    exact (places i z k here mentioned).2 ⟨Nat.le_refl k, above⟩

theorem Stretch.unique {className : String} {code : List Instruction}
    {k first last first' last' : Nat}
    (h : Stretch className code k first last) (h' : Stretch className code k first' last') :
    first = first' ∧ last = last' := by
  obtain ⟨x, atFirst, ofFirst⟩ := h.starts
  obtain ⟨y, atLast, ofLast⟩ := h.ends
  obtain ⟨x', atFirst', ofFirst'⟩ := h'.starts
  obtain ⟨y', atLast', ofLast'⟩ := h'.ends
  have := h.between _ _ atFirst' ofFirst'
  have := h.between _ _ atLast' ofLast'
  have := h'.between _ _ atFirst ofFirst
  have := h'.between _ _ atLast ofLast
  omega

/-- The later of two constructs stands in the earlier one or apart from it. -/
theorem Jumping.nested {className : String} {n count : Nat} {code : List Instruction}
    (h : Jumping className n count code) {k l : Nat} (above : n ≤ k) (less : k < l)
    (below : l < n + count) {first last first' last' : Nat}
    (ofFirst : Stretch className code k first last)
    (ofSecond : Stretch className code l first' last') :
    last < first' ∨ last' < first ∨ (first < first' ∧ last' < last) := by
  obtain ⟨m, after, -, encloses⟩ := h.encloses k above (by omega)
  obtain ⟨m', after', -, encloses'⟩ := h.encloses l (by omega) below
  obtain ⟨_, _, stretch, inside⟩ := encloses.exists_stretch after
  obtain ⟨rfl, rfl⟩ := ofFirst.unique stretch
  obtain ⟨_, _, stretch', inside'⟩ := encloses'.exists_stretch after'
  obtain ⟨rfl, rfl⟩ := ofSecond.unique stretch'
  obtain ⟨x, here, mentioned⟩ := stretch.starts
  obtain ⟨y, there, mentioned'⟩ := stretch.ends
  obtain ⟨x', here', ofX'⟩ := stretch'.starts
  obtain ⟨y', there', ofY'⟩ := stretch'.ends
  -- The later number is not mentioned at the ends of the earlier stretch.
  have other {i : Nat} {z z' : Instruction} (at_k : code[i]? = some z) (at_l : code[i]? = some z')
      (ofK : z.Mentions className k) (ofL : z'.Mentions className l) : False := by
    rw [at_k] at at_l
    cases at_l
    exact Nat.ne_of_lt less (ofK.unique ofL)
  have first_ne : first ≠ first' := by
    rintro rfl
    exact other here here' mentioned ofX'
  have last_ne : last ≠ last' := by
    rintro rfl
    exact other there there' mentioned' ofY'
  have := inside first' x' l here' ofX'
  have := inside last' y' l there' ofY'
  have := inside' first x k here mentioned
  have := inside' last y k there mentioned'
  omega

/-! ## Blocks -/

theorem exists_block_of_getElem? {α : Type} {blocks : List (List α)} {i : Nat} {x : α}
    (here : blocks.flatten[i]? = some x) :
    ∃ before block behind j, blocks = before ++ block :: behind ∧
      i = before.flatten.length + j ∧ block[j]? = some x := by
  induction blocks generalizing i with
  | nil => cases here
  | cons block blocks ih =>
    rw [List.flatten_cons, List.getElem?_append] at here
    split at here
    · exact ⟨[], block, blocks, i, rfl, (Nat.zero_add i).symm, here⟩
    · obtain ⟨before, block', behind, j, rfl, place, found⟩ := ih here
      refine ⟨block :: before, block', behind, j, rfl, ?_, found⟩
      rw [List.flatten_cons, List.length_append]
      omega

theorem IsBlock.blockAt_eq {name : String} {count : Nat} {block : List Instruction}
    (h : IsBlock name count block) (before behind : List Instruction) {i : Nat}
    (inside : i < block.length) : blockAt (before ++ (block ++ behind)) (before.length + i) =
      before.countP Instruction.isHeader + 1 := by
  obtain ⟨code, rfl, others⟩ := h
  have none : (code.take i).countP Instruction.isHeader = 0 :=
    List.countP_eq_zero.2 fun x mem => others x (List.mem_of_mem_take mem)
  rw [blockAt, Nat.add_assoc, List.take_length_add_append, List.countP_append,
    List.take_append_of_le_length inside, List.take_succ_cons, List.countP_cons_of_pos rfl, none]

/-- If the jumps of each block lead to its own labels, they stay in their blocks. -/
theorem exists_target_of_blocks {blocks : List (List Instruction)}
    (headed : ∀ block ∈ blocks, ∃ name count, IsBlock name count block)
    (targets : ∀ block ∈ blocks, Targets (labelsOf block) block) {i : Nat} {x : Instruction}
    {name : String} (here : blocks.flatten[i]? = some x) (jumps : x.target? = some name) :
    ∃ j, blocks.flatten[j]? = some (.label name) ∧
      blockAt blocks.flatten j = blockAt blocks.flatten i := by
  obtain ⟨before, block, behind, k, rfl, rfl, found⟩ := exists_block_of_getElem? here
  have mem : block ∈ before ++ block :: behind := by simp
  have label := targets block mem x (List.mem_of_getElem? found) name jumps
  obtain ⟨j, there⟩ := List.mem_iff_getElem?.1 (mem_labelsOf.1 label)
  have inside {j : Nat} {y : Instruction} (found : block[j]? = some y) :=
    (List.getElem?_eq_some_iff.1 found).1
  obtain ⟨_, _, isBlock⟩ := headed block mem
  have same {j : Nat} {y : Instruction} (found : block[j]? = some y) :=
    isBlock.blockAt_eq before.flatten behind.flatten (inside found)
  rw [List.flatten_append, List.flatten_cons]
  refine ⟨before.flatten.length + j, ?_, (same there).trans (same found).symm⟩
  rw [List.getElem?_append_right (Nat.le_add_right ..), Nat.add_sub_cancel_left,
    List.getElem?_append_left (inside there), there]

/-! ## Classes -/

theorem SubroutineDec.jumping (d : ClassDec) (n : Nat) (s : SubroutineDec) :
    Jumping d.name n s.body.constructs (s.code d n) := by
  have header : Straight (.function (d.name ++ "." ++ s.name)
      (countKind .localVar s.declarations) :: s.prologueCode d) :=
    straight_cons.2 ⟨rfl, s.straight_prologueCode d⟩
  have block := (Jumping.straight header).append (s.body.jumping (d.context s) n)
  rwa [Nat.zero_add] at block

theorem ClassDec.jumping_blocksFrom (d : ClassDec) (n : Nat) (ss : List SubroutineDec) :
    Jumping d.name n (constructsOf (ss.flatMap SubroutineDec.terminals)).length
      (d.blocksFrom n ss).flatten := by
  induction ss generalizing n with
  | nil => exact .straight straight_nil
  | cons s ss ih =>
    rw [List.flatMap_cons, constructsOf_append, List.length_append, s.constructsOf_terminals,
      s.body.length_constructsOf]
    exact (s.jumping d n).append (ih _)

theorem ClassDec.jumping (d : ClassDec) :
    Jumping d.name 0 (constructsOf d.terminals).length d.code := by
  rw [d.constructsOf_terminals]
  exact d.jumping_blocksFrom 0 d.subroutines

theorem ClassDec.isBlock_blocks (d : ClassDec) :
    ∀ block ∈ d.blocks, ∃ name count, IsBlock name count block := by
  intro block mem
  obtain ⟨s, -, n, rfl⟩ := exists_of_mem_blocksFrom mem
  exact ⟨_, _, s.isBlock_code d n⟩

/-- A jump stays in its block. -/
theorem ClassDec.targets_blocks (d : ClassDec) :
    ∀ block ∈ d.blocks, Targets (labelsOf block) block := by
  intro block mem
  obtain ⟨s, -, n, rfl⟩ := exists_of_mem_blocksFrom mem
  exact (s.jumping d n).targets

/-- The code of a class. -/
theorem ClassDec.wellLabelled (d : ClassDec) :
    WellLabelled d.name (constructsOf d.terminals) d.code where
  count := by
    rw [d.labelsOf_code.length_eq, length_labelsFrom]
  distinct := d.nodup_labelsOf
  labels := d.labelsOf_code
  target i x name here jumps := by
    obtain ⟨j, there, same⟩ := exists_target_of_blocks d.isBlock_blocks d.targets_blocks here jumps
    exact ⟨j, there, fun j' again => eq_of_getElem?_label d.nodup_labelsOf again there, same⟩
  forward i j name here there := by
    obtain ⟨j', behind, again⟩ := d.jumping.forward.exists_label here
    exact eq_of_getElem?_label d.nodup_labelsOf there again ▸ behind
  stretch k below := by
    obtain ⟨m, after, -, encloses⟩ := d.jumping.encloses k (Nat.zero_le k) (by omega)
    obtain ⟨first, last, stretch, -⟩ := encloses.exists_stretch after
    exact ⟨first, last, stretch⟩
  nested k l k_lt l_lt ne first last first' last' ofFirst ofSecond := by
    rcases Nat.lt_or_gt_of_ne ne with less | less
    · have := d.jumping.nested (Nat.zero_le k) less (by omega) ofFirst ofSecond
      omega
    · have := d.jumping.nested (Nat.zero_le l) less (by omega) ofSecond ofFirst
      omega

/-! ## Two classes -/

theorem IsName.takeWhile_eq {name : String} (h : IsName name) (rest : List Char) :
    (name.toList ++ '.' :: rest).takeWhile continuesName = name.toList := by
  obtain ⟨-, c, cs, spelled, starts, continues⟩ := h
  have all : ∀ char ∈ name.toList, continuesName char := by
    rw [spelled]
    exact List.forall_mem_cons.2 ⟨continuesName_of_startsName starts, continues⟩
  have dot : continuesName '.' = false := by decide
  rw [List.takeWhile_append_of_pos all, List.takeWhile_cons_of_neg (by simp [dot]), List.append_nil]

/-- What stands before the first dot of a label is the name of its class. -/
theorem className_eq_of_labelText {c c' purpose purpose' : String} {number number' : Nat}
    (isName : IsName c) (isName' : IsName c')
    (h : labelText c purpose number = labelText c' purpose' number') : c = c' := by
  have spelled (c purpose : String) (number : Nat) : (labelText c purpose number).toList =
      c.toList ++ '.' :: (purpose.toList ++ (toString number).toList) := by
    simp [labelText]
  have texts := congrArg (·.toList.takeWhile continuesName) h
  simp only [spelled, isName.takeWhile_eq, isName'.takeWhile_eq] at texts
  exact String.toList_inj.1 texts

/-- Every label that a class makes or jumps to has its name and the number of a construct. -/
theorem ClassDec.exists_of_labelName? {d : ClassDec} {i : Instruction} {name : String}
    (mem : i ∈ d.code) (named : i.labelName? = some name) :
    ∃ purpose number, name = labelText d.name purpose number := by
  have label : name ∈ labelsOf d.code := by
    cases i with
    | label name' =>
      cases named
      exact mem_labelsOf.2 mem
    | goto name' | ifGoto name' => exact d.jumping.targets _ mem name named
    | _ => cases named
  have ofConstruct := d.labelsOf_code.mem_iff.1 label
  obtain ⟨purpose, -, number, -, -, text⟩ := exists_of_mem_labelsFrom ofConstruct
  exact ⟨purpose, number, text⟩

theorem Lexes.isName {source : String} {d : ClassDec} (lexes : Lexes source d.terminals) :
    IsName d.name :=
  lexes.readable (t := .identifier d.name) (by simp [ClassDec.terminals])

/-- Every class that compiles has a label for each end of each of its constructs and jumps to these
only, and no class with another name has any of them. -/
theorem wellLabelled_of_instructions_eq_ok {source : String} {code : Array Instruction}
    (compiled : instructions source = .ok code) :
    ∃ d : ClassDec, Lexes source d.terminals ∧
      WellLabelled d.name (constructsOf d.terminals) code.toList ∧
      ∀ (source' : String) (code' : Array Instruction) (d' : ClassDec),
        instructions source' = .ok code' → Lexes source' d'.terminals → d'.name ≠ d.name →
          ∀ i ∈ code.toList, ∀ i' ∈ code'.toList, ∀ name, i.labelName? = some name →
            i'.labelName? ≠ some name := by
  obtain ⟨d, lexes, rules, rfl⟩ := instructions_eq_ok_iff.1 compiled
  refine ⟨d, lexes, d.wellLabelled, ?_⟩
  intro source' code' d' compiled' lexes' ne i mem i' mem' name named named'
  obtain ⟨-, rfl⟩ := lexes'.instructions_eq_ok_iff.1 compiled'
  obtain ⟨purpose, number, text⟩ := ClassDec.exists_of_labelName? mem named
  obtain ⟨purpose', number', text'⟩ := ClassDec.exists_of_labelName? mem' named'
  exact ne (className_eq_of_labelText lexes'.isName lexes.isName (text' ▸ text))

theorem wellLabelled_of_nestedConstructs :
    ∃ (d : ClassDec) (code : Array Instruction),
      instructions "class A { function void f() { while (true) { if (true) { } } return; } }" =
        .ok code ∧ WellLabelled d.name (constructsOf d.terminals) code.toList ∧
        labelsOf code.toList = ["A.WHILE_EXP0", "A.IF_ELSE1", "A.IF_END1", "A.WHILE_END0"] := by
  have compiled : instructions
      "class A { function void f() { while (true) { if (true) { } } return; } }" =
        .ok #[.function "A.f" 0, .label "A.WHILE_EXP0", .push .constant 0, .arithmetic .not,
          .arithmetic .not, .ifGoto "A.WHILE_END0", .push .constant 0, .arithmetic .not,
          .arithmetic .not, .ifGoto "A.IF_ELSE1", .goto "A.IF_END1", .label "A.IF_ELSE1",
          .label "A.IF_END1", .goto "A.WHILE_EXP0", .label "A.WHILE_END0", .push .constant 0,
          .ret] := by
    decide +kernel
  obtain ⟨d, -, labelled, -⟩ := wellLabelled_of_instructions_eq_ok compiled
  exact ⟨d, _, compiled, labelled, rfl⟩

end JackToVm
