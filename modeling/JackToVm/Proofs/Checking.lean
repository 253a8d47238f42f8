import JackToVm.Proofs.Tracking

/-!
# Goals keep track of the scan

Every goal checks what waits in the order of the text. The checks are made by few of the goals: a
declaration, an assignment, the loads of a variable and of an element, a call of a member and the
characters of a string constant. All others consume terminals that no rule is about, or leave them
to wait.

Results.
1. A goal that looks up a variable keeps track of the scan (`Goal.ofSlot_tracks`).
2. The action of every goal does (`Goal.action_tracked`).
-/

namespace JackToVm

namespace Goal

/-! ## Expressions -/

theorem expression_tracked : expression.Tracked := by
  refine tracked_of_nothing (fun p w Q passes => passes.2.1) ?_
  rintro env s count ahead Q ⟨plain, -, rest⟩ agrees -
  refine Resumes.stay agrees ?_
  rw [plain]
  exact ⟨rfl, rfl, rfl, rfl, rest⟩

theorem operators_tracked : operators.Tracked := by
  refine tracked_of_nothing (fun p w Q passes => passes.2.1) ?_
  rintro env s count ahead Q ⟨plain, -, rest⟩ agrees -
  have none : Resumes s count [] ahead [] env Q := by
    refine Resumes.stay agrees ?_
    rw [plain]
    exact rest
  simp only [action, Action.operators]
  split
  · next t head =>
    split
    · next operation found =>
      obtain ⟨o, rfl⟩ := BinaryOperator.exists_of_binary? found
      rintro _ ahead rfl
      cases head
      have spot : Spot.plain.after (.symbol o.symbol) = .plain := by cases o <;> rfl
      exact Resumes.symbol plain spot Iff.rfl agrees ⟨rfl, rfl, rfl, rfl, rest⟩
    · exact none
  · exact none

theorem term_tracked : term.Tracked := by
  refine tracked_of_nothing (fun p w Q passes => passes.2.1) ?_
  rintro env s count ahead Q ⟨plain, -, rest⟩ agrees -
  refine Resumes.stay agrees ?_
  rw [plain]
  exact ⟨rfl, rfl, rest⟩

theorem operand_tracked : operand.Tracked := by
  refine tracked_of_nothing (fun p w Q passes => passes.2.1) ?_
  rintro env s count ahead Q ⟨plain, -, rest⟩ agrees -
  simp only [action, Action.operand]
  split
  · next n head =>
    rintro _ ahead rfl
    cases head
    exact Resumes.harmless plain rfl Iff.rfl (fun _ _ => Scan.not_violates_integer) rfl agrees rest
  · next text head =>
    rintro _ ahead rfl
    cases head
    exact Resumes.wait agrees ⟨plain, ⟨_, rfl⟩, rest⟩
  · next head =>
    rintro _ ahead rfl
    cases head
    exact Resumes.keyword plain rfl Iff.rfl rfl agrees rest
  · next head =>
    rintro _ ahead rfl
    cases head
    exact Resumes.keyword plain rfl Iff.rfl rfl agrees rest
  · next head =>
    rintro _ ahead rfl
    cases head
    exact Resumes.keyword plain rfl Iff.rfl rfl agrees rest
  · next head =>
    rintro _ ahead rfl
    cases head
    exact Resumes.keyword plain rfl Iff.rfl rfl agrees rest
  · next head =>
    rintro _ ahead rfl
    cases head
    exact Resumes.symbol plain rfl Iff.rfl agrees ⟨rfl, rfl, by decide, rfl, rest⟩
  · next head =>
    rintro _ ahead rfl
    cases head
    exact Resumes.symbol plain rfl Iff.rfl agrees ⟨rfl, rfl, rest⟩
  · next head =>
    rintro _ ahead rfl
    cases head
    exact Resumes.symbol plain rfl Iff.rfl agrees ⟨rfl, rfl, rest⟩
  · next name head =>
    rintro _ ahead rfl
    cases head
    exact Resumes.wait agrees ⟨plain, ⟨_, rfl⟩, rest⟩
  · trivial

theorem stringConstant_tracked (text : String) (site : Nat) :
    (stringConstant text site).Tracked := by
  rintro env s count pending ahead _ Q ⟨plain, ⟨next, rfl⟩, rest⟩ ⟨rfl, rfl, rfl⟩ agrees -
  simp only [action, Action.stringConstant]
  split
  · next short =>
    refine Resumes.same (w := .terminals [.string text] site ahead.head?) ⟨rfl, rfl, rfl⟩ agrees ?_
    exact ⟨plain, ⟨text, [], _, rfl, rfl, short, by simp⟩, rest⟩
  · next long => exact ⟨rfl, _, [], rfl, .tooLong (Nat.not_le.1 long)⟩

theorem characters_tracked (chars : List Char) (site : Nat) : (characters chars site).Tracked := by
  rintro env s count pending ahead _ Q
    ⟨plain, ⟨text, checked, next, rfl, parts, short, small⟩, rest⟩ ⟨rfl, rfl, rfl⟩ agrees -
  cases chars with
  | nil =>
    rw [List.append_nil] at parts
    have clean (fault : Fault) : ¬s.Violates ahead.head? (.string text) fault := by
      intro violates
      cases violates with
      | tooLong long => omega
      | tooLarge _ whole _ large =>
        have mem := small _ (parts ▸ whole ▸ List.mem_append_right _ (.head _))
        omega
    refine Resumes.check clean (Resumes.stay (agrees.after rfl ?_) ?_)
    · rw [plain]
      exact Iff.rfl
    · rw [Scan.spot_after, plain]
      exact rest
  | cons c chars =>
    simp only [action, Action.characters]
    split
    · next fits =>
      have holds : Waiting.Holds (.terminals [.string text] site ahead.head?) env site
          [.string text] ahead.head? := ⟨rfl, rfl, rfl⟩
      refine Resumes.same holds agrees ?_
      refine ⟨plain, ⟨text, checked ++ [c], _, rfl, ?_, short, ?_⟩, rest⟩
      · rw [parts, List.append_assoc, List.singleton_append]
      · exact List.forall_mem_append.2 ⟨small, List.forall_mem_singleton.2 fits⟩
    · next large => exact ⟨rfl, _, [], rfl, .tooLarge short parts small (Nat.not_le.1 large)⟩

theorem named_tracked (name : String) (site : Nat) : (named name site).Tracked := by
  rintro env s count pending ahead _ Q ⟨plain, ⟨next, rfl⟩, rest⟩ ⟨rfl, rfl, rfl⟩ agrees -
  have same {goals : List Goal}
      (passes : PassAll goals s.spot (.terminals [.identifier name] site ahead.head?) Q) :
      Resumes s site [.identifier name] ahead goals env Q :=
    Resumes.same (w := .terminals [.identifier name] site ahead.head?) ⟨rfl, rfl, rfl⟩ agrees passes
  simp only [action, Action.named]
  split
  · next head =>
    rintro _ _ rfl
    cases head
    refine Resumes.wait agrees ?_
    exact ⟨plain, ⟨_, rfl⟩, rest⟩
  · next head =>
    refine same ⟨.inl plain, ⟨_, rfl, .inr ?_⟩, rest⟩
    rw [plain, head]
    rfl
  · next head =>
    refine same ⟨.inl plain, ⟨_, rfl, .inl ?_⟩, rest⟩
    rw [plain, head]
    rfl
  · next bracket paren dot =>
    refine same ⟨plain, ⟨_, rfl, ?_⟩, rest⟩
    rw [plain]
    exact (if_neg dot).trans (if_neg paren)

/-- A variable is looked up that waits, and `others` with it. -/
theorem ofSlot_tracks {env : Env} {s : Scan} {site : Nat} {x : String}
    {others ahead : List Terminal} {w : Waiting} {Q : Spot → Waiting → Prop}
    {use : Slot → Action} (agrees : env.Agrees s)
    (current : ¬s.spot.Stale) (readable : (Terminal.identifier x).Readable)
    (role : s.spot.role (others ++ ahead).head? = .variable ∨
      s.spot.role (others ++ ahead).head? = .receiver ∧ env.symbols.find? x ≠ none)
    (h : ∀ slot, (∀ fault, ¬s.Violates (others ++ ahead).head? (.identifier x) fault) →
      (use slot).Tracks s site (.identifier x :: others) ahead w Q) :
    (Action.ofSlot env x site use).Tracks s site (.identifier x :: others) ahead w Q := by
  have ne := readable_ne_this readable
  unfold Action.ofSlot
  split
  · next slot found =>
    exact h slot (agrees.not_violates_of_slotOf current ne found (role.imp_right (·.1)))
  · next e refused => exact ⟨rfl, _, others, rfl, agrees.violates_of_slotOf current ne refused role⟩

theorem load_tracked (name : String) (site : Nat) : (load name site).Tracked := by
  rintro env s count pending ahead _ Q ⟨plain, ⟨next, rfl, role⟩, rest⟩ ⟨rfl, rfl, rfl⟩ agrees
    readable
  have current : ¬s.spot.Stale := by rw [plain]; decide
  refine ofSlot_tracks agrees current (readable _ (.head _)) (.inl role) fun slot clean => ?_
  refine Resumes.check clean (Resumes.stay (agrees.afterName plain rfl rfl Iff.rfl) ?_)
  rw [Scan.spot_after, plain]
  exact rest

theorem element_tracked (name : String) (site : Nat) : (element name site).Tracked := by
  rintro env s count pending ahead _ Q ⟨plain, ⟨next, rfl⟩, rest⟩ ⟨rfl, rfl, rfl⟩ agrees readable
  have current : ¬s.spot.Stale := by rw [plain]; decide
  have role : s.spot.role (some (.symbol .leftBracket)) = .variable := by rw [plain]; rfl
  refine ofSlot_tracks agrees current (readable _ (.head _)) (.inl role) fun slot clean => ?_
  have there : (s.after (.identifier name)).spot = .plain := by rw [Scan.spot_after, plain]; rfl
  refine Resumes.check clean (Resumes.symbol there rfl Iff.rfl
    (agrees.afterName plain rfl rfl Iff.rfl) ?_)
  exact ⟨rfl, rfl, by decide, rfl, rest⟩

/-! ## Calls -/

theorem callee_stale : Spot.plain.Stale ↔ Spot.callee.Stale := by
  decide

theorem call_tracked (name : String) (site : Nat) : (call name site).Tracked := by
  rintro env s count pending ahead _ Q ⟨here, ⟨next, rfl, role⟩, rest⟩ ⟨rfl, rfl, rfl⟩ agrees -
  simp only [action, Action.call]
  split
  · next head =>
    rintro _ _ rfl
    cases head
    exact Resumes.wait agrees ⟨here, ⟨_, rfl⟩, rest⟩
  · next dot =>
    -- without a dot behind it, the name is that of a method of the class
    have other : s.spot.role ahead.head? = .other := by
      refine role.resolve_left fun receiver => ?_
      rcases here with here | here <;> rw [here] at receiver
      all_goals simp only [Spot.role, if_neg dot] at receiver
      · split at receiver <;> cases receiver
      · cases receiver
    refine Resumes.check (fun _ => Scan.not_violates_other other) ?_
    rcases here with here | here
    · refine Resumes.stay (agrees.afterName here rfl rfl Iff.rfl) ?_
      rw [Scan.spot_after, here]
      exact ⟨rfl, rfl, rest⟩
    · refine Resumes.stay (agrees.afterName here rfl rfl callee_stale) ?_
      rw [Scan.spot_after, here]
      exact ⟨rfl, rfl, rest⟩

theorem member_tracked (receiver : String) (site : Nat) : (member receiver site).Tracked := by
  rintro env s count pending ahead _ Q ⟨here, ⟨next, rfl⟩, rest⟩ ⟨rfl, rfl, rfl⟩ agrees -
  refine ofName_tracks fun name ahead same => ?_
  rintro _ _ head
  rw [same] at head
  cases head
  exact Resumes.wait agrees ⟨here, ⟨_, rfl⟩, rest⟩

theorem dispatch_tracked (receiver : String) (site : Nat) (name : String) :
    (dispatch receiver site name).Tracked := by
  rintro env s count pending ahead _ Q ⟨here, ⟨next, rfl⟩, rest⟩ ⟨rfl, rfl, rfl⟩ agrees readable
  have current : ¬s.spot.Stale := by rcases here with here | here <;> rw [here] <;> decide
  have role : s.spot.role (some (.symbol .dot)) = .receiver := by
    rcases here with here | here <;> rw [here] <;> rfl
  have there : (s.after (.identifier receiver)).spot = .plain := by
    rcases here with here | here <;> rw [Scan.spot_after, here] <;> rfl
  have agrees' : env.Agrees (s.after (.identifier receiver)) := by
    rcases here with here | here
    · exact agrees.afterName here rfl rfl Iff.rfl
    · exact agrees.afterName here rfl rfl callee_stale
  -- the dot and the name behind it are no variables
  have resumes {goals : List Goal} (passes : PassAll goals .plain .nothing Q)
      (clean : ∀ fault, ¬s.Violates (some (.symbol .dot)) (.identifier receiver) fault) :
      Resumes s site [.identifier receiver, .symbol .dot, .identifier name] ahead goals env Q := by
    refine Resumes.check clean (Resumes.check (fun _ => Scan.not_violates_symbol) ?_)
    have stale : Spot.plain.Stale ↔ Spot.member.Stale := by decide
    refine Resumes.name (p := .member) ?_ rfl stale (fun _ => rfl) (agrees'.after rfl ?_) passes
    · rw [Scan.spot_after, there]
      rfl
    · rw [there]
      decide
  simp only [action, Action.dispatch]
  split
  · next v found =>
    have declared : env.symbols.find? receiver ≠ none := by
      rw [found]
      exact Option.some_ne_none v
    refine ofSlot_tracks agrees current (readable _ (.head _)) (.inr ⟨role, declared⟩) ?_
    exact fun slot clean => resumes ⟨rfl, rfl, rest⟩ clean
  · next free =>
    have ne := readable_ne_this (readable _ (.head _))
    exact resumes ⟨rfl, rfl, rest⟩ (agrees.not_violates_of_find? current ne free role)

theorem arguments_tracked (target : String) (count : Nat) : (arguments target count).Tracked := by
  refine tracked_of_nothing (fun p w Q passes => passes.2.1) ?_
  rintro env s count ahead Q ⟨plain, -, rest⟩ agrees -
  refine Resumes.stay agrees ?_
  rw [plain]
  exact ⟨by decide, rfl, rfl, rfl, rest⟩

theorem expressionList_tracked (target : String) (count : Nat) :
    (expressionList target count).Tracked := by
  refine tracked_of_nothing (fun p w Q passes => passes.2.1) ?_
  rintro env s count ahead Q ⟨plain, -, rest⟩ agrees -
  refine Resumes.stay agrees ?_
  rw [plain]
  split
  · exact ⟨by decide, rfl, rest⟩
  · exact ⟨rfl, rfl, rfl, rfl, rest⟩

theorem moreArguments_tracked (target : String) (count : Nat) :
    (moreArguments target count).Tracked := by
  refine tracked_of_nothing (fun p w Q passes => passes.2.1) ?_
  rintro env s count ahead Q ⟨plain, -, rest⟩ agrees -
  simp only [action, Action.moreArguments]
  split
  · next head =>
    rintro _ _ rfl
    cases head
    exact Resumes.symbol plain rfl Iff.rfl agrees ⟨rfl, rfl, rfl, rfl, rest⟩
  · refine Resumes.stay agrees ?_
    rw [plain]
    exact ⟨by decide, rfl, rest⟩

/-! ## Statements -/

theorem statements_tracked : statements.Tracked := by
  refine tracked_of_nothing (fun p w Q passes => passes.2.1) ?_
  rintro env s count ahead Q ⟨plain, -, rest⟩ agrees -
  refine Resumes.stay agrees ?_
  rw [plain]
  exact ⟨rfl, rfl, rest⟩

theorem passAll_condition {target : String} {gs : List Goal} {Q : Spot → Waiting → Prop}
    (more : PassAll gs .plain .nothing Q) : PassAll (condition target ++ gs) .plain .nothing Q :=
  ⟨by decide, rfl, rfl, rfl, by decide, rfl, more⟩

theorem passAll_block {gs : List Goal} {Q : Spot → Waiting → Prop}
    (more : PassAll gs .plain .nothing Q) : PassAll (block ++ gs) .plain .nothing Q :=
  ⟨by decide, rfl, rfl, rfl, by decide, rfl, more⟩

theorem moreStatements_tracked : moreStatements.Tracked := by
  refine tracked_of_nothing (fun p w Q passes => passes.2.1) ?_
  rintro env s count ahead Q ⟨plain, -, rest⟩ agrees -
  have others (node : Node) : PassAll [report (.closed node), moreStatements] .plain .nothing Q :=
    ⟨rfl, rfl, rest⟩
  simp only [action, Action.moreStatements, Action.moreStatements.statement]
  split
  · next head =>
    rintro _ ahead rfl
    cases head
    have stale : Spot.target.Stale ↔ Spot.plain.Stale := by decide
    exact Resumes.keyword plain rfl stale rfl agrees ⟨rfl, rfl, others .letStatement⟩
  · next head =>
    rintro _ ahead rfl
    cases head
    refine Resumes.keyword plain rfl Iff.rfl rfl (agrees.labels _) ?_
    exact passAll_condition (passAll_block ⟨rfl, rfl, others .ifStatement⟩)
  · next head =>
    rintro _ ahead rfl
    cases head
    refine Resumes.keyword plain rfl Iff.rfl rfl (agrees.labels _) ?_
    exact passAll_condition (passAll_block (others .whileStatement))
  · next head =>
    rintro _ ahead rfl
    cases head
    have stale : Spot.callee.Stale ↔ Spot.plain.Stale := by decide
    exact Resumes.keyword plain rfl stale rfl agrees
      ⟨rfl, rfl, by decide, rfl, others .doStatement⟩
  · next head =>
    rintro _ ahead rfl
    cases head
    exact Resumes.keyword plain rfl Iff.rfl rfl agrees
      ⟨rfl, rfl, by decide, rfl, others .returnStatement⟩
  · refine Resumes.stay agrees ?_
    rw [plain]
    exact rest

/-- A name that is consumed waits. -/
theorem wait_name {env : Env} {s : Scan} {count : Nat} {name : String} {ahead : List Terminal}
    {goals : List Goal} {Q : Spot → Waiting → Prop} (agrees : env.Agrees s)
    (same : ahead = .identifier name :: rest)
    (passes : ∀ next, PassAll goals s.spot (.terminals [.identifier name] count next) Q) :
    (Action.accept [] goals env).Tracks s count [] ahead .nothing Q := by
  rintro _ _ rfl
  cases same
  exact Resumes.wait agrees (passes _)

theorem letTarget_tracked : letTarget.Tracked := by
  refine tracked_of_nothing (fun p w Q passes => passes.2.1) ?_
  rintro env s count ahead Q ⟨here, -, rest⟩ agrees -
  exact ofName_tracks fun name _ same => wait_name agrees same fun _ => ⟨here, ⟨_, rfl⟩, rest⟩

theorem assign_tracked (name : String) (site : Nat) : (assign name site).Tracked := by
  rintro env s count pending ahead _ Q ⟨here, ⟨next, rfl⟩, rest⟩ ⟨rfl, rfl, rfl⟩ agrees readable
  have current : ¬s.spot.Stale := by rw [here]; decide
  have role : s.spot.role ahead.head? = .variable := by rw [here]; rfl
  refine ofSlot_tracks agrees current (readable _ (.head _)) (.inl role) fun slot clean => ?_
  have stale : Spot.plain.Stale ↔ Spot.target.Stale := by decide
  refine Resumes.check clean (Resumes.stay (agrees.afterName here rfl rfl stale) ?_)
  rw [Scan.spot_after, here]
  exact ⟨rfl, rfl, rest⟩

theorem assignTo_tracked (target : Slot) : (assignTo target).Tracked := by
  refine tracked_of_nothing (fun p w Q passes => passes.2.1) ?_
  rintro env s count ahead Q ⟨plain, -, rest⟩ agrees -
  have value (gs : List Goal) (more : PassAll gs .plain .nothing Q) :
      PassAll (.symbol .equals :: .expression :: .symbol .semicolon :: gs) .plain .nothing Q :=
    ⟨by decide, rfl, rfl, rfl, by decide, rfl, more⟩
  simp only [action, Action.assignTo]
  split
  · next head =>
    rintro _ ahead rfl
    cases head
    refine Resumes.symbol plain rfl Iff.rfl agrees ⟨rfl, rfl, by decide, rfl, ?_⟩
    exact value _ rest
  · refine Resumes.stay agrees ?_
    rw [plain]
    exact value _ rest

theorem elsePart_tracked : elsePart.Tracked := by
  refine tracked_of_nothing (fun p w Q passes => passes.2.1) ?_
  rintro env s count ahead Q ⟨plain, -, rest⟩ agrees -
  simp only [action, Action.elsePart]
  split
  · next head =>
    rintro _ ahead rfl
    cases head
    exact Resumes.keyword plain rfl Iff.rfl rfl agrees (passAll_block rest)
  · refine Resumes.stay agrees ?_
    rw [plain]
    exact rest

theorem returnValue_tracked : returnValue.Tracked := by
  refine tracked_of_nothing (fun p w Q passes => passes.2.1) ?_
  rintro env s count ahead Q ⟨plain, -, rest⟩ agrees -
  simp only [action, Action.returnValue]
  split
  · refine Resumes.stay agrees ?_
    rw [plain]
    exact rest
  · refine Resumes.stay agrees ?_
    rw [plain]
    exact ⟨rfl, rfl, rest⟩

theorem callee_tracked : callee.Tracked := by
  refine tracked_of_nothing (fun p w Q passes => passes.2.1) ?_
  rintro env s count ahead Q ⟨here, -, rest⟩ agrees -
  refine ofName_tracks fun name _ same => wait_name agrees same fun next => ?_
  refine ⟨.inr here, ⟨_, rfl, ?_⟩, rest⟩
  rw [here]
  by_cases dot : next = some (.symbol .dot)
  · exact .inl (if_pos dot)
  · exact .inr (if_neg dot)

/-! ## Declarations -/

/-- The name of a type. -/
theorem type_tracks {use : TypeUse} {env : Env} {s : Scan} {count : Nat} {ahead : List Terminal}
    {p p' : Spot} {Q : Spot → Waiting → Prop} (agrees : env.Agrees s) (here : s.spot = p)
    (there : ∀ t : TypeName, p.after t.terminal = p') (stale : p'.Stale ↔ p.Stale)
    (other : ∀ next, p.role next = .other)
    (passes : ∀ ty, PassAll (use.goals ty) p' .nothing Q) :
    (Action.type env use ahead.head?).Tracks s count [] ahead .nothing Q := by
  unfold Action.type
  split
  · next head =>
    rintro _ ahead rfl
    cases head
    exact Resumes.keyword here (there .int) stale rfl agrees (passes _)
  · next head =>
    rintro _ ahead rfl
    cases head
    exact Resumes.keyword here (there .char) stale rfl agrees (passes _)
  · next head =>
    rintro _ ahead rfl
    cases head
    exact Resumes.keyword here (there .boolean) stale rfl agrees (passes _)
  · next name head =>
    rintro _ ahead rfl
    cases head
    exact Resumes.name here (there (.named name)) stale other agrees (passes _)
  · trivial

theorem type_tracked (use : TypeUse) : (type use).Tracked := by
  cases use with
  | names kind =>
    refine tracked_of_nothing (fun p w Q passes => passes.2.1) ?_
    rintro env s count ahead Q ⟨here, -, rest⟩ agrees -
    have stale : (Spot.names kind).Stale ↔ (Spot.typeOf kind).Stale := by simp [Spot.Stale]
    refine type_tracks agrees here (fun t => by cases t <;> rfl) stale (fun _ => rfl) ?_
    exact fun _ => ⟨rfl, rfl, rfl, rfl, rest⟩
  | parameter =>
    refine tracked_of_nothing (fun p w Q passes => passes.2.1) ?_
    rintro env s count ahead Q ⟨here, -, rest⟩ agrees -
    have stale : Spot.parameterName.Stale ↔ Spot.parameterType.Stale := by decide
    refine type_tracks agrees here (fun t => by cases t <;> rfl) stale (fun _ => rfl) ?_
    exact fun _ => ⟨rfl, rfl, rest⟩
  | result =>
    refine tracked_of_nothing (fun p w Q passes => passes.2.1) ?_
    rintro env s count ahead Q ⟨here, -, rest⟩ agrees -
    have stale : Spot.subroutineName.Stale ↔ Spot.resultType.Stale := by decide
    refine type_tracks agrees here (fun t => by cases t <;> rfl) stale (fun _ => rfl) ?_
    exact fun _ => rest

theorem newName_tracked (kind : Kind) (ty : String) : (newName kind ty).Tracked := by
  refine tracked_of_nothing (fun p w Q passes => passes.2.1) ?_
  rintro env s count ahead Q ⟨here, -, rest⟩ agrees -
  refine ofName_tracks fun name _ same => wait_name agrees same fun _ => ?_
  exact ⟨.inr ⟨here, _, rfl⟩, rest⟩

theorem declare_tracked (kind : Kind) (ty name : String) (site : Nat) :
    (declare kind ty name site).Tracked := by
  rintro env s count pending ahead w Q ⟨⟨opening, rfl, rfl, rfl⟩ | ⟨here, next, rfl⟩, rest⟩
  · -- the receiver of a method, in a scope that is empty
    rintro ⟨rfl, empty⟩ agrees -
    have current : ¬s.spot.Stale := by rw [opening]; decide
    simp only [action, Action.declare]
    split
    · next v symbols declared =>
      refine Resumes.stay ?_ rest
      obtain ⟨-, made⟩ := SymbolTable.declare_eq_ok_iff.1 declared
      obtain ⟨rfl, rfl⟩ := Prod.mk.inj made
      refine ⟨agrees.classVars, fun _ x ne => ?_, agrees.fresh, agrees.noFields, agrees.kind⟩
      rw [← agrees.subroutineVars current x ne]
      unfold SymbolTable.insert Scope.find?
      simp [Kind.belongsToClass, empty, Ne.symm ne]
    · next e refused =>
      obtain ⟨earlier, found, -⟩ := SymbolTable.declare_eq_error_iff.1 refused
      unfold SymbolTable.scopeOf Scope.find? at found
      simp [Kind.belongsToClass, empty] at found
  · rintro ⟨rfl, rfl, rfl⟩ agrees readable
    have ne := readable_ne_this (readable _ (.head _))
    obtain ⟨spot, current⟩ := Spot.after_of_declares here name
    have role := Spot.role_of_declares here ahead.head?
    have same := agrees.lookup_scopeOf current ne kind
    simp only [action, Action.declare]
    split
    · next v symbols declared =>
      rw [(SymbolTable.declare_eq_ok_iff.1 declared).1] at same
      have agrees' := agrees.declare declared here
      refine Resumes.check (fun fault violates => ?_) (Resumes.stay agrees' ?_)
      · cases violates with
        | unresolved other _ _ => cases role.symm.trans other
        | duplicate declares found =>
          cases role.symm.trans declares
          cases same.trans found
        | fieldWithoutReceiver other _ _ _ =>
          rcases other with other | other <;> cases role.symm.trans other
      · rw [Scan.spot_after, spot]
        exact rest
    · next e refused =>
      obtain ⟨earlier, found, rfl⟩ := SymbolTable.declare_eq_error_iff.1 refused
      rw [found] at same
      exact ⟨rfl, _, [], rfl, .duplicate role same.symm⟩

theorem moreNames_tracked (kind : Kind) (ty : String) : (moreNames kind ty).Tracked := by
  refine tracked_of_nothing (fun p w Q passes => passes.2.1) ?_
  rintro env s count ahead Q ⟨here, -, rest⟩ agrees -
  simp only [action, Action.moreNames]
  split
  · next head =>
    rintro _ ahead rfl
    cases head
    refine Resumes.symbol rfl ?_ Iff.rfl agrees ?_
    · rw [here]
      rfl
    · exact ⟨by rw [here]; rfl, rfl, here, rfl, rest⟩
  · exact Resumes.stay agrees rest

theorem classVarDecs_tracked : classVarDecs.Tracked := by
  refine tracked_of_nothing (fun p w Q passes => passes.2.1) ?_
  rintro env s count ahead Q ⟨plain, -, rest⟩ agrees -
  have one (kind : Kind) : PassAll [.type (.names kind), .symbol .semicolon,
      .report (.closed .classVarDec), classVarDecs] (.typeOf kind) .nothing Q :=
    ⟨rfl, rfl, by simp [Spot.Stale], rfl, rfl, rfl, rest⟩
  have stale (kind : Kind) : (Spot.typeOf kind).Stale ↔ Spot.plain.Stale := by
    cases kind <;> decide
  simp only [action, Action.classVarDecs, Action.classVarDecs.declaration]
  split
  · next head =>
    rintro _ ahead rfl
    cases head
    exact Resumes.keyword plain rfl (stale _) rfl agrees (one _)
  · next head =>
    rintro _ ahead rfl
    cases head
    exact Resumes.keyword plain rfl (stale _) rfl agrees (one _)
  · refine Resumes.stay agrees ?_
    rw [plain]
    exact rest

theorem varDecs_tracked : varDecs.Tracked := by
  refine tracked_of_nothing (fun p w Q passes => passes.2.1) ?_
  rintro env s count ahead Q ⟨plain, -, rest⟩ agrees -
  simp only [action, Action.varDecs]
  split
  · next head =>
    rintro _ ahead rfl
    cases head
    have stale : (Spot.typeOf .localVar).Stale ↔ Spot.plain.Stale := by decide
    exact Resumes.keyword plain rfl stale rfl agrees ⟨rfl, rfl, by decide, rfl, rfl, rfl, rest⟩
  · refine Resumes.stay agrees ?_
    rw [plain]
    exact rest

theorem moreParameters_tracked : moreParameters.Tracked := by
  refine tracked_of_nothing (fun p w Q passes => passes.2.1) ?_
  rintro env s count ahead Q ⟨here, -, rest⟩ agrees -
  simp only [action, Action.moreParameters]
  split
  · next head =>
    rintro _ ahead rfl
    cases head
    have stale : Spot.parameterType.Stale ↔ Spot.parameterName.Stale := by decide
    exact Resumes.symbol here rfl stale agrees ⟨rfl, rfl, rfl, rfl, rest⟩
  · refine Resumes.stay agrees ?_
    rw [here]
    exact rest

theorem parameterList_tracked : parameterList.Tracked := by
  refine tracked_of_nothing (fun p w Q passes => passes.2.1) ?_
  rintro env s count ahead Q ⟨here, -, empty, rest⟩ agrees -
  refine Resumes.stay agrees ?_
  rw [here]
  split
  · exact empty
  · exact ⟨rfl, rfl, rfl, rfl, rest⟩

/-! ## Subroutines and classes -/

theorem returnType_tracked : returnType.Tracked := by
  refine tracked_of_nothing (fun p w Q passes => passes.2.1) ?_
  rintro env s count ahead Q ⟨here, -, rest⟩ agrees -
  simp only [action, Action.returnType]
  split
  · next head =>
    rintro _ ahead rfl
    cases head
    have stale : Spot.subroutineName.Stale ↔ Spot.resultType.Stale := by decide
    exact Resumes.keyword here rfl stale rfl agrees rest
  · refine Resumes.stay agrees ?_
    rw [here]
    exact ⟨rfl, rfl, rest⟩

theorem passAll_map_emit {code : List Instruction} {p : Spot} {w : Waiting}
    {Q : Spot → Waiting → Prop} : PassAll (code.map emit) p w Q ↔ Q p w := by
  induction code with
  | nil => exact Iff.rfl
  | cons i code ih => exact ih

theorem prologue_tracked (name : String) : (prologue name).Tracked := by
  refine tracked_of_nothing (fun p w Q passes => passes.1) ?_
  rintro env s count ahead Q ⟨-, rest⟩ agrees -
  exact Resumes.stay agrees (passAll_map_emit.2 rest)

theorem subroutineBody_tracked (name : String) : (subroutineBody name).Tracked := by
  refine tracked_of_nothing (fun p w Q passes => passes.2.1) ?_
  rintro env s count ahead Q ⟨plain, -, rest⟩ agrees -
  refine Resumes.stay agrees ?_
  rw [plain]
  exact ⟨by decide, rfl, rfl, rfl, rfl, rfl, rfl, by decide, rfl, rest⟩

/-- The scope of a subroutine is empty behind its name. -/
theorem agrees_enterSubroutine {env : Env} {s : Scan} (name : String) (agrees : env.Agrees s)
    (here : s.spot = .subroutineName) :
    Env.Agrees { env with symbols := env.symbols.enterSubroutine }
      (s.after (.identifier name)) := by
  have empty : s.subroutineVars = [] := agrees.fresh (.inr here)
  have entered : s.enter (.identifier name) = s := by
    simp only [Scan.enter, here, Spot.declares?]
  unfold Scan.after
  rw [entered, here]
  refine ⟨agrees.classVars, fun _ x _ => ?_, ?_, agrees.noFields, agrees.kind⟩
  · show _ = s.subroutineVars.lookup x
    rw [empty]
    rfl
  · intro _
    exact empty

theorem subroutine_tracked (name : String) (site : Nat) : (subroutine name site).Tracked := by
  rintro env s count pending ahead _ Q ⟨here, ⟨next, rfl⟩, rest⟩ ⟨rfl, rfl, rfl⟩ agrees -
  have agrees' := agrees_enterSubroutine name agrees here
  have opening : (s.after (.identifier name)).spot = .opening := by
    rw [Scan.spot_after, here]
    rfl
  refine Resumes.check (fun _ => Scan.not_violates_other ?_) ?_
  · rw [here]
    rfl
  · have head : PassAll [.symbol .leftParen, .parameterList, .symbol .rightParen,
        .subroutineBody name] .opening .nothing Q := by
      refine ⟨by decide, rfl, rfl, rfl, ?_, ?_⟩
      all_goals exact ⟨by decide, rfl, rfl, rfl, rest⟩
    unfold Action.subroutine.receiver
    split
    · refine Resumes.same (w := .receiver) ⟨rfl, rfl⟩ agrees' ?_
      exact ⟨.inl ⟨opening, rfl, rfl, rfl⟩, opening ▸ head⟩
    · exact Resumes.stay agrees' (opening ▸ head)

theorem subroutineName_tracked : subroutineName.Tracked := by
  refine tracked_of_nothing (fun p w Q passes => passes.2.1) ?_
  rintro env s count ahead Q ⟨here, -, rest⟩ agrees -
  exact ofName_tracks fun name _ same => wait_name agrees same fun _ => ⟨here, ⟨_, rfl⟩, rest⟩

/-- A subroutine starts with none of the variables of the one before. -/
theorem agrees_subroutine {env : Env} {s : Scan} {word : Keyword} {kind : SubroutineKind}
    (agrees : env.Agrees s) (starts : SubroutineKind.ofKeyword? word = some kind)
    (spot : s.spot.after (.keyword word) = .resultType) :
    Env.Agrees { env with subroutineKind := kind } (s.after (.keyword word)) := by
  have entered : s.enter (.keyword word) = { s with subroutineVars := [], kind } := by
    simp only [Scan.enter, starts]
  unfold Scan.after
  rw [entered, spot]
  exact ⟨agrees.classVars, fun current => absurd (.inl rfl) current, fun _ => rfl, by simp, rfl⟩

theorem subroutineDecs_tracked : subroutineDecs.Tracked := by
  refine tracked_of_nothing (fun p w Q passes => passes.2.1) ?_
  rintro env s count ahead Q ⟨plain, -, rest⟩ agrees -
  have one (word : Keyword) (kind : SubroutineKind) (ahead : List Terminal)
      (starts : SubroutineKind.ofKeyword? word = some kind)
      (spot : Spot.plain.after (.keyword word) = .resultType) :
      Resumes s count [.keyword word] ahead [returnType, subroutineName,
        report (.closed .subroutineDec), subroutineDecs] { env with subroutineKind := kind } Q := by
    rw [← plain] at spot
    refine Resumes.check (fun _ => Scan.not_violates_keyword)
      (Resumes.stay (agrees_subroutine agrees starts spot) ?_)
    rw [Scan.spot_after, spot]
    exact ⟨rfl, rfl, rfl, rfl, rfl, rfl, rest⟩
  simp only [action, Action.subroutineDecs, Action.subroutineDecs.declaration]
  split
  · next head =>
    rintro _ ahead rfl
    cases head
    exact one _ _ ahead rfl rfl
  · next head =>
    rintro _ ahead rfl
    cases head
    exact one _ _ ahead rfl rfl
  · next head =>
    rintro _ ahead rfl
    cases head
    exact one _ _ ahead rfl rfl
  · refine Resumes.stay agrees ?_
    rw [plain]
    exact rest

theorem className_tracked : className.Tracked := by
  refine tracked_of_nothing (fun p w Q passes => passes.2.1) ?_
  rintro env s count ahead Q ⟨here, -, rest⟩ agrees -
  refine ofName_tracks fun name _ same => ?_
  rintro _ _ rfl
  cases same
  have stale : Spot.plain.Stale ↔ Spot.className.Stale := by decide
  exact Resumes.name here rfl stale (fun _ => rfl) (agrees.className name) rest

theorem classWord_tracked : classWord.Tracked := by
  refine tracked_of_nothing (fun p w Q passes => passes.2.1) ?_
  rintro env s count ahead Q ⟨current, -, rest⟩ agrees -
  simp only [action, Action.classWord]
  split
  · next head =>
    rintro _ ahead rfl
    cases head
    have stale : Spot.className.Stale ↔ s.spot.Stale := iff_of_false (by decide) current
    exact Resumes.keyword rfl rfl stale rfl agrees rest
  · trivial

theorem classDec_tracked : classDec.Tracked := by
  refine tracked_of_nothing (fun p w Q passes => passes.2.1) ?_
  rintro env s count ahead Q ⟨current, -, rest⟩ agrees -
  refine Resumes.stay agrees ?_
  exact ⟨current, rfl, rfl, rfl, by decide, rfl, rfl, rfl, rfl, rfl, by decide, rfl, rest⟩

/-! ## All goals -/

theorem symbol_tracked (t : Symbol) : (symbol t).Tracked := by
  refine tracked_of_nothing (fun p w Q passes => passes.2.1) ?_
  rintro env s count ahead Q ⟨current, -, rest⟩ agrees -
  simp only [action, Action.ofSymbol]
  split
  · next head =>
    rintro _ ahead rfl
    cases head
    exact Resumes.symbol rfl rfl (iff_of_false (Spot.not_stale_after current t) current) agrees rest
  · trivial

theorem endOfText_tracked : endOfText.Tracked := by
  refine tracked_of_nothing (fun p w Q passes => passes.1) ?_
  rintro env s count ahead Q ⟨-, rest⟩ agrees -
  cases ahead with
  | nil => exact Resumes.stay agrees rest
  | cons t ahead => trivial

theorem report_tracked (event : Event) : (report event).Tracked := by
  rintro env s count pending ahead w Q rest holds agrees -
  exact Resumes.same holds agrees rest

theorem emit_tracked (i : Instruction) : (emit i).Tracked := by
  rintro env s count pending ahead w Q rest holds agrees -
  exact rest

theorem action_tracked (goal : Goal) : goal.Tracked :=
  match goal with
  | report event => report_tracked event
  | emit i => emit_tracked i
  | symbol t => symbol_tracked t
  | endOfText => endOfText_tracked
  | classDec => classDec_tracked
  | classWord => classWord_tracked
  | className => className_tracked
  | classVarDecs => classVarDecs_tracked
  | type use => type_tracked use
  | newName kind ty => newName_tracked kind ty
  | declare kind ty name site => declare_tracked kind ty name site
  | moreNames kind ty => moreNames_tracked kind ty
  | subroutineDecs => subroutineDecs_tracked
  | returnType => returnType_tracked
  | subroutineName => subroutineName_tracked
  | subroutine name site => subroutine_tracked name site
  | parameterList => parameterList_tracked
  | moreParameters => moreParameters_tracked
  | subroutineBody name => subroutineBody_tracked name
  | varDecs => varDecs_tracked
  | prologue name => prologue_tracked name
  | statements => statements_tracked
  | moreStatements => moreStatements_tracked
  | letTarget => letTarget_tracked
  | assign name site => assign_tracked name site
  | assignTo target => assignTo_tracked target
  | elsePart => elsePart_tracked
  | returnValue => returnValue_tracked
  | callee => callee_tracked
  | expression => expression_tracked
  | operators => operators_tracked
  | term => term_tracked
  | operand => operand_tracked
  | stringConstant text site => stringConstant_tracked text site
  | characters text site => characters_tracked text site
  | named name site => named_tracked name site
  | load name site => load_tracked name site
  | element name site => element_tracked name site
  | call name site => call_tracked name site
  | member receiver site => member_tracked receiver site
  | dispatch receiver site name => dispatch_tracked receiver site name
  | arguments target count => arguments_tracked target count
  | expressionList target count => expressionList_tracked target count
  | moreArguments target count => moreArguments_tracked target count

end Goal

end JackToVm
