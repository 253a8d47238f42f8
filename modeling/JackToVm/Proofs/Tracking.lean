import JackToVm.Proofs.Ending
import JackToVm.Proofs.Scan

/-!
# Keeping track of the scan

The machine checks a name or a string constant up to three terminals after it has consumed it: only
the terminals behind a name tell what the name is. So what it has consumed has a part that is
checked and a part that waits (`Waiting`). Its goals tell in which spot of the text they can be met
and what waits there (`Goal.Passes`), and its symbol table has the variables that a scan of the
checked part finds (`Env.Agrees`). An action keeps track of the scan if it keeps this up, and if
what it refuses violates the rule that it is refused for (`Action.Tracks`).

Results.
1. A variable without a cell violates a rule for names (`Env.Agrees.violates_of_slotOf`), one with a
   cell does not (`Env.Agrees.not_violates_of_slotOf`).
2. A new variable is added to the table as to the scan (`Env.Agrees.declare`).
3. The goals of a move can be met if nothing is checked (`Resumes.same`), if a terminal is consumed
   that no rule is about (`Resumes.harmless`), or if the first terminal that waits is checked
   (`Resumes.check`).
-/

namespace JackToVm

/-! ## Where goals stand -/

/-- What a pass has consumed but not checked:
* nothing;
* nothing, but the receiver of a method is still to be declared;
* some terminals, the first of them with the index `site`, and `next` stands behind them. -/
inductive Waiting
  | nothing
  | receiver
  | terminals (ts : List Terminal) (site : Nat) (next : Option Terminal)

/-- The spots in the head of a subroutine where its scope is still that of the one before. -/
def Spot.Stale (p : Spot) : Prop :=
  p = .resultType ∨ p = .subroutineName

instance (p : Spot) : Decidable p.Stale :=
  inferInstanceAs (Decidable (_ ∨ _))

/-- A goal can be met in the spot `p`, with `w` waiting to be checked, and what is left when it is
met has the property `Q`. -/
def Goal.Passes (goal : Goal) (p : Spot) (w : Waiting) (Q : Spot → Waiting → Prop) : Prop :=
  match goal with
  -- acts
  | report _ | emit _ => Q p w
  | prologue _ | endOfText => w = .nothing ∧ Q p .nothing
  -- terminals
  | symbol s => ¬p.Stale ∧ w = .nothing ∧ Q (p.after (.symbol s)) .nothing
  -- declarations
  | classDec => ¬p.Stale ∧ w = .nothing ∧ Q .plain .nothing
  | classWord => ¬p.Stale ∧ w = .nothing ∧ Q .className .nothing
  | className => p = .className ∧ w = .nothing ∧ Q .plain .nothing
  | type (.names kind) => p = .typeOf kind ∧ w = .nothing ∧ Q (.names kind) .nothing
  | type .parameter => p = .parameterType ∧ w = .nothing ∧ Q .parameterName .nothing
  | type .result => p = .resultType ∧ w = .nothing ∧ Q .subroutineName .nothing
  | newName kind _ => p.declares? = some kind ∧ w = .nothing ∧ Q p .nothing
  | declare kind _ name site =>
    (p = .opening ∧ w = .receiver ∧ kind = .argument ∧ name = Keyword.kwThis.text ∨
      p.declares? = some kind ∧ ∃ next, w = .terminals [.identifier name] site next) ∧ Q p .nothing
  | moreNames kind _ => p = .names kind ∧ w = .nothing ∧ Q p .nothing
  | returnType => p = .resultType ∧ w = .nothing ∧ Q .subroutineName .nothing
  | subroutineName => p = .subroutineName ∧ w = .nothing ∧ Q .plain .nothing
  | subroutine name site =>
    p = .subroutineName ∧ (∃ next, w = .terminals [.identifier name] site next) ∧ Q .plain .nothing
  | parameterList =>
    p = .parameterType ∧ w = .nothing ∧ Q .parameterType .nothing ∧ Q .parameterName .nothing
  | moreParameters => p = .parameterName ∧ w = .nothing ∧ Q .parameterName .nothing
  -- statements
  | letTarget => p = .target ∧ w = .nothing ∧ Q .plain .nothing
  | assign name site =>
    p = .target ∧ (∃ next, w = .terminals [.identifier name] site next) ∧ Q .plain .nothing
  | callee => p = .callee ∧ w = .nothing ∧ Q .plain .nothing
  -- expressions
  | stringConstant text site =>
    p = .plain ∧ (∃ next, w = .terminals [.string text] site next) ∧ Q .plain .nothing
  | characters chars site =>
    p = .plain ∧
      (∃ text checked next, w = .terminals [.string text] site next ∧
        text.toList = checked ++ chars ∧ text.length ≤ maxConstant ∧
        ∀ c ∈ checked, c.toNat ≤ maxConstant) ∧
      Q .plain .nothing
  | named name site =>
    p = .plain ∧ (∃ next, w = .terminals [.identifier name] site next) ∧ Q .plain .nothing
  | load name site =>
    p = .plain ∧
      (∃ next, w = .terminals [.identifier name] site next ∧ p.role next = .variable) ∧
      Q .plain .nothing
  | element name site =>
    p = .plain ∧
      (∃ next, w = .terminals [.identifier name, .symbol .leftBracket] site next) ∧
      Q .plain .nothing
  | call name site =>
    (p = .plain ∨ p = .callee) ∧
      (∃ next, w = .terminals [.identifier name] site next ∧
        (p.role next = .receiver ∨ p.role next = .other)) ∧
      Q .plain .nothing
  | member receiver site =>
    (p = .plain ∨ p = .callee) ∧
      (∃ next, w = .terminals [.identifier receiver, .symbol .dot] site next) ∧
      Q .plain .nothing
  | dispatch receiver site name =>
    (p = .plain ∨ p = .callee) ∧
      (∃ next, w = .terminals [.identifier receiver, .symbol .dot, .identifier name] site next) ∧
      Q .plain .nothing
  | classVarDecs | subroutineDecs | subroutineBody _ | varDecs | statements | moreStatements
  | assignTo _ | elsePart | returnValue | expression | operators | term | operand | arguments ..
  | expressionList .. | moreArguments .. => p = .plain ∧ w = .nothing ∧ Q .plain .nothing

/-- Goals can be met one after the other. -/
def PassAll : List Goal → Spot → Waiting → (Spot → Waiting → Prop) → Prop
  | [], p, w, Q => Q p w
  | g :: gs, p, w, Q => g.Passes p w fun p w => PassAll gs p w Q

theorem passAll_append (gs k : List Goal) (p : Spot) (w : Waiting) (Q : Spot → Waiting → Prop) :
    PassAll (gs ++ k) p w Q ↔ PassAll gs p w fun p w => PassAll k p w Q := by
  induction gs generalizing p w with
  | nil => exact Iff.rfl
  | cons g gs ih =>
    simp only [List.cons_append, PassAll, ih]

/-! ## What a pass knows -/

/-- What is waiting, with `count` terminals in front of it and the terminal behind it. -/
def Waiting.Holds (w : Waiting) (env : Env) (count : Nat) (pending : List Terminal)
    (next : Option Terminal) : Prop :=
  match w with
  | nothing => pending = []
  | receiver => pending = [] ∧ env.symbols.subroutineVars = []
  | terminals ts site next' => pending = ts ∧ site = count ∧ next' = next

/-- The symbol table has the variables that a scan finds. The receiver of a method is under a name
of its own. -/
structure Env.Agrees (env : Env) (s : Scan) : Prop where
  classVars : ∀ x, (env.symbols.classVars.find? x).map (·.kind) = s.classVars.lookup x
  subroutineVars : ¬s.spot.Stale → ∀ x, x ≠ Keyword.kwThis.text →
    (env.symbols.subroutineVars.find? x).map (·.kind) = s.subroutineVars.lookup x
  fresh : s.spot.Stale → s.subroutineVars = []
  noFields : ∀ x, s.subroutineVars.lookup x ≠ some .field
  kind : env.subroutineKind = s.kind

/-- No terminal of `ts`, with `rest` behind them, violates a rule. -/
def Scan.Clean : Scan → List Terminal → List Terminal → Prop
  | _, [], _ => True
  | s, t :: ts, rest =>
    (∀ fault, ¬s.Violates (ts ++ rest).head? t fault) ∧ (s.after t).Clean ts rest

/-- The goals of a move can be met. Of the terminals that were consumed, some are checked and none
of them violates a rule; the others wait. -/
def Resumes (s : Scan) (count : Nat) (consumed ahead : List Terminal) (goals : List Goal)
    (env : Env) (Q : Spot → Waiting → Prop) : Prop :=
  ∃ done pending w, consumed = done ++ pending ∧ s.Clean done (pending ++ ahead) ∧
    w.Holds env (count + done.length) pending ahead.head? ∧ env.Agrees (s.afterAll done) ∧
    PassAll goals (s.afterAll done).spot w Q

/-- An action keeps track of the scan. If it refuses what waits, its first terminal violates the
rule. -/
def Action.Tracks (act : Action) (s : Scan) (count : Nat) (pending ahead : List Terminal)
    (w : Waiting) (Q : Spot → Waiting → Prop) : Prop :=
  match act with
  | reject _ => True
  | refuse fault site =>
    site = count ∧ ∃ t rest, pending = t :: rest ∧ s.Violates (rest ++ ahead).head? t fault
  | emit _ => Q s.spot w
  | expand _ next env => Resumes s count pending ahead next env Q
  | accept _ next env =>
    ∀ t rest, ahead = t :: rest → Resumes s count (pending ++ [t]) rest next env Q

/-- The action of a goal keeps track of the scan. -/
def Goal.Tracked (goal : Goal) : Prop :=
  ∀ (env : Env) (s : Scan) (count : Nat) (pending ahead : List Terminal) (w : Waiting)
    (Q : Spot → Waiting → Prop), goal.Passes s.spot w Q →
    w.Holds env count pending ahead.head? → env.Agrees s →
    (∀ t ∈ pending ++ ahead, t.Readable) →
    (goal.action env (count + pending.length) ahead.head?).Tracks s count pending ahead w Q

namespace Scan

variable {s : Scan} {next : Option Terminal} {fault : Fault}

/-- Only names and string constants violate a rule. -/
theorem not_violates_symbol {t : Symbol} : ¬s.Violates next (.symbol t) fault := nofun

theorem not_violates_keyword {word : Keyword} : ¬s.Violates next (.keyword word) fault := nofun

theorem not_violates_integer {n : Nat} : ¬s.Violates next (.integer n) fault := nofun

/-- The names of types, classes and subroutines violate no rule. -/
theorem not_violates_other {x : String} (other : s.spot.role next = .other) :
    ¬s.Violates next (.identifier x) fault := by
  intro violates
  cases violates with
  | unresolved role _ _ => cases other.symm.trans role
  | duplicate role _ => cases other.symm.trans role
  | fieldWithoutReceiver role _ _ _ =>
    rcases role with role | role <;> cases other.symm.trans role

end Scan

/-- A new variable is found in a scope as it is in a scan. -/
theorem Scope.find?_cons_eq_lookup {scope : Scope} {vars : List (String × Kind)} {y : String}
    (same : (scope.find? y).map (·.kind) = vars.lookup y) (v : Variable) :
    (Scope.find? (v :: scope) y).map (·.kind) = List.lookup y ((v.name, v.kind) :: vars) := by
  unfold Scope.find? at same ⊢
  rw [List.find?_cons, List.lookup_cons]
  by_cases named : v.name = y
  · simp [named]
  · have other : (y == v.name) = false := beq_eq_false_iff_ne.2 (Ne.symm named)
    simp [named, other, same]

theorem Spot.after_of_declares {p : Spot} {kind : Kind} (here : p.declares? = some kind)
    (x : String) : p.after (.identifier x) = p ∧ ¬p.Stale := by
  cases p with
  | names kind => exact ⟨rfl, by simp [Spot.Stale]⟩
  | parameterName => exact ⟨rfl, by decide⟩
  | _ => cases here

/-- The head of a subroutine starts with a keyword. -/
theorem Spot.not_stale_after {p : Spot} (current : ¬p.Stale) (t : Symbol) :
    ¬(p.after (.symbol t)).Stale := by
  cases p with
  | resultType | subroutineName => exact absurd (by decide) current
  | _ => cases t <;> simp [Spot.after, Spot.goOn, Spot.Stale]

theorem Spot.role_of_declares {p : Spot} {kind : Kind} (here : p.declares? = some kind)
    (next : Option Terminal) : p.role next = .declares kind := by
  cases p with
  | names _ | parameterName => exact congrArg Role.declares (Option.some.inj here)
  | _ => cases here

namespace Env.Agrees

variable {env : Env} {s : Scan}

/-- A terminal that declares nothing and starts no subroutine. -/
theorem after {t : Terminal} (agrees : env.Agrees s) (same : s.enter t = s)
    (stale : (s.spot.after t).Stale ↔ s.spot.Stale) : env.Agrees (s.after t) := by
  unfold Scan.after
  rw [same]
  exact ⟨agrees.classVars, fun fresh => agrees.subroutineVars (stale.not.1 fresh),
    fun old => agrees.fresh (stale.1 old), agrees.noFields, agrees.kind⟩

/-- A name that is no new variable. -/
theorem afterName {x : String} {p p' : Spot} (agrees : env.Agrees s) (here : s.spot = p)
    (mute : p.declares? = none) (there : p.after (.identifier x) = p')
    (stale : p'.Stale ↔ p.Stale) : env.Agrees (s.after (.identifier x)) := by
  subst here there
  refine agrees.after ?_ stale
  simp only [Scan.enter, mute]

theorem className (agrees : env.Agrees s) (name : String) :
    Env.Agrees { env with className := name } s :=
  ⟨agrees.classVars, agrees.subroutineVars, agrees.fresh, agrees.noFields, agrees.kind⟩

theorem labels (agrees : env.Agrees s) (n : Nat) : Env.Agrees { env with labels := n } s :=
  ⟨agrees.classVars, agrees.subroutineVars, agrees.fresh, agrees.noFields, agrees.kind⟩

section

variable {x : String} {next : Option Terminal} {kind : Kind}

/-- A name has the kind in a scope that the scan finds for it. -/
theorem lookup_scopeOf (agrees : env.Agrees s) (current : ¬s.spot.Stale)
    (ne : x ≠ Keyword.kwThis.text) (kind : Kind) :
    ((env.symbols.scopeOf kind).find? x).map (·.kind) = (s.scopeOf kind).lookup x := by
  unfold SymbolTable.scopeOf Scan.scopeOf
  split
  · exact agrees.classVars x
  · exact agrees.subroutineVars current x ne

/-- A name stands for a variable of the subroutine, for one of the class, or for none. -/
theorem find?_cases (agrees : env.Agrees s) (current : ¬s.spot.Stale)
    (ne : x ≠ Keyword.kwThis.text) :
    (∃ v, env.symbols.find? x = some v ∧ s.subroutineVars.lookup x = some v.kind ∧
        v.kind ≠ .field) ∨
      (∃ v, env.symbols.find? x = some v ∧ s.subroutineVars.lookup x = none ∧
        s.classVars.lookup x = some v.kind) ∨
      env.symbols.find? x = none ∧ s.subroutineVars.lookup x = none ∧
        s.classVars.lookup x = none := by
  have own := agrees.subroutineVars current x ne
  have ofClass := agrees.classVars x
  unfold SymbolTable.find?
  cases inner : env.symbols.subroutineVars.find? x with
  | some v =>
    rw [inner] at own
    refine .inl ⟨v, rfl, own.symm, fun field => ?_⟩
    exact agrees.noFields x (own.symm.trans (congrArg _ field))
  | none =>
    rw [inner] at own
    cases outer : env.symbols.classVars.find? x with
    | some v =>
      rw [outer] at ofClass
      exact .inr (.inl ⟨v, rfl, own.symm, ofClass.symm⟩)
    | none =>
      rw [outer] at ofClass
      exact .inr (.inr ⟨rfl, own.symm, ofClass.symm⟩)

/-- A variable without a cell, or a receiver that is a variable without a cell, violates a rule. -/
theorem violates_of_slotOf (agrees : env.Agrees s) (current : ¬s.spot.Stale)
    (ne : x ≠ Keyword.kwThis.text) {e : SymbolError} (refused : env.slotOf x = .error e)
    (role : s.spot.role next = .variable ∨
      s.spot.role next = .receiver ∧ env.symbols.find? x ≠ none) :
    s.Violates next (.identifier x) (.symbol e) := by
  unfold Env.slotOf SymbolTable.get at refused
  rcases agrees.find?_cases current ne with ⟨v, found, -, local'⟩ | ⟨v, found, own, ofClass⟩ |
    ⟨none, own, ofClass⟩
  · simp only [found, local', false_and, if_false] at refused
    cases refused
  · simp only [found] at refused
    split at refused
    · next unreachable =>
      cases refused
      rw [unreachable.1] at ofClass
      exact .fieldWithoutReceiver (role.imp_right (·.1)) (agrees.kind ▸ unreachable.2) ofClass own
    · cases refused
  · simp only [none] at refused
    cases refused
    rcases role with role | ⟨-, some⟩
    · exact .unresolved role ofClass own
    · exact absurd none some

/-- A variable with a cell violates no rule. -/
theorem not_violates_of_slotOf (agrees : env.Agrees s) (current : ¬s.spot.Stale)
    (ne : x ≠ Keyword.kwThis.text) {slot : Slot} (found : env.slotOf x = .ok slot)
    (role : s.spot.role next = .variable ∨ s.spot.role next = .receiver) (fault : Fault) :
    ¬s.Violates next (.identifier x) fault := by
  unfold Env.slotOf SymbolTable.get at found
  intro violates
  cases violates with
  | unresolved _ ofClass own =>
    rcases agrees.find?_cases current ne with ⟨v, -, own', -⟩ | ⟨v, -, -, ofClass'⟩ | ⟨none, -, -⟩
    · cases own.symm.trans own'
    · cases ofClass.symm.trans ofClass'
    · simp only [none] at found
      cases found
  | duplicate declares _ => rcases role with role | role <;> cases role.symm.trans declares
  | fieldWithoutReceiver _ function ofClass own =>
    rcases agrees.find?_cases current ne with ⟨v, -, own', -⟩ | ⟨v, some, -, ofClass'⟩ |
      ⟨-, -, ofClass'⟩
    · cases own.symm.trans own'
    · have field : v.kind = .field := Option.some.inj (ofClass'.symm.trans ofClass)
      simp only [some, field, agrees.kind, function, and_self, if_true] at found
      cases found
    · cases ofClass.symm.trans ofClass'

/-- A receiver that is not declared is the name of a class. -/
theorem not_violates_of_find? (agrees : env.Agrees s) (current : ¬s.spot.Stale)
    (ne : x ≠ Keyword.kwThis.text) (none : env.symbols.find? x = none)
    (role : s.spot.role next = .receiver) (fault : Fault) :
    ¬s.Violates next (.identifier x) fault := by
  intro violates
  rcases agrees.find?_cases current ne with ⟨v, some, -⟩ | ⟨v, some, -⟩ | ⟨-, -, free⟩
  · cases none.symm.trans some
  · cases none.symm.trans some
  · cases violates with
    | unresolved other _ _ => cases role.symm.trans other
    | duplicate other _ => cases role.symm.trans other
    | fieldWithoutReceiver _ _ ofClass _ => cases free.symm.trans ofClass

/-- A name whose scope does not have it can be declared. -/
theorem declare (agrees : env.Agrees s) {ty : String} {v : Variable} {symbols : SymbolTable}
    (declared : env.symbols.declare x ty kind = .ok (v, symbols))
    (here : s.spot.declares? = some kind) :
    Env.Agrees { env with symbols } (s.after (.identifier x)) := by
  obtain ⟨-, made⟩ := SymbolTable.declare_eq_ok_iff.1 declared
  obtain ⟨rfl, rfl⟩ := Prod.mk.inj made
  obtain ⟨spot, current⟩ := Spot.after_of_declares here x
  have entered : s.enter (.identifier x) = s.declare x kind := by
    simp only [Scan.enter, here]
  unfold Scan.after
  rw [entered, spot]
  unfold Scan.declare SymbolTable.insert
  cases ofClass : kind.belongsToClass with
  | true =>
    exact ⟨fun y => Scope.find?_cons_eq_lookup (agrees.classVars y) _, agrees.subroutineVars,
      agrees.fresh, agrees.noFields, agrees.kind⟩
  | false =>
    refine ⟨agrees.classVars, fun _ y ne => Scope.find?_cons_eq_lookup
      (agrees.subroutineVars current y ne) _, fun stale => absurd stale current, ?_, agrees.kind⟩
    intro y
    have noField : kind ≠ .field := by
      rintro rfl
      cases ofClass
    show List.lookup y ((x, kind) :: s.subroutineVars) ≠ some .field
    rw [List.lookup_cons]
    split
    · exact fun field => noField (Option.some.inj field)
    · exact agrees.noFields y

end

end Env.Agrees

namespace Resumes

variable {s : Scan} {count : Nat} {consumed ahead : List Terminal} {goals : List Goal} {env : Env}
  {Q : Spot → Waiting → Prop}

/-- Nothing is checked. -/
theorem same {w : Waiting} (holds : w.Holds env count consumed ahead.head?) (agrees : env.Agrees s)
    (passes : PassAll goals s.spot w Q) : Resumes s count consumed ahead goals env Q :=
  ⟨[], consumed, w, rfl, trivial, holds, agrees, passes⟩

/-- Nothing waits, and nothing is consumed. -/
theorem stay (agrees : env.Agrees s) (passes : PassAll goals s.spot .nothing Q) :
    Resumes s count [] ahead goals env Q :=
  same (w := .nothing) rfl agrees passes

/-- What is consumed waits. -/
theorem wait (agrees : env.Agrees s)
    (passes : PassAll goals s.spot (.terminals consumed count ahead.head?) Q) :
    Resumes s count consumed ahead goals env Q :=
  same (w := .terminals consumed count ahead.head?) ⟨rfl, rfl, rfl⟩ agrees passes

/-- A terminal is consumed that violates no rule and declares nothing. -/
theorem harmless {t : Terminal} {p p' : Spot} (here : s.spot = p) (there : p.after t = p')
    (stale : p'.Stale ↔ p.Stale) (clean : ∀ next fault, ¬s.Violates next t fault)
    (same : s.enter t = s) (agrees : env.Agrees s) (passes : PassAll goals p' .nothing Q) :
    Resumes s count [t] ahead goals env Q := by
  subst here there
  exact ⟨[t], [], .nothing, rfl, ⟨clean _, trivial⟩, rfl, agrees.after same stale, passes⟩

theorem symbol {t : Symbol} {p p' : Spot} (here : s.spot = p)
    (there : p.after (.symbol t) = p') (stale : p'.Stale ↔ p.Stale) (agrees : env.Agrees s)
    (passes : PassAll goals p' .nothing Q) : Resumes s count [.symbol t] ahead goals env Q :=
  harmless here there stale (fun _ _ => Scan.not_violates_symbol) rfl agrees passes

theorem keyword {k : Keyword} {p p' : Spot} (here : s.spot = p)
    (there : p.after (.keyword k) = p') (stale : p'.Stale ↔ p.Stale)
    (within : SubroutineKind.ofKeyword? k = none) (agrees : env.Agrees s)
    (passes : PassAll goals p' .nothing Q) : Resumes s count [.keyword k] ahead goals env Q := by
  refine harmless here there stale (fun _ _ => Scan.not_violates_keyword) ?_ agrees passes
  simp only [Scan.enter, within]

/-- The name of a type or of the class. -/
theorem name {x : String} {p p' : Spot} (here : s.spot = p)
    (there : p.after (.identifier x) = p') (stale : p'.Stale ↔ p.Stale)
    (other : ∀ next, p.role next = .other) (agrees : env.Agrees s)
    (passes : PassAll goals p' .nothing Q) : Resumes s count [.identifier x] ahead goals env Q := by
  have mute : s.spot.declares? = none := by
    have role := other none
    rw [here]
    cases p with
    | names _ | parameterName => cases role
    | _ => rfl
  refine harmless here there stale (fun _ _ => ?_) ?_ agrees passes
  · exact Scan.not_violates_other (here ▸ other _)
  · simp only [Scan.enter, mute]

/-- The first terminal that waits is checked. -/
theorem check {t : Terminal} (clean : ∀ fault, ¬s.Violates (consumed ++ ahead).head? t fault)
    (others : Resumes (s.after t) (count + 1) consumed ahead goals env Q) :
    Resumes s count (t :: consumed) ahead goals env Q := by
  obtain ⟨done, pending, w, rfl, clean', holds, agrees, passes⟩ := others
  rw [List.append_assoc] at clean
  rw [Nat.add_assoc, Nat.add_comm 1] at holds
  exact ⟨t :: done, pending, w, rfl, ⟨clean, clean'⟩, holds, agrees, passes⟩

end Resumes

namespace Goal

/-- A goal that is met only when nothing waits. -/
theorem tracked_of_nothing {goal : Goal}
    (nothing : ∀ p w Q, goal.Passes p w Q → w = .nothing)
    (h : ∀ (env : Env) (s : Scan) (count : Nat) (ahead : List Terminal)
      (Q : Spot → Waiting → Prop), goal.Passes s.spot .nothing Q → env.Agrees s →
      (∀ t ∈ ahead, t.Readable) →
      (goal.action env count ahead.head?).Tracks s count [] ahead .nothing Q) : goal.Tracked := by
  intro env s count pending ahead w Q passes holds agrees readable
  obtain rfl := nothing _ _ _ passes
  obtain rfl : pending = [] := holds
  exact h env s count ahead Q passes agrees readable

theorem readable_ne_this {x : String} (readable : (Terminal.identifier x).Readable) :
    x ≠ Keyword.kwThis.text := by
  rintro rfl
  have none := readable.1
  rw [Keyword.ofText?_text] at none
  cases none

theorem ofName_tracks {use : String → Action} {s : Scan} {count : Nat}
    {pending ahead : List Terminal} {w : Waiting} {Q : Spot → Waiting → Prop}
    (h : ∀ name rest, ahead = .identifier name :: rest →
      (use name).Tracks s count pending ahead w Q) :
    (Action.ofName ahead.head? use).Tracks s count pending ahead w Q := by
  cases ahead with
  | nil => trivial
  | cons t ahead =>
    cases t with
    | identifier name => exact h name ahead rfl
    | _ => trivial

end Goal

end JackToVm
