import JackToVm.Diagnostic
import JackToVm.Event

/-!
# Names in a list of terminals

What a name is read for can be told without a parse: the terminals before it say whether a type, a
new name, a variable or the name of a call is expected (`Spot`), and the terminal behind it says
whether a name in an expression is a variable or the head of a call (`Spot.role`). So the names that
are declared at a terminal are found by one scan of the terminals before it (`scan`).

On the scan rest the rules for names and constants (`Scan.Violates`). They do not mention the
machine that compiles a class.

Results.
1. The variables that a scan finds in the class are the names of the terminals that declare a
   variable of the class (`mem_classVars_scan`).
2. Those that it finds in the subroutine are the names of the terminals that declare a parameter or
   a local variable, with no start of a subroutine behind them (`mem_subroutineVars_scan`).
-/

namespace JackToVm

/-! ## Spots -/

/-- What is read at a terminal, by the terminals before it. In a `plain` spot stand statements,
expressions and punctuation. -/
inductive Spot
  | plain | className
  -- declarations of variables
  | typeOf (kind : Kind) | names (kind : Kind)
  -- the head of a subroutine
  | resultType | subroutineName | opening | parameterType | parameterName
  -- names with a word or a dot before them
  | target | callee | member
deriving DecidableEq, Repr

/-- What a name is read for. The others are names of types, classes and subroutines. -/
inductive Role
  | declares (kind : Kind) | variable | receiver | other
deriving DecidableEq, Repr

namespace Spot

/-- The spot behind a keyword that tells it. -/
def ofKeyword? : Keyword → Option Spot
  | .kwClass => some className
  | .kwStatic => some (typeOf .static)
  | .kwField => some (typeOf .field)
  | .kwVar => some (typeOf .localVar)
  | .kwConstructor | .kwFunction | .kwMethod => some resultType
  | .kwLet => some target
  | .kwDo => some callee
  | _ => none

/-- The spot behind a terminal that goes on with what is read. -/
def goOn (p : Spot) (t : Terminal) : Spot :=
  match p, t with
  | typeOf kind, _ => names kind
  | names kind, .identifier _ => names kind
  | names kind, .symbol .comma => names kind
  | resultType, _ => subroutineName
  | subroutineName, _ => opening
  | opening, _ => parameterType
  | parameterType, .symbol .rightParen => plain
  | parameterType, _ => parameterName
  | parameterName, .identifier _ => parameterName
  | parameterName, .symbol .comma => parameterType
  | _, _ => plain

/-- The spot behind a terminal. -/
def after (p : Spot) (t : Terminal) : Spot :=
  match t with
  | .keyword word => (ofKeyword? word).getD (p.goOn t)
  | .symbol .dot => member
  | _ => p.goOn t

/-- The kind of the variables that names in the spot declare. -/
def declares? : Spot → Option Kind
  | names kind => some kind
  | parameterName => some .argument
  | _ => none

/-- What a name is read for in a spot, with the terminal behind it. A name that `let` assigns to is
a variable, and so is a name in an expression, unless it starts a call. -/
def role (p : Spot) (next : Option Terminal) : Role :=
  match p with
  | names kind => .declares kind
  | parameterName => .declares .argument
  | target => .variable
  | callee => if next = some (.symbol .dot) then .receiver else .other
  | plain =>
    if next = some (.symbol .dot) then .receiver
    else if next = some (.symbol .leftParen) then .other
    else .variable
  | className | typeOf _ | resultType | subroutineName | opening | parameterType | member => .other

end Spot

/-! ## What a scan finds -/

/-- The kind of subroutine that a keyword starts. -/
def SubroutineKind.ofKeyword? : Keyword → Option SubroutineKind
  | .kwConstructor => some constructor
  | .kwFunction => some function
  | .kwMethod => some method
  | _ => none

/-- What some terminals tell of the next one: its spot, the variables that are declared in the class
and in the subroutine with their kinds, newest first, and the kind of the subroutine. -/
structure Scan where
  spot : Spot
  classVars : List (String × Kind)
  subroutineVars : List (String × Kind)
  kind : SubroutineKind
deriving DecidableEq, Repr

namespace Scan

def start : Scan := ⟨.plain, [], [], .function⟩

/-- The variables of the scope that a kind belongs to. -/
def scopeOf (s : Scan) (kind : Kind) : List (String × Kind) :=
  if kind.belongsToClass then s.classVars else s.subroutineVars

/-- Adds a variable to the scope of its kind. -/
def declare (s : Scan) (name : String) (kind : Kind) : Scan :=
  if kind.belongsToClass then { s with classVars := (name, kind) :: s.classVars }
  else { s with subroutineVars := (name, kind) :: s.subroutineVars }

/-- What a terminal does to the variables: a name may declare one, and a subroutine starts with
none of its own. -/
def enter (s : Scan) (t : Terminal) : Scan :=
  match t with
  | .identifier name =>
    match s.spot.declares? with
    | some kind => s.declare name kind
    | none => s
  | .keyword word =>
    match SubroutineKind.ofKeyword? word with
    | some kind => { s with subroutineVars := [], kind }
    | none => s
  | _ => s

/-- The scan behind one more terminal. -/
def after (s : Scan) (t : Terminal) : Scan :=
  { s.enter t with spot := s.spot.after t }

def afterAll (s : Scan) (ts : List Terminal) : Scan :=
  ts.foldl after s

/-- The rules for names and constants that a terminal violates, with the terminal behind it:
* a variable is not declared before, neither in the class nor in the subroutine;
* a new name is declared before in its scope, as a variable of the kind `earlier`;
* a variable or the receiver of a call is a field, by the names that are declared before, in a
  `function`;
* a string constant has too many characters, or one with a code that no word holds, the first of
  them. -/
inductive Violates (s : Scan) (next : Option Terminal) : Terminal → Fault → Prop
  | unresolved {x : String} : s.spot.role next = .variable → s.classVars.lookup x = none →
      s.subroutineVars.lookup x = none →
      Violates s next (.identifier x) (.symbol (.unresolved x))
  | duplicate {x : String} {kind earlier : Kind} : s.spot.role next = .declares kind →
      (s.scopeOf kind).lookup x = some earlier →
      Violates s next (.identifier x) (.symbol (.duplicate x earlier))
  | fieldWithoutReceiver {x : String} :
      s.spot.role next = .variable ∨ s.spot.role next = .receiver → s.kind = .function →
      s.classVars.lookup x = some .field → s.subroutineVars.lookup x = none →
      Violates s next (.identifier x) (.symbol (.fieldWithoutReceiver x))
  | tooLong {text : String} : maxConstant < text.length →
      Violates s next (.string text) (.constantOutOfRange text.length)
  | tooLarge {text : String} {before after : List Char} {c : Char} : text.length ≤ maxConstant →
      text.toList = before ++ c :: after → (∀ d ∈ before, d.toNat ≤ maxConstant) →
      maxConstant < c.toNat → Violates s next (.string text) (.constantOutOfRange c.toNat)

end Scan

/-- The scan of some terminals from the start of a text. -/
def scan (ts : List Terminal) : Scan :=
  Scan.start.afterAll ts

/-! ## What is declared -/

/-- The terminal starts a subroutine. -/
def Terminal.StartsSubroutine (t : Terminal) : Prop :=
  ∃ word kind, t = .keyword word ∧ SubroutineKind.ofKeyword? word = some kind

namespace Scan

@[simp]
theorem spot_after (s : Scan) (t : Terminal) : (s.after t).spot = s.spot.after t := rfl

@[simp]
theorem afterAll_nil (s : Scan) : s.afterAll [] = s := rfl

@[simp]
theorem afterAll_cons (s : Scan) (t : Terminal) (ts : List Terminal) :
    s.afterAll (t :: ts) = (s.after t).afterAll ts := rfl

theorem afterAll_append (s : Scan) (ts us : List Terminal) :
    s.afterAll (ts ++ us) = (s.afterAll ts).afterAll us :=
  List.foldl_append

variable {s : Scan} {t : Terminal} {ts : List Terminal} {x : String} {kind : Kind}

theorem mem_classVars_after : (x, kind) ∈ (s.after t).classVars ↔
    (x, kind) ∈ s.classVars ∨
      t = .identifier x ∧ s.spot.declares? = some kind ∧ kind.belongsToClass := by
  unfold after enter declare
  cases t with
  | identifier name =>
    cases s.spot.declares? with
    | none => simp
    | some kind' => cases ofClass : kind'.belongsToClass <;> grind
  | keyword word =>
    dsimp only
    split <;> simp
  | _ => simp

theorem mem_subroutineVars_after : (x, kind) ∈ (s.after t).subroutineVars ↔
    (x, kind) ∈ s.subroutineVars ∧ ¬t.StartsSubroutine ∨
      t = .identifier x ∧ s.spot.declares? = some kind ∧ ¬kind.belongsToClass := by
  unfold after enter declare Terminal.StartsSubroutine
  cases t with
  | identifier name =>
    cases s.spot.declares? with
    | none => simp
    | some kind' => cases ofClass : kind'.belongsToClass <;> grind
  | keyword word =>
    dsimp only
    split
    · next started => simp [started]
    · next other => simp [other]
  | _ => simp

/-- Where a terminal stands in a list: at its head or behind it. -/
theorem exists_split_cons {P : List Terminal → List Terminal → Prop} {u : Terminal} :
    (∃ before after, t :: ts = before ++ u :: after ∧ P before after) ↔
      t = u ∧ P [] ts ∨ ∃ before after, ts = before ++ u :: after ∧ P (t :: before) after := by
  constructor
  · rintro ⟨before, after, parts, holds⟩
    cases before with
    | nil =>
      cases parts
      exact .inl ⟨rfl, holds⟩
    | cons v before =>
      cases parts
      exact .inr ⟨before, after, rfl, holds⟩
  · rintro (⟨rfl, holds⟩ | ⟨before, after, rfl, holds⟩)
    · exact ⟨[], ts, rfl, holds⟩
    · exact ⟨t :: before, after, rfl, holds⟩

theorem mem_classVars_afterAll : (x, kind) ∈ (s.afterAll ts).classVars ↔
    (x, kind) ∈ s.classVars ∨ ∃ before after, ts = before ++ .identifier x :: after ∧
      (s.afterAll before).spot.declares? = some kind ∧ kind.belongsToClass := by
  induction ts generalizing s with
  | nil => simp
  | cons t ts ih =>
    rw [afterAll_cons, ih, mem_classVars_after, exists_split_cons, or_assoc]
    rfl

theorem mem_subroutineVars_afterAll : (x, kind) ∈ (s.afterAll ts).subroutineVars ↔
    (x, kind) ∈ s.subroutineVars ∧ (∀ t ∈ ts, ¬t.StartsSubroutine) ∨
      ∃ before after, ts = before ++ .identifier x :: after ∧
        (s.afterAll before).spot.declares? = some kind ∧ ¬kind.belongsToClass ∧
        ∀ t ∈ after, ¬t.StartsSubroutine := by
  induction ts generalizing s with
  | nil => simp
  | cons t ts ih =>
    rw [afterAll_cons, ih, mem_subroutineVars_after, exists_split_cons, List.forall_mem_cons,
      or_and_right, or_assoc, and_assoc, and_assoc, and_assoc]
    rfl

end Scan

/-- The variables of the class are those that names before the terminal declare. -/
theorem mem_classVars_scan {ts : List Terminal} {x : String} {kind : Kind} :
    (x, kind) ∈ (scan ts).classVars ↔ ∃ before after, ts = before ++ .identifier x :: after ∧
      (scan before).spot.declares? = some kind ∧ kind.belongsToClass := by
  refine Scan.mem_classVars_afterAll.trans (or_iff_right ?_)
  exact List.not_mem_nil

/-- The variables of the subroutine are those that names declare behind its keyword. -/
theorem mem_subroutineVars_scan {ts : List Terminal} {x : String} {kind : Kind} :
    (x, kind) ∈ (scan ts).subroutineVars ↔ ∃ before after, ts = before ++ .identifier x :: after ∧
      (scan before).spot.declares? = some kind ∧ ¬kind.belongsToClass ∧
      ∀ t ∈ after, ¬t.StartsSubroutine := by
  refine Scan.mem_subroutineVars_afterAll.trans (or_iff_right ?_)
  exact fun declared => List.not_mem_nil declared.1

end JackToVm
