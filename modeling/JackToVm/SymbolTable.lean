import JackToVm.Token

/-!
# The symbol table

The variables of a class and of the subroutine that is being compiled.

* Statics and fields live in the class scope, arguments and locals in the subroutine scope.
* A name stands for the variable of the subroutine scope, if there is one, else for that of the
  class scope.
* No scope holds two variables of one name.
* The variables of one kind are numbered from 0 in the order of their declarations.
* A new subroutine starts with an empty subroutine scope.

Results.
1. A declaration succeeds exactly when its scope holds no variable of the name, and a refusal
   names the kind of the variable that is there (`declare_eq_ok_iff`, `declare_eq_error_iff`).
2. What a declaration and a new subroutine do to each scope (`scopeOf_declare_same`,
   `scopeOf_declare_other`, `scopeOf_enterSubroutine`).
-/

namespace JackToVm

/-! ## Variables -/

/-- The storage class of a variable. -/
inductive Kind
  | static | field | argument | localVar
deriving DecidableEq, Repr

namespace Kind

def text : Kind → String
  | static => "static"
  | field => "field"
  | argument => "argument"
  | localVar => "local"

/-- Statics and fields belong to the class, arguments and locals to a subroutine. -/
def belongsToClass : Kind → Bool
  | static | field => true
  | argument | localVar => false

end Kind

/-- A declared variable, with its number among those of its kind. -/
structure Variable where
  name : String
  type : String
  kind : Kind
  index : Nat
deriving DecidableEq, Repr

/-- What can be wrong with the use of a name. -/
inductive SymbolError
  | duplicate (name : String) (kind : Kind)
  | unresolved (name : String)
  | invalidKind (word : Keyword)
  | fieldWithoutReceiver (name : String)
deriving DecidableEq, Repr

def SymbolError.message : SymbolError → String
  | duplicate name kind =>
    "`" ++ name ++ "` is already defined as a " ++ kind.text ++ " in this scope"
  | unresolved name => "undeclared identifier `" ++ name ++ "`"
  | invalidKind word => "`" ++ word.text ++ "` is not a variable kind"
  | fieldWithoutReceiver name =>
    "field `" ++ name ++ "` used in a function, where no object is bound"

/-- The kind that a declaration with this keyword in front declares. -/
def Kind.ofKeyword : Keyword → Except SymbolError Kind
  | .kwStatic => .ok .static
  | .kwField => .ok .field
  | .kwVar => .ok .localVar
  | word => .error (.invalidKind word)

/-! ## Scopes -/

/-- The variables of a scope, newest first. -/
abbrev Scope := List Variable

namespace Scope

def find? (scope : Scope) (name : String) : Option Variable :=
  List.find? (·.name = name) scope

/-- The number of variables of a kind: one more than the index of the newest of them. -/
def count (scope : Scope) (kind : Kind) : Nat :=
  match List.find? (·.kind = kind) scope with
  | some newest => newest.index + 1
  | none => 0

end Scope

/-! ## The table -/

structure SymbolTable where
  classVars : Scope
  subroutineVars : Scope
deriving DecidableEq, Repr

namespace SymbolTable

def empty : SymbolTable := ⟨[], []⟩

/-- The scope that the variables of a kind live in. -/
def scopeOf (t : SymbolTable) (kind : Kind) : Scope :=
  if kind.belongsToClass then t.classVars else t.subroutineVars

/-- The table with a variable added to the scope of its kind. -/
def insert (t : SymbolTable) (v : Variable) : SymbolTable :=
  if v.kind.belongsToClass then { t with classVars := v :: t.classVars }
  else { t with subroutineVars := v :: t.subroutineVars }

/-- The number of variables of a kind. -/
def count (t : SymbolTable) (kind : Kind) : Nat :=
  (t.scopeOf kind).count kind

/-- Declares a variable. It is refused if its scope holds a variable of that name. -/
def declare (t : SymbolTable) (name type : String) (kind : Kind) :
    Except SymbolError (Variable × SymbolTable) :=
  match (t.scopeOf kind).find? name with
  | some earlier => .error (.duplicate name earlier.kind)
  | none =>
    let v : Variable := ⟨name, type, kind, t.count kind⟩
    .ok (v, t.insert v)

/-- Starts a new subroutine: arguments and locals are gone, statics and fields stay. -/
def enterSubroutine (t : SymbolTable) : SymbolTable :=
  { t with subroutineVars := [] }

/-- The variable that a name stands for. -/
def find? (t : SymbolTable) (name : String) : Option Variable :=
  t.subroutineVars.find? name <|> t.classVars.find? name

/-- The variable that a name stands for, which has to be declared. -/
def get (t : SymbolTable) (name : String) : Except SymbolError Variable :=
  match t.find? name with
  | some v => .ok v
  | none => .error (.unresolved name)

def kind? (t : SymbolTable) (name : String) : Option Kind :=
  (t.find? name).map (·.kind)

def getType (t : SymbolTable) (name : String) : Except SymbolError String :=
  (t.get name).map (·.type)

def getIndex (t : SymbolTable) (name : String) : Except SymbolError Nat :=
  (t.get name).map (·.index)

/-- The variables of a kind in the order of their declarations. -/
def ofKind (t : SymbolTable) (kind : Kind) : List Variable :=
  ((t.scopeOf kind).filter (·.kind = kind)).reverse

/-! ## Declarations and scopes -/

theorem declare_eq_ok_iff {t : SymbolTable} {name type : String} {kind : Kind}
    {r : Variable × SymbolTable} :
    t.declare name type kind = .ok r ↔
      (t.scopeOf kind).find? name = none ∧
        r = (⟨name, type, kind, t.count kind⟩,
          t.insert ⟨name, type, kind, t.count kind⟩) := by
  unfold declare
  split
  · next earlier taken => simp [taken]
  · next free =>
    simp only [free, true_and, Except.ok.injEq]
    exact eq_comm

theorem declare_eq_error_iff {t : SymbolTable} {name type : String} {kind : Kind}
    {e : SymbolError} :
    t.declare name type kind = .error e ↔
      ∃ earlier, (t.scopeOf kind).find? name = some earlier ∧
        e = .duplicate name earlier.kind := by
  unfold declare
  split
  · next earlier taken =>
    simp only [taken, Except.error.injEq, Option.some.injEq, exists_eq_left']
    exact eq_comm
  · next free => simp [free]

theorem scopeOf_insert (t : SymbolTable) (v : Variable) (kind : Kind) :
    (t.insert v).scopeOf kind =
      if v.kind.belongsToClass = kind.belongsToClass then v :: t.scopeOf kind
      else t.scopeOf kind := by
  cases h : v.kind.belongsToClass <;> cases h' : kind.belongsToClass <;>
    simp [insert, scopeOf, h, h']

theorem scopeOf_declare_same {t u : SymbolTable} {name type : String} {kind : Kind}
    {v : Variable} (h : t.declare name type kind = .ok (v, u)) :
    u.scopeOf kind = v :: t.scopeOf kind := by
  obtain ⟨-, made⟩ := declare_eq_ok_iff.1 h
  obtain ⟨rfl, rfl⟩ := Prod.mk.inj made
  simp [scopeOf_insert]

theorem scopeOf_declare_other {t u : SymbolTable} {name type : String} {kind other : Kind}
    {v : Variable} (h : t.declare name type kind = .ok (v, u))
    (apart : kind.belongsToClass ≠ other.belongsToClass) :
    u.scopeOf other = t.scopeOf other := by
  obtain ⟨-, made⟩ := declare_eq_ok_iff.1 h
  obtain ⟨rfl, rfl⟩ := Prod.mk.inj made
  simp [scopeOf_insert, apart]

theorem scopeOf_enterSubroutine (t : SymbolTable) (kind : Kind) :
    t.enterSubroutine.scopeOf kind = if kind.belongsToClass then t.scopeOf kind else [] := by
  cases h : kind.belongsToClass <;> simp [enterSubroutine, scopeOf, h]

end SymbolTable

end JackToVm
