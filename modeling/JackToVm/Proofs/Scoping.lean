import Mathlib.Data.List.Induction
import JackToVm.Goal
import JackToVm.Proofs.Syntax

/-!
# Scopes, collected before anything is translated

The variables of a class and of each subroutine, read off their trees; what a name stands for; and
the rules that a tree keeps so that every name has a meaning.

Results.
1. A symbol table that has seen some declarations numbers them as the collection does
   (`Declarations.table_count`), and it takes a further one exactly when its name is new in its
   scope (`Declarations.declare_table_eq_ok`, `Declarations.not_mem_of_declare_table`).
2. Without duplicates both find the same variable for a name (`Declarations.find?_table`).
-/

namespace JackToVm

/-! ## Declarations -/

structure Declaration where
  kind : Kind
  type : String
  name : String
deriving DecidableEq, Repr

/-- The variable that a declaration makes behind others of its scope. -/
def Declaration.toVariable (before : List Declaration) (d : Declaration) : Variable :=
  ⟨d.name, d.type, d.kind, before.countP (·.kind = d.kind)⟩

/-- The variables of some declarations behind others of their scope. -/
def numberedFrom (before : List Declaration) : List Declaration → List Variable
  | [] => []
  | d :: ds => d.toVariable before :: numberedFrom (before ++ [d]) ds

/-- The variables of a scope: those of each kind are numbered from 0. -/
def numbered (ds : List Declaration) : List Variable :=
  numberedFrom [] ds

namespace Names

def declarations (kind : Kind) (d : Names) : List Declaration :=
  (d.first :: d.more).map (.mk kind d.type.text)

end Names

def ClassVarDec.declarations (d : ClassVarDec) : List Declaration :=
  d.names.declarations d.kind

def Parameter.declaration (p : Parameter) : Declaration :=
  ⟨.argument, p.type.text, p.name⟩

/-- The statics and fields of a class. -/
def ClassDec.declarations (d : ClassDec) : List Declaration :=
  d.classVars.flatMap ClassVarDec.declarations

namespace SubroutineDec

/-- The parameters and locals that a subroutine declares. -/
def declarations (s : SubroutineDec) : List Declaration :=
  s.parameters.map Parameter.declaration ++ s.locals.flatMap (Names.declarations .localVar)

/-- The receiver of a method, argument 0, under a name that no identifier has. -/
def receiver (className : String) (s : SubroutineDec) : List Declaration :=
  if s.kind = .method then [⟨.argument, className, Keyword.kwThis.text⟩] else []

/-- All arguments and locals of a subroutine. -/
def allDeclarations (className : String) (s : SubroutineDec) : List Declaration :=
  s.receiver className ++ s.declarations

end SubroutineDec

/-! ## What a name stands for -/

/-- What is known where a statement is translated. -/
structure Context where
  className : String
  kind : SubroutineKind
  resolve : String → Option Variable

namespace Context

/-- The cell of a variable. A name that is not declared has none; no tree that keeps the rules
asks for it. -/
def slot (c : Context) (name : String) : Slot :=
  match c.resolve name with
  | some v => v.slot
  | none => ⟨.temp, 0⟩

def memberName (c : Context) (name : String) : String :=
  c.className ++ "." ++ name

def label (c : Context) (purpose : String) (number : Nat) : String :=
  c.className ++ "." ++ purpose ++ toString number

end Context

/-- The variable of a name: that of the subroutine, if there is one, else that of the class. -/
def resolveIn (ofClass ofSubroutine : List Declaration) (name : String) : Option Variable :=
  (numbered ofSubroutine).find? (·.name = name) <|> (numbered ofClass).find? (·.name = name)

/-- What is known in the body of a subroutine. -/
def ClassDec.context (d : ClassDec) (s : SubroutineDec) : Context where
  className := d.name
  kind := s.kind
  resolve := resolveIn d.declarations (s.allDeclarations d.name)

/-- What is known where a compilation stands. -/
def Env.context (env : Env) : Context where
  className := env.className
  kind := env.subroutineKind
  resolve := env.symbols.find?

/-- The environment behind some statements that jump. -/
def Env.advance (env : Env) (constructs : Nat) : Env :=
  { env with labels := env.labels + constructs }

/-! ## Uses of names and strings -/

/-- What an expression or a statement needs to be allowed. -/
inductive Use
  | var (name : String)
  | receiver (name : String)
  | text (text : String)
deriving DecidableEq, Repr

/-- A variable is declared, and no `function` uses a field; a name before a dot may also be that
of a class. A string and its characters are small enough. -/
def Use.Allowed (c : Context) : Use → Prop
  | var name =>
    ∃ v, c.resolve name = some v ∧ ¬(v.kind = .field ∧ c.kind = .function)
  | receiver name =>
    ∀ v, c.resolve name = some v → ¬(v.kind = .field ∧ c.kind = .function)
  | text s => s.length ≤ maxConstant ∧ ∀ char ∈ s.toList, char.toNat ≤ maxConstant

mutual

def Expression.uses : Expression → List Use
  | .of t ops => t.uses ++ ops.uses

def Operations.uses : Operations → List Use
  | .nil => []
  | .cons _ t ops => t.uses ++ ops.uses

def Term.uses : Term → List Use
  | .integer _ => []
  | .text s => [.text s]
  | .word _ => []
  | .var x => [.var x]
  | .element x e => .var x :: e.uses
  | .call c => c.uses
  | .group e => e.uses
  | .unary _ t => t.uses

def Call.uses : Call → List Use
  | .own _ as => as.uses
  | .dotted x _ as => .receiver x :: as.uses

def Arguments.uses : Arguments → List Use
  | .nil => []
  | .cons e as => e.uses ++ as.uses

end

mutual

def Statement.uses : Statement → List Use
  | .letVariable x e => .var x :: e.uses
  | .letElement x i e => .var x :: (i.uses ++ e.uses)
  | .ifThen e body => e.uses ++ body.uses
  | .ifElse e body other => e.uses ++ (body.uses ++ other.uses)
  | .whileDo e body => e.uses ++ body.uses
  | .doCall c => c.uses
  | .returnNothing => []
  | .returnValue e => e.uses

def Statements.uses : Statements → List Use
  | .nil => []
  | .cons s ss => s.uses ++ ss.uses

end

/-- All uses are allowed. -/
def AllAllowed (c : Context) (uses : List Use) : Prop :=
  ∀ use ∈ uses, use.Allowed c

/-- The rules of a subroutine: it declares no name twice, and all uses in its body are allowed. -/
structure SubroutineDec.WellScoped (d : ClassDec) (s : SubroutineDec) : Prop where
  distinct : ((s.allDeclarations d.name).map (·.name)).Nodup
  uses : AllAllowed (d.context s) s.body.uses

/-- The rules of a class. -/
structure ClassDec.WellScoped (d : ClassDec) : Prop where
  distinct : (d.declarations.map (·.name)).Nodup
  subroutines : ∀ s ∈ d.subroutines, s.WellScoped d

@[simp]
theorem allAllowed_nil (c : Context) : AllAllowed c [] := by
  simp [AllAllowed]

@[simp]
theorem allAllowed_cons {c : Context} {u : Use} {uses : List Use} :
    AllAllowed c (u :: uses) ↔ u.Allowed c ∧ AllAllowed c uses := by
  simp [AllAllowed]

@[simp]
theorem allAllowed_append {c : Context} {us vs : List Use} :
    AllAllowed c (us ++ vs) ↔ AllAllowed c us ∧ AllAllowed c vs := by
  simp [AllAllowed, or_imp, forall_and]

/-! ## The cell of a name -/

namespace Env

theorem slotOf_of_allowed {env : Env} {name : String}
    (allowed : (Use.var name).Allowed env.context) :
    env.slotOf name = .ok (env.context.slot name) := by
  obtain ⟨v, found, reachable⟩ := allowed
  have here : env.symbols.find? name = some v := found
  simp only [slotOf, SymbolTable.get, here, Context.slot, found]
  exact if_neg reachable

theorem allowed_of_slotOf {env : Env} {name : String} {slot : Slot}
    (h : env.slotOf name = .ok slot) : (Use.var name).Allowed env.context := by
  simp only [slotOf, SymbolTable.get] at h
  cases found : env.symbols.find? name with
  | none => simp [found] at h
  | some v =>
    simp only [found] at h
    split at h
    · cases h
    · next reachable => exact ⟨v, found, reachable⟩

end Env

/-! ## Numbering -/

theorem numberedFrom_append (before ds es : List Declaration) :
    numberedFrom before (ds ++ es) = numberedFrom before ds ++ numberedFrom (before ++ ds) es := by
  induction ds generalizing before with
  | nil => simp [numberedFrom]
  | cons d ds ih => simp [numberedFrom, ih]

theorem numbered_concat (ds : List Declaration) (d : Declaration) :
    numbered (ds ++ [d]) = numbered ds ++ [d.toVariable ds] := by
  simp [numbered, numberedFrom_append, numberedFrom]

theorem map_name_numberedFrom (before ds : List Declaration) :
    (numberedFrom before ds).map (·.name) = ds.map (·.name) := by
  induction ds generalizing before with
  | nil => rfl
  | cons d ds ih => simp [numberedFrom, Declaration.toVariable, ih]

theorem map_name_numbered (ds : List Declaration) :
    (numbered ds).map (·.name) = ds.map (·.name) :=
  map_name_numberedFrom [] ds

/-- The newest variable of a kind has the highest number. -/
theorem Scope.count_numbered (ds : List Declaration) (kind : Kind) :
    Scope.count (numbered ds).reverse kind = ds.countP (·.kind = kind) := by
  induction ds using List.reverseRecOn with
  | nil => rfl
  | append_singleton ds d ih =>
    rw [numbered_concat, List.reverse_append, List.countP_append]
    by_cases same : d.kind = kind
    · simp [count, Declaration.toVariable, same]
    · simpa [count, Declaration.toVariable, same] using ih

theorem Scope.find?_numbered (ds : List Declaration) (name : String) :
    Scope.find? (numbered ds).reverse name = none ↔ name ∉ ds.map (·.name) := by
  rw [← map_name_numbered]
  simp only [find?, List.find?_eq_none, List.mem_reverse, decide_eq_true_eq, List.mem_map,
    not_exists, not_and]

/-- In a list without duplicates a search finds the same from both ends. -/
theorem find?_reverse_of_nodup {vs : List Variable} (distinct : (vs.map (·.name)).Nodup)
    (name : String) : vs.reverse.find? (·.name = name) = vs.find? (·.name = name) := by
  induction vs with
  | nil => rfl
  | cons v vs ih =>
    rw [List.map_cons, List.nodup_cons] at distinct
    rw [List.reverse_cons, List.find?_append, ih distinct.2]
    by_cases here : v.name = name
    · have later : vs.find? (·.name = name) = none := by
        simp only [List.find?_eq_none, decide_eq_true_eq]
        intro w mem same
        exact distinct.1 (List.mem_map.2 ⟨w, mem, same.trans here.symm⟩)
      simp [here, later]
    · simp [here]

/-! ## The symbol table of some declarations -/

/-- What is declared at some point of a class: in the class and in the subroutine. -/
structure Declarations where
  ofClass : List Declaration
  ofSubroutine : List Declaration

namespace Declarations

/-- The declarations of the scope that a kind belongs to. -/
def scope (ds : Declarations) (kind : Kind) : List Declaration :=
  if kind.belongsToClass then ds.ofClass else ds.ofSubroutine

/-- More declarations in the scope of a kind. -/
def extend (ds : Declarations) (kind : Kind) (new : List Declaration) : Declarations :=
  if kind.belongsToClass then { ds with ofClass := ds.ofClass ++ new }
  else { ds with ofSubroutine := ds.ofSubroutine ++ new }

/-- The symbol table that has seen the declarations. -/
def table (ds : Declarations) : SymbolTable :=
  ⟨(numbered ds.ofClass).reverse, (numbered ds.ofSubroutine).reverse⟩

theorem scopeOf_table (ds : Declarations) (kind : Kind) :
    ds.table.scopeOf kind = (numbered (ds.scope kind)).reverse := by
  cases h : kind.belongsToClass <;> simp [SymbolTable.scopeOf, table, scope, h]

theorem table_count (ds : Declarations) (kind : Kind) :
    ds.table.count kind = (ds.scope kind).countP (·.kind = kind) := by
  rw [SymbolTable.count, scopeOf_table, Scope.count_numbered]

theorem scope_extend (ds : Declarations) (kind : Kind) (new : List Declaration) :
    (ds.extend kind new).scope kind = ds.scope kind ++ new := by
  cases h : kind.belongsToClass <;> simp [extend, scope, h]

theorem scope_of_belongsToClass (ds : Declarations) {kind : Kind} (h : kind.belongsToClass) :
    ds.scope kind = ds.ofClass :=
  if_pos h

theorem extend_of_belongsToClass (ds : Declarations) {kind : Kind} (h : kind.belongsToClass)
    (new : List Declaration) :
    ds.extend kind new = { ds with ofClass := ds.ofClass ++ new } :=
  if_pos h

theorem extend_nil (ds : Declarations) (kind : Kind) : ds.extend kind [] = ds := by
  cases h : kind.belongsToClass <;> simp [extend, h]

theorem extend_extend (ds : Declarations) (kind : Kind) (new newer : List Declaration) :
    (ds.extend kind new).extend kind newer = ds.extend kind (new ++ newer) := by
  cases h : kind.belongsToClass <;> simp [extend, h]

theorem insert_table (ds : Declarations) (d : Declaration) :
    ds.table.insert (d.toVariable (ds.scope d.kind)) = (ds.extend d.kind [d]).table := by
  cases h : d.kind.belongsToClass <;>
    simp [SymbolTable.insert, Declaration.toVariable, extend, table, scope, h, numbered_concat]

theorem declare_table_eq_ok {ds : Declarations} {d : Declaration}
    (fresh : d.name ∉ (ds.scope d.kind).map (·.name)) :
    ds.table.declare d.name d.type d.kind =
      .ok (d.toVariable (ds.scope d.kind), (ds.extend d.kind [d]).table) := by
  rw [SymbolTable.declare_eq_ok_iff, scopeOf_table, Scope.find?_numbered, table_count,
    ← insert_table]
  exact ⟨fresh, rfl⟩

theorem not_mem_of_declare_table {ds : Declarations} {d : Declaration}
    {r : Variable × SymbolTable} (h : ds.table.declare d.name d.type d.kind = .ok r) :
    d.name ∉ (ds.scope d.kind).map (·.name) := by
  obtain ⟨free, -⟩ := SymbolTable.declare_eq_ok_iff.1 h
  rwa [scopeOf_table, Scope.find?_numbered] at free

/-- The table finds the variable that a name resolves to. -/
theorem find?_table (ds : Declarations) (ofClass : (ds.ofClass.map (·.name)).Nodup)
    (ofSubroutine : (ds.ofSubroutine.map (·.name)).Nodup) :
    ds.table.find? = resolveIn ds.ofClass ds.ofSubroutine := by
  rw [← map_name_numbered] at ofClass ofSubroutine
  funext name
  simp only [SymbolTable.find?, table, Scope.find?, resolveIn,
    find?_reverse_of_nodup ofClass, find?_reverse_of_nodup ofSubroutine]

end Declarations

/-- Where the body of a subroutine is read, names mean what they mean in its tree. -/
theorem SubroutineDec.context_table {d : ClassDec} {s : SubroutineDec}
    (ofClass : (d.declarations.map (·.name)).Nodup)
    (ofSubroutine : ((s.allDeclarations d.name).map (·.name)).Nodup) (labels : Nat) :
    Env.context ⟨(Declarations.mk d.declarations (s.allDeclarations d.name)).table, d.name, s.kind,
      labels⟩ = d.context s := by
  have found := Declarations.find?_table ⟨d.declarations, s.allDeclarations d.name⟩ ofClass
    ofSubroutine
  simp only [Env.context, ClassDec.context, found]

end JackToVm
