import JackToVm.Proofs.StackMachine

/-!
# What a class means

A reference semantics of the source, by recursion on syntax trees, for the same runtime that the
machine runs with.

* Operands and arguments are evaluated from left to right, each with the effects of those before it.
  All binary operators have one precedence and associate to the left. A product or a quotient is a
  call.
* An element `a[e]` has the address `e + a`, where the base is read after `e` is evaluated. An
  assignment to it fixes the address before the value is evaluated.
* A call evaluates its receiver, if it has one, before its arguments.
* A condition holds if its value is true, a word of ones.

An expression has a value always; statements may run forever, so what they do is a relation.
-/

namespace JackToVm

/-! ## Variables -/

namespace Store

/-- The value of a variable; a field is a cell of the object that is bound. -/
def get (σ : Store) (v : Variable) : Word :=
  match v.kind with
  | .static => σ.memory.statics v.index
  | .field => σ.memory.heap (σ.this + BitVec.ofNat 16 v.index)
  | .argument => σ.arguments v.index
  | .localVar => σ.locals v.index

def set (σ : Store) (v : Variable) (value : Word) : Store :=
  match v.kind with
  | .static => σ.setStatic v.index value
  | .field => σ.setHeap (σ.this + BitVec.ofNat 16 v.index) value
  | .argument => σ.setArgument v.index value
  | .localVar => σ.setLocal v.index value

end Store

namespace Context

/-- The value of the variable that a name stands for. No tree that keeps the rules asks for that of
another name. -/
def value (c : Context) (σ : Store) (name : String) : Word :=
  match c.resolve name with
  | some v => σ.get v
  | none => 0

def assign (c : Context) (σ : Store) (name : String) (value : Word) : Store :=
  match c.resolve name with
  | some v => σ.set v value
  | none => σ

end Context

/-! ## Operators, words and strings -/

/-- The result of a call, and the store behind it: only the memory may be another one. -/
def Runtime.invoke (r : Runtime) (σ : Store) (name : String) (arguments : List Word) :
    Word × Store :=
  let result := r.call name arguments σ.memory
  (result.1, { σ with memory := result.2 })

def BinaryOperator.apply (r : Runtime) (σ : Store) (x y : Word) : BinaryOperator → Word × Store
  | plus => (r.add x y, σ)
  | minus => (r.sub x y, σ)
  | times => r.invoke σ "Math.multiply" [x, y]
  | divide => r.invoke σ "Math.divide" [x, y]
  | and => (r.and x y, σ)
  | or => (r.or x y, σ)
  | less => (r.lt x y, σ)
  | greater => (r.gt x y, σ)
  | equals => (r.eq x y, σ)

def UnaryOperator.apply (r : Runtime) (x : Word) : UnaryOperator → Word
  | negate => r.neg x
  | complement => ~~~x

/-- The value of true. -/
def trueValue : Word := BitVec.allOnes 16

def ConstantWord.value (σ : Store) : ConstantWord → Word
  | trueWord => trueValue
  | falseWord => 0
  | nullWord => 0
  | thisWord => σ.this

/-- Some more characters of a string. -/
def Runtime.appendAll (r : Runtime) (σ : Store) (string : Word) : List Char → Word × Store
  | [] => (string, σ)
  | char :: text =>
    let result := r.invoke σ "String.appendChar" [string, BitVec.ofNat 16 char.toNat]
    r.appendAll result.2 result.1 text

/-- A string is a new object with the characters of the text. -/
def Runtime.newString (r : Runtime) (σ : Store) (text : String) : Word × Store :=
  let result := r.invoke σ "String.new" [BitVec.ofNat 16 text.length]
  r.appendAll result.2 result.1 text.toList

/-! ## Expressions -/

mutual

def Expression.eval (r : Runtime) (c : Context) (σ : Store) : Expression → Word × Store
  | .of t ops =>
    let first := t.eval r c σ
    ops.eval r c first.2 first.1

/-- The value of operations on `value`. -/
def Operations.eval (r : Runtime) (c : Context) (σ : Store) (value : Word) :
    Operations → Word × Store
  | .nil => (value, σ)
  | .cons o t ops =>
    let operand := t.eval r c σ
    let result := o.apply r operand.2 value operand.1
    ops.eval r c result.2 result.1

def Term.eval (r : Runtime) (c : Context) (σ : Store) : Term → Word × Store
  | .integer n => (BitVec.ofNat 16 n, σ)
  | .text text => r.newString σ text
  | .word w => (w.value σ, σ)
  | .var x => (c.value σ x, σ)
  | .element x e =>
    let index := e.eval r c σ
    (index.2.memory.heap (r.add index.1 (c.value index.2 x)), index.2)
  | .call call => call.eval r c σ
  | .group e => e.eval r c σ
  | .unary o t =>
    let operand := t.eval r c σ
    (o.apply r operand.1, operand.2)

def Call.eval (r : Runtime) (c : Context) (σ : Store) : Call → Word × Store
  | .own m as =>
    let arguments := as.eval r c σ
    r.invoke arguments.2 (c.memberName m) (σ.this :: arguments.1)
  | .dotted x m as =>
    let arguments := as.eval r c σ
    match c.resolve x with
    | some v => r.invoke arguments.2 (v.type ++ "." ++ m) (σ.get v :: arguments.1)
    | none => r.invoke arguments.2 (x ++ "." ++ m) arguments.1

def Arguments.eval (r : Runtime) (c : Context) (σ : Store) : Arguments → List Word × Store
  | .nil => ([], σ)
  | .cons e as =>
    let first := e.eval r c σ
    let more := as.eval r c first.2
    (first.1 :: more.1, more.2)

end

/-! ## Statements -/

mutual

/-- A statement, in a store, completes in another store. -/
inductive Statement.Exec (r : Runtime) (c : Context) :
    Statement → Store → Completion → Store → Prop
  | letVariable {x : String} {e : Expression} {σ σ' : Store} {value : Word} :
      e.eval r c σ = (value, σ') →
      Statement.Exec r c (.letVariable x e) σ .finished (c.assign σ' x value)
  | letElement {x : String} {i e : Expression} {σ σ₁ σ₂ : Store} {index value : Word} :
      i.eval r c σ = (index, σ₁) → e.eval r c σ₁ = (value, σ₂) →
      Statement.Exec r c (.letElement x i e) σ .finished
        (σ₂.setHeap (r.add index (c.value σ₁ x)) value)
  | ifThenTrue {e : Expression} {body : Statements} {σ σ₁ σ' : Store} {completion : Completion} :
      e.eval r c σ = (trueValue, σ₁) → Statements.Exec r c body σ₁ completion σ' →
      Statement.Exec r c (.ifThen e body) σ completion σ'
  | ifThenFalse {e : Expression} {body : Statements} {σ σ' : Store} {value : Word} :
      e.eval r c σ = (value, σ') → value ≠ trueValue →
      Statement.Exec r c (.ifThen e body) σ .finished σ'
  | ifElseTrue {e : Expression} {body other : Statements} {σ σ₁ σ' : Store}
      {completion : Completion} :
      e.eval r c σ = (trueValue, σ₁) → Statements.Exec r c body σ₁ completion σ' →
      Statement.Exec r c (.ifElse e body other) σ completion σ'
  | ifElseFalse {e : Expression} {body other : Statements} {σ σ₁ σ' : Store} {value : Word}
      {completion : Completion} :
      e.eval r c σ = (value, σ₁) → value ≠ trueValue →
      Statements.Exec r c other σ₁ completion σ' →
      Statement.Exec r c (.ifElse e body other) σ completion σ'
  | whileFalse {e : Expression} {body : Statements} {σ σ' : Store} {value : Word} :
      e.eval r c σ = (value, σ') → value ≠ trueValue →
      Statement.Exec r c (.whileDo e body) σ .finished σ'
  | whileAgain {e : Expression} {body : Statements} {σ σ₁ σ₂ σ' : Store}
      {completion : Completion} :
      e.eval r c σ = (trueValue, σ₁) → Statements.Exec r c body σ₁ .finished σ₂ →
      Statement.Exec r c (.whileDo e body) σ₂ completion σ' →
      Statement.Exec r c (.whileDo e body) σ completion σ'
  | whileReturned {e : Expression} {body : Statements} {σ σ₁ σ' : Store} {value : Word} :
      e.eval r c σ = (trueValue, σ₁) → Statements.Exec r c body σ₁ (.returned value) σ' →
      Statement.Exec r c (.whileDo e body) σ (.returned value) σ'
  | doCall {call : Call} {σ σ' : Store} {value : Word} :
      call.eval r c σ = (value, σ') → Statement.Exec r c (.doCall call) σ .finished σ'
  | returnNothing {σ : Store} : Statement.Exec r c .returnNothing σ (.returned 0) σ
  | returnValue {e : Expression} {σ σ' : Store} {value : Word} :
      e.eval r c σ = (value, σ') →
      Statement.Exec r c (.returnValue e) σ (.returned value) σ'

/-- Some statements, one after the other, up to the first that returns. -/
inductive Statements.Exec (r : Runtime) (c : Context) :
    Statements → Store → Completion → Store → Prop
  | nil {σ : Store} : Statements.Exec r c .nil σ .finished σ
  | cons {s : Statement} {ss : Statements} {σ σ₁ σ' : Store} {completion : Completion} :
      Statement.Exec r c s σ .finished σ₁ → Statements.Exec r c ss σ₁ completion σ' →
      Statements.Exec r c (.cons s ss) σ completion σ'
  | returned {s : Statement} {ss : Statements} {σ σ' : Store} {value : Word} :
      Statement.Exec r c s σ (.returned value) σ' →
      Statements.Exec r c (.cons s ss) σ (.returned value) σ'

end

/-! ## Subroutines -/

namespace SubroutineDec

/-- The store in which the body of a subroutine starts: its locals are 0. A constructor binds a new
object with a cell for each field, a method its receiver. -/
def enter (r : Runtime) (d : ClassDec) (s : SubroutineDec) (σ : Store) : Store :=
  let cleared : Store :=
    { σ with locals := fun i =>
        if i < countKind .localVar s.declarations then 0 else σ.locals i }
  match s.kind with
  | .constructor =>
    let object := r.invoke cleared "Memory.alloc"
      [BitVec.ofNat 16 (countKind .field d.declarations)]
    { object.2 with this := object.1 }
  | .method => { cleared with this := σ.arguments 0 }
  | .function => cleared

/-- A subroutine of a class, called in a store. -/
def Exec (r : Runtime) (d : ClassDec) (s : SubroutineDec) (σ : Store) (completion : Completion)
    (σ' : Store) : Prop :=
  s.body.Exec r (d.context s) (s.enter r d σ) completion σ'

end SubroutineDec

end JackToVm
