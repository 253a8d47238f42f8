import JackToVm.Proofs.Scoping

/-!
# Translation of syntax trees

The code of a class by recursion on its tree, when the variables of all scopes are known. This is
the second pass of a compiler that collects declarations in a first one (`ClassDec.context`).

* An expression is in postfix order: the operands from left to right, each operator behind its
  right operand.
* A statement leaves nothing on the stack.
* The statements that jump are numbered over the class in the order of their first words. The code
  of a statement is given for the number of its first construct; `constructs` tells how many it has.
-/

namespace JackToVm

/-! ## Operators and words -/

def BinaryOperator.code : BinaryOperator → Instruction
  | plus => .arithmetic .add
  | minus => .arithmetic .sub
  | times => .call "Math.multiply" 2
  | divide => .call "Math.divide" 2
  | and => .arithmetic .and
  | or => .arithmetic .or
  | less => .arithmetic .lt
  | greater => .arithmetic .gt
  | equals => .arithmetic .eq

def UnaryOperator.code : UnaryOperator → Instruction
  | negate => .arithmetic .neg
  | complement => .arithmetic .not

def ConstantWord.code : ConstantWord → List Instruction
  | trueWord => [.push .constant 0, .arithmetic .not]
  | falseWord => [.push .constant 0]
  | nullWord => [.push .constant 0]
  | thisWord => [.push .pointer 0]

/-- A string is built when the program runs, one call for each character. -/
def textCode (text : String) : List Instruction :=
  .push .constant text.length :: .call "String.new" 1 ::
    text.toList.flatMap fun char =>
      [.push .constant char.toNat, .call "String.appendChar" 2]

/-! ## Calls -/

namespace Context

/-- The instructions that put the receiver of a call with a dot onto the stack: there is one if
the name before the dot is a variable. -/
def receiverCode (c : Context) (receiver : String) : List Instruction :=
  match c.resolve receiver with
  | some v => [.load v.slot]
  | none => []

/-- The subroutine that a call with a dot calls: a method of the type of a variable, or a
subroutine of the class of that name. -/
def target (c : Context) (receiver member : String) : String :=
  match c.resolve receiver with
  | some v => v.type ++ "." ++ member
  | none => receiver ++ "." ++ member

end Context

def Arguments.count : Arguments → Nat
  | .nil => 0
  | .cons _ as => as.count + 1

/-! ## Expressions -/

mutual

def Expression.code (c : Context) : Expression → List Instruction
  | .of t ops => t.code c ++ ops.code c

def Operations.code (c : Context) : Operations → List Instruction
  | .nil => []
  | .cons o t ops => t.code c ++ o.code :: ops.code c

def Term.code (c : Context) : Term → List Instruction
  | .integer n => [.push .constant n]
  | .text s => textCode s
  | .word w => w.code
  | .var x => [.load (c.slot x)]
  | .element x e =>
    e.code c ++ [.load (c.slot x), .arithmetic .add, .pop .pointer 1, .push .that 0]
  | .call call => call.code c
  | .group e => e.code c
  | .unary o t => t.code c ++ [o.code]

def Call.code (c : Context) : Call → List Instruction
  | .own m as => .push .pointer 0 :: (as.code c ++ [.call (c.memberName m) (as.count + 1)])
  | .dotted x m as =>
    c.receiverCode x ++
      (as.code c ++ [.call (c.target x m) (as.count + (c.receiverCode x).length)])

def Arguments.code (c : Context) : Arguments → List Instruction
  | .nil => []
  | .cons e as => e.code c ++ as.code c

end

/-! ## Statements -/

mutual

/-- The number of statements in a statement that jump. -/
def Statement.constructs : Statement → Nat
  | .ifThen _ body => body.constructs + 1
  | .ifElse _ body other => body.constructs + other.constructs + 1
  | .whileDo _ body => body.constructs + 1
  | .letVariable .. | .letElement .. | .doCall _ | .returnNothing | .returnValue _ => 0

def Statements.constructs : Statements → Nat
  | .nil => 0
  | .cons s ss => s.constructs + ss.constructs

end

mutual

def Statement.code (c : Context) (n : Nat) : Statement → List Instruction
  | .letVariable x e => e.code c ++ [.store (c.slot x)]
  | .letElement x i e =>
    i.code c ++ .load (c.slot x) :: .arithmetic .add ::
      (e.code c ++ [.pop .temp 0, .pop .pointer 1, .push .temp 0, .pop .that 0])
  | .ifThen e body =>
    e.code c ++ .arithmetic .not :: .ifGoto (c.label "IF_ELSE" n) ::
      (body.code c (n + 1) ++
        [.goto (c.label "IF_END" n), .label (c.label "IF_ELSE" n), .label (c.label "IF_END" n)])
  | .ifElse e body other =>
    e.code c ++ .arithmetic .not :: .ifGoto (c.label "IF_ELSE" n) ::
      (body.code c (n + 1) ++ .goto (c.label "IF_END" n) :: .label (c.label "IF_ELSE" n) ::
        (other.code c (n + 1 + body.constructs) ++ [.label (c.label "IF_END" n)]))
  | .whileDo e body =>
    .label (c.label "WHILE_EXP" n) ::
      (e.code c ++ .arithmetic .not :: .ifGoto (c.label "WHILE_END" n) ::
        (body.code c (n + 1) ++
          [.goto (c.label "WHILE_EXP" n), .label (c.label "WHILE_END" n)]))
  | .doCall call => call.code c ++ [.pop .temp 0]
  | .returnNothing => [.push .constant 0, .ret]
  | .returnValue e => e.code c ++ [.ret]

def Statements.code (c : Context) (n : Nat) : Statements → List Instruction
  | .nil => []
  | .cons s ss => s.code c n ++ ss.code c (n + s.constructs)

end

/-! ## Classes -/

/-- The number of variables of a kind among some declarations. -/
def countKind (kind : Kind) (ds : List Declaration) : Nat :=
  ds.countP (·.kind = kind)

/-- What a subroutine does before its first statement. A constructor makes an object with a cell
for each field; a method takes its receiver. -/
def SubroutineDec.prologueCode (d : ClassDec) (s : SubroutineDec) : List Instruction :=
  match s.kind with
  | .constructor =>
    [.push .constant (countKind .field d.declarations), .call "Memory.alloc" 1, .pop .pointer 0]
  | .method => [.push .argument 0, .pop .pointer 0]
  | .function => []

/-- The block of a subroutine. -/
def SubroutineDec.code (d : ClassDec) (n : Nat) (s : SubroutineDec) : List Instruction :=
  .function (d.name ++ "." ++ s.name) (countKind .localVar s.declarations) ::
    (s.prologueCode d ++ s.body.code (d.context s) n)

namespace ClassDec

/-- The blocks of some subroutines, the first with constructs from `n` on. -/
def blocksFrom (d : ClassDec) (n : Nat) : List SubroutineDec → List (List Instruction)
  | [] => []
  | s :: ss => s.code d n :: d.blocksFrom (n + s.body.constructs) ss

/-- The blocks of the subroutines of a class. -/
def blocks (d : ClassDec) : List (List Instruction) :=
  d.blocksFrom 0 d.subroutines

/-- The code of a class. -/
def code (d : ClassDec) : List Instruction :=
  d.blocks.flatten

end ClassDec

end JackToVm
