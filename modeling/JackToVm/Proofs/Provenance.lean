import JackToVm.Proofs.Translation

/-!
# Where instructions come from

Every instruction of a class is there for a literal, a name or a fixed step of a construct. A
statement about all instructions of a class is then a statement about each of these sources.

Results.
1. The instructions of an expression and of some statements (`Expression.provenance`,
   `Statements.provenance`), by recursion on the tree.
2. Expressions do not jump (`AllOfExpression.straight`), and no block has the header of another one
   in it (`SubroutineDec.isBlock_code`).
-/

namespace JackToVm

/-! ## Expressions -/

/-- An instruction of an expression that is written with the terminals `ts` and makes the given
uses of names and strings. -/
inductive OfExpression (c : Context) (uses : List Use) (ts : List Terminal) : Instruction → Prop
  | integer {n : Nat} : .integer n ∈ ts → OfExpression c uses ts (.push .constant n)
  | zero : OfExpression c uses ts (.push .constant 0)
  | length {text : String} : .text text ∈ uses →
      OfExpression c uses ts (.push .constant text.length)
  | char {text : String} {char : Char} : .text text ∈ uses → char ∈ text.toList →
      OfExpression c uses ts (.push .constant char.toNat)
  | this : OfExpression c uses ts (.push .pointer 0)
  | load {x : String} : .var x ∈ uses → OfExpression c uses ts (.load (c.slot x))
  | receiver {x : String} {v : Variable} : .receiver x ∈ uses → c.resolve x = some v →
      OfExpression c uses ts (.load v.slot)
  | bindThat : OfExpression c uses ts (.pop .pointer 1)
  | loadThat : OfExpression c uses ts (.push .that 0)
  | arithmetic (command : Operation) : OfExpression c uses ts (.arithmetic command)
  | call (name : String) (count : Nat) : OfExpression c uses ts (.call name count)

theorem OfExpression.mono {c : Context} {uses uses' : List Use} {ts ts' : List Terminal}
    {i : Instruction} (h : OfExpression c uses ts i) (moreUses : uses ⊆ uses')
    (moreTerminals : ts ⊆ ts') : OfExpression c uses' ts' i := by
  cases h with
  | integer mem => exact .integer (moreTerminals mem)
  | zero => exact .zero
  | length mem => exact .length (moreUses mem)
  | char mem mem' => exact .char (moreUses mem) mem'
  | this => exact .this
  | load mem => exact .load (moreUses mem)
  | receiver mem found => exact .receiver (moreUses mem) found
  | bindThat => exact .bindThat
  | loadThat => exact .loadThat
  | arithmetic command => exact .arithmetic command
  | call name count => exact .call name count

/-- All instructions of a code come from an expression. -/
def AllOfExpression (c : Context) (uses : List Use) (ts : List Terminal)
    (code : List Instruction) : Prop :=
  ∀ i ∈ code, OfExpression c uses ts i

namespace AllOfExpression

variable {c : Context} {uses uses' : List Use} {ts ts' : List Terminal} {i : Instruction}
  {code code' : List Instruction}

theorem nil : AllOfExpression c uses ts [] := by
  simp [AllOfExpression]

theorem cons (first : OfExpression c uses ts i) (more : AllOfExpression c uses ts code) :
    AllOfExpression c uses ts (i :: code) :=
  List.forall_mem_cons.2 ⟨first, more⟩

theorem append (first : AllOfExpression c uses ts code)
    (more : AllOfExpression c uses ts code') : AllOfExpression c uses ts (code ++ code') :=
  List.forall_mem_append.2 ⟨first, more⟩

theorem mono (h : AllOfExpression c uses ts code) (moreUses : uses ⊆ uses')
    (moreTerminals : ts ⊆ ts') : AllOfExpression c uses' ts' code :=
  fun i mem => (h i mem).mono moreUses moreTerminals

end AllOfExpression

theorem BinaryOperator.provenance (o : BinaryOperator) (c : Context) (uses : List Use)
    (ts : List Terminal) : OfExpression c uses ts o.code := by
  cases o <;> first | exact .arithmetic _ | exact .call _ _

theorem UnaryOperator.provenance (o : UnaryOperator) (c : Context) (uses : List Use)
    (ts : List Terminal) : OfExpression c uses ts o.code := by
  cases o <;> exact .arithmetic _

theorem ConstantWord.provenance (w : ConstantWord) (c : Context) (uses : List Use)
    (ts : List Terminal) : AllOfExpression c uses ts w.code := by
  cases w with
  | trueWord => exact .cons .zero (.cons (.arithmetic _) .nil)
  | falseWord | nullWord => exact .cons .zero .nil
  | thisWord => exact .cons .this .nil

theorem textCode_provenance {c : Context} {uses : List Use} {ts : List Terminal} {text : String}
    (used : .text text ∈ uses) : AllOfExpression c uses ts (textCode text) := by
  have characters (cs : List Char) (part : cs ⊆ text.toList) :
      AllOfExpression c uses ts (cs.flatMap fun char =>
        [.push .constant char.toNat, .call "String.appendChar" 2]) := by
    induction cs with
    | nil => exact .nil
    | cons char cs ih =>
      rw [List.cons_subset] at part
      exact .cons (.char used part.1) (.cons (.call _ _) (ih part.2))
  exact .cons (.length used) (.cons (.call _ _) (characters _ (List.Subset.refl _)))

theorem Context.receiverCode_provenance {c : Context} {uses : List Use} {ts : List Terminal}
    {receiver : String} (used : .receiver receiver ∈ uses) :
    AllOfExpression c uses ts (c.receiverCode receiver) := by
  unfold receiverCode
  split
  · next v found => exact .cons (.receiver used found) .nil
  · exact .nil

mutual

theorem Expression.provenance (c : Context) (e : Expression) :
    AllOfExpression c e.uses e.terminals (e.code c) := by
  cases e with
  | of t ops =>
    rw [Expression.uses, Expression.terminals, Expression.code]
    refine .append ((t.provenance c).mono ?_ ?_) ((ops.provenance c).mono ?_ ?_) <;> grind

theorem Operations.provenance (c : Context) (ops : Operations) :
    AllOfExpression c ops.uses ops.terminals (ops.code c) := by
  cases ops with
  | nil => exact .nil
  | cons o t ops =>
    rw [Operations.uses, Operations.terminals, Operations.code]
    refine .append ((t.provenance c).mono ?_ ?_)
      (.cons (o.provenance c _ _) ((ops.provenance c).mono ?_ ?_)) <;> grind

theorem Term.provenance (c : Context) (t : Term) :
    AllOfExpression c t.uses t.terminals (t.code c) := by
  cases t with
  | integer n => exact .cons (.integer (.head _)) .nil
  | text text => exact textCode_provenance (.head _)
  | word w => exact w.provenance c _ _
  | var x => exact .cons (.load (.head _)) .nil
  | element x e =>
    rw [Term.uses, Term.terminals, Term.code]
    refine .append ((e.provenance c).mono ?_ ?_)
      (.cons (.load (.head _)) (.cons (.arithmetic _) (.cons .bindThat (.cons .loadThat .nil))))
      <;> grind
  | call call => exact call.provenance c
  | group e =>
    rw [Term.uses, Term.terminals, Term.code]
    refine (e.provenance c).mono ?_ ?_ <;> grind
  | unary o t =>
    rw [Term.uses, Term.terminals, Term.code]
    refine .append ((t.provenance c).mono ?_ ?_) (.cons (o.provenance c _ _) .nil) <;> grind

theorem Call.provenance (c : Context) (call : Call) :
    AllOfExpression c call.uses call.terminals (call.code c) := by
  cases call with
  | own m as =>
    rw [Call.uses, Call.terminals, Call.code]
    refine .cons .this (.append ((as.provenance c).mono ?_ ?_) (.cons (.call _ _) .nil)) <;> grind
  | dotted x m as =>
    rw [Call.uses, Call.terminals, Call.code]
    refine .append (Context.receiverCode_provenance (.head _))
      (.append ((as.provenance c).mono ?_ ?_) (.cons (.call _ _) .nil)) <;> grind

theorem Arguments.provenance (c : Context) (as : Arguments) :
    AllOfExpression c as.uses as.terminals (as.code c) := by
  cases as with
  | nil => exact .nil
  | cons e as =>
    rw [Arguments.uses, Arguments.terminals, Arguments.code]
    refine .append ((e.provenance c).mono ?_ ?_) ((as.provenance_more c).mono ?_ ?_) <;> grind

theorem Arguments.provenance_more (c : Context) (as : Arguments) :
    AllOfExpression c as.uses as.moreTerminals (as.code c) := by
  cases as with
  | nil => exact .nil
  | cons e as =>
    rw [Arguments.uses, Arguments.moreTerminals, Arguments.code]
    refine .append ((e.provenance c).mono ?_ ?_) ((as.provenance_more c).mono ?_ ?_) <;> grind

end

/-! ## Statements -/

/-- An instruction of some statements that are written with the terminals `ts` and make the given
uses of names and strings. -/
inductive OfStatement (c : Context) (uses : List Use) (ts : List Terminal) : Instruction → Prop
  | ofExpression {i : Instruction} : OfExpression c uses ts i → OfStatement c uses ts i
  | store {x : String} : .var x ∈ uses → OfStatement c uses ts (.store (c.slot x))
  | drop : OfStatement c uses ts (.pop .temp 0)
  | loadTemp : OfStatement c uses ts (.push .temp 0)
  | storeThat : OfStatement c uses ts (.pop .that 0)
  | label (name : String) : OfStatement c uses ts (.label name)
  | goto (name : String) : OfStatement c uses ts (.goto name)
  | ifGoto (name : String) : OfStatement c uses ts (.ifGoto name)
  | ret : OfStatement c uses ts .ret

theorem OfStatement.mono {c : Context} {uses uses' : List Use} {ts ts' : List Terminal}
    {i : Instruction} (h : OfStatement c uses ts i) (moreUses : uses ⊆ uses')
    (moreTerminals : ts ⊆ ts') : OfStatement c uses' ts' i := by
  cases h with
  | ofExpression inner => exact .ofExpression (inner.mono moreUses moreTerminals)
  | store mem => exact .store (moreUses mem)
  | drop => exact .drop
  | loadTemp => exact .loadTemp
  | storeThat => exact .storeThat
  | label name => exact .label name
  | goto name => exact .goto name
  | ifGoto name => exact .ifGoto name
  | ret => exact .ret

/-- All instructions of a code come from some statements. -/
def AllOfStatement (c : Context) (uses : List Use) (ts : List Terminal)
    (code : List Instruction) : Prop :=
  ∀ i ∈ code, OfStatement c uses ts i

namespace AllOfStatement

variable {c : Context} {uses uses' : List Use} {ts ts' : List Terminal} {i : Instruction}
  {code code' : List Instruction}

theorem nil : AllOfStatement c uses ts [] := by
  simp [AllOfStatement]

theorem cons (first : OfStatement c uses ts i) (more : AllOfStatement c uses ts code) :
    AllOfStatement c uses ts (i :: code) :=
  List.forall_mem_cons.2 ⟨first, more⟩

theorem append (first : AllOfStatement c uses ts code)
    (more : AllOfStatement c uses ts code') : AllOfStatement c uses ts (code ++ code') :=
  List.forall_mem_append.2 ⟨first, more⟩

theorem mono (h : AllOfStatement c uses ts code) (moreUses : uses ⊆ uses')
    (moreTerminals : ts ⊆ ts') : AllOfStatement c uses' ts' code :=
  fun i mem => (h i mem).mono moreUses moreTerminals

end AllOfStatement

/-- The code of an expression that is a part of a statement. -/
theorem AllOfExpression.inStatement {c : Context} {uses uses' : List Use}
    {ts ts' : List Terminal} {code : List Instruction} (h : AllOfExpression c uses ts code)
    (moreUses : uses ⊆ uses') (moreTerminals : ts ⊆ ts') : AllOfStatement c uses' ts' code :=
  fun i mem => .ofExpression ((h i mem).mono moreUses moreTerminals)

mutual

theorem Statement.provenance (c : Context) (n : Nat) (s : Statement) :
    AllOfStatement c s.uses s.terminals (s.code c n) := by
  have arithmetic {uses : List Use} {ts : List Terminal} (command : Operation) :
      OfStatement c uses ts (.arithmetic command) := .ofExpression (.arithmetic command)
  cases s with
  | letVariable x e =>
    rw [Statement.uses, Statement.terminals, Statement.code]
    refine .append ((e.provenance c).inStatement ?_ ?_) (.cons (.store (.head _)) .nil) <;> grind
  | letElement x i e =>
    rw [Statement.uses, Statement.terminals, Statement.code]
    refine .append ((i.provenance c).inStatement ?_ ?_)
      (.cons (.ofExpression (.load (.head _))) (.cons (arithmetic _)
        (.append ((e.provenance c).inStatement ?_ ?_)
          (.cons .drop (.cons (.ofExpression .bindThat) (.cons .loadTemp (.cons .storeThat .nil))))
          ))) <;> grind
  | ifThen e body =>
    rw [Statement.uses, Statement.terminals, Statement.code]
    refine .append ((e.provenance c).inStatement ?_ ?_)
      (.cons (arithmetic _) (.cons (.ifGoto _) (.append ((body.provenance c _).mono ?_ ?_)
        (.cons (.goto _) (.cons (.label _) (.cons (.label _) .nil)))))) <;> grind
  | ifElse e body other =>
    rw [Statement.uses, Statement.terminals, Statement.code]
    refine .append ((e.provenance c).inStatement ?_ ?_)
      (.cons (arithmetic _) (.cons (.ifGoto _) (.append ((body.provenance c _).mono ?_ ?_)
        (.cons (.goto _) (.cons (.label _) (.append ((other.provenance c _).mono ?_ ?_)
          (.cons (.label _) .nil))))))) <;> grind
  | whileDo e body =>
    rw [Statement.uses, Statement.terminals, Statement.code]
    refine .cons (.label _) (.append ((e.provenance c).inStatement ?_ ?_)
      (.cons (arithmetic _) (.cons (.ifGoto _) (.append ((body.provenance c _).mono ?_ ?_)
        (.cons (.goto _) (.cons (.label _) .nil)))))) <;> grind
  | doCall call =>
    rw [Statement.uses, Statement.terminals, Statement.code]
    refine .append ((call.provenance c).inStatement ?_ ?_) (.cons .drop .nil) <;> grind
  | returnNothing => exact .cons (.ofExpression .zero) (.cons .ret .nil)
  | returnValue e =>
    rw [Statement.uses, Statement.terminals, Statement.code]
    refine .append ((e.provenance c).inStatement ?_ ?_) (.cons .ret .nil) <;> grind

theorem Statements.provenance (c : Context) (n : Nat) (ss : Statements) :
    AllOfStatement c ss.uses ss.terminals (ss.code c n) := by
  cases ss with
  | nil => exact .nil
  | cons s ss =>
    rw [Statements.uses, Statements.terminals, Statements.code]
    refine .append ((s.provenance c _).mono ?_ ?_) ((ss.provenance c _).mono ?_ ?_) <;> grind

end

/-! ## Labels and jumps -/

namespace Instruction

/-- The label that an instruction makes or jumps to. -/
@[simp]
def labelName? : Instruction → Option String
  | label name | goto name | ifGoto name => some name
  | push .. | pop .. | arithmetic _ | call .. | function .. | ret => none
end Instruction

/-- A code without labels and jumps. -/
def Straight (code : List Instruction) : Prop :=
  ∀ i ∈ code, i.labelName? = none

@[simp]
theorem straight_nil : Straight [] := by
  simp [Straight]

@[simp]
theorem straight_cons {i : Instruction} {code : List Instruction} :
    Straight (i :: code) ↔ i.labelName? = none ∧ Straight code :=
  List.forall_mem_cons

@[simp]
theorem straight_append {code more : List Instruction} :
    Straight (code ++ more) ↔ Straight code ∧ Straight more :=
  List.forall_mem_append

/-- Expressions have no labels and do not jump. -/
theorem AllOfExpression.straight {c : Context} {uses : List Use} {ts : List Terminal}
    {code : List Instruction} (h : AllOfExpression c uses ts code) : Straight code := by
  intro i mem
  cases h i mem <;> rfl

@[simp]
theorem Expression.straight_code (c : Context) (e : Expression) : Straight (e.code c) :=
  (e.provenance c).straight

@[simp]
theorem Call.straight_code (c : Context) (call : Call) : Straight (call.code c) :=
  (call.provenance c).straight

/-! ## Blocks -/

def Instruction.isHeader : Instruction → Bool
  | function .. => true
  | push .. | pop .. | arithmetic _ | label _ | goto _ | ifGoto _ | call .. | ret => false

/-- A block starts with its header and has no other. -/
def IsBlock (name : String) (count : Nat) (block : List Instruction) : Prop :=
  ∃ code, block = .function name count :: code ∧ ∀ i ∈ code, ¬ i.isHeader

theorem OfStatement.not_isHeader {c : Context} {uses : List Use} {ts : List Terminal}
    {i : Instruction} (h : OfStatement c uses ts i) : ¬ i.isHeader := by
  cases h with
  | ofExpression inner => cases inner <;> exact Bool.false_ne_true
  | _ => exact Bool.false_ne_true

theorem SubroutineDec.isBlock_code (d : ClassDec) (n : Nat) (s : SubroutineDec) :
    IsBlock (d.name ++ "." ++ s.name) (countKind .localVar s.declarations) (s.code d n) := by
  refine ⟨_, rfl, List.forall_mem_append.2 ⟨?_, ?_⟩⟩
  · unfold prologueCode
    cases s.kind <;> simp [Instruction.isHeader]
  · exact fun i mem => (s.body.provenance (d.context s) n i mem).not_isHeader

/-- Every block is that of a subroutine. -/
theorem ClassDec.exists_of_mem_blocksFrom {d : ClassDec} {n : Nat} {ss : List SubroutineDec}
    {block : List Instruction} (mem : block ∈ d.blocksFrom n ss) :
    ∃ s ∈ ss, ∃ m, block = s.code d m := by
  induction ss generalizing n with
  | nil => cases mem
  | cons s ss ih =>
    rcases List.mem_cons.1 mem with rfl | mem
    · exact ⟨s, .head _, n, rfl⟩
    · obtain ⟨s', mem', m, rfl⟩ := ih mem
      exact ⟨s', .tail _ mem', m, rfl⟩

/-- Every subroutine has a block. -/
theorem ClassDec.exists_code_mem_blocksFrom (d : ClassDec) {s : SubroutineDec}
    {ss : List SubroutineDec} (mem : s ∈ ss) (n : Nat) : ∃ m, s.code d m ∈ d.blocksFrom n ss := by
  induction ss generalizing n with
  | nil => cases mem
  | cons s' ss ih =>
    rcases List.mem_cons.1 mem with rfl | mem
    · exact ⟨n, .head _⟩
    · obtain ⟨m, later⟩ := ih mem (n + s'.body.constructs)
      exact ⟨m, .tail _ later⟩

end JackToVm
