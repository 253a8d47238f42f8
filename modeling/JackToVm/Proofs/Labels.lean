import Mathlib.Data.List.Nodup
import JackToVm.Proofs.Provenance

/-!
# Labels

Every label of a class belongs to one construct and to one purpose, so no two places of its code
have the same label.

The constructs that jump are told by their first words, `if` and `while`. The labels of a construct
carry the number that it has in the order of these words.

Results.
1. The text of a label tells its purpose and its number (`labelText_injective`).
2. The labels in the code of some statements are those of their constructs
   (`Statements.labelsOf_code`), and they are pairwise distinct (`Statements.nodup_labelsOf`).
-/

namespace JackToVm

/-! ## Constructs -/

inductive Construct
  | conditional | loop
deriving DecidableEq, Repr

/-- What the labels of a construct are for. -/
def Construct.purposes : Construct → List String
  | conditional => ["IF_ELSE", "IF_END"]
  | loop => ["WHILE_EXP", "WHILE_END"]

/-- The construct that a keyword is the first word of. -/
def Keyword.construct? : Keyword → Option Construct
  | kwIf => some .conditional
  | kwWhile => some .loop
  | _ => none

def Terminal.construct? : Terminal → Option Construct
  | keyword k => k.construct?
  | symbol _ | identifier _ | integer _ | string _ => none

namespace Terminal

@[simp]
theorem construct?_keyword (k : Keyword) : (keyword k).construct? = k.construct? := rfl

@[simp]
theorem construct?_symbol (s : Symbol) : (symbol s).construct? = none := rfl

@[simp]
theorem construct?_identifier (name : String) : (identifier name).construct? = none := rfl

@[simp]
theorem construct?_integer (n : Nat) : (integer n).construct? = none := rfl

@[simp]
theorem construct?_string (text : String) : (string text).construct? = none := rfl

end Terminal

/-- The constructs that are written in a text. -/
def constructsOf (ts : List Terminal) : List Construct :=
  ts.filterMap Terminal.construct?

@[simp]
theorem constructsOf_nil : constructsOf [] = [] := rfl

@[simp]
theorem constructsOf_append (ts us : List Terminal) :
    constructsOf (ts ++ us) = constructsOf ts ++ constructsOf us :=
  List.filterMap_append

@[simp]
theorem constructsOf_cons (t : Terminal) (ts : List Terminal) :
    constructsOf (t :: ts) = t.construct?.toList ++ constructsOf ts := by
  rw [constructsOf, List.filterMap_cons]
  cases t.construct? <;> rfl

@[simp]
theorem ConstantWord.construct?_keyword (w : ConstantWord) : w.keyword.construct? = none := by
  cases w <;> rfl

/-! Expressions have no constructs. -/

mutual

@[simp]
theorem Expression.constructsOf_terminals (e : Expression) : constructsOf e.terminals = [] := by
  cases e with
  | of t ops =>
    simp [Expression.terminals, t.constructsOf_terminals, ops.constructsOf_terminals]

theorem Operations.constructsOf_terminals (ops : Operations) : constructsOf ops.terminals = [] := by
  cases ops with
  | nil => rfl
  | cons o t ops =>
    simp [Operations.terminals, t.constructsOf_terminals, ops.constructsOf_terminals]

theorem Term.constructsOf_terminals (t : Term) : constructsOf t.terminals = [] := by
  cases t with
  | integer | text | var => rfl
  | word w => simp [Term.terminals]
  | element x e => simp [Term.terminals, e.constructsOf_terminals]
  | call call => exact call.constructsOf_terminals
  | group e => simp [Term.terminals, e.constructsOf_terminals]
  | unary o t => simp [Term.terminals, t.constructsOf_terminals]

@[simp]
theorem Call.constructsOf_terminals (call : Call) : constructsOf call.terminals = [] := by
  cases call with
  | own m as => simp [Call.terminals, as.constructsOf_terminals]
  | dotted x m as => simp [Call.terminals, as.constructsOf_terminals]

theorem Arguments.constructsOf_terminals (as : Arguments) : constructsOf as.terminals = [] := by
  cases as with
  | nil => rfl
  | cons e as =>
    simp [Arguments.terminals, e.constructsOf_terminals, as.constructsOf_moreTerminals]

theorem Arguments.constructsOf_moreTerminals (as : Arguments) :
    constructsOf as.moreTerminals = [] := by
  cases as with
  | nil => rfl
  | cons e as =>
    simp [Arguments.moreTerminals, e.constructsOf_terminals, as.constructsOf_moreTerminals]

end

mutual

theorem Statement.length_constructsOf (s : Statement) :
    (constructsOf s.terminals).length = s.constructs := by
  cases s with
  | letVariable | letElement | doCall | returnNothing | returnValue =>
    simp [Keyword.construct?, Statement.terminals, Statement.constructs]
  | ifThen e body =>
    simp [Keyword.construct?, Statement.terminals, Statement.constructs, body.length_constructsOf,
      Nat.add_comm]
  | ifElse e body other =>
    simp [Keyword.construct?, Statement.terminals, Statement.constructs, body.length_constructsOf,
      other.length_constructsOf, Nat.add_comm]
  | whileDo e body =>
    simp [Keyword.construct?, Statement.terminals, Statement.constructs, body.length_constructsOf,
      Nat.add_comm]

theorem Statements.length_constructsOf (ss : Statements) :
    (constructsOf ss.terminals).length = ss.constructs := by
  cases ss with
  | nil => rfl
  | cons s ss =>
    simp [Statements.terminals, Statements.constructs, s.length_constructsOf,
      ss.length_constructsOf]

end

/-! Declarations have none. -/

@[simp]
theorem TypeName.construct?_terminal (t : TypeName) : t.terminal.construct? = none := by
  cases t <;> rfl

@[simp]
theorem Names.constructsOf_terminals (names : Names) : constructsOf names.terminals = [] := by
  have more (xs : List String) : constructsOf (moreTerminals xs) = [] := by
    induction xs with
    | nil => rfl
    | cons x xs ih => simpa [moreTerminals] using ih
  simp [terminals, more]

theorem Names.constructsOf_localTerminals (ds : List Names) :
    constructsOf (ds.flatMap localTerminals) = [] := by
  induction ds with
  | nil => rfl
  | cons d ds ih => simp [localTerminals, ih, Keyword.construct?]

theorem ClassVarDec.constructsOf_terminals (ds : List ClassVarDec) :
    constructsOf (ds.flatMap terminals) = [] := by
  induction ds with
  | nil => rfl
  | cons d ds ih =>
    have word : d.kind.keyword.construct? = none := by cases d.kind <;> rfl
    simp [terminals, ih, word]

theorem Parameter.constructsOf_listTerminals (ps : List Parameter) :
    constructsOf (listTerminals ps) = [] := by
  have more (ps : List Parameter) : constructsOf (moreTerminals ps) = [] := by
    induction ps with
    | nil => rfl
    | cons p ps ih => simpa [moreTerminals] using ih
  cases ps with
  | nil => rfl
  | cons p ps => simp [listTerminals, more]

/-- The constructs of a subroutine are those of its statements. -/
@[simp]
theorem SubroutineDec.constructsOf_terminals (s : SubroutineDec) :
    constructsOf s.terminals = constructsOf s.body.terminals := by
  have word : s.kind.keyword.construct? = none := by cases s.kind <;> rfl
  have result : (TypeName.resultTerminal s.result).construct? = none := by
    cases s.result with
    | none => rfl
    | some t => exact t.construct?_terminal
  simp [terminals, moreTerminals, word, result,
    Parameter.constructsOf_listTerminals, Names.constructsOf_localTerminals]

theorem ClassDec.constructsOf_terminals (d : ClassDec) :
    constructsOf d.terminals = constructsOf (d.subroutines.flatMap SubroutineDec.terminals) := by
  simp [terminals, ClassVarDec.constructsOf_terminals, Keyword.construct?]

/-! ## The text of a label -/

/-- What labels are for. -/
def labelPurposes : List String :=
  ["IF_ELSE", "IF_END", "WHILE_EXP", "WHILE_END"]

/-- The label for a purpose of the construct with the given number. -/
def labelText (className purpose : String) (number : Nat) : String :=
  className ++ "." ++ purpose ++ toString number

theorem Construct.purposes_subset (x : Construct) : x.purposes ⊆ labelPurposes := by
  cases x <;> decide

theorem Construct.nodup_purposes (x : Construct) : x.purposes.Nodup := by
  cases x <;> decide

theorem toDigits_injective {m n : Nat} (h : Nat.toDigits 10 m = Nat.toDigits 10 n) : m = n := by
  have read := congrArg (Nat.ofDigitChars 10 · 0) h
  simpa only [Nat.ofDigitChars_ten_toDigits] using read

/-- No purpose is the start of another one, so a label can be taken apart. -/
theorem purpose_append_injective {p q : String} (hp : p ∈ labelPurposes)
    (hq : q ∈ labelPurposes) {m n : Nat}
    (h : p.toList ++ Nat.toDigits 10 m = q.toList ++ Nat.toDigits 10 n) : p = q ∧ m = n := by
  simp only [labelPurposes, List.mem_cons, List.not_mem_nil, or_false] at hp hq
  rcases hp with rfl | rfl | rfl | rfl <;> rcases hq with rfl | rfl | rfl | rfl <;>
    simp_all <;> exact toDigits_injective h

theorem labelText_injective {className p q : String} (hp : p ∈ labelPurposes)
    (hq : q ∈ labelPurposes) {m n : Nat} (h : labelText className p m = labelText className q n) :
    p = q ∧ m = n := by
  refine purpose_append_injective hp hq ?_
  have texts := congrArg String.toList h
  simpa [labelText, Nat.toList_repr] using texts

/-! ## The labels of constructs -/

/-- The labels of some constructs that are numbered from `n` on. -/
def labelsFrom (className : String) (n : Nat) (xs : List Construct) : List String :=
  (xs.zipIdx n).flatMap fun x => x.1.purposes.map (labelText className · x.2)

section

variable (className : String) (n : Nat)

@[simp]
theorem labelsFrom_nil : labelsFrom className n [] = [] := rfl

@[simp]
theorem labelsFrom_cons (x : Construct) (xs : List Construct) :
    labelsFrom className n (x :: xs) =
      x.purposes.map (labelText className · n) ++ labelsFrom className (n + 1) xs := by
  simp [labelsFrom]

theorem labelsFrom_append (xs ys : List Construct) :
    labelsFrom className n (xs ++ ys) =
      labelsFrom className n xs ++ labelsFrom className (n + xs.length) ys := by
  simp [labelsFrom, List.zipIdx_append]

theorem length_labelsFrom (xs : List Construct) :
    (labelsFrom className n xs).length = 2 * xs.length := by
  induction xs generalizing n with
  | nil => rfl
  | cons x xs ih =>
    have two : x.purposes.length = 2 := by cases x <;> rfl
    simp only [labelsFrom_cons, List.length_append, List.length_map, ih, two, List.length_cons]
    omega

end

theorem exists_of_mem_labelsFrom {className name : String} {n : Nat} {xs : List Construct}
    (mem : name ∈ labelsFrom className n xs) :
    ∃ purpose ∈ labelPurposes, ∃ number, n ≤ number ∧ number < n + xs.length ∧
      name = labelText className purpose number := by
  induction xs generalizing n with
  | nil => cases mem
  | cons x xs ih =>
    rw [labelsFrom_cons, List.mem_append] at mem
    rcases mem with mem | mem
    · obtain ⟨purpose, known, rfl⟩ := List.mem_map.1 mem
      exact ⟨purpose, x.purposes_subset known, n, Nat.le_refl n, by simp, rfl⟩
    · obtain ⟨purpose, known, number, above, below, rfl⟩ := ih mem
      rw [List.length_cons]
      exact ⟨purpose, known, number, by omega, by omega, rfl⟩

theorem nodup_labelsFrom (className : String) (n : Nat) (xs : List Construct) :
    (labelsFrom className n xs).Nodup := by
  induction xs generalizing n with
  | nil => exact List.nodup_nil
  | cons x xs ih =>
    rw [labelsFrom_cons, List.nodup_append']
    refine ⟨?_, ih _, ?_⟩
    · refine (List.nodup_map_iff_inj_on x.nodup_purposes).2 fun p hp q hq same => ?_
      exact (labelText_injective (x.purposes_subset hp) (x.purposes_subset hq) same).1
    · intro name mem later
      obtain ⟨p, hp, rfl⟩ := List.mem_map.1 mem
      obtain ⟨q, hq, number, above, -, same⟩ := exists_of_mem_labelsFrom later
      obtain ⟨-, rfl⟩ := labelText_injective (x.purposes_subset hp) hq same
      omega

/-! ## The labels of a code -/

@[simp]
def Instruction.label? : Instruction → Option String
  | label name => some name
  | push .. | pop .. | arithmetic _ | goto _ | ifGoto _ | call .. | function .. | ret => none

/-- The labels that stand in a code. -/
def labelsOf (code : List Instruction) : List String :=
  code.filterMap Instruction.label?

@[simp]
theorem labelsOf_nil : labelsOf [] = [] := rfl

@[simp]
theorem labelsOf_append (code more : List Instruction) :
    labelsOf (code ++ more) = labelsOf code ++ labelsOf more :=
  List.filterMap_append

@[simp]
theorem labelsOf_cons (i : Instruction) (code : List Instruction) :
    labelsOf (i :: code) = i.label?.toList ++ labelsOf code := by
  cases i <;> rfl

theorem mem_labelsOf {name : String} {code : List Instruction} :
    name ∈ labelsOf code ↔ .label name ∈ code := by
  induction code with
  | nil => simp
  | cons i code ih => cases i <;> simp [ih]

theorem Straight.labelsOf_eq_nil {code : List Instruction} (straight : Straight code) :
    labelsOf code = [] := by
  rw [List.eq_nil_iff_forall_not_mem]
  intro name mem
  cases straight _ (mem_labelsOf.1 mem)

/-- Expressions have no labels. -/
theorem Expression.labelsOf_code (c : Context) (e : Expression) : labelsOf (e.code c) = [] :=
  (e.straight_code c).labelsOf_eq_nil

theorem Call.labelsOf_code (c : Context) (call : Call) : labelsOf (call.code c) = [] :=
  (call.straight_code c).labelsOf_eq_nil

section

variable (c : Context) (n : Nat) (e : Expression) (body other : Statements)

theorem labelsOf_ifThen : labelsOf ((Statement.ifThen e body).code c n) =
    labelsOf (body.code c (n + 1)) ++ [c.label "IF_ELSE" n, c.label "IF_END" n] := by
  simp [Statement.code, e.labelsOf_code]

theorem labelsOf_ifElse : labelsOf ((Statement.ifElse e body other).code c n) =
    labelsOf (body.code c (n + 1)) ++ c.label "IF_ELSE" n ::
      (labelsOf (other.code c (n + 1 + body.constructs)) ++ [c.label "IF_END" n]) := by
  simp [Statement.code, e.labelsOf_code]

theorem labelsOf_whileDo : labelsOf ((Statement.whileDo e body).code c n) =
    c.label "WHILE_EXP" n :: (labelsOf (body.code c (n + 1)) ++ [c.label "WHILE_END" n]) := by
  simp [Statement.code, e.labelsOf_code]

theorem constructsOf_ifThen : constructsOf (Statement.ifThen e body).terminals =
    .conditional :: constructsOf body.terminals := by
  simp [Statement.terminals, Keyword.construct?]

theorem constructsOf_ifElse : constructsOf (Statement.ifElse e body other).terminals =
    .conditional :: (constructsOf body.terminals ++ constructsOf other.terminals) := by
  simp [Statement.terminals, Keyword.construct?]

theorem constructsOf_whileDo : constructsOf (Statement.whileDo e body).terminals =
    .loop :: constructsOf body.terminals := by
  simp [Statement.terminals, Keyword.construct?]

end

mutual

theorem Statement.labelsOf_code (c : Context) (n : Nat) (s : Statement) :
    (labelsOf (s.code c n)).Perm (labelsFrom c.className n (constructsOf s.terminals)) := by
  cases s with
  | letVariable | letElement | doCall | returnNothing | returnValue =>
    simp [Keyword.construct?, Statement.code, Statement.terminals, Instruction.load,
      Instruction.store, Expression.labelsOf_code, Call.labelsOf_code]
  | ifThen e body =>
    rw [labelsOf_ifThen, constructsOf_ifThen, labelsFrom_cons]
    exact List.perm_append_comm.trans ((body.labelsOf_code c (n + 1)).append_left _)
  | ifElse e body other =>
    rw [labelsOf_ifElse, constructsOf_ifElse, labelsFrom_cons, labelsFrom_append,
      body.length_constructsOf]
    refine List.perm_middle.trans (.cons _ ?_)
    rw [← List.append_assoc]
    refine List.perm_append_comm.trans (.cons _ ?_)
    exact (body.labelsOf_code c _).append (other.labelsOf_code c _)
  | whileDo e body =>
    rw [labelsOf_whileDo, constructsOf_whileDo, labelsFrom_cons]
    exact .cons _ (List.perm_append_comm.trans (.cons _ (body.labelsOf_code c (n + 1))))

theorem Statements.labelsOf_code (c : Context) (n : Nat) (ss : Statements) :
    (labelsOf (ss.code c n)).Perm (labelsFrom c.className n (constructsOf ss.terminals)) := by
  cases ss with
  | nil => exact .refl _
  | cons s ss =>
    simp only [Statements.code, Statements.terminals, labelsOf_append, constructsOf_append,
      labelsFrom_append, s.length_constructsOf]
    exact (s.labelsOf_code c n).append (ss.labelsOf_code c _)

end

/-- No two places in the code of some statements have the same label. -/
theorem Statements.nodup_labelsOf (c : Context) (n : Nat) (ss : Statements) :
    (labelsOf (ss.code c n)).Nodup :=
  (ss.labelsOf_code c n).nodup_iff.2 (nodup_labelsFrom _ _ _)

/-! ## The labels of a class -/

theorem SubroutineDec.straight_prologueCode (d : ClassDec) (s : SubroutineDec) :
    Straight (s.prologueCode d) := by
  unfold prologueCode
  cases s.kind <;> simp [Instruction.labelName?]

theorem SubroutineDec.labelsOf_code (d : ClassDec) (s : SubroutineDec) (n : Nat) :
    labelsOf (s.code d n) = labelsOf (s.body.code (d.context s) n) := by
  rw [SubroutineDec.code, labelsOf_cons, labelsOf_append,
    (s.straight_prologueCode d).labelsOf_eq_nil]
  rfl

namespace ClassDec

theorem labelsOf_blocksFrom (d : ClassDec) (n : Nat) (ss : List SubroutineDec) :
    (labelsOf (d.blocksFrom n ss).flatten).Perm
      (labelsFrom d.name n (constructsOf (ss.flatMap SubroutineDec.terminals))) := by
  induction ss generalizing n with
  | nil => exact .refl _
  | cons s ss ih =>
    rw [blocksFrom, List.flatten_cons, labelsOf_append, s.labelsOf_code, List.flatMap_cons,
      constructsOf_append, labelsFrom_append, s.constructsOf_terminals, s.body.length_constructsOf]
    exact (s.body.labelsOf_code (d.context s) n).append (ih _)

/-- The labels of a class are those of its constructs, numbered in the order of their first
words. -/
theorem labelsOf_code (d : ClassDec) :
    (labelsOf d.code).Perm (labelsFrom d.name 0 (constructsOf d.terminals)) := by
  rw [d.constructsOf_terminals]
  exact d.labelsOf_blocksFrom 0 d.subroutines

theorem nodup_labelsOf (d : ClassDec) : (labelsOf d.code).Nodup :=
  d.labelsOf_code.nodup_iff.2 (nodup_labelsFrom _ _ _)

end ClassDec

end JackToVm
