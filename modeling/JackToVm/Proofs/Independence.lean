import Mathlib.Data.List.Forall2
import JackToVm.Proofs.Labels
import JackToVm.Proofs.Unambiguity

/-!
# Subroutines are compiled apart

A subroutine sees the declarations of its class and its own, and nothing of the other subroutines
but how many constructs stand before it. So a class is compiled as if each of its subroutines was
the only one, with the numbers of the labels moved up.

Results.
1. The code of a subroutine for a later number is its code with the labels moved up
   (`SubroutineDec.code_add`).
2. A class keeps the rules exactly if it does with each of its subroutines alone
   (`ClassDec.wellScoped_iff_only`), and its code is made of theirs (`ClassDec.code_eq_joinedCode`).
3. The same for sources (`instructions_eq_ok_iff_each`).
-/

namespace JackToVm

/-! ## Moving labels up -/

/-- A text that ends with a number, with this number increased. -/
def renumber (k : Nat) (name : String) : String :=
  let back := name.toList.reverse
  String.ofList (back.dropWhile Char.isDigit).reverse ++
    toString (Nat.ofDigitChars 10 (back.takeWhile Char.isDigit).reverse 0 + k)

/-- An instruction with the number of its label increased. -/
def Instruction.shift (k : Nat) : Instruction → Instruction
  | label name => label (renumber k name)
  | goto name => goto (renumber k name)
  | ifGoto name => ifGoto (renumber k name)
  | push segment index => push segment index
  | pop segment index => pop segment index
  | arithmetic command => arithmetic command
  | call name count => call name count
  | function name count => function name count
  | ret => ret

/-- Digits that stand behind something else are found again. -/
theorem renumber_append {stem : List Char} {last : Char} (other : last.isDigit = false)
    (n k : Nat) : renumber k (String.ofList (stem ++ last :: Nat.toDigits 10 n)) =
      String.ofList (stem ++ [last]) ++ toString (n + k) := by
  have digits : ∀ char ∈ (Nat.toDigits 10 n).reverse, char.isDigit := fun char mem =>
    Nat.isDigit_of_mem_toDigits (by decide) (by decide) (List.mem_reverse.1 mem)
  have back : (stem ++ last :: Nat.toDigits 10 n).reverse =
      (Nat.toDigits 10 n).reverse ++ last :: stem.reverse := by simp
  have number : ((stem ++ last :: Nat.toDigits 10 n).reverse).takeWhile Char.isDigit =
      (Nat.toDigits 10 n).reverse := by
    rw [back, List.takeWhile_append_of_pos digits, List.takeWhile_cons_of_neg (by simp [other]),
      List.append_nil]
  have before : ((stem ++ last :: Nat.toDigits 10 n).reverse).dropWhile Char.isDigit =
      last :: stem.reverse := by
    rw [back, List.dropWhile_append_of_pos digits, List.dropWhile_cons_of_neg (by simp [other])]
  simp only [renumber, String.toList_ofList, number, before, List.reverse_reverse,
    Nat.ofDigitChars_ten_toDigits, List.reverse_cons]

theorem renumber_labelText {purpose : String} (known : purpose ∈ labelPurposes)
    (className : String) (n k : Nat) :
    renumber k (labelText className purpose n) = labelText className purpose (n + k) := by
  -- The last letter of a purpose is no digit.
  obtain ⟨stem, last, spelled, other⟩ : ∃ stem last, purpose.toList = stem ++ [last] ∧
      last.isDigit = false := by
    simp only [labelPurposes, List.mem_cons, List.not_mem_nil, or_false] at known
    rcases known with rfl | rfl | rfl | rfl <;>
      exact ⟨_, _, (List.dropLast_append_getLast (by decide)).symm, by decide⟩
  have text (n : Nat) : labelText className purpose n =
      String.ofList ((className.toList ++ '.' :: stem) ++ last :: Nat.toDigits 10 n) := by
    apply String.toList_inj.1
    simp [labelText, spelled, Nat.toList_repr]
  rw [text, renumber_append other]
  apply String.toList_inj.1
  simp [labelText, spelled]

theorem Context.renumber_label {purpose : String} (known : purpose ∈ labelPurposes)
    (c : Context) (n k : Nat) : renumber k (c.label purpose n) = c.label purpose (n + k) :=
  renumber_labelText known c.className n k

theorem Instruction.shift_of_labelName? {i : Instruction} (other : i.labelName? = none) (k : Nat) :
    i.shift k = i := by
  cases i <;> first | rfl | cases other

theorem Straight.map_shift {code : List Instruction} (straight : Straight code) (k : Nat) :
    code.map (.shift k) = code :=
  (List.map_congr_left fun i mem => Instruction.shift_of_labelName? (straight i mem) k).trans
    (List.map_id code)

/-! ## Statements -/

mutual

theorem Statement.code_add (c : Context) (n k : Nat) (s : Statement) :
    s.code c (n + k) = (s.code c n).map (.shift k) := by
  have moved (purpose : String) (known : purpose ∈ labelPurposes) :=
    c.renumber_label known n k
  have elseLabel := moved "IF_ELSE" (by decide)
  have endLabel := moved "IF_END" (by decide)
  have loopLabel := moved "WHILE_EXP" (by decide)
  have leaveLabel := moved "WHILE_END" (by decide)
  cases s with
  | letVariable | letElement | doCall | returnNothing | returnValue =>
    refine (Straight.map_shift ?_ k).symm
    simp [Statement.code, Instruction.labelName?, Instruction.load, Instruction.store]
  | ifThen e body =>
    have condition := (e.straight_code c).map_shift k
    rw [Statement.code, Statement.code, Nat.add_right_comm, body.code_add c]
    simp [Instruction.shift, condition, elseLabel, endLabel]
  | ifElse e body other =>
    have condition := (e.straight_code c).map_shift k
    rw [Statement.code, Statement.code, Nat.add_right_comm, body.code_add c,
      Nat.add_right_comm (n + 1), other.code_add c]
    simp [Instruction.shift, condition, elseLabel, endLabel]
  | whileDo e body =>
    have condition := (e.straight_code c).map_shift k
    rw [Statement.code, Statement.code, Nat.add_right_comm, body.code_add c]
    simp [Instruction.shift, condition, loopLabel, leaveLabel]

theorem Statements.code_add (c : Context) (n k : Nat) (ss : Statements) :
    ss.code c (n + k) = (ss.code c n).map (.shift k) := by
  cases ss with
  | nil => rfl
  | cons s ss =>
    rw [Statements.code, Statements.code, List.map_append, s.code_add c, Nat.add_right_comm,
      ss.code_add c]

end

/-! ## Subroutines -/

theorem SubroutineDec.code_add (d : ClassDec) (n k : Nat) (s : SubroutineDec) :
    s.code d (n + k) = (s.code d n).map (.shift k) := by
  rw [code, code, List.map_cons, List.map_append, s.body.code_add,
    (s.straight_prologueCode d).map_shift]
  rfl

namespace ClassDec

/-- A class with one subroutine of another one. -/
def only (d : ClassDec) (s : SubroutineDec) : ClassDec :=
  { d with subroutines := [s] }

theorem code_only (d : ClassDec) (s : SubroutineDec) : (d.only s).code = s.code d 0 :=
  List.append_nil _

theorem wellScoped_only (d : ClassDec) (s s' : SubroutineDec) :
    s.WellScoped (d.only s') ↔ s.WellScoped d :=
  ⟨fun rules => ⟨rules.distinct, rules.uses⟩, fun rules => ⟨rules.distinct, rules.uses⟩⟩

/-- A class keeps the rules exactly if it does with each of its subroutines alone. -/
theorem wellScoped_iff_only {d : ClassDec} (some : d.subroutines ≠ []) :
    d.WellScoped ↔ ∀ s ∈ d.subroutines, (d.only s).WellScoped := by
  constructor
  · intro rules s mem
    refine ⟨rules.distinct, fun s' mem' => ?_⟩
    rw [List.mem_singleton.1 mem', wellScoped_only]
    exact rules.subroutines s mem
  · intro each
    obtain ⟨s, mem⟩ := List.exists_mem_of_ne_nil _ some
    refine ⟨(each s mem).distinct, fun s mem => ?_⟩
    exact (d.wellScoped_only s s).1 ((each s mem).subroutines s (List.mem_singleton.2 rfl))

theorem WellScoped.only {d : ClassDec} (rules : d.WellScoped) {s : SubroutineDec}
    (mem : s ∈ d.subroutines) : (d.only s).WellScoped :=
  (wellScoped_iff_only (List.ne_nil_of_mem mem)).1 rules s mem

end ClassDec

/-- The number of constructs before the subroutine with the index `i`. -/
def constructsBefore (ss : List SubroutineDec) (i : Nat) : Nat :=
  (constructsOf ((ss.take i).flatMap SubroutineDec.terminals)).length

theorem constructsBefore_cons_succ (s : SubroutineDec) (ss : List SubroutineDec) (i : Nat) :
    constructsBefore (s :: ss) (i + 1) = s.body.constructs + constructsBefore ss i := by
  simp [constructsBefore, s.body.length_constructsOf]

/-- The codes of some subroutines behind each other, each with its labels moved up by the constructs
before it. -/
def joinedCode (ss : List SubroutineDec) (codes : List (List Instruction)) : List Instruction :=
  (codes.mapIdx fun i code => code.map (.shift (constructsBefore ss i))).flatten

namespace ClassDec

theorem blocksFrom_eq_mapIdx (d : ClassDec) (n : Nat) (ss : List SubroutineDec) :
    d.blocksFrom n ss =
      ss.mapIdx fun i s => (d.only s).code.map (.shift (n + constructsBefore ss i)) := by
  induction ss generalizing n with
  | nil => rfl
  | cons s ss ih =>
    have first : s.code d n = (s.code d 0).map (.shift n) := by
      rw [← s.code_add, Nat.zero_add]
    rw [blocksFrom, ih, List.mapIdx_cons, d.code_only, first]
    simp only [constructsBefore_cons_succ, Nat.add_assoc]
    rfl

/-- The code of a class is made of those of its subroutines alone. -/
theorem code_eq_joinedCode (d : ClassDec) :
    d.code = joinedCode d.subroutines (d.subroutines.map fun s => (d.only s).code) := by
  rw [code, blocks, blocksFrom_eq_mapIdx, joinedCode]
  refine congrArg List.flatten (List.ext_getElem? fun i => ?_)
  simp [Option.map_map, Function.comp_def]

end ClassDec

/-! ## Sources -/

theorem Lexes.compiles_iff {source : String} {d : ClassDec} (lexes : Lexes source d.terminals) :
    (∃ code, instructions source = .ok code) ↔ d.WellScoped := by
  simp only [lexes.instructions_eq_ok_iff]
  exact ⟨fun ⟨_, rules, _⟩ => rules, fun rules => ⟨_, rules, rfl⟩⟩

theorem forall_mem_iff_of_forall₂ {α β : Type} {R : α → β → Prop} {P : α → Prop} {Q : β → Prop}
    {xs : List α} {ys : List β} (related : List.Forall₂ R xs ys)
    (same : ∀ x y, R x y → (P x ↔ Q y)) : (∀ x ∈ xs, P x) ↔ ∀ y ∈ ys, Q y := by
  induction related with
  | nil => simp
  | cons first _ ih => rw [List.forall_mem_cons, List.forall_mem_cons, same _ _ first, ih]

/-- A class compiles exactly if it does with each of its subroutines alone, and then its code is
made of theirs. -/
theorem instructions_eq_ok_iff_each {d : ClassDec} {whole : String} {singles : List String}
    (lexes : Lexes whole d.terminals)
    (each : List.Forall₂ (fun s single => Lexes single (d.only s).terminals)
      d.subroutines singles) :
    (d.subroutines ≠ [] →
      ((∃ code, instructions whole = .ok code) ↔
        ∀ single ∈ singles, ∃ code, instructions single = .ok code)) ∧
      ∀ code, instructions whole = .ok code →
        ∃ parts : List (Array Instruction),
          List.Forall₂ (fun single part => instructions single = .ok part) singles parts ∧
            code.toList = joinedCode d.subroutines (parts.map Array.toList) := by
  constructor
  · intro some
    rw [lexes.compiles_iff, d.wellScoped_iff_only some]
    exact forall_mem_iff_of_forall₂ each fun s single reads => reads.compiles_iff.symm
  · intro code compiled
    obtain ⟨rules, rfl⟩ := lexes.instructions_eq_ok_iff.1 compiled
    refine ⟨d.subroutines.map fun s => (d.only s).code.toArray, ?_, ?_⟩
    · rw [List.forall₂_map_right_iff]
      have each' := (List.forall₂_and_left ..).2 ⟨fun s mem => rules.only mem, each⟩
      refine (each'.imp fun s single single_reads => ?_).flip
      exact single_reads.2.instructions_eq_ok_iff.2 ⟨single_reads.1, rfl⟩
    · rw [List.toList_toArray, d.code_eq_joinedCode, List.map_map]
      rfl

/-- A subroutine that loops for ever. -/
def spinning (name : String) : SubroutineDec :=
  ⟨.function, none, name, [], [],
    .cons (.whileDo (.of (.word .trueWord) .nil) .nil) (.cons .returnNothing .nil)⟩

def spinningSource : String :=
  "class A { function void f() { while (true) { } return; } function void g() { while (true) { } return; } }"

theorem instructions_spinningSource :
    ∃ parts : List (Array Instruction),
      List.Forall₂ (fun single part => instructions single = .ok part)
        ["class A { function void f() { while (true) { } return; } }",
          "class A { function void g() { while (true) { } return; } }"] parts ∧
        joinedCode [spinning "f", spinning "g"] (parts.map Array.toList) =
        [.function "A.f" 0, .label "A.WHILE_EXP0", .push .constant 0, .arithmetic .not,
          .arithmetic .not, .ifGoto "A.WHILE_END0", .goto "A.WHILE_EXP0", .label "A.WHILE_END0",
          .push .constant 0, .ret, .function "A.g" 0, .label "A.WHILE_EXP1", .push .constant 0,
          .arithmetic .not, .arithmetic .not, .ifGoto "A.WHILE_END1", .goto "A.WHILE_EXP1",
          .label "A.WHILE_END1", .push .constant 0, .ret] := by
  let d : ClassDec := ⟨"A", [], [spinning "f", spinning "g"]⟩
  have whole : Lexes spinningSource d.terminals :=
    lexes_iff.2 ⟨by decide +kernel, by decide +kernel⟩
  have each : List.Forall₂ (fun s single => Lexes single (d.only s).terminals) d.subroutines
      ["class A { function void f() { while (true) { } return; } }",
        "class A { function void g() { while (true) { } return; } }"] :=
    .cons (lexes_iff.2 ⟨by decide +kernel, by decide +kernel⟩)
      (.cons (lexes_iff.2 ⟨by decide +kernel, by decide +kernel⟩) .nil)
  have compiled : instructions spinningSource =
        .ok #[.function "A.f" 0, .label "A.WHILE_EXP0", .push .constant 0, .arithmetic .not,
          .arithmetic .not, .ifGoto "A.WHILE_END0", .goto "A.WHILE_EXP0", .label "A.WHILE_END0",
          .push .constant 0, .ret, .function "A.g" 0, .label "A.WHILE_EXP1", .push .constant 0,
          .arithmetic .not, .arithmetic .not, .ifGoto "A.WHILE_END1", .goto "A.WHILE_EXP1",
          .label "A.WHILE_END1", .push .constant 0, .ret] := by
    decide +kernel
  obtain ⟨parts, compiles, code⟩ := (instructions_eq_ok_iff_each whole each).2 _ compiled
  exact ⟨parts, compiles, code.symm⟩

end JackToVm
