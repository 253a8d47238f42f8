import JackToVm.Proofs.Labels
import JackToVm.Proofs.Layout
import JackToVm.Proofs.Printing
import JackToVm.Proofs.Unambiguity

/-!
# Constants

A constant of the machine is at most `maxConstant`. Literals are bounded by the lexer, and the
lengths and the characters of strings where they are translated. A constructor allocates its object
without such a check, so the number of fields is the one constant that may be too large.

Results.
1. Every constant of a class is small enough, but for the number of fields that a constructor
   allocates (`ClassDec.constant_le_or`).
2. The constants of a class that compiles are small enough exactly if it has no constructor or not
   too many fields (`constants_le_iff`).
3. A class with more fields compiles (`instructions_wideClass`).
-/

namespace JackToVm

/-! ## Where constants come from -/

theorem Kind.segment_ne_constant (kind : Kind) : kind.segment ≠ .constant := by
  cases kind <;> simp [segment]

/-- No cell of a variable is a constant. -/
theorem Context.slot_segment_ne_constant (c : Context) (name : String) :
    (c.slot name).segment ≠ .constant := by
  unfold slot
  split
  · next v _ => exact v.kind.segment_ne_constant
  · simp

section

variable {c : Context} {uses : List Use} {ts : List Terminal} {i : Instruction} {n : Nat}

/-- The constants of an expression are literals and parts of strings. -/
theorem OfExpression.constant_le (h : OfExpression c uses ts i) (allowed : AllAllowed c uses)
    (readable : ∀ t ∈ ts, t.Readable) (constant : i = .push .constant n) : n ≤ maxConstant := by
  cases h with
  | integer mem =>
    cases constant
    exact readable _ mem
  | zero =>
    cases constant
    exact Nat.zero_le _
  | length mem =>
    cases constant
    exact (allowed _ mem).1
  | char mem mem' =>
    cases constant
    exact (allowed _ mem).2 _ mem'
  | load mem => exact absurd (Instruction.push.inj constant).1 (c.slot_segment_ne_constant _)
  | receiver mem found =>
    exact absurd (Instruction.push.inj constant).1 (Kind.segment_ne_constant _)
  | this | bindThat | loadThat | arithmetic | call => cases constant

theorem OfStatement.constant_le (h : OfStatement c uses ts i) (allowed : AllAllowed c uses)
    (readable : ∀ t ∈ ts, t.Readable) (constant : i = .push .constant n) : n ≤ maxConstant := by
  cases h with
  | ofExpression inner => exact inner.constant_le allowed readable constant
  | store | drop | loadTemp | storeThat | label | goto | ifGoto | ret => cases constant

end

/-! ## Classes -/

theorem SubroutineDec.constant_le_or {d : ClassDec} {s : SubroutineDec} (rules : s.WellScoped d)
    (readable : ∀ t ∈ s.body.terminals, t.Readable) {n m : Nat}
    (mem : .push .constant m ∈ s.code d n) :
    m ≤ maxConstant ∨ s.kind = .constructor ∧ m = (d.namesOf .field).length := by
  rw [code, List.mem_cons, List.mem_append] at mem
  rcases mem with header | prologue | body
  · cases header
  · unfold prologueCode at prologue
    cases kind : s.kind with
    | constructor =>
      simp only [kind, List.mem_cons, Instruction.push.injEq, true_and,
        List.not_mem_nil] at prologue
      refine .inr ⟨rfl, ?_⟩
      rw [← d.countKind_declarations]
      simpa using prologue
    | method => simp [kind] at prologue
    | function => simp [kind] at prologue
  · have source := s.body.provenance (d.context s) n _ body
    exact .inl (source.constant_le rules.uses readable rfl)

namespace ClassDec

def HasConstructor (d : ClassDec) : Prop :=
  ∃ s ∈ d.subroutines, s.kind = .constructor

/-- Every constant of a class is small enough, but for the number of cells of an object. -/
theorem constant_le_or {d : ClassDec} (rules : d.WellScoped)
    (readable : ∀ t ∈ d.terminals, t.Readable) {m : Nat} (mem : .push .constant m ∈ d.code) :
    m ≤ maxConstant ∨ d.HasConstructor ∧ m = (d.namesOf .field).length := by
  obtain ⟨block, inBlocks, inBlock⟩ := List.mem_flatten.1 mem
  obtain ⟨s, ofClass, n, rfl⟩ := exists_of_mem_blocksFrom inBlocks
  have part : s.body.terminals ⊆ d.terminals := by
    refine List.Subset.trans ?_ (terminals_subset ofClass)
    intro t inside
    simp [SubroutineDec.terminals, SubroutineDec.moreTerminals, inside]
  rcases SubroutineDec.constant_le_or (rules.subroutines s ofClass)
    (fun t inside => readable t (part inside)) inBlock with small | ⟨constructor, size⟩
  · exact .inl small
  · exact .inr ⟨⟨s, ofClass, constructor⟩, size⟩

/-- A constructor allocates an object with a cell for each field. -/
theorem mem_code_of_hasConstructor {d : ClassDec} (makes : d.HasConstructor) :
    .push .constant (d.namesOf .field).length ∈ d.code := by
  obtain ⟨s, ofClass, constructor⟩ := makes
  obtain ⟨n, inBlocks⟩ := d.exists_code_mem_blocksFrom ofClass 0
  refine List.mem_flatten.2 ⟨_, inBlocks, ?_⟩
  simp [SubroutineDec.code, SubroutineDec.prologueCode, constructor, d.countKind_declarations]

end ClassDec

/-- All constants of a class that compiles are small enough but for the number of its fields, and so
is this one exactly if the class has no constructor or not too many fields. -/
theorem constants_le_iff {source : String} {code : Array Instruction}
    (compiled : instructions source = .ok code) :
    ∃ d : ClassDec, Lexes source d.terminals ∧
      (∀ n, .push .constant n ∈ code.toList →
        n ≤ maxConstant ∨ d.HasConstructor ∧ n = (d.namesOf .field).length) ∧
      ((∀ n, .push .constant n ∈ code.toList → n ≤ maxConstant) ↔
        (d.HasConstructor → (d.namesOf .field).length ≤ maxConstant)) := by
  obtain ⟨d, lexes, rules, rfl⟩ := instructions_eq_ok_iff.1 compiled
  have bounded (n : Nat) (mem : .push .constant n ∈ d.code) :=
    ClassDec.constant_le_or rules (fun t => lexes.readable) mem
  refine ⟨d, lexes, bounded, fun small makes => ?_, fun few n mem => ?_⟩
  · exact small _ (ClassDec.mem_code_of_hasConstructor makes)
  · rcases bounded n mem with small | ⟨makes, rfl⟩
    · exact small
    · exact few makes

theorem constants_le_iff_of_point :
    ∃ (d : ClassDec) (code : Array Instruction),
      instructions "class A { field int x; constructor A new() { let x = 9; return this; } }" =
        .ok code ∧
      Lexes "class A { field int x; constructor A new() { let x = 9; return this; } }"
        d.terminals ∧
      ((∀ n, .push .constant n ∈ code.toList → n ≤ maxConstant) ↔
        (d.HasConstructor → (d.namesOf .field).length ≤ maxConstant)) := by
  have compiled : instructions
      "class A { field int x; constructor A new() { let x = 9; return this; } }" =
        .ok #[.function "A.new" 0, .push .constant 1, .call "Memory.alloc" 1, .pop .pointer 0,
          .push .constant 9, .pop .this 0, .push .pointer 0, .ret] := by
    decide +kernel
  obtain ⟨d, lexes, -, bound⟩ := constants_le_iff compiled
  exact ⟨d, _, compiled, lexes, bound⟩

/-! ## A class with many fields -/

/-- The field with the number `i`. -/
def fieldName (i : Nat) : String :=
  "f" ++ toString i

theorem Kind.belongsToClass_field : Kind.field.belongsToClass := rfl

/-- A class with `n + 1` fields and a constructor. -/
def wideClass (n : Nat) : ClassDec where
  name := "A"
  classVars := [⟨.field, Kind.belongsToClass_field, .int, fieldName 0,
    (List.range n).map fun i => fieldName (i + 1)⟩]
  subroutines := [⟨.constructor, some (.named "A"), "new", [], [],
    .cons (.returnValue (.of (.word .thisWord) .nil)) .nil⟩]

theorem toList_fieldName (i : Nat) : (fieldName i).toList = 'f' :: Nat.toDigits 10 i := by
  simp [fieldName, Nat.toList_repr]

theorem fieldName_injective : Function.Injective fieldName := by
  intro i j same
  have texts := congrArg String.toList same
  rw [toList_fieldName, toList_fieldName] at texts
  exact toDigits_injective (List.cons.inj texts).2

theorem Keyword.isDigit_eq_false (k : Keyword) : ∀ c ∈ k.text.toList, isDigit c = false := by
  have all : k.text.toList.all fun c => !isDigit c := by cases k <;> decide
  intro c mem
  simpa using List.all_eq_true.1 all c mem

theorem isName_fieldName (i : Nat) : IsName (fieldName i) := by
  constructor
  · cases found : Keyword.ofText? (fieldName i) with
    | none => rfl
    | some k =>
      obtain ⟨c, mem⟩ := List.exists_mem_of_ne_nil _ (Nat.toDigits_ne_nil (n := i) (b := 10))
      have other := k.isDigit_eq_false c
      rw [Keyword.ofText?_eq_some_iff.1 found, toList_fieldName] at other
      rw [isDigit_of_mem_toDigits mem] at other
      cases other (.tail _ mem)
  · exact ⟨'f', _, toList_fieldName i, by decide, fun c mem =>
      continuesName_of_isDigit (isDigit_of_mem_toDigits mem)⟩

theorem all_fieldName (n : Nat) :
    fieldName 0 :: (List.range n).map (fun i => fieldName (i + 1)) =
      (List.range (n + 1)).map fieldName := by
  rw [List.range_succ_eq_map, List.map_cons, List.map_map]
  rfl

theorem wellScoped_wideClass (n : Nat) : (wideClass n).WellScoped where
  distinct := by
    have names : (wideClass n).declarations.map (·.name) = (List.range (n + 1)).map fieldName := by
      rw [← all_fieldName]
      simp [wideClass, ClassDec.declarations, ClassVarDec.declarations, Names.declarations,
        Function.comp_def]
    rw [names]
    exact List.nodup_range.map fieldName_injective
  subroutines := by
    intro s mem
    rw [List.mem_singleton.1 mem]
    exact ⟨List.nodup_nil, allAllowed_nil _⟩

theorem readable_wideClass (n : Nat) : ∀ t ∈ (wideClass n).terminals, t.Readable := by
  have ofClass : IsName "A" := ⟨by decide, 'A', [], rfl, by decide, by simp⟩
  have ofSubroutine : IsName "new" :=
    ⟨by decide, 'n', ['e', 'w'], rfl, by decide, List.all_eq_true.1 (by decide)⟩
  have more : ∀ t ∈ Names.moreTerminals ((List.range n).map fun i => fieldName (i + 1)),
      t.Readable := by
    intro t mem
    simp only [Names.moreTerminals, List.mem_flatMap, List.mem_map, List.mem_cons,
      List.not_mem_nil, or_false] at mem
    obtain ⟨_, ⟨i, -, rfl⟩, rfl | rfl⟩ := mem
    · trivial
    · exact isName_fieldName _
  simp only [wideClass, ClassDec.terminals, List.flatMap_cons, List.flatMap_nil, List.append_nil,
    ClassVarDec.terminals, Names.terminals, List.cons_append, List.forall_mem_cons,
    List.forall_mem_append]
  simpa [TypeName.terminal, SubroutineDec.terminals, SubroutineDec.moreTerminals,
    TypeName.resultTerminal, Parameter.listTerminals, Statements.terminals, Statement.terminals,
    Expression.terminals, Term.terminals, Operations.terminals, isName_fieldName, ofClass,
    ofSubroutine] using more

/-- It compiles, however many fields it has. -/
theorem instructions_wideClass (n : Nat) :
    instructions (printed (wideClass n).terminals) =
      .ok #[.function "A.new" 0, .push .constant (n + 1), .call "Memory.alloc" 1, .pop .pointer 0,
        .push .pointer 0, .ret] := by
  have lexes := lexes_printed (readable_wideClass n)
  rw [lexes.instructions_eq_ok_iff]
  refine ⟨wellScoped_wideClass n, ?_⟩
  have fields : countKind .field (wideClass n).declarations = n + 1 := by
    rw [ClassDec.countKind_declarations]
    simp [wideClass, ClassDec.namesOf, Names.all]
  rw [← fields]
  rfl

/-- So a constant may be too large. -/
theorem exists_constant_gt :
    ∃ code : Array Instruction, instructions (printed (wideClass 32767).terminals) = .ok code ∧
      ∃ n, .push .constant n ∈ code.toList ∧ ¬ n ≤ 32767 :=
  ⟨_, instructions_wideClass 32767, 32768, by simp, by decide⟩

end JackToVm
