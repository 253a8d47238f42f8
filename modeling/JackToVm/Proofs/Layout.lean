import Mathlib.Data.List.Forall2
import JackToVm.Proofs.Acceptance
import JackToVm.Proofs.Provenance

/-!
# Frames and objects

The header of a block tells how many locals its subroutine has, and a constructor tells how many
cells its object has, before any statement is read. Every cell that the block names is one of
these, and no `function` touches an object.

Results.
1. The number of a variable is below the number of variables of its kind in its scope
   (`index_lt_of_mem_numbered`), so its cell is in the frame (`SubroutineDec.holds_of_resolve`).
2. The operands of a subroutine are in its frame (`SubroutineDec.admits_code`).
3. The blocks of every class that compiles (`laidOut_of_instructions_eq_ok`).
-/

namespace JackToVm

/-! ## What a subroutine can name -/

/-- The names that a declaration makes. -/
def Names.all (names : Names) : List String :=
  names.first :: names.more

/-- The statics or the fields of a class. -/
def ClassDec.namesOf (d : ClassDec) (kind : Kind) : List String :=
  (d.classVars.filter (·.kind = kind)).flatMap (·.names.all)

def SubroutineDec.localNames (s : SubroutineDec) : List String :=
  s.locals.flatMap Names.all

/-- How many cells a subroutine has of each kind. -/
structure Frame where
  kind : SubroutineKind
  locals : Nat
  arguments : Nat
  statics : Nat
  fields : Nat
deriving DecidableEq, Repr

/-- A method has its receiver as an argument more. -/
def SubroutineDec.frame (d : ClassDec) (s : SubroutineDec) : Frame where
  kind := s.kind
  locals := s.localNames.length
  arguments := s.parameters.length + if s.kind = .method then 1 else 0
  statics := (d.namesOf .static).length
  fields := (d.namesOf .field).length

namespace Frame

/-- A cell is there. The fields are those of the object that `this` is bound to, and a `function`
has none. -/
def Holds (f : Frame) : Segment → Nat → Prop
  | .localVar, i => i < f.locals
  | .argument, i => i < f.arguments
  | .static, i => i < f.statics
  | .this, i => i < f.fields ∧ f.kind ≠ .function
  | .pointer, i => i ≤ 1
  | .that, i | .temp, i => i = 0
  | .constant, _ => True

/-- An instruction names cells that are there. Constants are no cells to write to, and a `function`
does not bind `this`. -/
def Admits (f : Frame) : Instruction → Prop
  | .push segment i => f.Holds segment i
  | .pop segment i =>
    f.Holds segment i ∧ segment ≠ .constant ∧ ¬(f.kind = .function ∧ segment = .pointer ∧ i = 0)
  | .arithmetic _ | .label _ | .goto _ | .ifGoto _ | .call .. | .function .. | .ret => True

/-- The cells of variables can be read and written. -/
theorem admits_load_store {f : Frame} {v : Variable} (holds : f.Holds v.kind.segment v.index) :
    f.Admits (.load v.slot) ∧ f.Admits (.store v.slot) := by
  refine ⟨holds, holds, ?_⟩
  cases v with
  | mk name type kind index => cases kind <;> simp [Kind.segment, Variable.slot]

end Frame

/-! ## Counting declarations -/

theorem countKind_append (kind : Kind) (ds es : List Declaration) :
    countKind kind (ds ++ es) = countKind kind ds + countKind kind es :=
  List.countP_append

theorem Names.countKind_declarations (kind kind' : Kind) (names : Names) :
    countKind kind (names.declarations kind') =
      if kind' = kind then names.all.length else 0 := by
  unfold countKind declarations
  split
  · next same => simp [same, all]
  · next other => simp [other]

theorem Names.countKind_locals (kind : Kind) (ds : List Names) :
    countKind kind (ds.flatMap (declarations .localVar)) =
      if .localVar = kind then (ds.flatMap all).length else 0 := by
  induction ds with
  | nil => simp [countKind]
  | cons names ds ih =>
    rw [List.flatMap_cons, countKind_append, names.countKind_declarations, ih]
    split <;> simp

theorem Parameter.countKind_declarations (kind : Kind) (ps : List Parameter) :
    countKind kind (ps.map declaration) = if .argument = kind then ps.length else 0 := by
  induction ps with
  | nil => simp [countKind]
  | cons p ps ih =>
    unfold countKind at ih ⊢
    rw [List.map_cons, List.countP_cons, ih]
    split <;> simp_all [declaration]

theorem ClassDec.countKind_declarations (d : ClassDec) (kind : Kind) :
    countKind kind d.declarations = (d.namesOf kind).length := by
  unfold declarations namesOf
  induction d.classVars with
  | nil => rfl
  | cons v vs ih =>
    rw [List.flatMap_cons, countKind_append, ClassVarDec.declarations,
      v.names.countKind_declarations, ih, List.filter_cons]
    split <;> simp_all

namespace SubroutineDec

theorem countKind_locals (s : SubroutineDec) :
    countKind .localVar s.declarations = s.localNames.length := by
  rw [declarations, countKind_append, Parameter.countKind_declarations, Names.countKind_locals]
  simp [localNames]

theorem countKind_arguments (d : ClassDec) (s : SubroutineDec) :
    countKind .argument (s.allDeclarations d.name) = (s.frame d).arguments := by
  rw [allDeclarations, declarations, countKind_append, countKind_append,
    Parameter.countKind_declarations, Names.countKind_locals]
  unfold receiver frame
  split <;> simp [countKind, Nat.add_comm]

end SubroutineDec

/-! ## The cell of a name -/

/-- Statics and fields belong to the class. -/
theorem ClassDec.belongsToClass_eq_true (c : ClassDec) {d : Declaration}
    (mem : d ∈ c.declarations) : d.kind.belongsToClass = true := by
  obtain ⟨v, -, mem⟩ := List.mem_flatMap.1 mem
  obtain ⟨name, -, rfl⟩ := List.mem_map.1 mem
  exact v.ofClass

theorem index_lt_of_mem_numberedFrom {before ds : List Declaration} {v : Variable}
    (mem : v ∈ numberedFrom before ds) : v.index < countKind v.kind (before ++ ds) := by
  induction ds generalizing before with
  | nil => cases mem
  | cons d ds ih =>
    rcases List.mem_cons.1 mem with rfl | mem
    · have counted : 0 < countKind d.kind (d :: ds) := by simp [countKind]
      rw [countKind_append]
      exact Nat.lt_add_of_pos_right counted
    · simpa using ih mem

/-- The variables of a kind are numbered up to their count. -/
theorem index_lt_of_mem_numbered {ds : List Declaration} {v : Variable} (mem : v ∈ numbered ds) :
    v.index < countKind v.kind ds :=
  index_lt_of_mem_numberedFrom mem

namespace SubroutineDec

variable {d : ClassDec} {s : SubroutineDec} {name : String} {v : Variable}

/-- What a name stands for is a variable of the subroutine or of the class. -/
theorem mem_of_resolve (found : (d.context s).resolve name = some v) :
    v ∈ numbered (s.allDeclarations d.name) ∨ v ∈ numbered d.declarations := by
  simp only [ClassDec.context, resolveIn, Option.orElse_eq_orElse, Option.orElse_eq_or,
    Option.or_eq_some_iff] at found
  rcases found with found | ⟨-, found⟩
  · exact .inl (List.mem_of_find?_eq_some found)
  · exact .inr (List.mem_of_find?_eq_some found)

theorem holds_of_resolve (found : (d.context s).resolve name = some v)
    (reachable : ¬(v.kind = .field ∧ s.kind = .function)) :
    (s.frame d).Holds v.kind.segment v.index := by
  rcases mem_of_resolve found with mem | mem
  · have below := index_lt_of_mem_numbered mem
    obtain ⟨w, inScope, -, same⟩ := exists_of_mem_numberedFrom mem
    have ofSubroutine := belongsToClass_eq_false inScope
    rw [same] at ofSubroutine
    cases kind : v.kind with
    | static | field => rw [kind] at ofSubroutine; cases ofSubroutine
    | argument =>
      rw [kind, s.countKind_arguments d] at below
      exact below
    | localVar =>
      rw [kind, s.countKind_allDeclarations d.name, s.countKind_locals] at below
      exact below
  · have below := index_lt_of_mem_numbered mem
    obtain ⟨w, inScope, -, same⟩ := exists_of_mem_numberedFrom mem
    have ofClass := d.belongsToClass_eq_true inScope
    rw [same] at ofClass
    rw [d.countKind_declarations] at below
    cases kind : v.kind with
    | argument | localVar => rw [kind] at ofClass; cases ofClass
    | static =>
      rw [kind] at below
      exact below
    | field =>
      rw [kind] at below
      exact ⟨below, fun function => reachable ⟨kind, function⟩⟩

end SubroutineDec

/-! ## Operands -/

section

variable {d : ClassDec} {s : SubroutineDec} {name : String} {uses : List Use}
  {ts : List Terminal} {i : Instruction}

/-- A variable that may be used has a cell. -/
theorem SubroutineDec.admits_slot (allowed : (Use.var name).Allowed (d.context s)) :
    (s.frame d).Admits (.load ((d.context s).slot name)) ∧
      (s.frame d).Admits (.store ((d.context s).slot name)) := by
  obtain ⟨v, found, reachable⟩ := allowed
  simp only [Context.slot, found]
  exact Frame.admits_load_store (holds_of_resolve found reachable)

theorem OfExpression.admits (h : OfExpression (d.context s) uses ts i)
    (allowed : AllAllowed (d.context s) uses) : (s.frame d).Admits i := by
  cases h with
  | integer | zero | length | char | arithmetic | call => trivial
  | this => exact Nat.zero_le 1
  | loadThat => exact rfl
  | bindThat => exact ⟨Nat.le_refl 1, by simp, by simp⟩
  | load mem => exact (SubroutineDec.admits_slot (allowed _ mem)).1
  | receiver mem found =>
    exact (Frame.admits_load_store
      (SubroutineDec.holds_of_resolve found (allowed _ mem _ found))).1

theorem OfStatement.admits (h : OfStatement (d.context s) uses ts i)
    (allowed : AllAllowed (d.context s) uses) : (s.frame d).Admits i := by
  cases h with
  | ofExpression inner => exact inner.admits allowed
  | store mem => exact (SubroutineDec.admits_slot (allowed _ mem)).2
  | drop | storeThat => exact ⟨rfl, by simp, by simp⟩
  | loadTemp => exact rfl
  | label | goto | ifGoto | ret => trivial

end

namespace SubroutineDec

/-- What binds `this` is in no `function`, and a method has the receiver that it takes. -/
theorem admits_prologueCode (d : ClassDec) (s : SubroutineDec) :
    ∀ i ∈ s.prologueCode d, (s.frame d).Admits i := by
  unfold prologueCode
  cases kind : s.kind with
  | function => simp
  | constructor => simp [Frame.Admits, Frame.Holds, frame, kind]
  | method => simp [Frame.Admits, Frame.Holds, frame, kind]

theorem admits_code {d : ClassDec} {s : SubroutineDec} (rules : s.WellScoped d) (n : Nat) :
    ∀ i ∈ s.code d n, (s.frame d).Admits i := by
  refine List.forall_mem_cons.2 ⟨trivial, List.forall_mem_append.2 ⟨s.admits_prologueCode d, ?_⟩⟩
  intro i mem
  exact (s.body.provenance (d.context s) n i mem).admits rules.uses

end SubroutineDec

/-! ## Blocks -/

/-- The block fits the declarations of its class and its subroutine. -/
structure LaidOut (d : ClassDec) (s : SubroutineDec) (block : List Instruction) : Prop where
  /-- The header has the number of locals, and the block has no other header. -/
  header : IsBlock (d.name ++ "." ++ s.name) s.localNames.length block
  /-- A constructor first makes an object with a cell for each field. -/
  allocates : s.kind = .constructor →
    [.push .constant (d.namesOf .field).length, .call "Memory.alloc" 1, .pop .pointer 0] <+:
      block.tail
  operands : ∀ i ∈ block, (s.frame d).Admits i

theorem SubroutineDec.laidOut {d : ClassDec} {s : SubroutineDec} (rules : s.WellScoped d)
    (n : Nat) : LaidOut d s (s.code d n) where
  header := s.countKind_locals ▸ s.isBlock_code d n
  allocates constructor := by
    rw [code, List.tail_cons, prologueCode, constructor, d.countKind_declarations]
    exact List.prefix_append ..
  operands := s.admits_code rules n

theorem ClassDec.laidOut_blocksFrom (d : ClassDec) (n : Nat) (ss : List SubroutineDec)
    (rules : ∀ s ∈ ss, s.WellScoped d) : List.Forall₂ (LaidOut d) ss (d.blocksFrom n ss) := by
  induction ss generalizing n with
  | nil => exact .nil
  | cons s ss ih =>
    have ⟨first, more⟩ := List.forall_mem_cons.1 rules
    exact .cons (SubroutineDec.laidOut first n) (ih _ more)

/-- The headers of a code that is made of blocks. -/
theorem filter_isHeader_flatten {d : ClassDec} {ss : List SubroutineDec}
    {blocks : List (List Instruction)} (h : List.Forall₂ (LaidOut d) ss blocks) :
    blocks.flatten.filter Instruction.isHeader =
      ss.map fun s => .function (d.name ++ "." ++ s.name) s.localNames.length := by
  induction h with
  | nil => rfl
  | cons first _ ih =>
    obtain ⟨code, rfl, others⟩ := first.header
    have none : code.filter Instruction.isHeader = [] := List.filter_eq_nil_iff.2 others
    rw [List.flatten_cons, List.filter_append, List.filter_cons_of_pos rfl, none, ih]
    rfl

/-- Every class that compiles has one block for each subroutine, in order, and every block names
only cells that are there. -/
theorem laidOut_of_instructions_eq_ok {source : String} {code : Array Instruction}
    (compiled : instructions source = .ok code) :
    ∃ (d : ClassDec) (blocks : List (List Instruction)), Lexes source d.terminals ∧
      code.toList = blocks.flatten ∧ List.Forall₂ (LaidOut d) d.subroutines blocks ∧
        code.toList.filter Instruction.isHeader =
          d.subroutines.map fun s =>
            .function (d.name ++ "." ++ s.name) s.localNames.length := by
  obtain ⟨d, lexes, rules, rfl⟩ := instructions_eq_ok_iff.1 compiled
  have laidOut := d.laidOut_blocksFrom 0 d.subroutines rules.subroutines
  exact ⟨d, d.blocks, lexes, rfl, laidOut, filter_isHeader_flatten laidOut⟩

def counterSource : String :=
  "class A { static int n; field int x, y; constructor A new(int a) { var int b; let b = a; let y = b; return this; } function int f() { let n = n + 1; return n; } }"

theorem laidOut_of_counterSource :
    ∃ (d : ClassDec) (blocks : List (List Instruction)), Lexes counterSource d.terminals ∧
      blocks.flatten = [.function "A.new" 1, .push .constant 2, .call "Memory.alloc" 1,
        .pop .pointer 0, .push .argument 0, .pop .localVar 0, .push .localVar 0, .pop .this 1,
        .push .pointer 0, .ret, .function "A.f" 0, .push .static 0, .push .constant 1,
        .arithmetic .add, .pop .static 0, .push .static 0, .ret] ∧
      List.Forall₂ (LaidOut d) d.subroutines blocks := by
  have compiled : instructions counterSource =
        .ok #[.function "A.new" 1, .push .constant 2, .call "Memory.alloc" 1, .pop .pointer 0,
          .push .argument 0, .pop .localVar 0, .push .localVar 0, .pop .this 1, .push .pointer 0,
          .ret, .function "A.f" 0, .push .static 0, .push .constant 1, .arithmetic .add,
          .pop .static 0, .push .static 0, .ret] := by
    decide +kernel
  obtain ⟨d, blocks, lexes, split, laidOut, -⟩ := laidOut_of_instructions_eq_ok compiled
  exact ⟨d, blocks, lexes, split.symm, laidOut⟩

end JackToVm
