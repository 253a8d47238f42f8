import Mathlib.Data.List.Nodup
import JackToVm.Proofs.Completeness
import JackToVm.Proofs.Soundness
import JackToVm.Proofs.Lexing

/-!
# Which sources are compiled, and to what

Results.
1. A compilation into a sink that takes every instruction goes well exactly for the sources that are
   written like a tree that keeps the rules, and then the sink is told the events of the tree
   (`compileInto_eq_iff`).
2. The rules, in terms of names alone: `ClassDec.Acceptable`.
-/

namespace JackToVm

/-- The terminals of a source, when all of it can be read. -/
def Lexes (source : String) (terminals : List Terminal) : Prop :=
  ∃ tokens : List Token, (Lexer.ofString source).items.1 = tokens.map .ok ∧
    tokens.map (·.terminal) = terminals

theorem lexes_iff {source : String} {terminals : List Terminal} :
    Lexes source terminals ↔ (Lexer.ofString source).read.failure = none ∧
      (Lexer.ofString source).read.tokens.map (·.terminal) = terminals := by
  simp only [Lexes, Lexer.items_eq_map_ok_iff]
  constructor
  · rintro ⟨tokens, ⟨read, rfl⟩, written⟩
    exact ⟨read, written⟩
  · rintro ⟨read, written⟩
    exact ⟨_, ⟨read, rfl⟩, written⟩

theorem Lexes.readable {source : String} {terminals : List Terminal}
    (lexes : Lexes source terminals) {t : Terminal} (mem : t ∈ terminals) : t.Readable := by
  obtain ⟨-, rfl⟩ := lexes_iff.1 lexes
  exact Lexer.readable_of_mem_read mem

/-! ## Compilations that go well -/

theorem Machine.start_proper (terminals : List Terminal) :
    ∀ g ∈ (start terminals).goals, g.Proper := by
  simp [start, Goal.Proper]

/-- The events of a pass are determined. -/
theorem Machine.Finishes.unique {ending : Option LexCause} {terminals : List Terminal}
    {es fs : List Event} (first : (start terminals).Finishes ending es)
    (second : (start terminals).Finishes ending fs) : es = fs := by
  have told (s : Array Event) (es : List Event) : (Sink.log.feed s es).2 = none := by
    rw [Sink.feed_log]
  have one := (run_eq_iff (s := #[]) (start_proper terminals) told).2 ⟨es, first, rfl⟩
  have other := (run_eq_iff (s := #[]) (start_proper terminals) told).2 ⟨fs, second, rfl⟩
  rw [one, Sink.feed_log, Sink.feed_log] at other
  simpa using other

theorem compileTerminals_eq_iff {σ : Type} {sink : Sink σ}
    (takes : ∀ s es, (sink.feed s es).2 = none) {terminals : List Terminal}
    {ending : Option LexCause} {s t : σ} :
    compileTerminals sink terminals ending s = (t, none) ↔
      ending = none ∧ ∃ d : ClassDec, d.terminals = terminals ∧ d.WellScoped ∧
        (sink.feed s d.events).1 = t := by
  have run : (Machine.start terminals).run sink ending s = (t, none) ↔ _ :=
    Machine.run_eq_iff (Machine.start_proper terminals) takes
  constructor
  · intro h
    unfold compileTerminals at h
    split at h
    · cases h
    · next cause =>
      obtain ⟨es, finishes, rfl⟩ := run.1 h
      cases ending with
      | some cause => exact absurd finishes (Machine.not_finishes_of_lexical (by simpa using cause))
      | none =>
        obtain ⟨d, rfl, rules⟩ := ClassDec.of_finishes finishes
        obtain rfl := finishes.unique (d.finishes rules)
        exact ⟨rfl, d, rfl, rules, rfl⟩
  · rintro ⟨rfl, d, rfl, rules, rfl⟩
    exact run.2 ⟨d.events, d.finishes rules, rfl⟩

/-- A source is compiled exactly if it is written like a tree that keeps the rules. -/
theorem compileInto_eq_iff {σ : Type} {sink : Sink σ}
    (takes : ∀ s es, (sink.feed s es).2 = none) {source : String} {s t : σ} :
    compileInto sink source s = (t, none) ↔
      ∃ d : ClassDec, Lexes source d.terminals ∧ d.WellScoped ∧
        (sink.feed s d.events).1 = t := by
  have whole : compileInto sink source s = (t, none) ↔
      compileTerminals sink ((Lexer.ofString source).read.tokens.map (·.terminal))
        ((Lexer.ofString source).read.failure.map (·.cause)) s = (t, none) := by
    simp only [compileInto, Prod.ext_iff, Option.map_eq_none_iff]
  rw [whole, compileTerminals_eq_iff takes, Option.map_eq_none_iff]
  constructor
  · rintro ⟨read, d, written, rules, told⟩
    exact ⟨d, ⟨_, Lexer.items_eq_map_ok_iff.2 ⟨read, rfl⟩, written.symm⟩, rules, told⟩
  · rintro ⟨d, ⟨tokens, read, written⟩, rules, told⟩
    obtain ⟨noError, rfl⟩ := Lexer.items_eq_map_ok_iff.1 read
    exact ⟨noError, d, written.symm, rules, told⟩

/-- The instructions of a source are the code of its tree. -/
theorem compileInto_code_eq_iff {source : String} {s t : Array Instruction} :
    compileInto .code source s = (t, none) ↔
      ∃ d : ClassDec, Lexes source d.terminals ∧ d.WellScoped ∧ s ++ d.code.toArray = t := by
  have told (s : Array Instruction) (es : List Event) : (Sink.code.feed s es).2 = none := by
    rw [Sink.feed_code]
  simp only [compileInto_eq_iff told, Sink.feed_code, ClassDec.instructions_events]

theorem instructions_eq_ok_iff {source : String} {code : Array Instruction} :
    instructions source = .ok code ↔
      ∃ d : ClassDec, Lexes source d.terminals ∧ d.WellScoped ∧ d.code.toArray = code := by
  have found : compileInto .code source #[] = (code, none) ↔ _ := compileInto_code_eq_iff
  simp only [Array.empty_append] at found
  rw [← found]
  unfold instructions
  split
  · next out here => simp [here]
  · next out e here => simp [here]

theorem compile_eq_ok_iff {source text : String} :
    compile source = .ok text ↔
      ∃ d : ClassDec, Lexes source d.terminals ∧ d.WellScoped ∧ text = vmText d.code := by
  have code : compile source = .ok text ↔
      ∃ code, instructions source = .ok code ∧ text = vmText code.toList := by
    unfold compile
    cases instructions source <;> simp [Except.map, eq_comm]
  simp only [code, instructions_eq_ok_iff]
  constructor
  · rintro ⟨_, ⟨d, lexes, rules, rfl⟩, rfl⟩
    exact ⟨d, lexes, rules, rfl⟩
  · rintro ⟨d, lexes, rules, rfl⟩
    exact ⟨_, ⟨d, lexes, rules, rfl⟩, rfl⟩

/-- The log of a compilation that goes well has the events of the tree. -/
theorem events_eq_iff {source : String} {log : Array Event} :
    events source = (log, none) ↔
      ∃ d : ClassDec, Lexes source d.terminals ∧ d.WellScoped ∧ d.events.toArray = log := by
  have told (s : Array Event) (es : List Event) : (Sink.log.feed s es).2 = none := by
    rw [Sink.feed_log]
  simp only [events, compileInto_eq_iff told, Sink.feed_log, Array.empty_append]

/-! ## Names in a tree -/

/-- The identifier that a use stands for. -/
def Use.identifiers : Use → List Terminal
  | var x | receiver x => [.identifier x]
  | text _ => []

mutual

/-- What an expression uses is written in it. -/
theorem Expression.identifiers_subset (e : Expression) :
    e.uses.flatMap Use.identifiers ⊆ e.terminals := by
  cases e with
  | of t ops =>
    have first := t.identifiers_subset
    have more := ops.identifiers_subset
    grind [Expression.uses, Expression.terminals]

theorem Operations.identifiers_subset (ops : Operations) :
    ops.uses.flatMap Use.identifiers ⊆ ops.terminals := by
  cases ops with
  | nil => simp [Operations.uses]
  | cons o t ops =>
    have first := t.identifiers_subset
    have more := ops.identifiers_subset
    grind [Operations.uses, Operations.terminals]

theorem Term.identifiers_subset (t : Term) :
    t.uses.flatMap Use.identifiers ⊆ t.terminals := by
  cases t with
  | integer | text | word | var => simp [Term.uses, Term.terminals, Use.identifiers]
  | element x e =>
    have inner := e.identifiers_subset
    grind [Term.uses, Term.terminals, Use.identifiers]
  | call call => exact call.identifiers_subset
  | group e =>
    have inner := e.identifiers_subset
    grind [Term.uses, Term.terminals]
  | unary o t =>
    have inner := t.identifiers_subset
    grind [Term.uses, Term.terminals]

theorem Call.identifiers_subset (call : Call) :
    call.uses.flatMap Use.identifiers ⊆ call.terminals := by
  cases call with
  | own m as =>
    have inner := as.identifiers_subset
    grind [Call.uses, Call.terminals]
  | dotted x m as =>
    have inner := as.identifiers_subset
    grind [Call.uses, Call.terminals, Use.identifiers]

theorem Arguments.identifiers_subset (as : Arguments) :
    as.uses.flatMap Use.identifiers ⊆ as.terminals := by
  cases as with
  | nil => simp [Arguments.uses]
  | cons e as =>
    have first := e.identifiers_subset
    have more := as.identifiers_subset_more
    grind [Arguments.uses, Arguments.terminals]

theorem Arguments.identifiers_subset_more (as : Arguments) :
    as.uses.flatMap Use.identifiers ⊆ as.moreTerminals := by
  cases as with
  | nil => simp [Arguments.uses]
  | cons e as =>
    have first := e.identifiers_subset
    have more := as.identifiers_subset_more
    grind [Arguments.uses, Arguments.moreTerminals]

end

mutual

theorem Statement.identifiers_subset (s : Statement) :
    s.uses.flatMap Use.identifiers ⊆ s.terminals := by
  cases s with
  | letVariable x e =>
    have value := e.identifiers_subset
    grind [Statement.uses, Statement.terminals, Use.identifiers]
  | letElement x i e =>
    have index := i.identifiers_subset
    have value := e.identifiers_subset
    grind [Statement.uses, Statement.terminals, Use.identifiers]
  | ifThen e body =>
    have condition := e.identifiers_subset
    have first := body.identifiers_subset
    grind [Statement.uses, Statement.terminals]
  | ifElse e body other =>
    have condition := e.identifiers_subset
    have first := body.identifiers_subset
    have second := other.identifiers_subset
    grind [Statement.uses, Statement.terminals]
  | whileDo e body =>
    have condition := e.identifiers_subset
    have first := body.identifiers_subset
    grind [Statement.uses, Statement.terminals]
  | doCall call =>
    have inner := call.identifiers_subset
    grind [Statement.uses, Statement.terminals]
  | returnNothing => simp [Statement.uses]
  | returnValue e =>
    have value := e.identifiers_subset
    grind [Statement.uses, Statement.terminals]

theorem Statements.identifiers_subset (ss : Statements) :
    ss.uses.flatMap Use.identifiers ⊆ ss.terminals := by
  cases ss with
  | nil => simp [Statements.uses]
  | cons s ss =>
    have first := s.identifiers_subset
    have more := ss.identifiers_subset
    grind [Statements.uses, Statements.terminals]

end

theorem Names.identifiers_subset {kind : Kind} {names : Names} {d : Declaration}
    (mem : d ∈ names.declarations kind) : .identifier d.name ∈ names.terminals := by
  obtain ⟨name, place, rfl⟩ := List.mem_map.1 mem
  rcases List.mem_cons.1 place with rfl | place
  · simp [terminals]
  · have later : Terminal.identifier name ∈ moreTerminals names.more :=
      List.mem_flatMap.2 ⟨name, place, by simp⟩
    simp [terminals, later]

theorem Parameter.identifiers_subset {ps : List Parameter} {p : Parameter} (mem : p ∈ ps) :
    .identifier p.name ∈ listTerminals ps := by
  cases ps with
  | nil => cases mem
  | cons q ps =>
    rcases List.mem_cons.1 mem with rfl | mem
    · simp [listTerminals]
    · have later : Terminal.identifier p.name ∈ moreTerminals ps :=
        List.mem_flatMap.2 ⟨p, mem, by simp⟩
      simp [listTerminals, later]

namespace SubroutineDec

variable {s : SubroutineDec}

theorem identifier_of_mem_declarations {d : Declaration} (mem : d ∈ s.declarations) :
    .identifier d.name ∈ s.terminals := by
  rcases List.mem_append.1 mem with mem | mem
  · obtain ⟨p, place, rfl⟩ := List.mem_map.1 mem
    have written := Parameter.identifiers_subset place
    simp [terminals, moreTerminals, Parameter.declaration, written]
  · obtain ⟨names, mem, mem'⟩ := List.mem_flatMap.1 mem
    have written : Terminal.identifier d.name ∈ s.locals.flatMap Names.localTerminals :=
      List.mem_flatMap.2 ⟨names, mem, by
        simp [Names.localTerminals, Names.identifiers_subset mem']⟩
    simp only [terminals, moreTerminals, List.mem_cons, List.mem_append, written]
    simp

theorem identifier_of_mem_uses {use : Use} (mem : use ∈ s.body.uses) {name : String}
    (named : use = .var name ∨ use = .receiver name) : .identifier name ∈ s.terminals := by
  have written := s.body.identifiers_subset (a := .identifier name)
    (List.mem_flatMap.2 ⟨use, mem, by rcases named with rfl | rfl <;> simp [Use.identifiers]⟩)
  simp only [terminals, moreTerminals, List.mem_cons, List.mem_append, written]
  simp

end SubroutineDec

theorem ClassDec.terminals_subset {d : ClassDec} {s : SubroutineDec} (mem : s ∈ d.subroutines) :
    s.terminals ⊆ d.terminals := by
  intro t here
  have written : t ∈ d.subroutines.flatMap SubroutineDec.terminals :=
    List.mem_flatMap.2 ⟨s, mem, here⟩
  simp only [terminals, List.mem_cons, List.mem_append, written]
  simp

/-! ## The rules in terms of names -/

/-- The rules of a subroutine, for someone who reads its source: its parameters and locals have
different names; every variable that it uses is declared in it or in the class; in a `function`
none of them is a field, unless a parameter or a local hides it; and strings are short and made of
small characters. -/
structure SubroutineDec.Acceptable (d : ClassDec) (s : SubroutineDec) : Prop where
  distinct : (s.declarations.map (·.name)).Nodup
  declared : ∀ name, Use.var name ∈ s.body.uses →
    name ∈ s.declarations.map (·.name) ∨ name ∈ d.declarations.map (·.name)
  noFields : s.kind = .function → ∀ v ∈ d.declarations, v.kind = .field →
    v.name ∉ s.declarations.map (·.name) →
      Use.var v.name ∉ s.body.uses ∧ Use.receiver v.name ∉ s.body.uses
  texts : ∀ text, Use.text text ∈ s.body.uses →
    text.length ≤ 32767 ∧ ∀ char ∈ text.toList, char.toNat ≤ 32767

/-- The rules of a class; its statics and fields have different names. -/
structure ClassDec.Acceptable (d : ClassDec) : Prop where
  distinct : (d.declarations.map (·.name)).Nodup
  subroutines : ∀ s ∈ d.subroutines, s.Acceptable d

/-! ### What a name resolves to -/

theorem find?_numbered_eq_none_iff {ds : List Declaration} {name : String} :
    (numbered ds).find? (·.name = name) = none ↔ name ∉ ds.map (·.name) := by
  rw [← map_name_numbered]
  simp only [List.find?_eq_none, decide_eq_true_eq, List.mem_map, not_exists, not_and]

theorem exists_of_mem_numberedFrom {before ds : List Declaration} {v : Variable}
    (mem : v ∈ numberedFrom before ds) : ∃ d ∈ ds, d.name = v.name ∧ d.kind = v.kind := by
  induction ds generalizing before with
  | nil => cases mem
  | cons d ds ih =>
    rcases List.mem_cons.1 mem with rfl | mem
    · exact ⟨d, .head _, rfl, rfl⟩
    · obtain ⟨d', mem', same⟩ := ih mem
      exact ⟨d', .tail _ mem', same⟩

theorem exists_of_find?_numbered {ds : List Declaration} {name : String} {v : Variable}
    (found : (numbered ds).find? (·.name = name) = some v) :
    ∃ d ∈ ds, d.name = name ∧ d.kind = v.kind := by
  obtain ⟨d, mem, same, kind⟩ := exists_of_mem_numberedFrom (List.mem_of_find?_eq_some found)
  exact ⟨d, mem, by simpa [same] using List.find?_some found, kind⟩

namespace SubroutineDec

/-- Parameters and locals belong to no class. -/
theorem belongsToClass_eq_false {s : SubroutineDec} {className : String} {d : Declaration}
    (mem : d ∈ s.allDeclarations className) : d.kind.belongsToClass = false := by
  rcases List.mem_append.1 mem with mem | mem
  · unfold receiver at mem
    split at mem
    · rw [List.mem_singleton.1 mem]
      rfl
    · cases mem
  · rcases List.mem_append.1 mem with mem | mem
    · obtain ⟨p, -, rfl⟩ := List.mem_map.1 mem
      rfl
    · obtain ⟨names, -, mem⟩ := List.mem_flatMap.1 mem
      obtain ⟨name, -, rfl⟩ := List.mem_map.1 mem
      rfl

/-- The receiver has a name that no other variable has. -/
theorem mem_allDeclarations_iff (s : SubroutineDec) (className : String) {name : String}
    (word : Keyword.ofText? name = none) :
    name ∈ (s.allDeclarations className).map (·.name) ↔ name ∈ s.declarations.map (·.name) := by
  have other : name ≠ Keyword.kwThis.text := by
    rintro rfl
    cases word
  unfold allDeclarations receiver
  split <;> simp [other]

theorem nodup_allDeclarations_iff (s : SubroutineDec) (className : String)
    (words : ∀ d ∈ s.declarations, Keyword.ofText? d.name = none) :
    ((s.allDeclarations className).map (·.name)).Nodup ↔
      (s.declarations.map (·.name)).Nodup := by
  unfold allDeclarations receiver
  split
  · have free : Keyword.kwThis.text ∉ s.declarations.map (·.name) := by
      intro mem
      obtain ⟨d, mem, same⟩ := List.mem_map.1 mem
      have word := words d mem
      rw [same] at word
      cases word
    simp only [List.singleton_append, List.map_cons, List.nodup_cons]
    exact ⟨And.right, fun distinct => ⟨free, distinct⟩⟩
  · rfl

end SubroutineDec

namespace ClassDec

variable {d : ClassDec} {s : SubroutineDec} {name : String}

/-- In the scope of a subroutine, a name stands for a variable exactly if it is declared there or
in the class. -/
theorem resolve_eq_none_iff (word : Keyword.ofText? name = none) :
    (d.context s).resolve name = none ↔
      name ∉ s.declarations.map (·.name) ∧ name ∉ d.declarations.map (·.name) := by
  have hidden := s.mem_allDeclarations_iff d.name word
  simp only [context, resolveIn, Option.orElse_eq_orElse, Option.orElse_eq_or,
    Option.or_eq_none_iff, find?_numbered_eq_none_iff, hidden]

/-- It stands for a field exactly if the class has one of that name and the subroutine does not
hide it. -/
theorem resolve_field_iff (distinct : (d.declarations.map (·.name)).Nodup)
    (word : Keyword.ofText? name = none) :
    (∃ v, (d.context s).resolve name = some v ∧ v.kind = .field) ↔
      name ∉ s.declarations.map (·.name) ∧
        ∃ v ∈ d.declarations, v.name = name ∧ v.kind = .field := by
  have hidden := s.mem_allDeclarations_iff d.name word
  have resolve : (d.context s).resolve name =
      ((numbered (s.allDeclarations d.name)).find? (·.name = name) <|>
        (numbered d.declarations).find? (·.name = name)) := rfl
  cases inner : (numbered (s.allDeclarations d.name)).find? (·.name = name) with
  | some v =>
    have declared : name ∈ s.declarations.map (·.name) := by
      by_contra free
      rw [← hidden, ← find?_numbered_eq_none_iff, inner] at free
      cases free
    obtain ⟨w, mem, -, kind⟩ := exists_of_find?_numbered inner
    have other : v.kind ≠ .field := by
      rintro field
      rw [field] at kind
      have inner := SubroutineDec.belongsToClass_eq_false mem
      rw [kind] at inner
      cases inner
    simp [resolve, inner, other, declared]
  | none =>
    have free : name ∉ s.declarations.map (·.name) := by
      rwa [← hidden, ← find?_numbered_eq_none_iff]
    rw [resolve, inner]
    constructor
    · rintro ⟨v, found, field⟩
      obtain ⟨w, mem, same, kind⟩ := exists_of_find?_numbered found
      exact ⟨free, w, mem, same, kind.trans field⟩
    · rintro ⟨-, w, mem, rfl, field⟩
      cases found : (numbered d.declarations).find? (·.name = w.name) with
      | none =>
        rw [find?_numbered_eq_none_iff] at found
        exact absurd (List.mem_map_of_mem mem) found
      | some v =>
        obtain ⟨u, mem', same, kind⟩ := exists_of_find?_numbered found
        obtain rfl : u = w := List.inj_on_of_nodup_map distinct mem' mem same
        exact ⟨v, rfl, kind.symm.trans field⟩

end ClassDec

/-! ### Both forms of the rules -/

namespace SubroutineDec

variable {d : ClassDec} {s : SubroutineDec}

theorem allowed_receiver_iff (distinct : (d.declarations.map (·.name)).Nodup) {name : String}
    (word : Keyword.ofText? name = none) :
    (Use.receiver name).Allowed (d.context s) ↔
      (s.kind = .function → ∀ v ∈ d.declarations, v.kind = .field →
        v.name ∉ s.declarations.map (·.name) → v.name ≠ name) := by
  have field := ClassDec.resolve_field_iff (s := s) distinct word
  constructor
  · rintro allowed function v mem kind free rfl
    obtain ⟨w, found, kind'⟩ := field.2 ⟨free, v, mem, rfl, kind⟩
    exact allowed w found ⟨kind', function⟩
  · rintro noField w found ⟨kind, function⟩
    obtain ⟨free, v, mem, rfl, kind'⟩ := field.1 ⟨w, found, kind⟩
    exact noField function v mem kind' free rfl

theorem allowed_var_iff {name : String} (word : Keyword.ofText? name = none) :
    (Use.var name).Allowed (d.context s) ↔
      (name ∈ s.declarations.map (·.name) ∨ name ∈ d.declarations.map (·.name)) ∧
        (Use.receiver name).Allowed (d.context s) := by
  have declared := not_congr (ClassDec.resolve_eq_none_iff (d := d) (s := s) word)
  rw [not_and_or, not_not, not_not] at declared
  rw [← declared]
  constructor
  · rintro ⟨v, found, reachable⟩
    refine ⟨by simp [found], fun w found' => ?_⟩
    rw [found] at found'
    cases found'
    exact reachable
  · rintro ⟨some, reachable⟩
    obtain ⟨v, found⟩ := Option.ne_none_iff_exists'.1 some
    exact ⟨v, found, reachable v found⟩

/-- Where no identifier spells a keyword, both forms of the rules are the same. -/
theorem wellScoped_iff (distinct : (d.declarations.map (·.name)).Nodup)
    (words : ∀ name, .identifier name ∈ s.terminals → Keyword.ofText? name = none) :
    s.WellScoped d ↔ s.Acceptable d := by
  have names := s.nodup_allDeclarations_iff d.name
    fun v mem => words _ (identifier_of_mem_declarations mem)
  have var {name : String} (mem : Use.var name ∈ s.body.uses) :=
    allowed_var_iff (d := d) (s := s) (words name (identifier_of_mem_uses mem (.inl rfl)))
  have receiver {name : String} {use : Use} (mem : use ∈ s.body.uses)
      (named : use = .var name ∨ use = .receiver name) :=
    allowed_receiver_iff (s := s) distinct (words name (identifier_of_mem_uses mem named))
  constructor
  · rintro ⟨distinct', uses⟩
    refine ⟨names.1 distinct', fun name mem => ((var mem).1 (uses _ mem)).1, ?_,
      fun text mem => uses _ mem⟩
    intro function v mem kind free
    constructor
    · intro mem'
      exact (receiver mem' (.inl rfl)).1 ((var mem').1 (uses _ mem')).2 function v mem kind free rfl
    · intro mem'
      exact (receiver mem' (.inr rfl)).1 (uses _ mem') function v mem kind free rfl
  · rintro ⟨distinct', declared, noFields, texts⟩
    refine ⟨names.2 distinct', fun use mem => ?_⟩
    cases use with
    | text text => exact texts text mem
    | receiver name =>
      refine (receiver mem (.inr rfl)).2 fun function v mem' kind free same => ?_
      exact (noFields function v mem' kind free).2 (same ▸ mem)
    | var name =>
      refine (var mem).2 ⟨declared name mem, (receiver mem (.inl rfl)).2 ?_⟩
      intro function v mem' kind free same
      exact (noFields function v mem' kind free).1 (same ▸ mem)

end SubroutineDec

theorem ClassDec.wellScoped_iff {d : ClassDec}
    (words : ∀ name, .identifier name ∈ d.terminals → Keyword.ofText? name = none) :
    d.WellScoped ↔ d.Acceptable := by
  have each (distinct : (d.declarations.map (·.name)).Nodup) {s : SubroutineDec}
      (mem : s ∈ d.subroutines) : s.WellScoped d ↔ s.Acceptable d :=
    s.wellScoped_iff distinct fun name written => words name (terminals_subset mem written)
  constructor
  · rintro ⟨distinct, subroutines⟩
    exact ⟨distinct, fun s mem => (each distinct mem).1 (subroutines s mem)⟩
  · rintro ⟨distinct, subroutines⟩
    exact ⟨distinct, fun s mem => (each distinct mem).2 (subroutines s mem)⟩

/-- The rules of a class that a source is written like. -/
theorem Lexes.wellScoped_iff {source : String} {d : ClassDec} (lexes : Lexes source d.terminals) :
    d.WellScoped ↔ d.Acceptable :=
  d.wellScoped_iff fun _ mem => (lexes.readable mem).1

/-! ## Exactly the acceptable classes -/

/-- A source has a text for the machine exactly if all of it can be read, what is read is a class
of the grammar and nothing else, and the class is acceptable. -/
theorem exists_compile_eq_ok_iff (source : String) :
    (∃ text, compile source = .ok text) ↔
      ∃ tokens : List Token, (Lexer.ofString source).items.1 = tokens.map .ok ∧
        ∃ d : ClassDec, tokens.map (·.terminal) = d.terminals ∧ d.Acceptable := by
  simp only [compile_eq_ok_iff]
  constructor
  · rintro ⟨text, d, lexes, rules, -⟩
    obtain ⟨tokens, read, written⟩ := id lexes
    exact ⟨tokens, read, d, written, lexes.wellScoped_iff.1 rules⟩
  · rintro ⟨tokens, read, d, written, rules⟩
    have lexes : Lexes source d.terminals := ⟨tokens, read, written⟩
    exact ⟨_, d, lexes, lexes.wellScoped_iff.2 rules, rfl⟩

/-- A source that is written like an acceptable class compiles, into any buffer, to the code of the
tree. -/
theorem compileInto_eq_code_of_acceptable {source : String} {tokens : List Token} {d : ClassDec}
    (read : (Lexer.ofString source).items.1 = tokens.map .ok)
    (written : tokens.map (·.terminal) = d.terminals) (rules : d.Acceptable)
    (buffer : Array Instruction) :
    compileInto .code source buffer = (buffer ++ d.code.toArray, none) := by
  have lexes : Lexes source d.terminals := ⟨tokens, read, written⟩
  exact compileInto_code_eq_iff.2 ⟨d, lexes, lexes.wellScoped_iff.2 rules, rfl⟩

def getterSource : String :=
  "class P { field int x; method int get(int y) { return x + y; } }"

def getterClass : ClassDec :=
  ⟨"P", [⟨.field, rfl, .int, "x", []⟩],
    [⟨.method, some .int, "get", [⟨.int, "y"⟩], [],
      .cons (.returnValue (.of (.var "x") (.cons .plus (.var "y") .nil))) .nil⟩]⟩

theorem getterClass_acceptable : getterClass.Acceptable where
  distinct := by decide
  subroutines := by
    intro s mem
    rw [List.mem_singleton.1 mem]
    constructor
    case distinct => decide
    case declared => simp [Statements.uses, Statement.uses, Expression.uses, Operations.uses,
      Term.uses, SubroutineDec.declarations, ClassDec.declarations, getterClass,
      ClassVarDec.declarations, Names.declarations, Parameter.declaration]
    case noFields => simp
    case texts => simp [Statements.uses, Statement.uses, Expression.uses, Operations.uses,
      Term.uses]

theorem compileInto_getterSource :
    compileInto .code getterSource #[] =
      (#[.function "P.get" 0, .push .argument 0, .pop .pointer 0, .push .this 0, .push .argument 1,
        .arithmetic .add, .ret], none) := by
  have read : (Lexer.ofString getterSource).items.1 =
      (Lexer.ofString getterSource).read.tokens.map .ok := by decide +kernel
  exact compileInto_eq_code_of_acceptable read (by decide +kernel) getterClass_acceptable #[]

end JackToVm
