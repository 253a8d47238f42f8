import JackToVm.Proofs.Characters
import JackToVm.Proofs.Layout
import JackToVm.Proofs.Sinks

/-!
# Programs are read back from their text

The text of a program has a line for each instruction, and the words of a line are parted by
spaces. So a program can be read back, if its names have no space and no line feed in them and are
not empty. Programs that come from a source have such names: they are put together from identifiers,
types and numbers.

Results.
1. The spaces of a line part its words (`Instruction.wordsOf_text`), and the words make the
   instruction (`Instruction.ofWords?_words`).
2. A program is read back line by line (`programOfText?_vmText`), so no two programs have one text
   (`vmText_injective`).
3. The names in the code of a class are words, if its identifiers are (`ClassDec.legible_code`).
4. All of it together: `program_texts_decode`.
-/

namespace JackToVm

/-! ## Words of a line -/

/-- A text that can be a word of a line: it is not empty, and no space and no line feed is in it. -/
def Unbroken (word : String) : Prop :=
  word ≠ "" ∧ ' ' ∉ word.toList ∧ '\n' ∉ word.toList

instance (word : String) : Decidable (Unbroken word) :=
  inferInstanceAs (Decidable (_ ∧ _ ∧ _))

theorem Unbroken.append {word more : String} (first : Unbroken word) (second : Unbroken more) :
    Unbroken (word ++ more) := by
  obtain ⟨some, noSpace, noLine⟩ := first
  obtain ⟨-, noSpace', noLine'⟩ := second
  refine ⟨?_, ?_, ?_⟩
  · simp [some]
  · simp [noSpace, noSpace']
  · simp [noLine, noLine']

/-- Characters of names are no blanks. -/
theorem unbroken_of_continuesName {word : String} (some : word ≠ "")
    (continues : ∀ c ∈ word.toList, continuesName c) : Unbroken word := by
  have noBlank {c : Char} (blank : isBlank c) : c ∉ word.toList := fun mem => by
    have inName := continues c mem
    rw [continuesName_eq_false_of_isBlank blank] at inName
    cases inName
  exact ⟨some, noBlank (by decide), noBlank (by decide)⟩

theorem IsName.unbroken {name : String} (h : IsName name) : Unbroken name := by
  obtain ⟨-, c, cs, spelled, starts, continues⟩ := h
  refine unbroken_of_continuesName ?_ ?_
  · rintro rfl
    cases spelled
  · rw [spelled]
    exact List.forall_mem_cons.2 ⟨continuesName_of_startsName starts, continues⟩

theorem unbroken_toString (n : Nat) : Unbroken (toString n) := by
  have digits : (toString n).toList = Nat.toDigits 10 n := Nat.toList_repr
  refine unbroken_of_continuesName ?_ fun c mem => ?_
  · intro empty
    rw [empty] at digits
    exact Nat.toDigits_ne_nil digits.symm
  · rw [digits] at mem
    exact continuesName_of_isDigit (isDigit_of_mem_toDigits mem)

/-! ## Instructions -/

namespace Segment

def all : List Segment :=
  [constant, argument, localVar, static, this, that, pointer, temp]

/-- The segment that a word spells, if it spells one. -/
def ofText? (word : String) : Option Segment :=
  all.find? (·.text = word)

theorem ofText?_text (s : Segment) : ofText? s.text = some s := by
  cases s <;> decide

theorem unbroken_text (s : Segment) : Unbroken s.text := by
  cases s <;> decide

end Segment

namespace Operation

def all : List Operation :=
  [add, sub, neg, eq, gt, lt, and, or, not]

/-- The command that a word spells, if it spells one. -/
def ofText? (word : String) : Option Operation :=
  all.find? (·.text = word)

theorem ofText?_text (o : Operation) : ofText? o.text = some o := by
  cases o <;> decide

theorem unbroken_text (o : Operation) : Unbroken o.text := by
  cases o <;> decide

end Operation

namespace Instruction

/-- The label, the call target or the name of a subroutine that an instruction has. -/
def name? : Instruction → Option String
  | label name | goto name | ifGoto name | call name _ | function name _ => some name
  | push .. | pop .. | arithmetic _ | ret => none

/-- The name of the instruction, if it has one, is a word. -/
def Legible (i : Instruction) : Prop :=
  ∀ name ∈ i.name?, Unbroken name

instance (i : Instruction) : Decidable i.Legible :=
  inferInstanceAs (Decidable (∀ name ∈ i.name?, Unbroken name))

/-- The words of the text of an instruction. -/
def words : Instruction → List String
  | push segment index => ["push", segment.text, toString index]
  | pop segment index => ["pop", segment.text, toString index]
  | arithmetic command => [command.text]
  | label name => ["label", name]
  | goto target => ["goto", target]
  | ifGoto target => ["if-goto", target]
  | call name arguments => ["call", name, toString arguments]
  | function name locals => ["function", name, toString locals]
  | ret => ["return"]

/-- The instruction that some words make, if they make one. -/
def ofWords? : List String → Option Instruction
  | [word] => if word = "return" then some ret else (Operation.ofText? word).map arithmetic
  | ["label", name] => some (label name)
  | ["goto", target] => some (goto target)
  | ["if-goto", target] => some (ifGoto target)
  | ["push", segment, index] => do return push (← Segment.ofText? segment) (← decimal? index)
  | ["pop", segment, index] => do return pop (← Segment.ofText? segment) (← decimal? index)
  | ["call", name, arguments] => do return call name (← decimal? arguments)
  | ["function", name, locals] => do return function name (← decimal? locals)
  | _ => none

/-- The words of an instruction make it. -/
theorem ofWords?_words (i : Instruction) : ofWords? i.words = some i := by
  cases i with
  | arithmetic command =>
    have other : command.text ≠ "return" := by cases command <;> decide
    simp [words, ofWords?, other, Operation.ofText?_text]
  | push segment index | pop segment index =>
    simp only [words, ofWords?, Segment.ofText?_text, decimal?_toString]
    rfl
  | call name count | function name count =>
    simp only [words, ofWords?, decimal?_toString]
    rfl
  | label name | goto target | ifGoto target | ret => rfl

theorem Legible.unbroken_words {i : Instruction} (legible : i.Legible) :
    ∀ word ∈ i.words, Unbroken word := by
  cases i with
  | push segment index | pop segment index =>
    simp only [words, List.forall_mem_cons]
    exact ⟨by decide, segment.unbroken_text, unbroken_toString index, nofun⟩
  | arithmetic command =>
    simp only [words, List.forall_mem_cons]
    exact ⟨command.unbroken_text, nofun⟩
  | label name | goto name | ifGoto name =>
    simp only [words, List.forall_mem_cons]
    exact ⟨by decide, legible name rfl, nofun⟩
  | call name count | function name count =>
    simp only [words, List.forall_mem_cons]
    exact ⟨by decide, legible name rfl, unbroken_toString count, nofun⟩
  | ret =>
    simp only [words, List.forall_mem_cons]
    exact ⟨by decide, nofun⟩

/-- The words of an instruction stand in its text with a space between any two of them. -/
theorem toList_text (i : Instruction) :
    i.text.toList = [' '].intercalate (i.words.map String.toList) := by
  cases i <;> simp [text, words, List.intercalate_cons_cons]

/-- The words of a line. -/
def wordsOf (line : List Char) : List String :=
  (line.splitOn ' ').map String.ofList

/-- The spaces of the text part the words. -/
theorem wordsOf_text {i : Instruction} (legible : i.Legible) : wordsOf i.text.toList = i.words := by
  have parts : i.text.toList.splitOn ' ' = i.words.map String.toList := by
    rw [toList_text]
    refine List.splitOn_intercalate ' ' ?_ ?_
    · intro word mem
      obtain ⟨w, inWords, rfl⟩ := List.mem_map.1 mem
      exact (legible.unbroken_words w inWords).2.1
    · cases i <;> simp [words]
  rw [wordsOf, parts, List.map_map]
  exact List.map_id'' (fun _ => String.ofList_toList) _

theorem not_mem_intercalate {c : Char} {separator : List Char} (other : c ∉ separator)
    {parts : List (List Char)} (none : ∀ part ∈ parts, c ∉ part) :
    c ∉ separator.intercalate parts := by
  induction parts with
  | nil => simp
  | cons part parts ih =>
    obtain ⟨first, others⟩ := List.forall_mem_cons.1 none
    cases parts with
    | nil => simpa using first
    | cons next parts =>
      rw [List.intercalate_cons_cons]
      simp only [List.mem_append, not_or]
      exact ⟨⟨first, other⟩, ih others⟩

/-- The text of an instruction is one line. -/
theorem Legible.newline_not_mem {i : Instruction} (legible : i.Legible) :
    '\n' ∉ i.text.toList := by
  rw [toList_text]
  refine not_mem_intercalate (by decide) fun word mem => ?_
  obtain ⟨w, inWords, rfl⟩ := List.mem_map.1 mem
  exact (legible.unbroken_words w inWords).2.2

/-- The instruction that a line has, if it has one. -/
def ofLine? (line : List Char) : Option Instruction :=
  ofWords? (wordsOf line)

theorem ofLine?_text {i : Instruction} (legible : i.Legible) :
    ofLine? i.text.toList = some i := by
  rw [ofLine?, wordsOf_text legible, ofWords?_words]

/-- No two instructions have one text. -/
theorem text_injective {i j : Instruction} (legible : i.Legible) (legible' : j.Legible)
    (same : i.text = j.text) : i = j := by
  have read := ofLine?_text legible
  rw [same, ofLine?_text legible'] at read
  exact (Option.some.inj read).symm

end Instruction

/-! ## Names of programs -/

/-- All names of a code can be read back. -/
def AllLegible (code : List Instruction) : Prop :=
  ∀ i ∈ code, i.Legible

instance (code : List Instruction) : Decidable (AllLegible code) :=
  inferInstanceAs (Decidable (∀ i ∈ code, i.Legible))

@[simp]
theorem allLegible_nil : AllLegible [] := by
  simp [AllLegible]

@[simp]
theorem allLegible_cons {i : Instruction} {code : List Instruction} :
    AllLegible (i :: code) ↔ i.Legible ∧ AllLegible code :=
  List.forall_mem_cons

@[simp]
theorem allLegible_append {code more : List Instruction} :
    AllLegible (code ++ more) ↔ AllLegible code ∧ AllLegible more :=
  List.forall_mem_append

/-- All identifiers among some terminals are words. -/
def NamesUnbroken (ts : List Terminal) : Prop :=
  ∀ x, .identifier x ∈ ts → Unbroken x

@[simp]
theorem namesUnbroken_nil : NamesUnbroken [] := by
  simp [NamesUnbroken]

@[simp]
theorem namesUnbroken_cons {t : Terminal} {ts : List Terminal} :
    NamesUnbroken (t :: ts) ↔ (∀ x, .identifier x = t → Unbroken x) ∧ NamesUnbroken ts := by
  simp [NamesUnbroken, or_imp, forall_and]

@[simp]
theorem namesUnbroken_append {ts us : List Terminal} :
    NamesUnbroken (ts ++ us) ↔ NamesUnbroken ts ∧ NamesUnbroken us := by
  simp [NamesUnbroken, or_imp, forall_and]

theorem NamesUnbroken.mono {ts us : List Terminal} (names : NamesUnbroken us) (part : ts ⊆ us) :
    NamesUnbroken ts :=
  fun x mem => names x (part mem)

namespace Context

/-- What is known where a statement is translated makes words: the name of the class is one, and so
is the type of each variable. -/
structure Legible (c : Context) : Prop where
  className : Unbroken c.className
  type : ∀ x v, c.resolve x = some v → Unbroken v.type

variable {c : Context}

theorem Legible.memberName (legible : c.Legible) {name : String} (word : Unbroken name) :
    Unbroken (c.memberName name) :=
  (legible.className.append (by decide)).append word

theorem Legible.label (legible : c.Legible) {purpose : String} (word : Unbroken purpose)
    (n : Nat) : Unbroken (c.label purpose n) :=
  ((legible.className.append (by decide)).append word).append (unbroken_toString n)

theorem Legible.target (legible : c.Legible) {receiver member : String}
    (word : Unbroken receiver) (other : Unbroken member) :
    Unbroken (c.target receiver member) := by
  unfold Context.target
  split
  · next v found => exact ((legible.type _ v found).append (by decide)).append other
  · exact (word.append (by decide)).append other

theorem legible_receiverCode (c : Context) (receiver : String) :
    AllLegible (c.receiverCode receiver) := by
  unfold receiverCode
  split <;> simp [Instruction.load, Instruction.Legible, Instruction.name?]

end Context

theorem legible_textCode (text : String) : AllLegible (textCode text) := by
  have pushed (n : Nat) : (Instruction.push .constant n).Legible := nofun
  have made : (Instruction.call "String.new" 1).Legible := by decide
  have appended : (Instruction.call "String.appendChar" 2).Legible := by decide
  have characters (cs : List Char) : AllLegible (cs.flatMap fun char =>
      [.push .constant char.toNat, .call "String.appendChar" 2]) := by
    induction cs with
    | nil => simp
    | cons char cs ih => simp [ih, pushed, appended]
  simp [textCode, pushed, made, characters]

theorem BinaryOperator.legible_code (o : BinaryOperator) : o.code.Legible := by
  cases o <;> decide

theorem UnaryOperator.legible_code (o : UnaryOperator) : o.code.Legible := by
  cases o <;> decide

theorem ConstantWord.legible_code (w : ConstantWord) : AllLegible w.code := by
  cases w <;> simp [ConstantWord.code, Instruction.Legible, Instruction.name?]

section

variable {c : Context}

mutual

theorem Expression.legible_code (legible : c.Legible) (e : Expression)
    (names : NamesUnbroken e.terminals) : AllLegible (e.code c) := by
  cases e with
  | of t ops =>
    simp only [Expression.terminals, namesUnbroken_append] at names
    obtain ⟨first, more⟩ := names
    simp [Expression.code, t.legible_code legible first, ops.legible_code legible more]

theorem Operations.legible_code (legible : c.Legible) (ops : Operations)
    (names : NamesUnbroken ops.terminals) : AllLegible (ops.code c) := by
  cases ops with
  | nil => exact allLegible_nil
  | cons o t ops =>
    simp only [Operations.terminals, namesUnbroken_cons, namesUnbroken_append] at names
    obtain ⟨-, operand, more⟩ := names
    simp [Operations.code, o.legible_code, t.legible_code legible operand,
      ops.legible_code legible more]

theorem Term.legible_code (legible : c.Legible) (t : Term)
    (names : NamesUnbroken t.terminals) : AllLegible (t.code c) := by
  cases t with
  | integer n => simp [Term.code, Instruction.Legible, Instruction.name?]
  | text text => exact legible_textCode text
  | word w => exact w.legible_code
  | var x => simp [Term.code, Instruction.load, Instruction.Legible, Instruction.name?]
  | element x e =>
    simp only [Term.terminals, namesUnbroken_cons, namesUnbroken_append] at names
    obtain ⟨-, -, index, -⟩ := names
    simp [Term.code, Instruction.load, Instruction.Legible, Instruction.name?,
      e.legible_code legible index]
  | call call => exact call.legible_code legible names
  | group e =>
    simp only [Term.terminals, namesUnbroken_cons, namesUnbroken_append] at names
    obtain ⟨-, inner, -⟩ := names
    exact e.legible_code legible inner
  | unary o t =>
    simp only [Term.terminals, namesUnbroken_cons] at names
    simp [Term.code, o.legible_code, t.legible_code legible names.2]

theorem Call.legible_code (legible : c.Legible) (call : Call)
    (names : NamesUnbroken call.terminals) : AllLegible (call.code c) := by
  cases call with
  | own m as =>
    simp only [Call.terminals, namesUnbroken_cons, namesUnbroken_append] at names
    obtain ⟨member, -, arguments, -⟩ := names
    have target := legible.memberName (member m rfl)
    simp [Call.code, Instruction.Legible, Instruction.name?, target,
      as.legible_code legible arguments]
  | dotted x m as =>
    simp only [Call.terminals, namesUnbroken_cons, namesUnbroken_append] at names
    obtain ⟨receiver, -, member, -, arguments, -⟩ := names
    have target := legible.target (receiver x rfl) (member m rfl)
    simp [Call.code, Instruction.Legible, Instruction.name?, target, c.legible_receiverCode,
      as.legible_code legible arguments]

theorem Arguments.legible_code (legible : c.Legible) (as : Arguments)
    (names : NamesUnbroken as.terminals) : AllLegible (as.code c) := by
  cases as with
  | nil => exact allLegible_nil
  | cons e as =>
    simp only [Arguments.terminals, namesUnbroken_append] at names
    obtain ⟨first, more⟩ := names
    simp [Arguments.code, e.legible_code legible first, as.legible_code_more legible more]

theorem Arguments.legible_code_more (legible : c.Legible) (as : Arguments)
    (names : NamesUnbroken as.moreTerminals) : AllLegible (as.code c) := by
  cases as with
  | nil => exact allLegible_nil
  | cons e as =>
    simp only [Arguments.moreTerminals, namesUnbroken_cons, namesUnbroken_append] at names
    obtain ⟨-, first, more⟩ := names
    simp [Arguments.code, e.legible_code legible first, as.legible_code_more legible more]

end

mutual

theorem Statement.legible_code (legible : c.Legible) (n : Nat) (s : Statement)
    (names : NamesUnbroken s.terminals) : AllLegible (s.code c n) := by
  cases s with
  | letVariable x e =>
    simp only [Statement.terminals, namesUnbroken_cons, namesUnbroken_append] at names
    obtain ⟨-, -, -, value, -⟩ := names
    simp [Statement.code, Instruction.store, Instruction.Legible, Instruction.name?,
      e.legible_code legible value]
  | letElement x i e =>
    simp only [Statement.terminals, namesUnbroken_cons, namesUnbroken_append] at names
    obtain ⟨-, -, -, index, -, -, value, -⟩ := names
    simp [Statement.code, Instruction.load, Instruction.Legible, Instruction.name?,
      i.legible_code legible index, e.legible_code legible value]
  | ifThen e body =>
    simp only [Statement.terminals, namesUnbroken_cons, namesUnbroken_append] at names
    obtain ⟨-, -, condition, -, -, inner, -⟩ := names
    have otherwise : Unbroken (c.label "IF_ELSE" n) := legible.label (by decide) n
    have behind : Unbroken (c.label "IF_END" n) := legible.label (by decide) n
    simp [Statement.code, Instruction.Legible, Instruction.name?, otherwise, behind,
      e.legible_code legible condition, body.legible_code legible (n + 1) inner]
  | ifElse e body other =>
    simp only [Statement.terminals, namesUnbroken_cons, namesUnbroken_append] at names
    obtain ⟨-, -, condition, -, -, inner, -, -, -, last, -⟩ := names
    have otherwise : Unbroken (c.label "IF_ELSE" n) := legible.label (by decide) n
    have behind : Unbroken (c.label "IF_END" n) := legible.label (by decide) n
    simp [Statement.code, Instruction.Legible, Instruction.name?, otherwise, behind,
      e.legible_code legible condition, body.legible_code legible (n + 1) inner,
      other.legible_code legible (n + 1 + body.constructs) last]
  | whileDo e body =>
    simp only [Statement.terminals, namesUnbroken_cons, namesUnbroken_append] at names
    obtain ⟨-, -, condition, -, -, inner, -⟩ := names
    have again : Unbroken (c.label "WHILE_EXP" n) := legible.label (by decide) n
    have behind : Unbroken (c.label "WHILE_END" n) := legible.label (by decide) n
    simp [Statement.code, Instruction.Legible, Instruction.name?, again, behind,
      e.legible_code legible condition, body.legible_code legible (n + 1) inner]
  | doCall call =>
    simp only [Statement.terminals, namesUnbroken_cons, namesUnbroken_append] at names
    obtain ⟨-, inner, -⟩ := names
    simp [Statement.code, Instruction.Legible, Instruction.name?, call.legible_code legible inner]
  | returnNothing => simp [Statement.code, Instruction.Legible, Instruction.name?]
  | returnValue e =>
    simp only [Statement.terminals, namesUnbroken_cons, namesUnbroken_append] at names
    obtain ⟨-, value, -⟩ := names
    simp [Statement.code, Instruction.Legible, Instruction.name?, e.legible_code legible value]

theorem Statements.legible_code (legible : c.Legible) (n : Nat) (ss : Statements)
    (names : NamesUnbroken ss.terminals) : AllLegible (ss.code c n) := by
  cases ss with
  | nil => exact allLegible_nil
  | cons s ss =>
    simp only [Statements.terminals, namesUnbroken_append] at names
    obtain ⟨first, more⟩ := names
    simp [Statements.code, s.legible_code legible n first,
      ss.legible_code legible (n + s.constructs) more]

end

end

/-! ### Names of a class -/

/-- The types among some terminals make words. -/
theorem NamesUnbroken.type {ts : List Terminal} (names : NamesUnbroken ts) {type : TypeName}
    (mem : type.terminal ∈ ts) : Unbroken type.text := by
  cases type with
  | int | char | boolean => decide
  | named name => exact names name mem

/-- The type of a variable is that of its declaration. -/
theorem exists_type_of_mem_numberedFrom {before ds : List Declaration} {v : Variable}
    (mem : v ∈ numberedFrom before ds) : ∃ d ∈ ds, d.type = v.type := by
  induction ds generalizing before with
  | nil => cases mem
  | cons d ds ih =>
    rcases List.mem_cons.1 mem with rfl | mem
    · exact ⟨d, .head _, rfl⟩
    · obtain ⟨d', mem', same⟩ := ih mem
      exact ⟨d', .tail _ mem', same⟩

theorem Names.unbroken_type {kind : Kind} {names : Names} {d : Declaration}
    (words : NamesUnbroken names.terminals) (mem : d ∈ names.declarations kind) :
    Unbroken d.type := by
  obtain ⟨name, -, rfl⟩ := List.mem_map.1 mem
  exact words.type (.head _)

theorem Parameter.terminal_mem {ps : List Parameter} {p : Parameter} (mem : p ∈ ps) :
    p.type.terminal ∈ listTerminals ps := by
  cases ps with
  | nil => cases mem
  | cons q ps =>
    rcases List.mem_cons.1 mem with rfl | mem
    · exact .head _
    · have later : p.type.terminal ∈ moreTerminals ps :=
        List.mem_flatMap.2 ⟨p, mem, by simp⟩
      simp [listTerminals, later]

theorem SubroutineDec.unbroken_type {s : SubroutineDec} (words : NamesUnbroken s.terminals)
    {v : Declaration} (mem : v ∈ s.declarations) : Unbroken v.type := by
  simp only [terminals, moreTerminals, namesUnbroken_cons, namesUnbroken_append] at words
  obtain ⟨-, -, -, -, parameters, -, -, locals, -, -⟩ := words
  rcases List.mem_append.1 mem with mem | mem
  · obtain ⟨p, place, rfl⟩ := List.mem_map.1 mem
    exact parameters.type (Parameter.terminal_mem place)
  · obtain ⟨names, place, mem⟩ := List.mem_flatMap.1 mem
    have here : NamesUnbroken names.localTerminals :=
      locals.mono fun t within => List.mem_flatMap.2 ⟨names, place, within⟩
    simp only [Names.localTerminals, namesUnbroken_cons, namesUnbroken_append] at here
    exact Names.unbroken_type here.2.1 mem

theorem ClassDec.unbroken_type {d : ClassDec} (words : NamesUnbroken d.terminals)
    {v : Declaration} (mem : v ∈ d.declarations) : Unbroken v.type := by
  simp only [terminals, namesUnbroken_cons, namesUnbroken_append] at words
  obtain ⟨-, -, -, classVars, -⟩ := words
  obtain ⟨vars, place, mem⟩ := List.mem_flatMap.1 mem
  have here : NamesUnbroken vars.terminals :=
    classVars.mono fun t within => List.mem_flatMap.2 ⟨vars, place, within⟩
  simp only [ClassVarDec.terminals, namesUnbroken_cons, namesUnbroken_append] at here
  exact Names.unbroken_type here.2.1 mem

section

variable {d : ClassDec} {s : SubroutineDec}

theorem ClassDec.unbroken_name (words : NamesUnbroken d.terminals) : Unbroken d.name :=
  words d.name (.tail _ (.head _))

/-- What is known in a subroutine makes words. -/
theorem ClassDec.legible_context (mem : s ∈ d.subroutines) (words : NamesUnbroken d.terminals) :
    (d.context s).Legible where
  className := d.unbroken_name words
  type x v found := by
    rcases SubroutineDec.mem_of_resolve found with place | place
    · obtain ⟨v', place, same⟩ := exists_type_of_mem_numberedFrom place
      rw [← same]
      rcases List.mem_append.1 place with place | place
      · -- the receiver of a method has the class as its type
        unfold SubroutineDec.receiver at place
        split at place
        · rw [List.mem_singleton.1 place]
          exact d.unbroken_name words
        · cases place
      · exact SubroutineDec.unbroken_type (words.mono (ClassDec.terminals_subset mem)) place
    · obtain ⟨v', place, same⟩ := exists_type_of_mem_numberedFrom place
      rw [← same]
      exact d.unbroken_type words place

theorem SubroutineDec.legible_prologueCode (d : ClassDec) (s : SubroutineDec) :
    AllLegible (s.prologueCode d) := by
  have allocator : Unbroken "Memory.alloc" := by decide
  unfold prologueCode
  cases s.kind <;> simp [allocator, Instruction.Legible, Instruction.name?]

theorem SubroutineDec.legible_code (mem : s ∈ d.subroutines) (words : NamesUnbroken d.terminals)
    (n : Nat) : AllLegible (s.code d n) := by
  have here := words.mono (ClassDec.terminals_subset mem)
  simp only [terminals, moreTerminals, namesUnbroken_cons, namesUnbroken_append] at here
  obtain ⟨-, -, name, -, -, -, -, -, body, -⟩ := here
  have header : (Instruction.function (d.name ++ "." ++ s.name)
      (countKind .localVar s.declarations)).Legible := by
    rintro _ ⟨rfl⟩
    exact ((d.unbroken_name words).append (by decide)).append (name s.name rfl)
  simp [SubroutineDec.code, header, s.legible_prologueCode,
    s.body.legible_code (d.legible_context mem words) n body]

end

/-- All names in the code of a class can be read back. -/
theorem ClassDec.legible_code {d : ClassDec} (names : NamesUnbroken d.terminals) :
    AllLegible d.code := by
  intro i mem
  obtain ⟨block, place, mem⟩ := List.mem_flatten.1 mem
  obtain ⟨s, inClass, n, rfl⟩ := ClassDec.exists_of_mem_blocksFrom place
  exact SubroutineDec.legible_code inClass names n i mem

/-! ## Programs -/

/-- The lines of a text whose lines all end in a line feed. -/
def linesOf (text : String) : List (List Char) :=
  (text.toList.splitOn '\n').dropLast

/-- The program that a text has, if each of its lines has an instruction. -/
def programOfText? (text : String) : Option (List Instruction) :=
  (linesOf text).mapM Instruction.ofLine?

section

variable {code : List Instruction}

/-- The text of each instruction is a line of the text of the program. -/
theorem splitOn_vmText (legible : AllLegible code) :
    (vmText code).toList.splitOn '\n' = code.map (·.text.toList) ++ [[]] := by
  induction code with
  | nil => rfl
  | cons i code ih =>
    obtain ⟨first, others⟩ := allLegible_cons.1 legible
    have parts : (vmText (i :: code)).toList = i.text.toList ++ '\n' :: (vmText code).toList := by
      simp [vmText, Instruction.line]
    rw [parts, List.splitOn_append_cons_self_of_not_mem first.newline_not_mem, ih others]
    rfl

theorem linesOf_vmText (legible : AllLegible code) :
    linesOf (vmText code) = code.map (·.text.toList) := by
  rw [linesOf, splitOn_vmText legible, List.dropLast_concat]

/-- A program is read back from its text. -/
theorem programOfText?_vmText (legible : AllLegible code) :
    programOfText? (vmText code) = some code := by
  rw [programOfText?, linesOf_vmText legible]
  induction code with
  | nil => rfl
  | cons i code ih =>
    obtain ⟨first, others⟩ := allLegible_cons.1 legible
    simp only [List.map_cons, List.mapM_cons, Instruction.ofLine?_text first, ih others]
    rfl

theorem vmText_injective {more : List Instruction} (legible : AllLegible code)
    (legible' : AllLegible more) (same : vmText code = vmText more) : code = more := by
  have read := programOfText?_vmText legible
  rw [same, programOfText?_vmText legible'] at read
  exact (Option.some.inj read).symm

end

/-- All names of a program that comes from a source can be read back. -/
theorem legible_of_instructions_eq_ok {source : String} {code : Array Instruction}
    (translated : instructions source = .ok code) : AllLegible code.toList := by
  obtain ⟨d, lexes, -, rfl⟩ := instructions_eq_ok_iff.1 translated
  exact ClassDec.legible_code fun x mem => IsName.unbroken (lexes.readable mem)

theorem exists_instructions_of_compile {source text : String}
    (compiled : compile source = .ok text) :
    ∃ code, instructions source = .ok code ∧ text = vmText code.toList := by
  obtain ⟨d, lexes, rules, rfl⟩ := compile_eq_ok_iff.1 compiled
  exact ⟨d.code.toArray, instructions_eq_ok_iff.2 ⟨d, lexes, rules, rfl⟩, rfl⟩

/-- The text of a program is decoded line by line. Names that come from a source are words, so
programs that come from sources have the same text only if they are the same. -/
theorem program_texts_decode :
    (∀ source text, compile source = .ok text →
      ∃ code, instructions source = .ok code ∧ text = vmText code.toList ∧
        ∀ i ∈ code.toList, ∀ name ∈ i.name?,
          name ≠ "" ∧ ' ' ∉ name.toList ∧ '\n' ∉ name.toList) ∧
      (∀ code, AllLegible code →
        Writer.emitAll ⟨.empty, none⟩ code = (⟨(vmText code).toUTF8, none⟩, none) ∧
        (vmText code).toList.splitOn '\n' = code.map (·.text.toList) ++ [[]] ∧
        programOfText? (vmText code) = some code) ∧
      (∀ i j : Instruction, i.Legible → j.Legible → (i.text = j.text ↔ i = j)) ∧
      ∀ source source' text text', compile source = .ok text → compile source' = .ok text' →
        (text = text' ↔ instructions source = instructions source') := by
  refine ⟨?names, ?decodes, ?lines, ?sources⟩
  case names =>
    intro source text compiled
    obtain ⟨code, translated, rfl⟩ := exists_instructions_of_compile compiled
    exact ⟨code, translated, rfl, legible_of_instructions_eq_ok translated⟩
  case decodes =>
    intro code legible
    exact ⟨Writer.emitAll_unlimited code, splitOn_vmText legible, programOfText?_vmText legible⟩
  case lines =>
    rintro i j legible legible'
    exact ⟨Instruction.text_injective legible legible', congrArg _⟩
  case sources =>
    intro source source' text text' compiled compiled'
    obtain ⟨code, translated, rfl⟩ := exists_instructions_of_compile compiled
    obtain ⟨code', translated', rfl⟩ := exists_instructions_of_compile compiled'
    have legible := legible_of_instructions_eq_ok translated
    have legible' := legible_of_instructions_eq_ok translated'
    rw [translated, translated']
    constructor
    · intro same
      rw [Array.toList_inj.1 (vmText_injective legible legible' same)]
    · rintro ⟨rfl⟩
      rfl

/-- Names may have letters of every script, and dots. -/
theorem program_text_decodes_umlaut :
    AllLegible [.function "Zähler.größe" 0, .label "Zähler.IF_ELSE10", .push .constant 32767] ∧
      programOfText?
          (vmText [.function "Zähler.größe" 0, .label "Zähler.IF_ELSE10", .push .constant 32767]) =
        some [.function "Zähler.größe" 0, .label "Zähler.IF_ELSE10", .push .constant 32767] := by
  have legible : AllLegible
      [.function "Zähler.größe" 0, .label "Zähler.IF_ELSE10", .push .constant 32767] := by
    decide
  exact ⟨legible, (program_texts_decode.2.1 _ legible).2.2⟩

end JackToVm
