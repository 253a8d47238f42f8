import JackToVm.Proofs.Calls
import JackToVm.Proofs.Headway

/-!
# Every compilation ends

A compilation that is given so many calls of the lexer and so many moves of the machine, and no
more, is the compilation if both are enough; and enough is linear in the length of the text.

The bound is one on weights. Why the weights go down is not seen from it: that rules which call
each other consume a terminal on every cycle, or else keep to an order. That is told here of the
nodes of the log, and of the loops and of the productions that are no nodes, which are found in the
goals of a machine.

Results.
1. To read a text takes a call for each of its characters at most (`Lexer.readWithin_eq_readFrom`),
   and what is read pays for all moves (`Lexer.budgets_read_le`, `compileWithin_eq_compileInto`).
2. From one rule to a later one, the terminals left and the rank go down in their lexicographic
   order (`Lexer.Reading.Passes.lex`), which is well founded. So no loop and no production starts
   twice without a terminal (`Lexer.Reading.Passes.terminalsOf_ne_nil`).
3. All of it together: `compilation_ends`.
-/

namespace JackToVm

/-! ## Counted calls and moves -/

namespace Lexer

/-- Reads on to the first error or the end with that many calls at most, or not to there. -/
def readWithin : Nat → List Token → Lexer → Option Reading
  | 0, _, _ => none
  | calls + 1, before, l =>
    match l.next with
    | (none, l) => some ⟨before.reverse, none, l⟩
    | (some (.error e), l) => some ⟨before.reverse, some e, l⟩
    | (some (.ok t), l) => readWithin calls (t :: before) l

/-- Every item has a character, so there are no more calls to make than characters, and one. -/
theorem readWithin_eq_readFrom {calls : Nat} {before : List Token} {l : Lexer}
    (enough : l.rest.length < calls) :
    readWithin calls before l = some (readFrom before l) := by
  induction calls generalizing before l with
  | zero => cases enough
  | succ calls ih =>
    unfold readWithin
    split
    · next m h => rw [readFrom_of_none h]
    · next e m h => rw [readFrom_of_error h]
    · next t m h =>
      have shorter := next_length_lt h
      rw [readFrom_of_ok h]
      exact ih (by omega)

end Lexer

namespace Machine

/-- Runs a machine with that many moves at most, or not to its end. -/
def runWithin {σ : Type} (sink : Sink σ) (ending : Option LexCause) :
    Nat → Machine → σ → Option (σ × Option Failure)
  | 0, _, _ => none
  | moves + 1, m, s =>
    match m.move ending with
    | .finishes => some (s, none)
    | .fails events failure => some (sink.reportAll s events, some failure)
    | .emits i next =>
      match sink.emit s i with
      | (s, none) => runWithin sink ending moves next s
      | (s, some reason) => some (s, some ⟨.emission reason, m.site⟩)
    | .moves events next => runWithin sink ending moves next (sink.reportAll s events)

/-- Every move makes a machine lighter, so its weight is enough. -/
theorem runWithin_eq_run {σ : Type} {sink : Sink σ} {ending : Option LexCause} {moves : Nat}
    {m : Machine} {s : σ} (enough : m.weight < moves) :
    m.runWithin sink ending moves s = some (m.run sink ending s) := by
  induction moves generalizing m s with
  | zero => cases enough
  | succ moves ih =>
    unfold runWithin
    split
    · next h => rw [run_of_finishes h]
    · next h => rw [run_of_fails h]
    · next i next h =>
      have lighter := weight_of_emits h
      split
      · next taken =>
        rw [run_of_emits h taken]
        exact ih (by omega)
      · next refused => rw [run_of_refused h refused]
    · next events next h =>
      have lighter := weight_of_moves h
      rw [run_of_moves h]
      exact ih (by omega)

end Machine

/-- Compiles a class given as terminals, with that many moves at most. -/
def compileTerminalsWithin {σ : Type} (moves : Nat) (sink : Sink σ) (terminals : List Terminal)
    (ending : Option LexCause) (s : σ) : Option (σ × Option Failure) :=
  match terminals, ending with
  | [], some cause => some (s, some ⟨.lexical cause, 0⟩)
  | _, _ => (Machine.start terminals).runWithin sink ending moves s

/-- Compiles a class into a sink with that many calls of the lexer and moves of the machine at most,
or not to its end. -/
def compileWithin {σ : Type} (calls moves : Nat) (sink : Sink σ) (source : String) (s : σ) :
    Option (σ × Option CompileError) := do
  let r ← (Lexer.ofString source).readWithin calls []
  let (s, failure) ←
    compileTerminalsWithin moves sink (r.tokens.map (·.terminal)) (r.failure.map (·.cause)) s
  return (s, failure.map r.locate)

/-! ## Budgets -/

/-- What some terminals pay for when they are consumed. -/
def Terminal.budgets (terminals : List Terminal) : Nat :=
  terminals.foldr (fun t total => t.budget + total) 0

/-- The budget of a terminal is paid by the characters that it covers. -/
theorem Reads.budget_le {covered after : List Char} {t : Terminal}
    (reads : Reads covered after (.ok t)) : t.budget ≤ 35 * covered.length := by
  cases reads with
  | symbol s => simp [Terminal.budget]
  | string _ => simp [Terminal.budget]; omega
  | integer some _ _ =>
    have := List.length_pos_iff.2 some
    simp only [Terminal.budget]
    omega
  | keyword _ _ _ => simp [Terminal.budget]; omega
  | identifier _ _ _ => simp [Terminal.budget]; omega

namespace Lexer

variable {l m : Lexer} {t : Token}

theorem next_budget_le (h : l.next = (some (.ok t), m)) :
    t.terminal.budget + 35 * m.rest.length ≤ 35 * l.rest.length := by
  have skipped := skipTrivia_length_le .blank l.position l.rest
  unfold next at h
  split at h
  · cases h
  · next c cs p here =>
    obtain ⟨made, rfl⟩ := Prod.mk.inj h
    have same : (skipTrivia .blank l.position l.rest).rest = c :: cs := congrArg Lexer.rest here
    rw [same, ← Munch.covered_append_rest, List.length_append] at skipped
    have reads := reads_munch c cs
    unfold itemAt at made
    split at made
    · next terminal spelled =>
      cases made
      rw [spelled] at reads
      have paid := reads.budget_le
      have all : 35 * ((munch c cs).covered.length + (munch c cs).rest.length) ≤
          35 * l.rest.length := Nat.mul_le_mul_left 35 skipped
      rw [Nat.mul_add] at all
      exact Nat.le_trans (Nat.add_le_add_right paid _) all
    · cases made

/-- The terminals that are read are paid by the text. -/
theorem budgets_read_le (l : Lexer) :
    Terminal.budgets (l.read.tokens.map (·.terminal)) ≤ 35 * l.rest.length := by
  cases h : l.next with
  | mk item m =>
    cases item with
    | none => simp [read, readFrom_of_none h, Terminal.budgets]
    | some item =>
      cases item with
      | error e => simp [read, readFrom_of_error h, Terminal.budgets]
      | ok t =>
        have shorter := next_length_lt h
        have paid := next_budget_le h
        have others := budgets_read_le m
        rw [read, readFrom_of_ok h, readFrom_eq]
        simp only [List.reverse_singleton, List.singleton_append, List.map_cons,
          Terminal.budgets, List.foldr_cons] at others ⊢
        omega
termination_by l.rest.length

end Lexer

theorem Machine.weight_start (terminals : List Terminal) :
    (start terminals).weight = 9 + Terminal.budgets terminals := rfl

section

variable {σ : Type} (sink : Sink σ)

theorem compileTerminalsWithin_eq {moves : Nat} {terminals : List Terminal}
    (enough : 9 + Terminal.budgets terminals < moves) (ending : Option LexCause) (s : σ) :
    compileTerminalsWithin moves sink terminals ending s =
      some (compileTerminals sink terminals ending s) := by
  rw [← Machine.weight_start] at enough
  match terminals, ending with
  | [], some _ => rfl
  | [], none | _ :: _, _ => exact Machine.runWithin_eq_run enough

/-- Calls and moves that are enough for a text with so many characters. -/
theorem compileWithin_eq_compileInto (source : String) (s : σ) :
    compileWithin (source.length + 1) (35 * source.length + 10) sink source s =
      some (compileInto sink source s) := by
  have length : (Lexer.ofString source).rest.length = source.length := String.length_toList
  have paid := (Lexer.ofString source).budgets_read_le
  have read : (Lexer.ofString source).readWithin (source.length + 1) [] =
      some (Lexer.ofString source).read := Lexer.readWithin_eq_readFrom (by omega)
  simp only [compileWithin, compileInto, read, Option.bind_eq_bind, Option.bind_some]
  rw [compileTerminalsWithin_eq sink (by omega)]
  rfl

end

/-- Fewer moves are not enough for a class. -/
example : (compileWithin 12 8 .code "class A { }" #[]).isNone := by decide +kernel

/-! ## Lexers -/

/-- A call for the next item consumes a character if one is left. -/
theorem Lexer.take_length_lt {l : Lexer} (some : l.rest ≠ []) :
    l.Behind l.take.2 ∧ l.take.2.rest.length < l.rest.length := by
  have same : l.take.2 = l.next.2 := by
    unfold take
    split
    · next h => rw [h]
    · next h => rw [h]
  rw [same]
  refine ⟨l.behind_next, ?_⟩
  cases h : l.next with
  | mk item m =>
    cases item with
    | none =>
      rw [(skip_of_next_none h).2]
      exact List.length_pos_iff.2 some
    | some item => exact next_length_lt h

/-! ## Loops and parts -/

/-- The rank of the rule that a machine comes to. -/
def Machine.rank? (m : Machine) : Option Nat :=
  m.goals.head?.bind Goal.rank?

/-- The loops of the rules. -/
inductive Loop
  | classVars | subroutines | locals | names | parameters | statements | operators | arguments
deriving DecidableEq, Repr

/-- The goals with which a turn of a loop starts. -/
inductive Loop.Turns : Loop → List Goal → Prop
  | classVars (k : List Goal) : Turns classVars (.classVarDecs :: k)
  | subroutines (k : List Goal) : Turns subroutines (.subroutineDecs :: k)
  | locals (k : List Goal) : Turns locals (.varDecs :: k)
  | names (kind : Kind) (ty : String) (k : List Goal) :
      Turns names (.newName kind ty :: .moreNames kind ty :: k)
  | parameters (k : List Goal) : Turns parameters (.type .parameter :: .moreParameters :: k)
  | statements (k : List Goal) : Turns statements (.moreStatements :: k)
  | operators (k : List Goal) : Turns operators (.operators :: k)
  | arguments (target : String) (count : Nat) (k : List Goal) :
      Turns arguments (.expression :: .moreArguments target (count + 1) :: k)

/-- The productions that are no nodes. -/
inductive Part
  | type | names | block | condition | operand | call
deriving DecidableEq, Repr

/-- The goals of a production that is no node, and those that take their place when it is read. Only
a type leaves goals, for the names behind it. -/
inductive Part.Goals : Part → List Goal → List Goal → Prop
  | type (use : TypeUse) (ty : String) : Goals type [.type use] (use.goals ty)
  | names (kind : Kind) (ty : String) :
      Goals names [.newName kind ty, .moreNames kind ty, .symbol .semicolon] []
  | block : Goals block Goal.block []
  | condition : Goals condition [.symbol .leftParen, .expression, .symbol .rightParen] []
  | operand : Goals operand [.operand] []
  | call (name : String) (site : Nat) : Goals call [.call name site] []

/-- The rank of the goal with which a turn of a loop starts. -/
def Loop.rank : Loop → Nat
  | names | parameters => 0
  | subroutines | statements => 1
  | classVars | operators | arguments => 2
  | locals => 4

/-- The rank of the first goal of a production that is no node. -/
def Part.rank : Part → Nat
  | type | names | block | condition | operand => 0
  | call => 2

theorem Loop.Turns.rank?_eq {loop : Loop} {m : Machine} (turns : loop.Turns m.goals) :
    m.rank? = some loop.rank := by
  generalize here : m.goals = gs at turns
  unfold Machine.rank?
  rw [here]
  cases turns <;> rfl

section

variable {part : Part} {gs left k : List Goal} {m n : Machine}

theorem Part.Goals.rank?_eq (goals : part.Goals gs left) (here : m.goals = gs ++ k) :
    m.rank? = some part.rank := by
  unfold Machine.rank?
  rw [here]
  cases goals <;> rfl

/-- What a production leaves, if it leaves anything, has the rank of its own first goal. -/
theorem Part.Goals.rank?_eq_of_left (goals : part.Goals gs left) (there : n.goals = left ++ k) :
    left = [] ∨ n.rank? = some part.rank := by
  unfold Machine.rank?
  rw [there]
  cases goals with
  | type use ty => cases use <;> simp [TypeUse.goals, Goal.rank?, rank]
  | names _ _ | block | condition | operand | call _ _ => exact .inl rfl

/-- A production that is no node has a terminal in it. -/
theorem Part.Goals.bars (goals : part.Goals gs left) : Bars gs := by
  cases goals <;> simp [Bars, Goal.closes, Goal.idles, Goal.block]

end

/-! ## From one machine of a pass to another -/

namespace Lexer.Reading

/-- The pass over a text gets to `m`, and from there to another machine `n` with these events. -/
structure Passes (r : Reading) (m : Machine) (fs : List Event) (n : Machine) : Prop where
  reached : ∃ es, r.Reaches es m
  onward : Machine.Reaches (r.failure.map (·.cause)) m fs n
  moved : m ≠ n

/-- The pass comes from a rule at `m` to a rule at `n`. -/
def ComesTo (r : Reading) (n m : Machine) : Prop :=
  ∃ fs, r.Passes m fs n ∧ m.rank?.isSome ∧ n.rank?.isSome

variable {r : Reading} {m n : Machine} {fs : List Event} {a b : Nat}

theorem Passes.ahead_eq (passes : r.Passes m fs n) : m.ahead = terminalsOf fs ++ n.ahead := by
  obtain ⟨es, reaches⟩ := passes.reached
  exact (passes.onward.terminals reaches.quiet).1

/-- From one rule to a later one a terminal is consumed, or the rank goes down. -/
theorem Passes.rank_lt (passes : r.Passes m fs n) (rank : m.rank? = some a)
    (rank' : n.rank? = some b) (idle : terminalsOf fs = []) : b < a := by
  obtain ⟨es, reaches⟩ := passes.reached
  have staged := reaches.reached.staged (Machine.start_staged _)
  obtain ⟨g, here, rank⟩ := Option.bind_eq_some_iff.1 rank
  obtain ⟨h, there, rank'⟩ := Option.bind_eq_some_iff.1 rank'
  obtain ⟨k, here⟩ := List.head?_eq_some_iff.1 here
  obtain ⟨l, there⟩ := List.head?_eq_some_iff.1 there
  exact passes.onward.rank_lt staged passes.moved here there rank rank' idle

/-- No rule comes up twice without a terminal. -/
theorem Passes.terminalsOf_ne_nil (passes : r.Passes m fs n) (rank : m.rank? = some a)
    (rank' : n.rank? = some a) : terminalsOf fs ≠ [] := fun idle =>
  Nat.lt_irrefl a (passes.rank_lt rank rank' idle)

/-- What is left of the text and the rank of the rule, taken together, only go down. -/
theorem Passes.lex (passes : r.Passes m fs n) (rank : m.rank? = some a)
    (rank' : n.rank? = some b) :
    Prod.Lex (· < ·) (· < ·) (n.ahead.length, b) (m.ahead.length, a) := by
  rw [passes.ahead_eq, List.length_append]
  by_cases idle : terminalsOf fs = []
  · rw [idle, List.length_nil, Nat.zero_add]
    exact .right _ (passes.rank_lt rank rank' idle)
  · have some := List.length_pos_iff.2 idle
    exact .left _ _ (by omega)

theorem wellFounded_comesTo (r : Reading) : WellFounded r.ComesTo := by
  have order : WellFounded (Prod.Lex ((· < ·) : Nat → Nat → Prop) ((· < ·) : Nat → Nat → Prop)) :=
    WellFounded.prod_lex wellFounded_lt wellFounded_lt
  refine Subrelation.wf ?_ (InvImage.wf (fun m => (m.ahead.length, m.rank?.getD 0)) order)
  rintro n m ⟨fs, passes, some, some'⟩
  obtain ⟨a, rank⟩ := Option.isSome_iff_exists.1 some
  obtain ⟨b, rank'⟩ := Option.isSome_iff_exists.1 some'
  have lex := passes.lex rank rank'
  simpa only [InvImage, rank, rank', Option.getD_some] using lex

/-- A production that is no node is read with a terminal. -/
theorem Passes.terminalsOf_ne_nil_of_part {part : Part} {gs left k : List Goal}
    (passes : r.Passes m fs n) (goals : part.Goals gs left) (here : m.goals = gs ++ k)
    (there : n.goals = left ++ k) : terminalsOf fs ≠ [] := by
  rcases goals.rank?_eq_of_left there with rfl | rank
  · intro idle
    obtain ⟨es, reaches⟩ := passes.reached
    obtain ⟨gs', there', bars⟩ := passes.onward.bars reaches.nests.1 here goals.bars idle
    obtain rfl : [] = gs' := List.append_cancel_right (there.symm.trans there')
    exact bars
  · exact passes.terminalsOf_ne_nil (goals.rank?_eq here) rank

end Lexer.Reading

/-! ## Compilations -/

/-- What a pass over a text consumes on its way.

* From one rule to a later one the terminals that are left get fewer, or they stay and the rank
  goes down; that order is well founded.
* Between two turns of a loop a terminal is consumed.
* So it is between two starts of a production that is no node, inside one another or not.
* Such a production is read with a terminal.
* What is consumed and what is left are the terminals of the text, in their order. -/
structure Lexer.Reading.Shrinks (r : Lexer.Reading) : Prop where
  rules : ∀ m fs n a b, r.Passes m fs n → m.rank? = some a → n.rank? = some b →
    Prod.Lex (· < ·) (· < ·) (n.ahead.length, b) (m.ahead.length, a)
  wellFounded : WellFounded r.ComesTo
  turns : ∀ (loop : Loop) m fs n, r.Passes m fs n → loop.Turns m.goals → loop.Turns n.goals →
    terminalsOf fs ≠ []
  starts : ∀ (part : Part) m fs n gs left k gs' left' k', r.Passes m fs n →
    part.Goals gs left → m.goals = gs ++ k → part.Goals gs' left' → n.goals = gs' ++ k' →
      terminalsOf fs ≠ []
  reads : ∀ (part : Part) m fs n gs left k, r.Passes m fs n → part.Goals gs left →
    m.goals = gs ++ k → n.goals = left ++ k → terminalsOf fs ≠ []
  terminals : ∀ es m, r.Reaches es m → r.tokens.map (·.terminal) = terminalsOf es ++ m.ahead

theorem Lexer.Reading.shrinks (r : Lexer.Reading) : r.Shrinks where
  rules _ _ _ _ _ passes := passes.lex
  wellFounded := r.wellFounded_comesTo
  turns _ _ _ _ passes turns turns' := passes.terminalsOf_ne_nil turns.rank?_eq turns'.rank?_eq
  starts _ _ _ _ _ _ _ _ _ _ passes goals here goals' there :=
    passes.terminalsOf_ne_nil (goals.rank?_eq here) (goals'.rank?_eq there)
  reads _ _ _ _ _ _ _ passes := passes.terminalsOf_ne_nil_of_part
  terminals _ _ reaches := reaches.terminals.1

/-- A compilation ends, and what it consumes on its way.

* Calls of the lexer and moves of the machine are bounded by the length of the text, for every
  sink, and the sink is told what it takes of the log.
* In the log a node that closes has a terminal in it, unless it is one of those that may be empty.
* From a node to one that opens later a terminal is consumed, or the rank goes down; so no node
  opens again without a terminal.
* Inside the pass the same holds of loops and of the productions that are no nodes.
* The terminals of the log are the first tokens of the text, so none is consumed twice. -/
structure Ends (source : String) : Prop where
  within : ∀ {σ : Type} (sink : Sink σ) (s : σ),
    compileWithin (source.length + 1) (35 * source.length + 10) sink source s =
      some (compileInto sink source s)
  told : ∀ {σ : Type} (sink : Sink σ) (s : σ),
    (compileInto sink source s).1 = (sink.feed s (events source).1.toList).1
  closed : ∀ before n inner after,
    (events source).1.toList = before ++ .opened n :: (inner ++ .closed n :: after) →
      n.mayBeEmpty ∨ terminalsOf inner ≠ []
  opened : ∀ before a inner b after,
    (events source).1.toList = before ++ .opened a :: (inner ++ .opened b :: after) →
      terminalsOf inner ≠ [] ∨ b.rank < a.rank
  again : ∀ before n inner after,
    (events source).1.toList = before ++ .opened n :: (inner ++ .opened n :: after) →
      terminalsOf inner ≠ []
  shrinks : (Lexer.ofString source).read.Shrinks
  once : ∃ (read : List Token) (rest : List Item),
    (Lexer.ofString source).items.1 = read.map .ok ++ rest ∧
      terminalsOf (events source).1.toList = read.map (·.terminal)

/-- The terminals of a log are those of the first tokens of the text. -/
theorem exists_terminalsOf_events_eq (source : String) :
    ∃ (read : List Token) (rest : List Item),
      (Lexer.ofString source).items.1 = read.map .ok ++ rest ∧
        terminalsOf (events source).1.toList = read.map (·.terminal) := by
  have logged : events source = ((events source).1, (events source).2) := rfl
  cases outcome : (events source).2 with
  | none =>
    rw [outcome] at logged
    obtain ⟨_, tokens, spells⟩ := exists_spellsTree logged
    exact ⟨tokens, [], spells.read.trans (List.append_nil _).symm, spells.consumed⟩
  | some e =>
    rw [outcome] at logged
    exact (spellsPart_of_events logged).consumed

theorem ends (source : String) : Ends source where
  within sink s := compileWithin_eq_compileInto sink source s
  told sink s := fst_compileInto sink source s
  closed _ _ _ _ parts := (parts ▸ paced_events source).closed
  opened _ _ _ _ _ parts := (parts ▸ paced_events source).opened
  again _ n _ _ parts := (parts ▸ paced_events source).opened.resolve_right (Nat.lt_irrefl n.rank)
  shrinks := Lexer.Reading.shrinks _
  once := exists_terminalsOf_events_eq source

/-- A class that has no parameters, no statements and no arguments somewhere. -/
def emptyLists : String :=
  "class A { function void f() { while (true) { } do f(); } }"

/-- The nodes that may be empty are those that are empty in some log. -/
theorem mayBeEmpty_iff (n : Node) :
    n.mayBeEmpty ↔ ∃ source before after,
      (events source).1.toList = before ++ .opened n :: .closed n :: after := by
  constructor
  · intro empty
    have stands : [.opened n, .closed n] <:+: (events emptyLists).1.toList := by
      cases n
      case statements | parameterList | expressionList => decide +kernel
      all_goals cases empty
    obtain ⟨before, after, parts⟩ := stands
    exact ⟨_, before, after, by simpa using parts.symm⟩
  · rintro ⟨source, before, after, parts⟩
    exact ((ends source).closed before n [] after parts).resolve_right fun some => some rfl

/-- Every compilation ends, whatever the text and the sink are. On its way every production and
every turn of a loop consumes a terminal, but for three lists that may be empty, and are in some
text; and every call of the lexer consumes a character if one is left. -/
theorem compilation_ends :
    (∀ source, Ends source) ∧
      (∀ n : Node, n.mayBeEmpty ↔ ∃ source before after,
        (events source).1.toList = before ++ .opened n :: .closed n :: after) ∧
      ∀ l : Lexer, l.rest ≠ [] → l.Behind l.take.2 ∧ l.take.2.rest.length < l.rest.length :=
  ⟨ends, mayBeEmpty_iff, fun _ => Lexer.take_length_lt⟩

end JackToVm
