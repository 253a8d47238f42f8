import JackToVm.Proofs.Acceptance

/-!
# The depth of the operand stack

Every place of the code has one depth of the operand stack, whichever way control comes there. An
expression leaves one value more than it finds, a statement leaves none.

Depths are followed along the events of a compilation (`Carries`), so they also tell what is on the
stack where a statement starts or ends.

Results.
1. `Expression.carries`, `Statements.carries`, by recursion on the tree, and `ClassDec.carries`.
2. The places of a code that is followed to its end have depths that agree on every edge
   (`Carries.balanced`), and so have those of every class that compiles
   (`exists_balanced_of_compile_eq_ok`).
-/

namespace JackToVm

/-! ## What an instruction does to the stack -/

namespace Instruction

/-- The number of values that an instruction takes from the stack. -/
def pops : Instruction → Nat
  | push .. | label _ | goto _ | function .. => 0
  | pop .. | ifGoto _ | ret | arithmetic .neg | arithmetic .not => 1
  | arithmetic _ => 2
  | call _ arguments => arguments

/-- The number of values that it puts there. -/
def pushes : Instruction → Nat
  | push .. | arithmetic _ | call .. => 1
  | pop .. | label _ | goto _ | ifGoto _ | function .. | ret => 0

/-- Control may go on with the next instruction. -/
def fallsThrough : Instruction → Bool
  | goto _ | ret => false
  | push .. | pop .. | arithmetic _ | label _ | ifGoto _ | call .. | function .. => true

/-- The label that control may go on with. -/
def target? : Instruction → Option String
  | goto target | ifGoto target => some target
  | push .. | pop .. | arithmetic _ | label _ | call .. | function .. | ret => none

/-- The depth behind an instruction. -/
def behind (depth : Nat) (i : Instruction) : Nat :=
  depth - i.pops + i.pushes

/-- An instruction may stand at a depth: it finds what it takes, jumps leave nothing behind and
labels find nothing, and a subroutine returns one value. -/
def Fits (depth : Nat) : Instruction → Prop
  | label _ | goto _ | function .. => depth = 0
  | ifGoto _ | ret => depth = 1
  | push .. => True
  | pop .. | arithmetic .neg | arithmetic .not => 1 ≤ depth
  | arithmetic _ => 2 ≤ depth
  | call _ arguments => arguments ≤ depth

theorem pops_le_of_fits {i : Instruction} {depth : Nat} (fits : i.Fits depth) :
    i.pops ≤ depth := by
  cases i with
  | arithmetic command => cases command <;> exact fits
  | push | label | goto | function => exact Nat.zero_le _
  | pop | call => exact fits
  | ifGoto | ret => exact Nat.le_of_eq (Eq.symm fits)

end Instruction

/-- An assignment of depths to the places of a code. The place `i` is that before the instruction
with the index `i`. -/
structure Balanced (code : List Instruction) (depth : Nat → Nat) : Prop where
  header : ∀ (i : Nat) (name : String) (count : Nat),
    code[i]? = some (.function name count) → depth (i + 1) = 0
  finds : ∀ (i : Nat) (x : Instruction), code[i]? = some x → x.pops ≤ depth i
  next : ∀ (i : Nat) (x : Instruction), code[i]? = some x → x.fallsThrough →
    depth (i + 1) = depth i - x.pops + x.pushes
  jump : ∀ (i j : Nat) (x : Instruction) (name : String), code[i]? = some x →
    x.target? = some name → code[j]? = some (.label name) → depth j = depth i - x.pops
  label : ∀ (i : Nat) (name : String), code[i]? = some (.label name) → depth i = 0
  ret : ∀ i : Nat, code[i]? = some .ret → depth i = 1

/-! ## Depths along events -/

/-- The nodes of statements. -/
def Node.isStatement : Node → Bool
  | letStatement | ifStatement | whileStatement | doStatement | returnStatement => true
  | _ => false

/-- A statement starts or ends here. -/
def Event.BoundsStatement (e : Event) : Prop :=
  ∃ node : Node, node.isStatement ∧ (e = .opened node ∨ e = .closed node)

namespace Event

def behind (depth : Nat) : Event → Nat
  | emitted i => i.behind depth
  | opened _ | closed _ | consumed _ | declared _ | startedClass _ | startedSubroutine .. => depth

def Fits (depth : Nat) : Event → Prop
  | emitted i => i.Fits depth
  | opened node | closed node => node.isStatement → depth = 0
  | consumed _ | declared _ | startedClass _ | startedSubroutine .. => True

end Event

/-- From the depth `d` on every event fits, and behind them the depth is `d'`. -/
def Carries : List Event → Nat → Nat → Prop
  | [], d, d' => d = d'
  | e :: es, d, d' => e.Fits d ∧ Carries es (e.behind d) d'

theorem carries_append {es fs : List Event} {d d' : Nat} :
    Carries (es ++ fs) d d' ↔ ∃ between, Carries es d between ∧ Carries fs between d' := by
  induction es generalizing d with
  | nil => simp [Carries]
  | cons e es ih => simp [Carries, ih, and_assoc]

theorem Carries.append {es fs : List Event} {d between d' : Nat} (first : Carries es d between)
    (second : Carries fs between d') : Carries (es ++ fs) d d' :=
  carries_append.2 ⟨between, first, second⟩

/-- Behind an instruction that fits. -/
theorem Carries.emitted {i : Instruction} {es : List Event} {d d' : Nat} (fits : i.Fits d)
    (rest : Carries es (i.behind d) d') : Carries (.emitted i :: es) d d' :=
  ⟨fits, rest⟩

theorem Carries.consumed {t : Terminal} {es : List Event} {d d' : Nat} (rest : Carries es d d') :
    Carries (.consumed t :: es) d d' :=
  ⟨trivial, rest⟩

theorem Carries.node {node : Node} {es : List Event} {d d' : Nat}
    (other : node.isStatement = false) (inner : Carries es d d') :
    Carries (nodeEvents node es) d d' := by
  have opens : Event.Fits d (.opened node) := fun some => by simp [other] at some
  have closes : Event.Fits d' (.closed node) := fun some => by simp [other] at some
  exact ⟨opens, inner.append ⟨closes, rfl⟩⟩

/-- A statement leaves nothing on the stack. -/
theorem Carries.statement {node : Node} {es : List Event} (inner : Carries es 0 0) :
    Carries (nodeEvents node es) 0 0 :=
  ⟨fun _ => rfl, inner.append ⟨fun _ => rfl, rfl⟩⟩

/-! ## Expressions -/

theorem carries_characters (text : List Char) (d : Nat) :
    Carries (emissions (text.flatMap fun char =>
      [.push .constant char.toNat, .call "String.appendChar" 2])) (d + 1) (d + 1) := by
  induction text with
  | nil => rfl
  | cons char text ih =>
    exact .emitted trivial (.emitted (Nat.le_add_left 2 d) ih)

theorem carries_textCode (text : String) (d : Nat) :
    Carries (emissions (textCode text)) d (d + 1) :=
  .emitted trivial (.emitted (Nat.le_add_left 1 d) (carries_characters text.toList d))

theorem BinaryOperator.fits_code (o : BinaryOperator) (d : Nat) : o.code.Fits (d + 2) := by
  cases o <;> exact Nat.le_add_left 2 d

theorem BinaryOperator.behind_code (o : BinaryOperator) (d : Nat) :
    o.code.behind (d + 2) = d + 1 := by
  cases o <;> rfl

theorem UnaryOperator.fits_code (o : UnaryOperator) (d : Nat) : o.code.Fits (d + 1) := by
  cases o <;> exact Nat.le_add_left 1 d

theorem UnaryOperator.behind_code (o : UnaryOperator) (d : Nat) :
    o.code.behind (d + 1) = d + 1 := by
  cases o <;> rfl

/-- A call takes its arguments and leaves its result. -/
theorem carries_argumentEvents {inner : List Event} {start d count : Nat} (target : String)
    (arguments : Carries inner start (d + count)) :
    Carries (argumentEvents inner target count) start (d + 1) := by
  have last : Carries [.emitted (.call target count)] (d + count) (d + 1) := by
    refine .emitted (Nat.le_add_left count d) ?_
    show d + count - count + 1 = d + 1
    rw [Nat.add_sub_cancel]
  exact .consumed ((Carries.node rfl arguments).append (.consumed last))

theorem carries_receiverCode (c : Context) (receiver : String) (d : Nat) :
    Carries (emissions (c.receiverCode receiver)) d (d + (c.receiverCode receiver).length) := by
  unfold Context.receiverCode
  split
  · exact .emitted trivial rfl
  · rfl

mutual

theorem Expression.carries (c : Context) (e : Expression) (d : Nat) :
    Carries (e.events c) d (d + 1) := by
  cases e with
  | of t ops => exact .node rfl ((Carries.node rfl (t.carries c d)).append (ops.carries c d))

theorem Operations.carries (c : Context) (ops : Operations) (d : Nat) :
    Carries (ops.events c) (d + 1) (d + 1) := by
  cases ops with
  | nil => rfl
  | cons o t ops =>
    refine .consumed ((Carries.node rfl (t.carries c (d + 1))).append ?_)
    refine .emitted (o.fits_code d) ?_
    rw [o.behind_code]
    exact ops.carries c d

theorem Term.carries (c : Context) (t : Term) (d : Nat) : Carries (t.events c) d (d + 1) := by
  cases t with
  | integer n => exact .consumed (.emitted trivial rfl)
  | text text => exact .consumed (carries_textCode text d)
  | word w =>
    cases w with
    | trueWord => exact .consumed (.emitted trivial (.emitted (Nat.le_add_left 1 d) rfl))
    | falseWord | nullWord | thisWord => exact .consumed (.emitted trivial rfl)
  | var x => exact .consumed (.emitted trivial rfl)
  | element x e =>
    refine .consumed (.consumed ((e.carries c d).append (.consumed ?_)))
    -- base, address, `that`, value
    refine .emitted trivial (.emitted (Nat.le_add_left 2 d) ?_)
    exact .emitted (Nat.le_add_left 1 d) (.emitted trivial rfl)
  | call call => exact .consumed (call.carries c d)
  | group e => exact .consumed ((e.carries c d).append (.consumed rfl))
  | unary o t =>
    refine .consumed ((Carries.node rfl (t.carries c d)).append ?_)
    exact .emitted (o.fits_code d) (o.behind_code d)

theorem Call.carries (c : Context) (call : Call) (d : Nat) :
    Carries (call.events c) d (d + 1) := by
  cases call with
  | own m as =>
    have pushed := as.carries c (d + 1)
    rw [Nat.add_assoc, Nat.add_comm 1] at pushed
    exact .emitted trivial (carries_argumentEvents _ pushed)
  | dotted x m as =>
    have pushed := as.carries c (d + (c.receiverCode x).length)
    rw [Nat.add_assoc, Nat.add_comm (c.receiverCode x).length] at pushed
    refine .consumed (.consumed ((carries_receiverCode c x d).append ?_))
    exact carries_argumentEvents _ pushed

theorem Arguments.carries (c : Context) (as : Arguments) (d : Nat) :
    Carries (as.events c) d (d + as.count) := by
  cases as with
  | nil => rfl
  | cons e as =>
    have more := as.carries_more c (d + 1)
    rw [Nat.add_assoc, Nat.add_comm 1] at more
    exact (e.carries c d).append more

theorem Arguments.carries_more (c : Context) (as : Arguments) (d : Nat) :
    Carries (as.moreEvents c) d (d + as.count) := by
  cases as with
  | nil => rfl
  | cons e as =>
    have more := as.carries_more c (d + 1)
    rw [Nat.add_assoc, Nat.add_comm 1] at more
    exact .consumed ((e.carries c d).append more)

end

/-! ## Statements -/

theorem carries_conditionEvents {inner : List Event} (target : String)
    (value : Carries inner 0 1) : Carries (conditionEvents inner target) 0 0 :=
  .consumed (value.append (.consumed (.emitted (Nat.le_refl 1) (.emitted rfl rfl))))

theorem carries_blockEvents {inner : List Event} (body : Carries inner 0 0) :
    Carries (blockEvents inner) 0 0 :=
  .consumed ((Carries.node rfl body).append (.consumed rfl))

mutual

theorem Statement.carries (c : Context) (n : Nat) (s : Statement) :
    Carries (s.events c n) 0 0 := by
  cases s with
  | letVariable x e =>
    refine .consumed (.consumed (.consumed ((e.carries c 0).append (.consumed ?_))))
    exact .emitted (Nat.le_refl 1) rfl
  | letElement x i e =>
    refine .consumed (.consumed (.consumed ((i.carries c 0).append (.consumed ?_))))
    refine .emitted trivial (.emitted (Nat.le_refl 2) (.consumed ?_))
    -- the address waits below the value
    refine (e.carries c 1).append (.consumed (.emitted (Nat.le_add_left 1 1) ?_))
    exact .emitted (Nat.le_refl 1) (.emitted trivial (.emitted (Nat.le_refl 1) rfl))
  | ifThen e body =>
    refine .consumed ((carries_conditionEvents _ (e.carries c 0)).append ?_)
    refine (carries_blockEvents (body.carries c _)).append ?_
    exact .emitted rfl (.emitted rfl (.emitted rfl rfl))
  | ifElse e body other =>
    refine .consumed ((carries_conditionEvents _ (e.carries c 0)).append ?_)
    refine (carries_blockEvents (body.carries c _)).append ?_
    refine .emitted rfl (.emitted rfl (.consumed ?_))
    exact (carries_blockEvents (other.carries c _)).append (.emitted rfl rfl)
  | whileDo e body =>
    refine .consumed (.emitted rfl ?_)
    refine (carries_conditionEvents _ (e.carries c 0)).append ?_
    refine (carries_blockEvents (body.carries c _)).append ?_
    exact .emitted rfl (.emitted rfl rfl)
  | doCall call =>
    refine .consumed (.consumed ((call.carries c 0).append (.consumed ?_)))
    exact .emitted (Nat.le_refl 1) rfl
  | returnNothing => exact .consumed (.emitted trivial (.consumed (.emitted rfl rfl)))
  | returnValue e =>
    exact .consumed ((e.carries c 0).append (.consumed (.emitted rfl rfl)))

theorem Statements.carries (c : Context) (n : Nat) (ss : Statements) :
    Carries (ss.events c n) 0 0 := by
  cases ss with
  | nil => rfl
  | cons s ss => exact (Carries.statement (s.carries c n)).append (ss.carries c _)

end

/-! ## Classes -/

theorem Carries.declared {v : Variable} {es : List Event} {d d' : Nat} (rest : Carries es d d') :
    Carries (.declared v :: es) d d' :=
  ⟨trivial, rest⟩

theorem Names.carries_moreEvents (kind : Kind) (type : String) (before : List Declaration)
    (names : List String) : Carries (moreEvents kind type before names) 0 0 := by
  induction names generalizing before with
  | nil => rfl
  | cons name names ih => exact .consumed (.consumed (.declared (ih _)))

theorem Names.carries_events (kind : Kind) (before : List Declaration) (names : Names) :
    Carries (names.events kind before) 0 0 :=
  .consumed (.consumed (.declared (carries_moreEvents ..)))

theorem Names.carries_localEvents (before : List Declaration) (ds : List Names) :
    Carries (localEvents before ds) 0 0 := by
  induction ds generalizing before with
  | nil => rfl
  | cons names ds ih =>
    refine .append (.node rfl (.consumed ?_)) (ih _)
    exact (names.carries_events .localVar before).append (.consumed rfl)

theorem ClassVarDec.carries_events (before : List Declaration) (ds : List ClassVarDec) :
    Carries (events before ds) 0 0 := by
  induction ds generalizing before with
  | nil => rfl
  | cons d ds ih =>
    refine .append (.node rfl (.consumed ?_)) (ih _)
    exact (d.names.carries_events d.kind before).append (.consumed rfl)

theorem Parameter.carries_moreEvents (before : List Declaration) (ps : List Parameter) :
    Carries (moreEvents before ps) 0 0 := by
  induction ps generalizing before with
  | nil => rfl
  | cons p ps ih => exact .consumed (.consumed (.consumed (.declared (ih _))))

theorem Parameter.carries_events (before : List Declaration) (ps : List Parameter) :
    Carries (events before ps) 0 0 := by
  cases ps with
  | nil => rfl
  | cons p ps => exact .consumed (.consumed (.declared (carries_moreEvents ..)))

namespace SubroutineDec

theorem carries_receiverEvents (className : String) (s : SubroutineDec) :
    Carries (s.receiverEvents className) 0 0 := by
  unfold receiverEvents receiver
  split
  · exact .declared rfl
  · rfl

theorem carries_prologueCode (d : ClassDec) (s : SubroutineDec) :
    Carries (emissions (s.prologueCode d)) 0 0 := by
  unfold prologueCode
  cases s.kind with
  | constructor => exact .emitted trivial (.emitted (Nat.le_refl 1) (.emitted (Nat.le_refl 1) rfl))
  | method => exact .emitted trivial (.emitted (Nat.le_refl 1) rfl)
  | function => rfl

theorem carries (d : ClassDec) (n : Nat) (s : SubroutineDec) : Carries (s.events d n) 0 0 := by
  have body : Carries (s.bodyEvents d n) 0 0 := by
    refine .consumed ((Names.carries_localEvents _ _).append (.emitted rfl ?_))
    refine (s.carries_prologueCode d).append ?_
    exact (Carries.node rfl (s.body.carries _ n)).append (.consumed rfl)
  refine .node rfl (.consumed (.consumed (.consumed ⟨trivial, ?_⟩)))
  refine (s.carries_receiverEvents d.name).append (.consumed ?_)
  exact (Carries.node rfl (Parameter.carries_events _ _)).append (.consumed (.node rfl body))

end SubroutineDec

namespace ClassDec

theorem carries_subroutineEvents (d : ClassDec) (n : Nat) (ss : List SubroutineDec) :
    Carries (d.subroutineEvents n ss) 0 0 := by
  induction ss generalizing n with
  | nil => rfl
  | cons s ss ih => exact (s.carries d n).append (ih _)

/-- The events of a class can be followed from its start to its end. -/
theorem carries (d : ClassDec) : Carries d.events 0 0 := by
  refine .node rfl (.consumed (.consumed ⟨trivial, .consumed ?_⟩))
  refine (ClassVarDec.carries_events [] d.classVars).append ?_
  exact (d.carries_subroutineEvents 0 d.subroutines).append (.consumed rfl)

end ClassDec

/-! ## From events to places of the code -/

/-- The depth at the place `i` of a code. -/
def depthAt (code : List Instruction) (i : Nat) : Nat :=
  (code.take i).foldl Instruction.behind 0

theorem depthAt_succ {code : List Instruction} {i : Nat} {x : Instruction}
    (here : code[i]? = some x) : depthAt code (i + 1) = x.behind (depthAt code i) := by
  rw [depthAt, List.take_add_one, here, List.foldl_append]
  rfl

/-- Only instructions change the depth. -/
theorem foldl_behind_instructionsOf (es : List Event) (d : Nat) :
    (instructionsOf es).foldl Instruction.behind d = es.foldl Event.behind d := by
  induction es generalizing d with
  | nil => rfl
  | cons e es ih => cases e <;> exact ih _

theorem Carries.fits {pre post : List Event} {e : Event} {d d' : Nat}
    (h : Carries (pre ++ e :: post) d d') : e.Fits (pre.foldl Event.behind d) := by
  induction pre generalizing d with
  | nil => exact h.1
  | cons e' pre ih => exact ih h.2

theorem depthAt_instructionsOf (pre post : List Event) :
    depthAt (instructionsOf (pre ++ post)) (instructionsOf pre).length =
      pre.foldl Event.behind 0 := by
  rw [depthAt, instructionsOf_append, List.take_left, foldl_behind_instructionsOf]

/-- Every instruction of the code is an event. -/
theorem exists_emitted_of_getElem? {es : List Event} {i : Nat} {x : Instruction}
    (here : (instructionsOf es)[i]? = some x) :
    ∃ pre post, es = pre ++ .emitted x :: post ∧ (instructionsOf pre).length = i := by
  induction es generalizing i with
  | nil => cases here
  | cons e es ih =>
    have later {j : Nat} (here : (instructionsOf es)[j]? = some x)
        (count : (instructionsOf [e]).length + j = i) :
        ∃ pre post, e :: es = pre ++ .emitted x :: post ∧ (instructionsOf pre).length = i := by
      obtain ⟨pre, post, rfl, place⟩ := ih here
      refine ⟨e :: pre, post, rfl, ?_⟩
      rw [← List.singleton_append, instructionsOf_append, List.length_append, place, count]
    cases e with
    | emitted y =>
      cases i with
      | zero =>
        cases here
        exact ⟨[], es, rfl, rfl⟩
      | succ j => exact later (j := j) here (Nat.add_comm 1 j)
    | opened _ | closed _ | consumed _ | declared _ | startedClass _ | startedSubroutine _ _ =>
      exact later here (Nat.zero_add i)

/-- The places of a code that can be followed to its end have depths that agree. -/
theorem Carries.balanced {es : List Event} {d : Nat} (h : Carries es 0 d) :
    Balanced (instructionsOf es) (depthAt (instructionsOf es)) := by
  have fits {i : Nat} {x : Instruction} (here : (instructionsOf es)[i]? = some x) :
      x.Fits (depthAt (instructionsOf es) i) := by
    obtain ⟨pre, post, rfl, rfl⟩ := exists_emitted_of_getElem? here
    rw [depthAt_instructionsOf]
    exact h.fits
  constructor
  case header =>
    intro i name count here
    have empty : depthAt (instructionsOf es) i = 0 := fits here
    rw [depthAt_succ here, empty]
    rfl
  case finds => exact fun i x here => Instruction.pops_le_of_fits (fits here)
  case next => exact fun i x here _ => depthAt_succ here
  case jump =>
    intro i j x name here jumps there
    have empty : depthAt (instructionsOf es) j = 0 := fits there
    have found := fits here
    rw [empty]
    cases x with
    | goto target | ifGoto target =>
      rw [Instruction.Fits] at found
      rw [found]
      rfl
    | _ => cases jumps
  case label => exact fun i name here => fits here
  case ret => exact fun i here => fits here

/-- The output of every compilation has depths that agree on every edge, and the stack is empty
where a statement starts or ends. -/
theorem exists_balanced_of_compile_eq_ok {source text : String}
    (compiled : compile source = .ok text) :
    ∃ (log : Array Event) (depth : Nat → Nat),
      events source = (log, none) ∧ text = vmText (instructionsOf log.toList) ∧
        Balanced (instructionsOf log.toList) depth ∧
        ∀ (pre post : List Event) (e : Event), log.toList = pre ++ e :: post →
          e.BoundsStatement → depth (instructionsOf pre).length = 0 := by
  obtain ⟨d, lexes, rules, rfl⟩ := compile_eq_ok_iff.1 compiled
  refine ⟨d.events.toArray, depthAt d.code, events_eq_iff.2 ⟨d, lexes, rules, rfl⟩, ?_⟩
  rw [List.toList_toArray, d.instructions_events]
  refine ⟨rfl, d.instructions_events ▸ d.carries.balanced, ?_⟩
  rintro pre post e split ⟨node, statement, bounds⟩
  have follows := d.carries
  rw [split] at follows
  rw [← d.instructions_events, split, depthAt_instructionsOf]
  rcases bounds with rfl | rfl <;> exact follows.fits statement

theorem exists_balanced_of_loop :
    ∃ (log : Array Event) (depth : Nat → Nat),
      events "class A { function void f() { while (true) { do A.g(1); } return; } }" = (log, none) ∧
        Balanced (instructionsOf log.toList) depth := by
  have compiled : compile
      "class A { function void f() { while (true) { do A.g(1); } return; } }" =
        .ok "function A.f 0\nlabel A.WHILE_EXP0\npush constant 0\nnot\nnot\nif-goto A.WHILE_END0\npush constant 1\ncall A.g 1\npop temp 0\ngoto A.WHILE_EXP0\nlabel A.WHILE_END0\npush constant 0\nreturn\n" := by
    decide +kernel
  obtain ⟨log, depth, logged, -, balanced, -⟩ := exists_balanced_of_compile_eq_ok compiled
  exact ⟨log, depth, logged, balanced⟩

end JackToVm
