import JackToVm.Proofs.Pass

/-!
# Every tree is compiled

A pass over the terminals of a tree that keeps the rules of declarations meets all goals, and its
events are those of the tree.

The statements are about a goal that stands in front of others, and terminals in front of others:
if the pass goes on well behind the tree, it goes well from its start on. What stands behind a tree
has to tell where it ends; one terminal is enough for that.

Results.
1. `Expression.leads`, `Statements.leads`, for the goals of expressions and statements.
2. `SubroutineDec.leads`, for subroutines.
3. `ClassDec.finishes`: the class of a tree is compiled with the events of the tree.
-/

namespace JackToVm

/-! ## Passes that go well -/

/-- The machine makes the events and gets to a machine of which `Q` holds. -/
def Leads (Q : Machine → Prop) (m : Machine) (es : List Event) : Prop :=
  ∃ z, m.Reaches none es z ∧ Q z

namespace Leads

variable {Q : Machine → Prop} {g : Goal} {k next : List Goal} {t : Terminal} {s : Symbol}
  {ahead : List Terminal} {site : Nat} {env env' : Env} {i : Instruction} {e : Event}
  {events es all : List Event}

theorem expand (act : g.action env site ahead.head? = .expand events next env')
    (parts : all = events ++ es) (after : Leads Q ⟨next ++ k, ahead, site, env'⟩ es) :
    Leads Q ⟨g :: k, ahead, site, env⟩ all := by
  obtain ⟨z, reached, holds⟩ := after
  exact ⟨z, parts ▸ .expand act reached, holds⟩

theorem accept (act : g.action env site (some t) = .accept events next env')
    (parts : all = events ++ .consumed t :: es)
    (after : Leads Q ⟨next ++ k, ahead, site + 1, env'⟩ es) :
    Leads Q ⟨g :: k, t :: ahead, site, env⟩ all := by
  obtain ⟨z, reached, holds⟩ := after
  exact ⟨z, parts ▸ .accept act (.inr rfl) reached, holds⟩

theorem emit (after : Leads Q ⟨k, ahead, site, env⟩ es) :
    Leads Q ⟨.emit i :: k, ahead, site, env⟩ (.emitted i :: es) := by
  obtain ⟨z, reached, holds⟩ := after
  exact ⟨z, .emit rfl reached, holds⟩

theorem report (after : Leads Q ⟨k, ahead, site, env⟩ es) :
    Leads Q ⟨.report e :: k, ahead, site, env⟩ (e :: es) :=
  expand rfl rfl after

theorem symbol (after : Leads Q ⟨k, ahead, site + 1, env⟩ es) :
    Leads Q ⟨.symbol s :: k, .symbol s :: ahead, site, env⟩ (.consumed (.symbol s) :: es) :=
  accept (if_pos rfl) rfl after

/-- Instructions come out one after the other. -/
theorem emits {code : List Instruction} (after : Leads Q ⟨k, ahead, site, env⟩ es) :
    Leads Q ⟨code.map .emit ++ k, ahead, site, env⟩ (emissions code ++ es) := by
  induction code with
  | nil => exact after
  | cons i code ih => exact .emit ih

end Leads

/-! ## What ends a term and an expression -/

/-- A symbol behind a name that does not go on with it. -/
def Symbol.EndsTerm (s : Symbol) : Prop :=
  s ≠ .leftBracket ∧ s ≠ .leftParen ∧ s ≠ .dot

/-- A symbol that does not go on with an expression. -/
def Symbol.EndsExpression (s : Symbol) : Prop :=
  s.EndsTerm ∧ s.binary? = none

instance (s : Symbol) : Decidable s.EndsTerm :=
  inferInstanceAs (Decidable (_ ∧ _))

instance (s : Symbol) : Decidable s.EndsExpression :=
  inferInstanceAs (Decidable (_ ∧ _))

theorem BinaryOperator.binary?_symbol (o : BinaryOperator) : o.symbol.binary? = some o.code := by
  cases o <;> rfl

theorem BinaryOperator.endsTerm (o : BinaryOperator) : o.symbol.EndsTerm := by
  cases o <;> decide

/-- Behind a term stands an operator or what stands behind the expression. -/
theorem Operations.startsWith (ops : Operations) {s : Symbol} (ends : s.EndsExpression)
    (rest : List Terminal) :
    ∃ s' rest', ops.terminals ++ .symbol s :: rest = .symbol s' :: rest' ∧ s'.EndsTerm := by
  cases ops with
  | nil => exact ⟨s, rest, rfl, ends.1⟩
  | cons o t ops => exact ⟨o.symbol, _, rfl, o.endsTerm⟩

/-- Behind an argument stands a comma or the end of the arguments. -/
theorem Arguments.startsWith (as : Arguments) (rest : List Terminal) :
    ∃ s rest', as.moreTerminals ++ .symbol .rightParen :: rest = .symbol s :: rest' ∧
      s.EndsExpression := by
  cases as with
  | nil => exact ⟨.rightParen, rest, rfl, by decide⟩
  | cons e as => exact ⟨.comma, _, rfl, by decide⟩

/-! ## Actions on a tree that keeps the rules -/

namespace Action

theorem ofSlot_of_allowed {env : Env} {name : String}
    (allowed : (Use.var name).Allowed env.context) (site : Nat) (use : Slot → Action) :
    ofSlot env name site use = use (env.context.slot name) := by
  simp only [ofSlot, Env.slotOf_of_allowed allowed]

theorem named_of_endsTerm {s : Symbol} (ends : s.EndsTerm) (env : Env) (name : String)
    (site : Nat) : named env name site (some (.symbol s)) = .expand [] [.load name site] env := by
  obtain ⟨bracket, paren, dot⟩ := ends
  cases s <;> first | rfl | contradiction

theorem named_call (env : Env) (call : Call) (site : Nat) (rest : List Terminal) :
    named env call.head site (call.moreTerminals ++ rest).head? =
      .expand [] [.call call.head site] env := by
  cases call <;> rfl

theorem operators_symbol (env : Env) (o : BinaryOperator) :
    operators env (some (.symbol o.symbol)) =
      .accept [] [.term, .emit o.code, .operators] env := by
  simp only [operators, o.binary?_symbol]

theorem operators_of_ends {s : Symbol} (ends : s.EndsExpression) (env : Env) :
    operators env (some (.symbol s)) = .expand [] [] env := by
  simp only [operators, ends.2]

theorem operand_unary (env : Env) (site : Nat) (o : UnaryOperator) :
    operand env site (some (.symbol o.symbol)) = .accept [] [.term, .emit o.code] env := by
  cases o <;> rfl

theorem operand_word (env : Env) (site : Nat) (w : ConstantWord) :
    operand env site (some (.keyword w.keyword)) = .accept [] (w.code.map .emit) env := by
  cases w <;> rfl

/-- A call with a dot goes on with its receiver, if it has one, and its arguments. -/
theorem dispatch_of_allowed {env : Env} {receiver : String}
    (allowed : (Use.receiver receiver).Allowed env.context) (site : Nat) (member : String) :
    dispatch env receiver site member =
      .expand []
        ((env.context.receiverCode receiver).map .emit ++
          [.arguments (env.context.target receiver member)
            (env.context.receiverCode receiver).length]) env := by
  cases found : env.symbols.find? receiver with
  | none =>
    have resolved : env.context.resolve receiver = none := found
    simp [dispatch, Context.receiverCode, Context.target, found, resolved]
  | some v =>
    have resolved : env.context.resolve receiver = some v := found
    have declared : (Use.var receiver).Allowed env.context := ⟨v, resolved, allowed v resolved⟩
    have slot := ofSlot_of_allowed declared
    simp [dispatch, Context.receiverCode, Context.target, Context.slot, found, resolved, slot]

theorem expressionList_rightParen (env : Env) (target : String) (count : Nat) :
    expressionList env target count (some (.symbol .rightParen)) =
      .expand [.opened .expressionList] (Goal.endOfCall target count) env := by
  rw [expressionList, if_pos rfl]

theorem expressionList_of_ne {ahead : Option Terminal} (some : ahead ≠ .some (.symbol .rightParen))
    (env : Env) (target : String) (count : Nat) :
    expressionList env target count ahead =
      .expand [.opened .expressionList] [.expression, .moreArguments target (count + 1)] env := by
  rw [expressionList, if_neg some]

end Action

/-- No expression starts with the end of a list of them or of a statement. -/
theorem Term.head?_terminals (t : Term) {s : Symbol} (closes : s = .rightParen ∨ s = .semicolon)
    (rest : List Terminal) : (t.terminals ++ rest).head? ≠ some (.symbol s) := by
  cases t with
  | call call => cases call <;> simp [Term.terminals, Call.terminals]
  | unary o t => cases o <;> rcases closes with rfl | rfl <;>
      simp [Term.terminals, UnaryOperator.symbol]
  | group e => rcases closes with rfl | rfl <;> simp [Term.terminals]
  | _ => simp [Term.terminals]

theorem Expression.head?_terminals (e : Expression) {s : Symbol}
    (closes : s = .rightParen ∨ s = .semicolon) (rest : List Terminal) :
    (e.terminals ++ rest).head? ≠ some (.symbol s) := by
  cases e with
  | of t ops =>
    rw [Expression.terminals, List.append_assoc]
    exact t.head?_terminals closes _

/-! ## Expressions -/

theorem leads_characters {Q : Machine → Prop} {k : List Goal} {rest : List Terminal} {site : Nat}
    {env : Env} {es : List Event} {text : List Char}
    (small : ∀ char ∈ text, char.toNat ≤ maxConstant) {here : Nat}
    (after : Leads Q ⟨k, rest, site, env⟩ es) :
    Leads Q ⟨.characters text here :: k, rest, site, env⟩
      (emissions (text.flatMap fun char =>
        [.push .constant char.toNat, .call "String.appendChar" 2]) ++ es) := by
  induction text with
  | nil => exact .expand rfl rfl after
  | cons char text ih =>
    have fits : char.toNat ≤ maxConstant := small char (.head _)
    refine .expand (if_pos fits) rfl (.emit (.emit ?_))
    exact ih fun char mem => small char (.tail _ mem)

theorem leads_stringConstant {Q : Machine → Prop} {k : List Goal} {rest : List Terminal}
    {site : Nat} {env : Env} {es : List Event} {text : String}
    (allowed : (Use.text text).Allowed env.context) {here : Nat}
    (after : Leads Q ⟨k, rest, site, env⟩ es) :
    Leads Q ⟨.stringConstant text here :: k, rest, site, env⟩
      (emissions (textCode text) ++ es) :=
  .expand (if_pos allowed.1) rfl (.emit (.emit (leads_characters allowed.2 after)))

mutual

theorem Expression.leads (e : Expression) {Q : Machine → Prop} {k : List Goal}
    {rest : List Terminal} {site : Nat} {env : Env} {es : List Event} {s : Symbol}
    (ends : s.EndsExpression) (allowed : AllAllowed env.context e.uses)
    (after : ∀ site, Leads Q ⟨k, .symbol s :: rest, site, env⟩ es) :
    Leads Q ⟨.expression :: k, e.terminals ++ .symbol s :: rest, site, env⟩
      (e.events env.context ++ es) := by
  cases e with
  | of t ops =>
    simp only [Expression.uses, allAllowed_append] at allowed
    obtain ⟨s', rest', starts, ends'⟩ := ops.startsWith ends rest
    simp only [Expression.terminals, Expression.events, nodeEvents, List.append_assoc,
      List.cons_append, List.nil_append]
    refine .expand rfl rfl (.expand rfl rfl ?_)
    rw [starts]
    refine t.leads ends' allowed.1 fun site => .report ?_
    rw [← starts]
    exact ops.leads ends allowed.2 fun site => .report (after site)

theorem Operations.leads (ops : Operations) {Q : Machine → Prop} {k : List Goal}
    {rest : List Terminal} {site : Nat} {env : Env} {es : List Event} {s : Symbol}
    (ends : s.EndsExpression) (allowed : AllAllowed env.context ops.uses)
    (after : ∀ site, Leads Q ⟨k, .symbol s :: rest, site, env⟩ es) :
    Leads Q ⟨.operators :: k, ops.terminals ++ .symbol s :: rest, site, env⟩
      (ops.events env.context ++ es) := by
  cases ops with
  | nil => exact .expand (Action.operators_of_ends ends env) rfl (after site)
  | cons o t ops =>
    simp only [Operations.uses, allAllowed_append] at allowed
    obtain ⟨s', rest', starts, ends'⟩ := ops.startsWith ends rest
    simp only [Operations.terminals, Operations.events, nodeEvents, List.append_assoc,
      List.cons_append, List.nil_append]
    refine .accept (Action.operators_symbol env o) rfl (.expand rfl rfl ?_)
    rw [starts]
    refine t.leads ends' allowed.1 fun site => .report (.emit ?_)
    rw [← starts]
    exact ops.leads ends allowed.2 after

theorem Term.leads (t : Term) {Q : Machine → Prop} {k : List Goal} {rest : List Terminal}
    {site : Nat} {env : Env} {es : List Event} {s : Symbol} (ends : s.EndsTerm)
    (allowed : AllAllowed env.context t.uses)
    (after : ∀ site, Leads Q ⟨k, .symbol s :: rest, site, env⟩ es) :
    Leads Q ⟨.operand :: k, t.terminals ++ .symbol s :: rest, site, env⟩
      (t.events env.context ++ es) := by
  cases t with
  | integer n => exact .accept rfl rfl (.emit (after _))
  | text text =>
    have allowed : (Use.text text).Allowed env.context := by simpa [Term.uses] using allowed
    exact .accept rfl rfl (leads_stringConstant allowed (after _))
  | word w => exact .accept (Action.operand_word env _ w) rfl (.emits (after _))
  | var x =>
    have allowed : (Use.var x).Allowed env.context := by simpa [Term.uses] using allowed
    exact .accept rfl rfl (.expand (Action.named_of_endsTerm ends ..) rfl
      (.expand (Action.ofSlot_of_allowed allowed ..) rfl (.emit (after _))))
  | element x e =>
    simp only [Term.uses, allAllowed_cons] at allowed
    simp only [Term.terminals, Term.events, List.append_assoc, List.cons_append,
      List.nil_append]
    refine .accept rfl rfl (.accept rfl rfl
      (.expand (Action.ofSlot_of_allowed allowed.1 ..) rfl ?_))
    exact e.leads (by decide) allowed.2 fun site =>
      .symbol (.emit (.emit (.emit (.emit (after _)))))
  | call call =>
    have allowed : AllAllowed env.context call.uses := allowed
    simp only [Term.terminals, Term.events, call.terminals_eq_cons, List.cons_append]
    exact .accept rfl rfl (.expand (Action.named_call env call ..) rfl (call.leads allowed after))
  | group e =>
    have allowed : AllAllowed env.context e.uses := allowed
    simp only [Term.terminals, Term.events, List.append_assoc, List.cons_append,
      List.nil_append]
    refine .accept rfl rfl ?_
    exact e.leads (by decide) allowed fun site => .symbol (after _)
  | unary o t =>
    have allowed : AllAllowed env.context t.uses := allowed
    simp only [Term.terminals, Term.events, nodeEvents, List.append_assoc, List.cons_append,
      List.nil_append]
    refine .accept (Action.operand_unary env _ o) rfl (.expand rfl rfl ?_)
    exact t.leads ends allowed fun site => .report (.emit (after _))

theorem Call.leads (call : Call) {Q : Machine → Prop} {k : List Goal} {rest : List Terminal}
    {here site : Nat} {env : Env} {es : List Event} (allowed : AllAllowed env.context call.uses)
    (after : ∀ site, Leads Q ⟨k, rest, site, env⟩ es) :
    Leads Q ⟨.call call.head here :: k, call.moreTerminals ++ rest, site, env⟩
      (call.events env.context ++ es) := by
  cases call with
  | own m as =>
    have allowed : AllAllowed env.context as.uses := allowed
    simp only [Call.moreTerminals, Call.events, argumentEvents, List.append_assoc,
      List.cons_append, List.nil_append]
    exact .expand rfl rfl (.emit (.expand rfl rfl (.symbol (as.leads allowed after))))
  | dotted x m as =>
    simp only [Call.uses, allAllowed_cons] at allowed
    simp only [Call.moreTerminals, Call.events, argumentEvents, List.append_assoc,
      List.cons_append, List.nil_append]
    refine .accept rfl rfl (.accept rfl rfl
      (.expand (Action.dispatch_of_allowed allowed.1 ..) rfl ?_))
    simp only [List.append_assoc]
    exact .emits (.expand rfl rfl (.symbol (as.leads allowed.2 after)))

theorem Arguments.leads (as : Arguments) {Q : Machine → Prop} {k : List Goal}
    {rest : List Terminal} {site : Nat} {env : Env} {es : List Event} {target : String}
    {count : Nat} (allowed : AllAllowed env.context as.uses)
    (after : ∀ site, Leads Q ⟨k, rest, site, env⟩ es) :
    Leads Q
      ⟨.expressionList target count :: k, as.terminals ++ .symbol .rightParen :: rest, site, env⟩
      (nodeEvents .expressionList (as.events env.context) ++ .consumed (.symbol .rightParen) ::
        .emitted (.call target (as.count + count)) :: es) := by
  cases as with
  | nil =>
    simp only [Arguments.count, Nat.zero_add]
    exact .expand (Action.expressionList_rightParen ..) rfl (.report (.symbol (.emit (after _))))
  | cons e as =>
    simp only [Arguments.uses, allAllowed_append] at allowed
    obtain ⟨s, rest', starts, ends⟩ := as.startsWith rest
    simp only [Arguments.terminals, Arguments.events, nodeEvents, Arguments.count,
      Nat.add_assoc, Nat.add_comm 1 count, List.append_assoc, List.cons_append, List.nil_append]
    refine .expand
      (Action.expressionList_of_ne (e.head?_terminals (.inl rfl) _) ..) rfl ?_
    rw [starts]
    refine e.leads ends allowed.1 fun site => ?_
    rw [← starts]
    exact as.moreLeads allowed.2 after

theorem Arguments.moreLeads (as : Arguments) {Q : Machine → Prop} {k : List Goal}
    {rest : List Terminal} {site : Nat} {env : Env} {es : List Event} {target : String}
    {count : Nat} (allowed : AllAllowed env.context as.uses)
    (after : ∀ site, Leads Q ⟨k, rest, site, env⟩ es) :
    Leads Q
      ⟨.moreArguments target count :: k, as.moreTerminals ++ .symbol .rightParen :: rest, site,
        env⟩
      (as.moreEvents env.context ++ .closed .expressionList :: .consumed (.symbol .rightParen) ::
        .emitted (.call target (as.count + count)) :: es) := by
  cases as with
  | nil =>
    simp only [Arguments.count, Nat.zero_add]
    exact .expand rfl rfl (.report (.symbol (.emit (after _))))
  | cons e as =>
    simp only [Arguments.uses, allAllowed_append] at allowed
    obtain ⟨s, rest', starts, ends⟩ := as.startsWith rest
    simp only [Arguments.moreTerminals, Arguments.moreEvents, Arguments.count, Nat.add_assoc,
      Nat.add_comm 1 count, List.append_assoc, List.cons_append]
    refine .accept rfl rfl ?_
    rw [starts]
    refine e.leads ends allowed.1 fun site => ?_
    rw [← starts]
    exact as.moreLeads allowed.2 after

end

/-! ## Statements -/

/-- Statements end where a block ends. -/
theorem Statements.head?_terminals (ss : Statements) (rest : List Terminal) {word : Keyword}
    (other : word = .kwElse ∨ word = .kwVar) :
    (ss.terminals ++ .symbol .rightBrace :: rest).head? ≠ some (.keyword word) := by
  cases ss with
  | nil => simp [Statements.terminals]
  | cons s ss =>
    cases s <;> rcases other with rfl | rfl <;> simp [Statements.terminals, Statement.terminals]

theorem Action.elsePart_of_ne {ahead : Option Terminal} (none : ahead ≠ some (.keyword .kwElse))
    (env : Env) : elsePart env ahead = .expand [] [] env := by
  rw [elsePart, if_neg none]

theorem Action.returnValue_of_ne {ahead : Option Terminal}
    (some : ahead ≠ .some (.symbol .semicolon)) (env : Env) :
    returnValue env ahead = .expand [] [.expression] env := by
  rw [returnValue, if_neg some]

theorem leads_condition {Q : Machine → Prop} {k : List Goal} {rest : List Terminal} {site : Nat}
    {env : Env} {es : List Event} (e : Expression) {target : String}
    (allowed : AllAllowed env.context e.uses)
    (after : ∀ site, Leads Q ⟨k, rest, site, env⟩ es) :
    Leads Q
      ⟨Goal.condition target ++ k,
        .symbol .leftParen :: (e.terminals ++ .symbol .rightParen :: rest), site, env⟩
      (conditionEvents (e.events env.context) target ++ es) := by
  simp only [conditionEvents, List.append_assoc, List.cons_append]
  refine .symbol (e.leads (by decide) allowed fun site => ?_)
  exact .symbol (.emit (.emit (after _)))

mutual

theorem Statement.leads (s : Statement) {Q : Machine → Prop} {k : List Goal}
    {rest : List Terminal} {site : Nat} {env : Env} {es : List Event}
    (noElse : rest.head? ≠ some (.keyword .kwElse)) (allowed : AllAllowed env.context s.uses)
    (after : ∀ site, Leads Q
      ⟨.moreStatements :: k, rest, site, { env with labels := env.labels + s.constructs }⟩ es) :
    Leads Q ⟨.moreStatements :: k, s.terminals ++ rest, site, env⟩
      (nodeEvents s.node (s.events env.context env.labels) ++ es) := by
  cases s with
  | letVariable x e =>
    simp only [Statement.uses, allAllowed_cons] at allowed
    simp only [Statement.terminals, Statement.events, nodeEvents, List.append_assoc,
      List.cons_append, List.nil_append]
    refine .accept rfl rfl (.accept rfl rfl (.expand (Action.ofSlot_of_allowed allowed.1 ..) rfl
      (.expand rfl rfl (.symbol ?_))))
    exact e.leads (by decide) allowed.2 fun site => .symbol (.emit (.report (after _)))
  | letElement x i e =>
    simp only [Statement.uses, allAllowed_cons, allAllowed_append] at allowed
    simp only [Statement.terminals, Statement.events, nodeEvents, List.append_assoc,
      List.cons_append, List.nil_append]
    refine .accept rfl rfl (.accept rfl rfl (.expand (Action.ofSlot_of_allowed allowed.1 ..) rfl
      (.accept rfl rfl ?_)))
    refine i.leads (by decide) allowed.2.1 fun site => .symbol (.emit (.emit (.symbol ?_)))
    exact e.leads (by decide) allowed.2.2 fun site =>
      .symbol (.emit (.emit (.emit (.emit (.report (after _))))))
  | ifThen e body =>
    rw [show env.labels + (Statement.ifThen e body).constructs =
      env.labels + 1 + body.constructs by simp only [Statement.constructs]; omega] at after
    simp only [Statement.uses, allAllowed_append] at allowed
    simp only [Statement.terminals, Statement.events, nodeEvents, List.append_assoc,
      List.cons_append, List.nil_append]
    refine .accept rfl rfl (leads_condition e allowed.1 fun site => ?_)
    simp only [blockEvents, nodeEvents, List.append_assoc, List.cons_append, List.nil_append]
    refine .symbol (.expand rfl rfl ?_)
    refine body.leads (show AllAllowed (env.advance 1).context _ from allowed.2) fun site => ?_
    refine .report (.symbol (.emit (.emit ?_)))
    refine .expand (Action.elsePart_of_ne noElse _) rfl (.emit (.report ?_))
    exact after _
  | ifElse e body other =>
    have labels : env.labels + (Statement.ifElse e body other).constructs =
        env.labels + 1 + body.constructs + other.constructs := by
      simp only [Statement.constructs]
      omega
    rw [labels] at after
    simp only [Statement.uses, allAllowed_append] at allowed
    simp only [Statement.terminals, Statement.events, nodeEvents, List.append_assoc,
      List.cons_append, List.nil_append]
    refine .accept rfl rfl (leads_condition e allowed.1 fun site => ?_)
    simp only [blockEvents, nodeEvents, List.append_assoc, List.cons_append, List.nil_append]
    refine .symbol (.expand rfl rfl ?_)
    refine body.leads (show AllAllowed (env.advance 1).context _ from allowed.2.1) fun site => ?_
    refine .report (.symbol (.emit (.emit (.accept rfl rfl (.symbol (.expand rfl rfl ?_))))))
    refine other.leads
      (show AllAllowed ((env.advance 1).advance body.constructs).context _ from allowed.2.2)
      fun site => ?_
    refine .report (.symbol (.emit (.report ?_)))
    exact after _
  | whileDo e body =>
    rw [show env.labels + (Statement.whileDo e body).constructs =
      env.labels + 1 + body.constructs by simp only [Statement.constructs]; omega] at after
    simp only [Statement.uses, allAllowed_append] at allowed
    simp only [Statement.terminals, Statement.events, nodeEvents, List.append_assoc,
      List.cons_append, List.nil_append]
    refine .accept rfl rfl (.emit (leads_condition e allowed.1 fun site => ?_))
    simp only [blockEvents, nodeEvents, List.append_assoc, List.cons_append, List.nil_append]
    refine .symbol (.expand rfl rfl ?_)
    refine body.leads (show AllAllowed (env.advance 1).context _ from allowed.2) fun site => ?_
    refine .report (.symbol (.emit (.emit (.report ?_))))
    exact after _
  | doCall call =>
    have allowed : AllAllowed env.context call.uses := allowed
    simp only [Statement.terminals, call.terminals_eq_cons, Statement.events, nodeEvents,
      List.append_assoc, List.cons_append, List.nil_append]
    refine .accept rfl rfl (.accept rfl rfl ?_)
    exact call.leads allowed fun site => .symbol (.emit (.report (after _)))
  | returnNothing =>
    exact .accept rfl rfl (.expand rfl rfl (.emit (.symbol (.emit (.report (after _))))))
  | returnValue e =>
    have allowed : AllAllowed env.context e.uses := allowed
    simp only [Statement.terminals, Statement.events, nodeEvents, List.append_assoc,
      List.cons_append, List.nil_append]
    refine .accept rfl rfl
      (.expand (Action.returnValue_of_ne (e.head?_terminals (.inr rfl) _) _) rfl ?_)
    exact e.leads (by decide) allowed fun site => .symbol (.emit (.report (after _)))

theorem Statements.leads (ss : Statements) {Q : Machine → Prop} {k : List Goal}
    {rest : List Terminal} {site : Nat} {env : Env} {es : List Event}
    (allowed : AllAllowed env.context ss.uses)
    (after : ∀ site, Leads Q
      ⟨k, .symbol .rightBrace :: rest, site, { env with labels := env.labels + ss.constructs }⟩
      es) :
    Leads Q ⟨.moreStatements :: k, ss.terminals ++ .symbol .rightBrace :: rest, site, env⟩
      (ss.events env.context env.labels ++ es) := by
  cases ss with
  | nil => exact .expand rfl rfl (after _)
  | cons s ss =>
    simp only [Statements.uses, allAllowed_append] at allowed
    simp only [Statements.terminals, Statements.events, List.append_assoc]
    refine s.leads (ss.head?_terminals rest (.inl rfl)) allowed.1 fun site => ?_
    refine ss.leads (show AllAllowed (env.advance s.constructs).context _ from allowed.2)
      fun site => ?_
    simpa only [Statements.constructs, Nat.add_assoc] using after site

end

/-! ## Declarations -/

namespace Action

theorem declare_of_fresh (ds : Declarations) (d : Declaration)
    (fresh : d.name ∉ (ds.scope d.kind).map (·.name)) (className : String)
    (kind : SubroutineKind) (labels site : Nat) :
    declare ⟨ds.table, className, kind, labels⟩ d.kind d.type d.name site =
      .expand [.declared (d.toVariable (ds.scope d.kind))] []
        ⟨(ds.extend d.kind [d]).table, className, kind, labels⟩ := by
  simp only [declare, Declarations.declare_table_eq_ok fresh]

theorem type_terminal (env : Env) (use : TypeUse) (t : TypeName) :
    type env use (some t.terminal) = .accept [] (use.goals t.text) env := by
  cases t <;> rfl

theorem classVarDecs_keyword {kind : Kind} (ofClass : kind.belongsToClass = true) (env : Env) :
    classVarDecs env (some (.keyword kind.keyword)) =
      .accept [.opened .classVarDec]
        [.type (.names kind), .symbol .semicolon, .report (.closed .classVarDec), .classVarDecs]
        env := by
  cases kind with
  | static | field => rfl
  | argument | localVar => cases ofClass

theorem classVarDecs_of_ne {ahead : Option Terminal}
    (other : ∀ kind : Kind, kind.belongsToClass → ahead ≠ some (.keyword kind.keyword))
    (env : Env) : classVarDecs env ahead = .expand [] [] env := by
  unfold classVarDecs
  split
  · exact absurd rfl (other .static rfl)
  · exact absurd rfl (other .field rfl)
  · rfl

theorem parameterList_type (env : Env) (t : TypeName) :
    parameterList env (some t.terminal) =
      .expand [.opened .parameterList]
        [.type .parameter, .moreParameters, .report (.closed .parameterList)] env := by
  cases t <;> rfl

end Action

/-- The first of some further names is new if all are. -/
theorem fresh_of_nodup {before : List Declaration} {d : Declaration} {ds : List Declaration}
    (distinct : ((before ++ d :: ds).map (·.name)).Nodup) : d.name ∉ before.map (·.name) := by
  rw [List.map_append, List.map_cons, List.nodup_append] at distinct
  intro mem
  exact distinct.2.2 _ mem _ (.head _) rfl

section

variable {Q : Machine → Prop} {k : List Goal} {rest : List Terminal} {site : Nat}
  (ds : Declarations) {className : String} {subroutineKind : SubroutineKind} {labels : Nat}
  {es : List Event} {kind : Kind}

theorem leads_moreNames {type : String} {names : List String}
    (distinct : ((ds.scope kind ++ names.map (Declaration.mk kind type)).map (·.name)).Nodup)
    (after : ∀ site, Leads Q
      ⟨k, .symbol .semicolon :: rest, site,
        ⟨(ds.extend kind (names.map (Declaration.mk kind type))).table, className,
          subroutineKind, labels⟩⟩ es) :
    Leads Q
      ⟨.moreNames kind type :: k, Names.moreTerminals names ++ .symbol .semicolon :: rest, site,
        ⟨ds.table, className, subroutineKind, labels⟩⟩
      (Names.moreEvents kind type (ds.scope kind) names ++ es) := by
  induction names generalizing ds site with
  | nil =>
    simp only [List.map_nil, Declarations.extend_nil] at after
    exact .expand rfl rfl (after _)
  | cons name names ih =>
    have fresh := fresh_of_nodup (d := ⟨kind, type, name⟩) distinct
    have there := ds.scope_extend kind [⟨kind, type, name⟩]
    refine .accept rfl rfl (.accept rfl rfl
      (.expand (Action.declare_of_fresh _ _ fresh ..) rfl ?_))
    rw [← there]
    refine ih _ ?_ fun site => ?_
    · rw [there, List.append_assoc]
      exact distinct
    · rw [Declarations.extend_extend]
      exact after site

theorem leads_names {names : Names}
    (distinct : ((ds.scope kind ++ names.declarations kind).map (·.name)).Nodup)
    (after : ∀ site, Leads Q
      ⟨k, .symbol .semicolon :: rest, site,
        ⟨(ds.extend kind (names.declarations kind)).table, className, subroutineKind, labels⟩⟩
      es) :
    Leads Q
      ⟨.type (.names kind) :: k, names.terminals ++ .symbol .semicolon :: rest, site,
        ⟨ds.table, className, subroutineKind, labels⟩⟩
      (names.events kind (ds.scope kind) ++ es) := by
  have fresh := fresh_of_nodup (d := ⟨kind, names.type.text, names.first⟩) distinct
  have there := ds.scope_extend kind [⟨kind, names.type.text, names.first⟩]
  refine .accept (Action.type_terminal ..) rfl (.accept rfl rfl
    (.expand (Action.declare_of_fresh _ _ fresh ..) rfl ?_))
  rw [← there]
  refine leads_moreNames _ ?_ fun site => ?_
  · rw [there, List.append_assoc]
    exact distinct
  · rw [Declarations.extend_extend]
    exact after site

/-- The statics and fields of a class. -/
theorem leads_classVarDecs {vars : List ClassVarDec}
    (other : ∀ kind : Kind, kind.belongsToClass → rest.head? ≠ some (.keyword kind.keyword))
    (distinct : ((ds.ofClass ++ vars.flatMap ClassVarDec.declarations).map (·.name)).Nodup)
    (after : ∀ site, Leads Q
      ⟨k, rest, site,
        ⟨(Declarations.mk (ds.ofClass ++ vars.flatMap ClassVarDec.declarations)
            ds.ofSubroutine).table, className, subroutineKind, labels⟩⟩ es) :
    Leads Q
      ⟨.classVarDecs :: k, vars.flatMap ClassVarDec.terminals ++ rest, site,
        ⟨ds.table, className, subroutineKind, labels⟩⟩
      (ClassVarDec.events ds.ofClass vars ++ es) := by
  induction vars generalizing ds site with
  | nil =>
    simp only [List.flatMap_nil, List.append_nil] at after
    exact .expand (Action.classVarDecs_of_ne other _) rfl (after _)
  | cons d vars ih =>
    have here := ds.scope_of_belongsToClass d.ofClass
    simp only [List.flatMap_cons] at distinct after
    simp only [List.flatMap_cons, ClassVarDec.terminals, ClassVarDec.events, nodeEvents,
      List.append_assoc, List.cons_append, List.nil_append]
    refine .accept (Action.classVarDecs_keyword d.ofClass _) rfl ?_
    rw [← here]
    refine leads_names _ ?_ fun site => .symbol (.report ?_)
    · rw [← List.append_assoc, List.map_append, List.nodup_append] at distinct
      rw [here]
      exact distinct.1
    · rw [here, ds.extend_of_belongsToClass d.ofClass]
      refine ih _ ?_ fun site => ?_
      · rwa [List.append_assoc]
      · rw [List.append_assoc]
        exact after site

/-- The locals of a subroutine. -/
theorem leads_varDecs {locals : List Names}
    (other : rest.head? ≠ some (.keyword .kwVar))
    (distinct : ((ds.ofSubroutine ++
      locals.flatMap (Names.declarations .localVar)).map (·.name)).Nodup)
    (after : ∀ site, Leads Q
      ⟨k, rest, site,
        ⟨(ds.extend .localVar (locals.flatMap (Names.declarations .localVar))).table, className,
          subroutineKind, labels⟩⟩ es) :
    Leads Q
      ⟨.varDecs :: k, locals.flatMap Names.localTerminals ++ rest, site,
        ⟨ds.table, className, subroutineKind, labels⟩⟩
      (Names.localEvents ds.ofSubroutine locals ++ es) := by
  induction locals generalizing ds site with
  | nil =>
    simp only [List.flatMap_nil, Declarations.extend_nil] at after
    exact .expand (if_neg other) rfl (after _)
  | cons d locals ih =>
    simp only [List.flatMap_cons] at distinct after
    simp only [List.flatMap_cons, Names.localTerminals, Names.localEvents, nodeEvents,
      List.append_assoc, List.cons_append, List.nil_append]
    refine .accept rfl rfl (leads_names _ ?_ fun site => .symbol (.report ?_))
    · rw [← List.append_assoc, List.map_append, List.nodup_append] at distinct
      exact distinct.1
    · refine ih (ds.extend .localVar (d.declarations .localVar)) ?_ fun site => ?_
      · rw [← List.append_assoc] at distinct
        exact distinct
      · rw [Declarations.extend_extend]
        exact after site

theorem leads_moreParameters {parameters : List Parameter}
    (distinct : ((ds.ofSubroutine ++
      parameters.map Parameter.declaration).map (·.name)).Nodup)
    (after : ∀ site, Leads Q
      ⟨k, .symbol .rightParen :: rest, site,
        ⟨(ds.extend .argument (parameters.map Parameter.declaration)).table, className,
          subroutineKind, labels⟩⟩ es) :
    Leads Q
      ⟨.moreParameters :: k,
        Parameter.moreTerminals parameters ++ .symbol .rightParen :: rest, site,
        ⟨ds.table, className, subroutineKind, labels⟩⟩
      (Parameter.moreEvents ds.ofSubroutine parameters ++ es) := by
  induction parameters generalizing ds site with
  | nil =>
    simp only [List.map_nil, Declarations.extend_nil] at after
    exact .expand rfl rfl (after _)
  | cons p parameters ih =>
    have fresh := fresh_of_nodup (d := p.declaration) distinct
    refine .accept rfl rfl (.accept (Action.type_terminal ..) rfl (.accept rfl rfl
      (.expand (Action.declare_of_fresh _ p.declaration fresh ..) rfl ?_)))
    refine ih (ds.extend .argument [p.declaration]) ?_ fun site => ?_
    · have split : (ds.extend .argument [p.declaration]).ofSubroutine =
          ds.ofSubroutine ++ [p.declaration] := rfl
      rw [split, List.append_assoc]
      exact distinct
    · rw [Declarations.extend_extend]
      exact after site

/-- The parameters of a subroutine. -/
theorem leads_parameters {parameters : List Parameter}
    (distinct : ((ds.ofSubroutine ++
      parameters.map Parameter.declaration).map (·.name)).Nodup)
    (after : ∀ site, Leads Q
      ⟨k, .symbol .rightParen :: rest, site,
        ⟨(ds.extend .argument (parameters.map Parameter.declaration)).table, className,
          subroutineKind, labels⟩⟩ es) :
    Leads Q
      ⟨.parameterList :: k,
        Parameter.listTerminals parameters ++ .symbol .rightParen :: rest, site,
        ⟨ds.table, className, subroutineKind, labels⟩⟩
      (.opened .parameterList ::
        (Parameter.events ds.ofSubroutine parameters ++ .closed .parameterList :: es)) := by
  cases parameters with
  | nil =>
    simp only [List.map_nil, Declarations.extend_nil] at after
    exact .expand rfl rfl (.report (after _))
  | cons p parameters =>
    have fresh := fresh_of_nodup (d := p.declaration) distinct
    refine .expand (Action.parameterList_type ..) rfl (.accept (Action.type_terminal ..) rfl
      (.accept rfl rfl (.expand (Action.declare_of_fresh _ p.declaration fresh ..) rfl ?_)))
    refine leads_moreParameters (ds.extend .argument [p.declaration]) ?_
      fun site => .report ?_
    · have split : (ds.extend .argument [p.declaration]).ofSubroutine =
          ds.ofSubroutine ++ [p.declaration] := rfl
      rw [split, List.append_assoc]
      exact distinct
    · rw [Declarations.extend_extend]
      exact after site

end

/-! ## Subroutines -/

namespace Action

theorem subroutineDecs_keyword (env : Env) (kind : SubroutineKind) :
    subroutineDecs env (some (.keyword kind.keyword)) =
      .accept [.opened .subroutineDec]
        [.returnType, .subroutineName, .report (.closed .subroutineDec), .subroutineDecs]
        { env with subroutineKind := kind } := by
  cases kind <;> rfl

end Action

theorem leads_returnType {Q : Machine → Prop} {k : List Goal} {rest : List Terminal}
    {site : Nat} {env : Env} {es : List Event} (result : Option TypeName)
    (after : ∀ site, Leads Q ⟨k, rest, site, env⟩ es) :
    Leads Q ⟨.returnType :: k, TypeName.resultTerminal result :: rest, site, env⟩
      (.consumed (TypeName.resultTerminal result) :: es) := by
  cases result with
  | none => exact .accept rfl rfl (after _)
  | some t =>
    have act : (Goal.returnType).action env site (some t.terminal) =
        .expand [] [.type .result] env := by
      cases t <;> rfl
    exact .expand act rfl (.accept (Action.type_terminal ..) rfl (after _))

namespace SubroutineDec

/-- No local is declared with the receiver. -/
theorem countKind_allDeclarations (className : String) (s : SubroutineDec) :
    countKind .localVar (s.allDeclarations className) = countKind .localVar s.declarations := by
  unfold allDeclarations receiver countKind
  rw [List.countP_append]
  split <;> simp

theorem leads_receiver {Q : Machine → Prop} {k : List Goal} {rest : List Terminal}
    {here site : Nat} {ofClass : List Declaration} {className : String} {labels : Nat}
    {es : List Event} (s : SubroutineDec)
    (after : Leads Q
      ⟨k, rest, site, ⟨(Declarations.mk ofClass (s.receiver className)).table, className, s.kind,
        labels⟩⟩ es) :
    Leads Q
      ⟨Action.subroutine.receiver
          ⟨(Declarations.mk ofClass []).table, className, s.kind, labels⟩ here ++ k,
        rest, site, ⟨(Declarations.mk ofClass []).table, className, s.kind, labels⟩⟩
      (s.receiverEvents className ++ es) := by
  by_cases method : s.kind = .method
  · simp only [Action.subroutine.receiver, receiverEvents, receiver, if_pos method] at after ⊢
    exact .expand (Action.declare_of_fresh ⟨ofClass, []⟩
      ⟨.argument, className, Keyword.kwThis.text⟩ List.not_mem_nil _ _ _ here) rfl after
  · simp only [Action.subroutine.receiver, receiverEvents, receiver, if_neg method] at after ⊢
    exact after

theorem leads_prologue {Q : Machine → Prop} {k : List Goal} {rest : List Terminal}
    {site : Nat} {labels : Nat} {es : List Event} (d : ClassDec) (s : SubroutineDec)
    (after : Leads Q
      ⟨k, rest, site, ⟨(Declarations.mk d.declarations (s.allDeclarations d.name)).table, d.name,
        s.kind, labels⟩⟩ es) :
    Leads Q
      ⟨.prologue s.name :: k, rest, site,
        ⟨(Declarations.mk d.declarations (s.allDeclarations d.name)).table, d.name, s.kind,
          labels⟩⟩
      (.emitted (.function (d.name ++ "." ++ s.name) (countKind .localVar s.declarations)) ::
        (emissions (s.prologueCode d) ++ es)) := by
  have locals : (Declarations.mk d.declarations (s.allDeclarations d.name)).table.count
      .localVar = countKind .localVar s.declarations := by
    rw [Declarations.table_count, ← s.countKind_allDeclarations d.name]
    rfl
  have fields : (Declarations.mk d.declarations (s.allDeclarations d.name)).table.count
      .field = countKind .field d.declarations := Declarations.table_count ..
  have binding : s.kind.binding (countKind .field d.declarations) = s.prologueCode d := by
    unfold prologueCode
    cases s.kind <;> rfl
  refine .expand rfl rfl ?_
  rw [fields, locals, binding]
  exact .emit (.emits after)

/-- A subroutine is compiled with the events of its tree; the arguments and locals of the one
before it are forgotten. -/
theorem leads {d : ClassDec} (rules : d.WellScoped) {s : SubroutineDec}
    (here : s.WellScoped d) {Q : Machine → Prop} {k : List Goal} {rest : List Terminal}
    {site : Nat} {before : List Declaration} {kind : SubroutineKind} {n : Nat} {es : List Event}
    (after : ∀ site, Leads Q
      ⟨.subroutineDecs :: k, rest, site,
        ⟨(Declarations.mk d.declarations (s.allDeclarations d.name)).table, d.name, s.kind,
          n + s.body.constructs⟩⟩ es) :
    Leads Q
      ⟨.subroutineDecs :: k, s.terminals ++ rest, site,
        ⟨(Declarations.mk d.declarations before).table, d.name, kind, n⟩⟩
      (s.events d n ++ es) := by
  have distinct := here.distinct
  rw [allDeclarations, declarations, ← List.append_assoc] at distinct
  simp only [terminals, moreTerminals, events, bodyEvents, nodeEvents, List.append_assoc,
    List.cons_append, List.nil_append]
  refine .accept (Action.subroutineDecs_keyword ..) rfl (leads_returnType _ fun site => ?_)
  refine .accept rfl rfl (.expand rfl rfl ?_)
  simp only [List.append_assoc]
  refine leads_receiver s (.symbol ?_)
  refine leads_parameters ⟨d.declarations, s.receiver d.name⟩ ?_
    fun site => ?_
  · rw [List.map_append, List.nodup_append] at distinct
    exact distinct.1
  refine .symbol (.expand rfl rfl (.symbol ?_))
  refine leads_varDecs
    ⟨d.declarations, s.receiver d.name ++ s.parameters.map Parameter.declaration⟩
    (s.body.head?_terminals _ (.inr rfl)) distinct fun site => ?_
  have all : s.receiver d.name ++ s.parameters.map Parameter.declaration ++
      s.locals.flatMap (Names.declarations .localVar) = s.allDeclarations d.name :=
    List.append_assoc ..
  have there : (Declarations.mk d.declarations (s.receiver d.name ++
      s.parameters.map Parameter.declaration)).extend .localVar
        (s.locals.flatMap (Names.declarations .localVar)) =
      ⟨d.declarations, s.allDeclarations d.name⟩ := by
    rw [← all]
    rfl
  rw [there]
  refine leads_prologue d s (.expand rfl rfl ?_)
  have context := context_table rules.distinct here.distinct n
  rw [← context]
  refine s.body.leads ?_ fun site => .report (.symbol (.report (.report (after _))))
  rw [context]
  exact here.uses

end SubroutineDec

/-! ## Classes -/

namespace ClassDec

theorem leads_subroutineDecs {d : ClassDec} (rules : d.WellScoped) {Q : Machine → Prop}
    {k : List Goal} {rest : List Terminal} {site : Nat} {before : List Declaration}
    {kind : SubroutineKind} {n : Nat} {es : List Event} {subroutines : List SubroutineDec}
    (keep : ∀ s ∈ subroutines, s.WellScoped d)
    (after : ∀ site env, Leads Q ⟨k, .symbol .rightBrace :: rest, site, env⟩ es) :
    Leads Q
      ⟨.subroutineDecs :: k,
        subroutines.flatMap SubroutineDec.terminals ++ .symbol .rightBrace :: rest, site,
        ⟨(Declarations.mk d.declarations before).table, d.name, kind, n⟩⟩
      (d.subroutineEvents n subroutines ++ es) := by
  induction subroutines generalizing site before kind n with
  | nil => exact .expand rfl rfl (after _ _)
  | cons s subroutines ih =>
    simp only [List.flatMap_cons, subroutineEvents, List.append_assoc]
    refine SubroutineDec.leads rules (keep s (.head _)) fun site => ?_
    exact ih fun s mem => keep s (.tail _ mem)

/-- Behind the variables of a class stands a subroutine or the end of the class. -/
theorem head?_subroutines (subroutines : List SubroutineDec) (rest : List Terminal) {kind : Kind}
    (ofClass : kind.belongsToClass) :
    (subroutines.flatMap SubroutineDec.terminals ++ .symbol .rightBrace :: rest).head? ≠
      some (.keyword kind.keyword) := by
  cases subroutines with
  | nil => simp
  | cons s subroutines =>
    cases kind <;> cases ofClass <;> cases h : s.kind <;>
      simp [SubroutineDec.terminals, h, SubroutineKind.keyword, Kind.keyword]

/-- A class that keeps the rules is compiled, with the events of its tree. -/
theorem finishes {d : ClassDec} (rules : d.WellScoped) :
    (Machine.start d.terminals).Finishes none d.events := by
  suffices whole : Leads (·.goals = []) (Machine.start d.terminals) d.events from whole
  simp only [terminals, events, nodeEvents, List.append_assoc, List.cons_append, List.nil_append]
  refine .expand rfl rfl (.accept rfl rfl (.accept rfl rfl (.report (.symbol ?_))))
  refine leads_classVarDecs ⟨[], []⟩ (fun kind => head?_subroutines _ _) rules.distinct
    fun site => ?_
  refine leads_subroutineDecs rules rules.subroutines fun site env => ?_
  exact .symbol (.report (.expand rfl rfl ⟨_, .refl _, rfl⟩))

end ClassDec

end JackToVm
