import JackToVm.Proofs.Acceptance

/-!
# The grammar is unambiguous

A list of terminals is the sentence of one class at most, so it makes sense to speak of the class
that a source is.

Every part of a class can be cut off the front of a text in one way, if what stands behind it
cannot go on with it. What that is depends on the part (`EndsTerm`, `EndsExpression`,
`EndsStatement`, or one symbol).

Results.
1. `Expression.separated`, `Statements.separated`, by recursion on the tree, and
   `ClassDec.terminals_injective`.
2. A source compiles exactly if the class that it is keeps the rules, and its instructions are the
   code of that class (`Lexes.instructions_eq_ok_iff`).
-/

namespace JackToVm

/-! ## Cutting a part off a text -/

/-- Whatever is written like `x`, with texts behind that end it, is `x`. -/
def Separated {α : Type} (write : α → List Terminal) (Ends : List Terminal → Prop) (x : α) :
    Prop :=
  ∀ (y : α) (rest rest' : List Terminal), Ends rest → Ends rest' →
    write x ++ rest = write y ++ rest' → x = y ∧ rest = rest'

/-- Both sides go on with one and the same terminal. -/
theorem Separated.behind {α : Type} {write : α → List Terminal} {Ends : List Terminal → Prop}
    {x y : α} {t : Terminal} {rest rest' : List Terminal} (h : Separated write Ends x)
    (ends : ∀ rest, Ends (t :: rest)) (same : write x ++ t :: rest = write y ++ t :: rest') :
    x = y ∧ rest = rest' := by
  obtain ⟨rfl, behind⟩ := h y _ _ (ends rest) (ends rest') same
  exact ⟨rfl, (List.cons.inj behind).2⟩

def StartsWith (s : Symbol) (text : List Terminal) : Prop :=
  ∃ rest, text = .symbol s :: rest

/-- What stands behind a term. -/
def EndsTerm (text : List Terminal) : Prop :=
  ∃ s : Symbol, s.EndsTerm ∧ StartsWith s text

/-- What stands behind an expression. -/
def EndsExpression (text : List Terminal) : Prop :=
  ∃ s : Symbol, s.EndsExpression ∧ StartsWith s text

/-- What stands behind a statement: no `else` goes on with it. -/
def EndsStatement (text : List Terminal) : Prop :=
  text.head? ≠ some (.keyword .kwElse)

theorem startsWith_cons (s : Symbol) (rest : List Terminal) :
    StartsWith s (.symbol s :: rest) :=
  ⟨rest, rfl⟩

theorem StartsWith.endsExpression {s : Symbol} {text : List Terminal} (h : StartsWith s text)
    (ends : s.EndsExpression) : EndsExpression text :=
  ⟨s, ends, h⟩

theorem endsExpression_cons {s : Symbol} (ends : s.EndsExpression) (rest : List Terminal) :
    EndsExpression (.symbol s :: rest) :=
  (startsWith_cons s rest).endsExpression ends

theorem BinaryOperator.symbol_injective {o p : BinaryOperator} (h : o.symbol = p.symbol) :
    o = p := by
  cases o <;> cases p <;> first | rfl | cases h

theorem UnaryOperator.symbol_injective {o p : UnaryOperator} (h : o.symbol = p.symbol) :
    o = p := by
  cases o <;> cases p <;> first | rfl | cases h

theorem ConstantWord.keyword_injective {w v : ConstantWord} (h : w.keyword = v.keyword) :
    w = v := by
  cases w <;> cases v <;> first | rfl | cases h

/-- No term starts like a group. -/
theorem UnaryOperator.symbol_ne_leftParen (o : UnaryOperator) : o.symbol ≠ .leftParen := by
  cases o <;> decide

/-! ## Expressions -/

theorem Operations.endsTerm (ops : Operations) {rest : List Terminal}
    (ends : EndsExpression rest) : EndsTerm (ops.terminals ++ rest) := by
  obtain ⟨s, ends, rest, rfl⟩ := ends
  obtain ⟨s', rest', starts, ends'⟩ := ops.startsWith ends rest
  exact ⟨s', ends', rest', starts⟩

theorem Arguments.endsExpression (as : Arguments) {rest : List Terminal}
    (ends : StartsWith .rightParen rest) : EndsExpression (as.moreTerminals ++ rest) := by
  obtain ⟨rest, rfl⟩ := ends
  obtain ⟨s, rest', starts, ends⟩ := as.startsWith rest
  exact ⟨s, ends, rest', starts⟩

/-- No expression starts with the end of a list of expressions. -/
theorem Expression.terminals_append_ne (e : Expression) {rest rest' : List Terminal}
    (ends : StartsWith .rightParen rest') : e.terminals ++ rest ≠ rest' := by
  obtain ⟨rest', rfl⟩ := ends
  intro same
  have head := e.head?_terminals (s := .rightParen) (.inl rfl) rest
  rw [same] at head
  exact head rfl

mutual

theorem Expression.separated (e : Expression) :
    Separated Expression.terminals EndsExpression e := by
  cases e with
  | of t ops =>
    rintro ⟨t', ops'⟩ rest rest' ends ends' same
    simp only [Expression.terminals, List.append_assoc] at same
    obtain ⟨rfl, behind⟩ := t.separated t' _ _ (ops.endsTerm ends) (ops'.endsTerm ends') same
    obtain ⟨rfl, rfl⟩ := ops.separated ops' _ _ ends ends' behind
    exact ⟨rfl, rfl⟩

theorem Operations.separated (ops : Operations) :
    Separated Operations.terminals EndsExpression ops := by
  intro ops' rest rest' ends ends' same
  -- an operator does not end an expression
  have other (o : BinaryOperator) {more text : List Terminal} (ends : EndsExpression text) :
      text ≠ .symbol o.symbol :: more := by
    obtain ⟨s, ⟨-, none⟩, text, rfl⟩ := ends
    rintro same
    cases same
    rw [o.binary?_symbol] at none
    cases none
  cases ops with
  | nil =>
    cases ops' with
    | nil => exact ⟨rfl, same⟩
    | cons o' t' ops' => exact absurd same (other o' ends)
  | cons o t ops =>
    cases ops' with
    | nil => exact absurd same.symm (other o ends')
    | cons o' t' ops' =>
      simp only [Operations.terminals, List.cons_append, List.append_assoc, List.cons.injEq,
        Terminal.symbol.injEq] at same
      obtain ⟨symbol, same⟩ := same
      obtain rfl := BinaryOperator.symbol_injective symbol
      obtain ⟨rfl, behind⟩ := t.separated t' _ _ (ops.endsTerm ends) (ops'.endsTerm ends') same
      obtain ⟨rfl, rfl⟩ := ops.separated ops' _ _ ends ends' behind
      exact ⟨rfl, rfl⟩

theorem Term.separated (t : Term) : Separated Term.terminals EndsTerm t := by
  rintro t' _ _ ⟨s, ⟨bracket, paren, dot⟩, rest, rfl⟩
    ⟨s', ⟨bracket', paren', dot'⟩, rest', rfl⟩ same
  cases t with
  | integer n => cases t' <;> simp_all [Term.terminals, Call.terminals_eq_cons]
  | text text => cases t' <;> simp_all [Term.terminals, Call.terminals_eq_cons]
  | word w =>
    cases t' with
    | word w' =>
      simp only [Term.terminals, List.cons_append, List.cons.injEq, Terminal.keyword.injEq] at same
      obtain ⟨word, same⟩ := same
      obtain rfl := ConstantWord.keyword_injective word
      exact ⟨rfl, same⟩
    | _ => simp [Term.terminals, Call.terminals_eq_cons] at same
  | var x =>
    cases t' with
    | call call => cases call <;> simp_all [Term.terminals, Call.terminals]
    | _ => simp_all [Term.terminals]
  | element x e =>
    cases t' with
    | call call => cases call <;> simp [Term.terminals, Call.terminals] at same
    | element x' e' =>
      simp only [Term.terminals, List.cons_append, List.append_assoc, List.nil_append,
        List.cons.injEq, Terminal.identifier.injEq, true_and] at same
      obtain ⟨rfl, same⟩ := same
      have closes : Symbol.rightBracket.EndsExpression := by decide
      obtain ⟨rfl, behind⟩ := e.separated.behind (endsExpression_cons closes) same
      exact ⟨rfl, behind⟩
    | _ => simp_all [Term.terminals]
  | call call =>
    cases t' with
    | call call' =>
      obtain ⟨rfl, behind⟩ := call.separated call' _ _ trivial trivial same
      exact ⟨rfl, behind⟩
    | _ => cases call <;> simp_all [Term.terminals, Call.terminals]
  | group e =>
    cases t' with
    | group e' =>
      simp only [Term.terminals, List.cons_append, List.append_assoc, List.nil_append,
        List.cons.injEq, true_and] at same
      have closes : Symbol.rightParen.EndsExpression := by decide
      obtain ⟨rfl, behind⟩ := e.separated.behind (endsExpression_cons closes) same
      exact ⟨rfl, behind⟩
    | unary o' t' => simp [Term.terminals, o'.symbol_ne_leftParen.symm] at same
    | _ => simp [Term.terminals, Call.terminals_eq_cons] at same
  | unary o t =>
    cases t' with
    | group e' => simp [Term.terminals, o.symbol_ne_leftParen] at same
    | unary o' t' =>
      simp only [Term.terminals, List.cons_append, List.cons.injEq,
        Terminal.symbol.injEq] at same
      obtain ⟨symbol, same⟩ := same
      obtain rfl := UnaryOperator.symbol_injective symbol
      obtain ⟨rfl, behind⟩ := t.separated t' _ _ ⟨s, ⟨bracket, paren, dot⟩, rest, rfl⟩
        ⟨s', ⟨bracket', paren', dot'⟩, rest', rfl⟩ same
      exact ⟨rfl, behind⟩
    | _ => simp [Term.terminals, Call.terminals_eq_cons] at same

theorem Call.separated (call : Call) : Separated Call.terminals (fun _ => True) call := by
  rintro call' rest rest' - - same
  have ends (text : List Terminal) := startsWith_cons .rightParen text
  cases call with
  | own m as =>
    cases call' with
    | own m' as' =>
      simp only [Call.terminals, List.cons_append, List.append_assoc, List.nil_append,
        List.cons.injEq, Terminal.identifier.injEq, true_and] at same
      obtain ⟨rfl, same⟩ := same
      obtain ⟨rfl, behind⟩ := as.separated.behind ends same
      exact ⟨rfl, behind⟩
    | dotted x' m' as' => simp [Call.terminals] at same
  | dotted x m as =>
    cases call' with
    | own m' as' => simp [Call.terminals] at same
    | dotted x' m' as' =>
      simp only [Call.terminals, List.cons_append, List.append_assoc, List.nil_append,
        List.cons.injEq, Terminal.identifier.injEq, true_and] at same
      obtain ⟨rfl, rfl, same⟩ := same
      obtain ⟨rfl, behind⟩ := as.separated.behind ends same
      exact ⟨rfl, behind⟩

theorem Arguments.separated (as : Arguments) :
    Separated Arguments.terminals (StartsWith .rightParen) as := by
  intro as' rest rest' ends ends' same
  cases as with
  | nil =>
    cases as' with
    | nil => exact ⟨rfl, same⟩
    | cons e' as' =>
      rw [Arguments.terminals, Arguments.terminals, List.append_assoc] at same
      exact absurd same.symm (e'.terminals_append_ne ends)
  | cons e as =>
    cases as' with
    | nil =>
      rw [Arguments.terminals, Arguments.terminals, List.append_assoc] at same
      exact absurd same (e.terminals_append_ne ends')
    | cons e' as' =>
      simp only [Arguments.terminals, List.append_assoc] at same
      obtain ⟨rfl, behind⟩ := e.separated e' _ _ (as.endsExpression ends)
        (as'.endsExpression ends') same
      obtain ⟨rfl, last⟩ := as.separated_more as' _ _ ends ends' behind
      exact ⟨rfl, last⟩

theorem Arguments.separated_more (as : Arguments) :
    Separated Arguments.moreTerminals (StartsWith .rightParen) as := by
  intro as' rest rest' ends ends' same
  cases as with
  | nil =>
    obtain ⟨rest, rfl⟩ := ends
    cases as' with
    | nil => exact ⟨rfl, same⟩
    | cons e' as' => simp [Arguments.moreTerminals] at same
  | cons e as =>
    cases as' with
    | nil =>
      obtain ⟨rest', rfl⟩ := ends'
      simp [Arguments.moreTerminals] at same
    | cons e' as' =>
      simp only [Arguments.moreTerminals, List.cons_append, List.append_assoc, List.cons.injEq,
        true_and] at same
      obtain ⟨rfl, behind⟩ := e.separated e' _ _ (as.endsExpression ends)
        (as'.endsExpression ends') same
      obtain ⟨rfl, last⟩ := as.separated_more as' _ _ ends ends' behind
      exact ⟨rfl, last⟩

end

/-! ## Statements -/

/-- Behind a statement stands another one or the end of the block. -/
theorem Statements.endsStatement (ss : Statements) {rest : List Terminal}
    (ends : StartsWith .rightBrace rest) : EndsStatement (ss.terminals ++ rest) := by
  obtain ⟨rest, rfl⟩ := ends
  cases ss with
  | nil => simp [Statements.terminals, EndsStatement]
  | cons s ss => cases s <;> simp [Statements.terminals, Statement.terminals, EndsStatement]

/-- No statement starts with the end of a block. -/
theorem Statement.terminals_append_ne (s : Statement) {rest rest' : List Terminal}
    (ends : StartsWith .rightBrace rest') : s.terminals ++ rest ≠ rest' := by
  obtain ⟨rest', rfl⟩ := ends
  cases s <;> simp [Statement.terminals]

/-- `'(' expression ')' '{' statement* '}'` -/
theorem guarded_separated {e e' : Expression} {body body' : Statements}
    {rest rest' : List Terminal}
    (ofBody : Separated Statements.terminals (StartsWith .rightBrace) body)
    (same : e.terminals ++ .symbol .rightParen :: .symbol .leftBrace ::
        (body.terminals ++ .symbol .rightBrace :: rest) =
      e'.terminals ++ .symbol .rightParen :: .symbol .leftBrace ::
        (body'.terminals ++ .symbol .rightBrace :: rest')) :
    e = e' ∧ body = body' ∧ rest = rest' := by
  obtain ⟨rfl, block⟩ := e.separated.behind (endsExpression_cons (by decide)) same
  obtain ⟨rfl, behind⟩ := ofBody.behind (startsWith_cons _) (List.cons.inj block).2
  exact ⟨rfl, rfl, behind⟩

mutual

theorem Statement.separated (s : Statement) :
    Separated Statement.terminals EndsStatement s := by
  intro s' rest rest' ends ends' same
  have semicolon := endsExpression_cons (s := .semicolon) (by decide)
  have bracket := endsExpression_cons (s := .rightBracket) (by decide)
  cases s with
  | letVariable x e =>
    cases s' with
    | letVariable x' e' =>
      simp only [Statement.terminals, List.cons_append, List.append_assoc, List.nil_append,
        List.cons.injEq, Terminal.identifier.injEq, true_and] at same
      obtain ⟨rfl, same⟩ := same
      obtain ⟨rfl, behind⟩ := e.separated.behind semicolon same
      exact ⟨rfl, behind⟩
    | _ => simp [Statement.terminals] at same
  | letElement x i e =>
    cases s' with
    | letElement x' i' e' =>
      simp only [Statement.terminals, List.cons_append, List.append_assoc, List.nil_append,
        List.cons.injEq, Terminal.identifier.injEq, true_and] at same
      obtain ⟨rfl, same⟩ := same
      obtain ⟨rfl, value⟩ := i.separated.behind bracket same
      obtain ⟨rfl, behind⟩ := e.separated.behind semicolon (List.cons.inj value).2
      exact ⟨rfl, behind⟩
    | _ => simp [Statement.terminals] at same
  | ifThen e body =>
    cases s' with
    | ifThen e' body' =>
      simp only [Statement.terminals, List.cons_append, List.append_assoc, List.nil_append,
        List.cons.injEq, true_and] at same
      obtain ⟨rfl, rfl, behind⟩ := guarded_separated body.separated same
      exact ⟨rfl, behind⟩
    | ifElse e' body' other' =>
      simp only [Statement.terminals, List.cons_append, List.append_assoc, List.nil_append,
        List.cons.injEq, true_and] at same
      obtain ⟨rfl, rfl, behind⟩ := guarded_separated body.separated same
      exact absurd (congrArg List.head? behind) ends
    | _ => simp [Statement.terminals] at same
  | ifElse e body other =>
    cases s' with
    | ifThen e' body' =>
      simp only [Statement.terminals, List.cons_append, List.append_assoc, List.nil_append,
        List.cons.injEq, true_and] at same
      obtain ⟨rfl, rfl, behind⟩ := guarded_separated body.separated same
      exact absurd (congrArg List.head? behind.symm) ends'
    | ifElse e' body' other' =>
      simp only [Statement.terminals, List.cons_append, List.append_assoc, List.nil_append,
        List.cons.injEq, true_and] at same
      obtain ⟨rfl, rfl, elseBlock⟩ := guarded_separated body.separated same
      simp only [List.cons.injEq, true_and] at elseBlock
      obtain ⟨rfl, behind⟩ := other.separated.behind (startsWith_cons _) elseBlock
      exact ⟨rfl, behind⟩
    | _ => simp [Statement.terminals] at same
  | whileDo e body =>
    cases s' with
    | whileDo e' body' =>
      simp only [Statement.terminals, List.cons_append, List.append_assoc, List.nil_append,
        List.cons.injEq, true_and] at same
      obtain ⟨rfl, rfl, behind⟩ := guarded_separated body.separated same
      exact ⟨rfl, behind⟩
    | _ => simp [Statement.terminals] at same
  | doCall call =>
    cases s' with
    | doCall call' =>
      simp only [Statement.terminals, List.cons_append, List.append_assoc, List.nil_append,
        List.cons.injEq, true_and] at same
      obtain ⟨rfl, behind⟩ := call.separated.behind (fun _ => trivial) same
      exact ⟨rfl, behind⟩
    | _ => simp [Statement.terminals] at same
  | returnNothing =>
    cases s' with
    | returnNothing => exact ⟨rfl, by simpa [Statement.terminals] using same⟩
    | returnValue e' =>
      simp only [Statement.terminals, List.cons_append, List.append_assoc, List.nil_append,
        List.cons.injEq, true_and] at same
      exact absurd (congrArg List.head? same.symm) (e'.head?_terminals (.inr rfl) _)
    | _ => simp [Statement.terminals] at same
  | returnValue e =>
    cases s' with
    | returnNothing =>
      simp only [Statement.terminals, List.cons_append, List.append_assoc, List.nil_append,
        List.cons.injEq, true_and] at same
      exact absurd (congrArg List.head? same) (e.head?_terminals (.inr rfl) _)
    | returnValue e' =>
      simp only [Statement.terminals, List.cons_append, List.append_assoc, List.nil_append,
        List.cons.injEq, true_and] at same
      obtain ⟨rfl, behind⟩ := e.separated.behind semicolon same
      exact ⟨rfl, behind⟩
    | _ => simp [Statement.terminals] at same

theorem Statements.separated (ss : Statements) :
    Separated Statements.terminals (StartsWith .rightBrace) ss := by
  intro ss' rest rest' ends ends' same
  cases ss with
  | nil =>
    cases ss' with
    | nil => exact ⟨rfl, same⟩
    | cons s' ss' =>
      rw [Statements.terminals, Statements.terminals, List.append_assoc] at same
      exact absurd same.symm (s'.terminals_append_ne ends)
  | cons s ss =>
    cases ss' with
    | nil =>
      rw [Statements.terminals, Statements.terminals, List.append_assoc] at same
      exact absurd same (s.terminals_append_ne ends')
    | cons s' ss' =>
      simp only [Statements.terminals, List.append_assoc] at same
      obtain ⟨rfl, more⟩ := s.separated s' _ _ (ss.endsStatement ends) (ss'.endsStatement ends')
        same
      obtain ⟨rfl, behind⟩ := ss.separated ss' _ _ ends ends' more
      exact ⟨rfl, behind⟩

end

/-! ## Declarations -/

/-- Parts that tell their own ends can be written one behind the other, if what stands behind
them starts with none of their first terminals. -/
theorem separated_flatMap {α : Type} {write : α → List Terminal} (Starts : Terminal → Prop)
    (starts : ∀ x, ∃ t text, write x = t :: text ∧ Starts t)
    (each : ∀ x, Separated write (fun _ => True) x) (xs : List α) :
    Separated (fun xs => xs.flatMap write) (fun rest => ∀ t ∈ rest.head?, ¬ Starts t) xs := by
  induction xs with
  | nil =>
    rintro (_ | ⟨y, ys⟩) rest rest' ends ends' same
    · exact ⟨rfl, same⟩
    · obtain ⟨t, text, written, first⟩ := starts y
      have begins : rest = t :: (text ++ (ys.flatMap write ++ rest')) := by
        simpa [written] using same
      exact absurd first (ends t (by rw [begins]; rfl))
  | cons x xs ih =>
    rintro (_ | ⟨y, ys⟩) rest rest' ends ends' same
    · obtain ⟨t, text, written, first⟩ := starts x
      have begins : rest' = t :: (text ++ (xs.flatMap write ++ rest)) := by
        simpa [written] using same.symm
      exact absurd first (ends' t (by rw [begins]; rfl))
    · simp only [List.flatMap_cons, List.append_assoc] at same
      obtain ⟨rfl, more⟩ := each x y _ _ trivial trivial same
      obtain ⟨rfl, behind⟩ := ih ys _ _ ends ends' more
      exact ⟨rfl, behind⟩

theorem TypeName.terminal_injective {t u : TypeName} (h : t.terminal = u.terminal) : t = u := by
  cases t <;> cases u <;> simp_all [terminal]

theorem TypeName.resultTerminal_injective {t u : Option TypeName}
    (h : resultTerminal t = resultTerminal u) : t = u := by
  cases t with
  | none =>
    cases u with
    | none => rfl
    | some u => cases u <;> cases h
  | some t =>
    cases u with
    | none => cases t <;> cases h
    | some u => rw [terminal_injective h]

/-- Names behind another one start with a comma. -/
theorem Names.separated_more (names : List String) :
    Separated moreTerminals (StartsWith .semicolon) names := by
  have each (name : String) : Separated
      (fun name : String => [.symbol .comma, .identifier name]) (fun _ => True) name :=
    fun name' _ _ _ _ same => by simpa using same
  have list := separated_flatMap (· = .symbol .comma) (fun name => ⟨_, _, rfl, rfl⟩) each names
  rintro names' _ _ ⟨rest, rfl⟩ ⟨rest', rfl⟩ same
  exact list names' _ _ (by simp) (by simp) same

theorem Names.separated (names : Names) :
    Separated terminals (StartsWith .semicolon) names := by
  obtain ⟨type, first, more⟩ := names
  rintro ⟨type', first', more'⟩ rest rest' ends ends' same
  simp only [terminals, List.cons_append, List.cons.injEq, Terminal.identifier.injEq] at same
  obtain ⟨type, rfl, same⟩ := same
  obtain rfl := TypeName.terminal_injective type
  obtain ⟨rfl, behind⟩ := separated_more more more' _ _ ends ends' same
  exact ⟨rfl, behind⟩

theorem Names.separated_local (names : Names) :
    Separated localTerminals (fun _ => True) names := by
  intro names' rest rest' _ _ same
  simp only [localTerminals, List.cons_append, List.append_assoc, List.nil_append, List.cons.injEq,
    true_and] at same
  obtain ⟨rfl, behind⟩ := names.separated.behind (startsWith_cons _) same
  exact ⟨rfl, behind⟩

theorem Kind.keyword_injective {k l : Kind} (ofClass : k.belongsToClass = true)
    (ofClass' : l.belongsToClass = true) (h : k.keyword = l.keyword) : k = l := by
  cases k <;> cases l <;> simp_all [keyword, belongsToClass]

theorem ClassVarDec.separated (d : ClassVarDec) :
    Separated terminals (fun _ => True) d := by
  obtain ⟨kind, ofClass, names⟩ := d
  rintro ⟨kind', ofClass', names'⟩ rest rest' _ _ same
  simp only [terminals, List.cons_append, List.append_assoc, List.nil_append, List.cons.injEq,
    Terminal.keyword.injEq] at same
  obtain ⟨kind, same⟩ := same
  obtain rfl := Kind.keyword_injective ofClass ofClass' kind
  obtain ⟨rfl, behind⟩ := names.separated.behind (startsWith_cons _) same
  exact ⟨rfl, behind⟩

theorem Parameter.separated_more (ps : List Parameter) :
    Separated moreTerminals (StartsWith .rightParen) ps := by
  have each (p : Parameter) : Separated
      (fun p : Parameter => [.symbol .comma, p.type.terminal, .identifier p.name])
      (fun _ => True) p := by
    obtain ⟨type, name⟩ := p
    rintro ⟨type', name'⟩ rest rest' _ _ same
    simp only [List.cons_append, List.nil_append, List.cons.injEq, Terminal.identifier.injEq,
      true_and] at same
    obtain ⟨type, rfl, behind⟩ := same
    exact ⟨by rw [TypeName.terminal_injective type], behind⟩
  have list := separated_flatMap (· = .symbol .comma) (fun p => ⟨_, _, rfl, rfl⟩) each ps
  rintro ps' _ _ ⟨rest, rfl⟩ ⟨rest', rfl⟩ same
  exact list ps' _ _ (by simp) (by simp) same

theorem Parameter.separated_list (ps : List Parameter) :
    Separated listTerminals (StartsWith .rightParen) ps := by
  have other (t : TypeName) (s : Symbol) : t.terminal ≠ .symbol s := by
    cases t <;> simp [TypeName.terminal]
  rintro ps' _ _ ⟨rest, rfl⟩ ⟨rest', rfl⟩ same
  cases ps with
  | nil =>
    cases ps' with
    | nil => exact ⟨rfl, same⟩
    | cons p' ps' => exact absurd (List.cons.inj same).1.symm (other p'.type _)
  | cons p ps =>
    cases ps' with
    | nil => exact absurd (List.cons.inj same).1 (other p.type _)
    | cons p' ps' =>
      obtain ⟨type, name⟩ := p
      obtain ⟨type', name'⟩ := p'
      simp only [listTerminals, List.cons_append, List.cons.injEq,
        Terminal.identifier.injEq] at same
      obtain ⟨type, rfl, same⟩ := same
      obtain rfl := TypeName.terminal_injective type
      obtain ⟨rfl, behind⟩ := separated_more ps ps' _ _ (startsWith_cons _ _)
        (startsWith_cons _ _) same
      exact ⟨rfl, behind⟩

/-! ## Classes -/

theorem SubroutineKind.keyword_injective {k l : SubroutineKind} (h : k.keyword = l.keyword) :
    k = l := by
  cases k <;> cases l <;> first | rfl | cases h

/-- No statement starts with the declaration of a local. -/
theorem Statements.head?_ne_var (ss : Statements) (rest : List Terminal) :
    ∀ t ∈ (ss.terminals ++ .symbol .rightBrace :: rest).head?, t ≠ .keyword .kwVar := by
  cases ss with
  | nil => simp [Statements.terminals]
  | cons s ss => cases s <;> simp [Statements.terminals, Statement.terminals]

theorem SubroutineDec.separated (s : SubroutineDec) :
    Separated terminals (fun _ => True) s := by
  obtain ⟨kind, result, name, parameters, locals, body⟩ := s
  rintro ⟨kind', result', name', parameters', locals', body'⟩ rest rest' _ _ same
  simp only [terminals, moreTerminals, List.cons_append, List.append_assoc, List.nil_append,
    List.cons.injEq, Terminal.keyword.injEq, Terminal.identifier.injEq, true_and] at same
  obtain ⟨kind, result, rfl, same⟩ := same
  obtain rfl := SubroutineKind.keyword_injective kind
  obtain rfl := TypeName.resultTerminal_injective result
  obtain ⟨rfl, inner⟩ := (Parameter.separated_list parameters).behind (startsWith_cons _) same
  simp only [List.cons.injEq, true_and] at inner
  have list := separated_flatMap (· = .keyword .kwVar) (fun names => ⟨_, _, rfl, rfl⟩)
    Names.separated_local locals
  obtain ⟨rfl, statements⟩ := list locals' _ _ (body.head?_ne_var _) (body'.head?_ne_var _) inner
  obtain ⟨rfl, behind⟩ := body.separated.behind (startsWith_cons _) statements
  exact ⟨rfl, behind⟩

theorem Kind.keyword_of_belongsToClass {kind : Kind} (ofClass : kind.belongsToClass = true) :
    kind.keyword = .kwStatic ∨ kind.keyword = .kwField := by
  cases kind with
  | static => exact .inl rfl
  | field => exact .inr rfl
  | argument | localVar => cases ofClass

theorem SubroutineKind.keyword_ne (kind : SubroutineKind) :
    kind.keyword ≠ .kwStatic ∧ kind.keyword ≠ .kwField := by
  cases kind <;> decide

theorem ClassDec.separated_classVars (vars : List ClassVarDec) :
    Separated (fun vars : List ClassVarDec => vars.flatMap ClassVarDec.terminals)
      (fun rest => ∀ t ∈ rest.head?, ¬ (t = .keyword .kwStatic ∨ t = .keyword .kwField)) vars := by
  refine separated_flatMap _ (fun d => ⟨_, _, rfl, ?_⟩) ClassVarDec.separated vars
  exact (Kind.keyword_of_belongsToClass d.ofClass).imp (congrArg _) (congrArg _)

theorem ClassDec.separated_subroutines (subroutines : List SubroutineDec) :
    Separated (fun ss : List SubroutineDec => ss.flatMap SubroutineDec.terminals)
      (StartsWith .rightBrace) subroutines := by
  have list := separated_flatMap (fun t => ∃ kind : SubroutineKind, t = .keyword kind.keyword)
    (fun s => ⟨_, _, rfl, s.kind, rfl⟩) SubroutineDec.separated subroutines
  rintro subroutines' _ _ ⟨rest, rfl⟩ ⟨rest', rfl⟩ same
  exact list subroutines' _ _ (by simp) (by simp) same

/-- No subroutine starts like a declaration of class variables. -/
theorem ClassDec.head?_subroutines_ne (subroutines : List SubroutineDec) (rest : List Terminal) :
    ∀ t ∈ (subroutines.flatMap SubroutineDec.terminals ++ .symbol .rightBrace :: rest).head?,
      ¬ (t = .keyword .kwStatic ∨ t = .keyword .kwField) := by
  cases subroutines with
  | nil => simp
  | cons s ss => simpa [SubroutineDec.terminals] using s.kind.keyword_ne

/-- A list of terminals is written like one class at most. -/
theorem ClassDec.terminals_injective {d d' : ClassDec} (h : d.terminals = d'.terminals) :
    d = d' := by
  obtain ⟨name, vars, subroutines⟩ := d
  obtain ⟨name', vars', subroutines'⟩ := d'
  simp only [terminals, List.cons.injEq, Terminal.identifier.injEq, true_and] at h
  obtain ⟨rfl, h⟩ := h
  obtain ⟨rfl, inner⟩ := separated_classVars vars vars' _ _ (head?_subroutines_ne subroutines [])
    (head?_subroutines_ne subroutines' []) h
  obtain ⟨rfl, -⟩ := separated_subroutines subroutines subroutines' _ _ (startsWith_cons _ [])
    (startsWith_cons _ []) inner
  rfl

/-! ## The class that a source is -/

/-- A source is read in one way. -/
theorem Lexes.unique {source : String} {ts us : List Terminal} (first : Lexes source ts)
    (second : Lexes source us) : ts = us :=
  (lexes_iff.1 first).2.symm.trans (lexes_iff.1 second).2

theorem Lexes.instructions_eq_ok_iff {source : String} {d : ClassDec}
    (reads : Lexes source d.terminals) {code : Array Instruction} :
    instructions source = .ok code ↔ d.WellScoped ∧ d.code.toArray = code := by
  rw [JackToVm.instructions_eq_ok_iff]
  constructor
  · rintro ⟨d', reads', rules, made⟩
    obtain rfl := ClassDec.terminals_injective (reads.unique reads')
    exact ⟨rules, made⟩
  · rintro ⟨rules, made⟩
    exact ⟨d, reads, rules, made⟩

end JackToVm
