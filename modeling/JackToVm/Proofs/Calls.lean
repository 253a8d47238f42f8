import JackToVm.Proofs.Tiling

/-!
# Calls of one lexer

A lexer has four calls, and each of them moves it. It may be asked whether an item is left, for the
next item in two ways, and for all that is left. In whatever order the calls are made, the lexer
answers like a cursor in the list of the items of its text.

What a cursor does not tell is whether the blanks and comments in front of the next item are
consumed already; a call that only asks does consume them. The answers do not depend on it, but the
line does.

Results.
1. A lexer only moves on (`Lexer.Behind.line_le`), by the text that it consumes, and the lines that
   it reports count the line feeds of that text (`Lexer.Behind.line_eq`).
2. To skip what is in front of the next item changes no item (`Lexer.next_skip`).
3. Every call keeps the lexer at a cursor (`StandsAt.answer`), and so do any number of calls
   (`StandsAt.afterCalls`, `calls_follow_cursor`).
-/

namespace JackToVm

/-! ## Calls and answers -/

/-- The calls of a lexer:
* whether an item is left;
* the next item, which is an error at the end of the text;
* the next item if there is one;
* all tokens to the end of the text, or the first error. -/
inductive Lexer.Call
  | more | take | next | tokens
deriving DecidableEq, Repr

inductive Lexer.Answer
  | more (isLeft : Bool)
  | take (item : Item)
  | next (item : Option Item)
  | tokens (all : Except LexError (List Token))

namespace Lexer

/-- The answer to a call, and the lexer behind it. -/
def answer (l : Lexer) : Call → Answer × Lexer
  | .more => (.more l.more.1, l.more.2)
  | .take => (.take l.take.1, l.take.2)
  | .next => (.next l.next.1, l.next.2)
  | .tokens => (.tokens l.tokens.1, l.tokens.2)

/-- The lexer behind some calls. -/
def afterCalls (l : Lexer) (calls : List Call) : Lexer :=
  calls.foldl (fun l call => (l.answer call).2) l

end Lexer

/-! ## The cursor -/

/-- All items as tokens, or the first error. -/
def collect : List Item → Except LexError (List Token)
  | [] => .ok []
  | .ok t :: items => (collect items).map (t :: ·)
  | .error e :: _ => .error e

/-- The number of items up to the first error, with it; or of all items. -/
def collected : List Item → Nat
  | [] => 0
  | .ok _ :: items => collected items + 1
  | .error _ :: _ => 1

theorem collected_le_length (items : List Item) : collected items ≤ items.length := by
  induction items with
  | nil => exact Nat.le_refl _
  | cons item items ih =>
    cases item with
    | ok t => exact Nat.succ_le_succ ih
    | error e => exact Nat.succ_le_succ (Nat.zero_le _)

namespace Cursor

variable (items : List Item) (atEnd : LexError)

/-- The answer to a call in front of item `c`, and the place of the cursor behind it. A call for an
item at the end of all has the answer `atEnd`. -/
def answer (c : Nat) : Lexer.Call → Lexer.Answer × Nat
  | .more => (.more (c < items.length), c)
  | .take =>
    match items[c]? with
    | some item => (.take item, c + 1)
    | none => (.take (.error atEnd), c)
  | .next =>
    match items[c]? with
    | some item => (.next (some item), c + 1)
    | none => (.next none, c)
  | .tokens => (.tokens (collect (items.drop c)), c + collected (items.drop c))

/-- The place of a cursor behind some calls. -/
def afterCalls (c : Nat) (calls : List Lexer.Call) : Nat :=
  calls.foldl (fun c call => (answer items atEnd c call).2) c

end Cursor

/-- The error behind all items of a source: an empty span at the end of the text, on its last
line. -/
def endOfSource (source : String) : LexError :=
  ⟨.unexpectedEnd, ⟨source.utf8ByteSize, source.utf8ByteSize⟩, source.toList.count '\n' + 1⟩

/-! ## Lexers move on -/

namespace Lexer

/-- The lexer `m` has consumed some more of the text of `l`. -/
def Behind (l m : Lexer) : Prop :=
  ∃ covered, l.rest = covered ++ m.rest ∧ m.position = l.position.afterAll covered

theorem Behind.refl (l : Lexer) : l.Behind l :=
  ⟨[], rfl, rfl⟩

variable {l m n : Lexer} {item : Item} {items : List Item} {finish : Lexer}

theorem Behind.trans (first : l.Behind m) (second : m.Behind n) : l.Behind n := by
  obtain ⟨covered, rest, here⟩ := first
  obtain ⟨covered', rest', here'⟩ := second
  refine ⟨covered ++ covered', ?_, ?_⟩
  · rw [rest, rest', List.append_assoc]
  · rw [here', here, Position.afterAll_append]

theorem Behind.line_le (behind : l.Behind m) : l.line ≤ m.line := by
  obtain ⟨covered, -, here⟩ := behind
  rw [line, line, here, Position.line_afterAll]
  exact Nat.le_add_left _ _

/-- The line counts the line feeds that are consumed. -/
theorem Behind.line_eq {source : String} (behind : (ofString source).Behind l) :
    ∃ consumed, source.toList = consumed ++ l.rest ∧ l.line = consumed.count '\n' + 1 := by
  obtain ⟨consumed, all, here⟩ := behind
  refine ⟨consumed, all, ?_⟩
  rw [line, here, Position.line_afterAll]
  rfl

theorem behind_skip (l : Lexer) : l.Behind l.skip := by
  obtain ⟨rest, p⟩ := l
  obtain ⟨gap, after, rfl, isGap, ends⟩ := exists_gap rest
  have skipped : skip ⟨gap ++ after, p⟩ = ⟨after, p.afterAll gap⟩ := skipTrivia_gap isGap ends
  rw [skipped]
  exact ⟨gap, rfl, rfl⟩

/-- Behind what is skipped there is nothing to skip. -/
theorem skip_skip (l : Lexer) : l.skip.skip = l.skip := by
  obtain ⟨rest, p⟩ := l
  obtain ⟨gap, after, rfl, isGap, ends⟩ := exists_gap rest
  have skipped : skip ⟨gap ++ after, p⟩ = ⟨after, p.afterAll gap⟩ := skipTrivia_gap isGap ends
  rw [skipped]
  exact skipTrivia_of_not_startsGap ends

theorem next_skip (l : Lexer) : l.skip.next = l.next := by
  unfold next
  rw [skip_skip]

theorem skip_of_next_none (h : l.next = (none, m)) : l.skip = m ∧ m.rest = [] := by
  unfold next at h
  split at h
  · next p here =>
    obtain ⟨-, rfl⟩ := Prod.mk.inj h
    exact ⟨here, rfl⟩
  · cases h

/-- An item starts where the lexer stands when nothing is left to skip, and it is consumed. -/
theorem skip_of_next_some (h : l.next = (some item, m)) :
    l.skip.rest ≠ [] ∧ item.line = l.skip.line ∧ l.skip.Behind m := by
  unfold next at h
  split at h
  · cases h
  · next c cs p here =>
    obtain ⟨made, rfl⟩ := Prod.mk.inj h
    obtain rfl := Option.some.inj made
    rw [here]
    refine ⟨List.cons_ne_nil c cs, ?_, (munch c cs).covered, ?_, rfl⟩
    · unfold itemAt
      split <;> rfl
    · exact (Munch.covered_append_rest c cs).symm

theorem behind_next (l : Lexer) : l.Behind l.next.2 := by
  have skipped := l.behind_skip
  cases h : l.next with
  | mk item m =>
    cases item with
    | none =>
      obtain ⟨rfl, -⟩ := skip_of_next_none h
      exact skipped
    | some item => exact skipped.trans (skip_of_next_some h).2.2

theorem next_of_next_none (h : l.next = (none, m)) : m.next = (none, m) := by
  obtain ⟨rfl, -⟩ := skip_of_next_none h
  rw [next_skip, h]

/-! ## Items that are left -/

theorem Iterates.skip (iterates : Iterates l items finish) : Iterates l.skip items finish := by
  cases iterates with
  | done atEnd => exact .done (by rw [next_skip, atEnd])
  | step more rest => exact .step (by rw [next_skip, more]) rest

theorem tokens_of_none (atEnd : l.next = (none, m)) : l.tokens = (.ok [], m) := by
  rw [tokens, read, readFrom_of_none atEnd]
  rfl

theorem tokens_of_error {e : LexError} (more : l.next = (some (.error e), m)) :
    l.tokens = (.error e, m) := by
  rw [tokens, read, readFrom_of_error more]

theorem tokens_of_ok {t : Token} (more : l.next = (some (.ok t), m)) :
    l.tokens = (m.tokens.1.map (t :: ·), m.tokens.2) := by
  have first : l.read = ⟨t :: m.read.tokens, m.read.failure, m.read.finish⟩ := by
    rw [read, readFrom_of_ok more, readFrom_eq]
    rfl
  cases failure : m.read.failure <;> simp [tokens, first, failure, Except.map]

/-- Reading on to the first error or the end collects the items that are left. -/
theorem tokens_of_iterates (iterates : Iterates l items finish) :
    l.tokens.1 = collect items ∧ Iterates l.tokens.2 (items.drop (collected items)) finish ∧
      l.Behind l.tokens.2 := by
  induction iterates with
  | @done l m atEnd =>
    have moved := l.behind_next
    rw [atEnd] at moved
    rw [tokens_of_none atEnd]
    exact ⟨rfl, .done (next_of_next_none atEnd), moved⟩
  | @step l m finish item items more rest ih =>
    have moved := l.behind_next
    rw [more] at moved
    cases item with
    -- the items behind an error are left for the next call
    | error e =>
      rw [tokens_of_error more]
      exact ⟨rfl, rest, moved⟩
    | ok t =>
      obtain ⟨all, others, moved'⟩ := ih
      rw [tokens_of_ok more, all]
      exact ⟨rfl, others, moved.trans moved'⟩

end Lexer

/-! ## A lexer at a cursor -/

/-- A lexer has consumed a part of the source, and the items of the source from `c` on are those
that it comes to. -/
structure StandsAt (source : String) (c : Nat) (l : Lexer) : Prop where
  behind : (Lexer.ofString source).Behind l
  inside : c ≤ (Lexer.ofString source).items.1.length
  iterates : l.Iterates ((Lexer.ofString source).items.1.drop c) (Lexer.ofString source).items.2

namespace StandsAt

variable {source : String} {c : Nat} {l m : Lexer}

theorem start (source : String) : StandsAt source 0 (Lexer.ofString source) :=
  ⟨.refl _, Nat.zero_le _, Lexer.iterates_items _⟩

theorem getElem?_of_next {item : Item} (stands : StandsAt source c l)
    (more : l.next = (some item, m)) :
    (Lexer.ofString source).items.1[c]? = some item ∧ StandsAt source (c + 1) m := by
  obtain ⟨behind, inside, iterates⟩ := stands
  have moved := l.behind_next
  rw [more] at moved
  generalize left : (Lexer.ofString source).items.1.drop c = items at iterates
  cases iterates with
  | done atEnd => cases more.symm.trans atEnd
  | @step _ _ _ item' items more' rest =>
    obtain ⟨⟨⟩, rfl⟩ := Prod.mk.inj (more.symm.trans more')
    have some : (Lexer.ofString source).items.1[c]? = .some item := by
      rw [← List.head?_drop, left]
      rfl
    have others : (Lexer.ofString source).items.1.drop (c + 1) = items := by
      rw [← List.tail_drop, left]
      rfl
    obtain ⟨inside', -⟩ := List.getElem?_eq_some_iff.1 some
    exact ⟨some, behind.trans moved, inside', others ▸ rest⟩

/-- Where no item is left all of the source is consumed. -/
theorem atEnd_of_next (stands : StandsAt source c l) (none : l.next = (none, m)) :
    c = (Lexer.ofString source).items.1.length ∧ StandsAt source c m ∧
      m.position = .afterAll .start source.toList := by
  obtain ⟨behind, inside, iterates⟩ := stands
  have moved := l.behind_next
  rw [none] at moved
  have behind' := behind.trans moved
  obtain ⟨consumed, all, here⟩ := id behind'
  rw [(Lexer.skip_of_next_none none).2, List.append_nil] at all
  have whole : m.position = .afterAll .start source.toList := by
    rw [here, ← all]
    rfl
  generalize left : (Lexer.ofString source).items.1.drop c = items at iterates
  cases iterates with
  | step more _ => cases none.symm.trans more
  | done atEnd =>
    cases none.symm.trans atEnd
    refine ⟨Nat.le_antisymm inside (List.drop_eq_nil_iff.1 left), ⟨behind', inside, ?_⟩, whole⟩
    rw [left]
    exact .done (Lexer.next_of_next_none none)

/-- An item is left if something is left when nothing is left to skip. -/
theorem more_eq (stands : StandsAt source c l) :
    l.more.1 = decide (c < (Lexer.ofString source).items.1.length) := by
  unfold Lexer.more
  cases next : l.next with
  | mk item m =>
    cases item with
    | none =>
      obtain ⟨rfl, -⟩ := stands.atEnd_of_next next
      obtain ⟨rfl, none⟩ := Lexer.skip_of_next_none next
      simp [none]
    | some item =>
      obtain ⟨here, -⟩ := stands.getElem?_of_next next
      obtain ⟨some, -⟩ := Lexer.skip_of_next_some next
      simp [some, (List.getElem?_eq_some_iff.1 here).1]

/-- Behind all items the lexer has the error at the end of the source. -/
theorem take_of_next (stands : StandsAt source c l) (none : l.next = (none, m)) :
    l.take = (.error (endOfSource source), m) := by
  obtain ⟨-, -, whole⟩ := stands.atEnd_of_next none
  have offset := Position.offset_afterAll_start source.toList
  have line := Position.line_afterAll .start source.toList
  rw [String.ofList_toList, ← whole] at offset
  rw [← whole] at line
  simp only [Lexer.take, none, Lexer.line, offset, line]
  rfl

theorem skip (stands : StandsAt source c l) : StandsAt source c l.skip :=
  ⟨stands.behind.trans l.behind_skip, stands.inside, stands.iterates.skip⟩

/-- Every call keeps the lexer at the cursor, which has the same answer. -/
theorem answer (stands : StandsAt source c l) (call : Lexer.Call) :
    (l.answer call).1 =
        (Cursor.answer (Lexer.ofString source).items.1 (endOfSource source) c call).1 ∧
      StandsAt source
        (Cursor.answer (Lexer.ofString source).items.1 (endOfSource source) c call).2
        (l.answer call).2 := by
  cases call with
  | tokens =>
    obtain ⟨all, others, moved⟩ := Lexer.tokens_of_iterates stands.iterates
    rw [List.drop_drop] at others
    refine ⟨congrArg Lexer.Answer.tokens all, stands.behind.trans moved, ?_, others⟩
    have few := collected_le_length ((Lexer.ofString source).items.1.drop c)
    have inside := stands.inside
    rw [List.length_drop] at few
    simp only [Cursor.answer]
    omega
  | more =>
    exact ⟨congrArg Lexer.Answer.more stands.more_eq, stands.skip⟩
  | take =>
    cases next : l.next with
    | mk item m =>
      cases item with
      | none =>
        have atEnd := stands.take_of_next next
        obtain ⟨rfl, stands', -⟩ := stands.atEnd_of_next next
        simp only [Lexer.answer, atEnd, Cursor.answer, List.getElem?_eq_none (Nat.le_refl _)]
        exact ⟨trivial, stands'⟩
      | some item =>
        obtain ⟨some, stands'⟩ := stands.getElem?_of_next next
        simp only [Lexer.answer, Lexer.take, next, Cursor.answer, some]
        exact ⟨trivial, stands'⟩
  | next =>
    cases next : l.next with
    | mk item m =>
      cases item with
      | none =>
        obtain ⟨rfl, stands', -⟩ := stands.atEnd_of_next next
        simp only [Lexer.answer, next, Cursor.answer, List.getElem?_eq_none (Nat.le_refl _)]
        exact ⟨trivial, stands'⟩
      | some item =>
        obtain ⟨some, stands'⟩ := stands.getElem?_of_next next
        simp only [Lexer.answer, next, Cursor.answer, some]
        exact ⟨trivial, stands'⟩

/-- The line behind a question is that of the next item. -/
theorem line_more {item : Item} (stands : StandsAt source c l)
    (left : (Lexer.ofString source).items.1[c]? = some item) : l.more.2.line = item.line := by
  cases next : l.next with
  | mk other m =>
    cases other with
    | none =>
      obtain ⟨rfl, -⟩ := stands.atEnd_of_next next
      rw [List.getElem?_eq_none (Nat.le_refl _)] at left
      cases left
    | some other =>
      obtain ⟨here, -⟩ := stands.getElem?_of_next next
      obtain rfl := Option.some.inj (here.symm.trans left)
      exact (Lexer.skip_of_next_some next).2.1.symm

/-- Calls keep the lexer at the cursor. -/
theorem afterCalls (stands : StandsAt source c l) (calls : List Lexer.Call) :
    StandsAt source
      (Cursor.afterCalls (Lexer.ofString source).items.1 (endOfSource source) c calls)
      (l.afterCalls calls) := by
  induction calls generalizing c l with
  | nil => exact stands
  | cons call calls ih => exact ih (stands.answer call).2

end StandsAt

/-! ## All calls -/

theorem Lexer.behind_answer (l : Lexer) (call : Lexer.Call) : l.Behind (l.answer call).2 := by
  cases call with
  | more => exact l.behind_skip
  | tokens => exact (tokens_of_iterates (iterates_items l)).2.2
  | next => exact l.behind_next
  | take =>
    have moved := l.behind_next
    cases next : l.next with
    | mk item m =>
      rw [next] at moved
      cases item <;> simpa only [answer, take, next] using moved

/-- A lexer answers like a cursor in front of item `c` of the source.

* Whatever is called next, the answers are the same.
* The line counts the line feeds of what is consumed, and no call makes it less.
* Behind the question whether an item is left, it is the line of the next item. -/
structure AnswersLike (source : String) (c : Nat) (l : Lexer) : Prop where
  inside : c ≤ (Lexer.ofString source).items.1.length
  answer : ∀ call, (l.answer call).1 =
    (Cursor.answer (Lexer.ofString source).items.1 (endOfSource source) c call).1
  line : ∃ consumed, source.toList = consumed ++ l.rest ∧ l.line = consumed.count '\n' + 1
  line_le : ∀ call, l.line ≤ (l.answer call).2.line
  line_more : ∀ item, (Lexer.ofString source).items.1[c]? = some item →
    (l.answer .more).2.line = item.line

/-- Behind all calls a lexer answers like the cursor behind the same calls. -/
theorem calls_follow_cursor (source : String) (calls : List Lexer.Call) :
    AnswersLike source
      (Cursor.afterCalls (Lexer.ofString source).items.1 (endOfSource source) 0 calls)
      ((Lexer.ofString source).afterCalls calls) := by
  have stands := (StandsAt.start source).afterCalls calls
  constructor
  case inside => exact stands.inside
  case answer => exact fun call => (stands.answer call).1
  case line => exact stands.behind.line_eq
  case line_le => exact fun call => (Lexer.behind_answer _ call).line_le
  case line_more => exact fun item => stands.line_more

/-- To read all tokens answers the first error and stops behind it; what is behind that is read
next. -/
example : Cursor.afterCalls (Lexer.ofString "a\n#\n b").items.1 (endOfSource "a\n#\n b") 0
      [.more, .tokens] = 2 ∧
    ((Lexer.ofString "a\n#\n b").afterCalls [.more, .tokens]).next.1 =
      some (.ok ⟨.identifier "b", "b", ⟨5, 6⟩, 3⟩) := by
  decide +kernel

end JackToVm
