import JackToVm.Proofs.Characters
import JackToVm.Proofs.Lexing

/-!
# Items and gaps

What the lexer makes of a source, said without the lexer. A gap is made of blanks and comments; an
item is what its first character says, and as long as it can be. A source is cut into gaps and
items from its start to its end, and there is one way to do that: no item starts like a gap.

Results.
1. Every text starts with a gap behind which no gap starts (`exists_gap`), and the lexer skips that
   gap (`skipTrivia_gap`).
2. What the lexer cuts off is the item that stands there (`reads_munch`, `munch_of_reads`).
3. So the items that the lexer comes to are those of the only tiling of the source
   (`tiles_of_iterates`, `iterates_of_tiles`, `items_tile_source`).
-/

namespace JackToVm

/-! ## Gaps -/

/-- What stands in front of an item or of the end, with the text behind it:
* a blank;
* a comment from two slashes to the line feed, or to the end of the text;
* a comment from `/*` to the first `*/` behind that, or to the end of the text. -/
inductive Gap : List Char → List Char → Prop
  | nil {after : List Char} : Gap [] after
  | blank {c : Char} {gap after : List Char} : isBlank c → Gap gap after → Gap (c :: gap) after
  | line {text gap after : List Char} : '\n' ∉ text → Gap gap after →
      Gap ('/' :: '/' :: (text ++ '\n' :: gap)) after
  | block {text gap after : List Char} : ¬['*', '/'] <:+: text → Gap gap after →
      Gap ('/' :: '*' :: (text ++ '*' :: '/' :: gap)) after
  | lineToEnd {text : List Char} : '\n' ∉ text → Gap ('/' :: '/' :: text) []
  | blockToEnd {text : List Char} : ¬['*', '/'] <:+: text → Gap ('/' :: '*' :: text) []

/-- The text starts with a blank or a comment. -/
inductive StartsGap : List Char → Prop
  | blank {c : Char} {cs : List Char} : isBlank c → StartsGap (c :: cs)
  | line {cs : List Char} : StartsGap ('/' :: '/' :: cs)
  | block {cs : List Char} : StartsGap ('/' :: '*' :: cs)

/-- A text has an end of a comment in it, or not. -/
theorem exists_first_close (cs : List Char) :
    (¬['*', '/'] <:+: cs) ∨
      ∃ text more, cs = text ++ '*' :: '/' :: more ∧ ¬['*', '/'] <:+: text := by
  induction cs with
  | nil => exact .inl (by simp)
  | cons c cs ih =>
    by_cases here : ['*', '/'] <+: c :: cs
    · obtain ⟨more, all⟩ := here
      exact .inr ⟨[], more, all.symm, by simp⟩
    · rcases ih with none | ⟨text, more, rfl, first⟩
      · exact .inl (mt List.infix_cons_iff.1 (not_or.2 ⟨here, none⟩))
      · refine .inr ⟨c :: text, more, rfl, mt List.infix_cons_iff.1 (not_or.2 ⟨?_, first⟩)⟩
        exact fun start => here (start.trans (List.prefix_append (c :: text) _))

/-- Every text starts with a gap behind which no gap starts. -/
theorem exists_gap (cs : List Char) :
    ∃ gap after, cs = gap ++ after ∧ Gap gap after ∧ ¬StartsGap after := by
  by_cases starts : StartsGap cs
  · cases starts with
    | @blank c cs isBlank =>
      obtain ⟨gap, after, rfl, rest, ends⟩ := exists_gap cs
      exact ⟨c :: gap, after, rfl, .blank isBlank rest, ends⟩
    | @line cs =>
      by_cases closed : '\n' ∈ cs
      · obtain ⟨text, more, all, first⟩ := List.eq_append_cons_of_mem closed
        have shorter : more.length < ('/' :: '/' :: cs).length := by simp [all]; omega
        obtain ⟨gap, after, rfl, rest, ends⟩ := exists_gap more
        exact ⟨_, after, by simp [all], .line first rest, ends⟩
      · exact ⟨_, [], (List.append_nil _).symm, .lineToEnd closed, nofun⟩
    | @block cs =>
      rcases exists_first_close cs with unclosed | ⟨text, more, all, first⟩
      · exact ⟨_, [], (List.append_nil _).symm, .blockToEnd unclosed, nofun⟩
      · have shorter : more.length < ('/' :: '*' :: cs).length := by simp [all]; omega
        obtain ⟨gap, after, rfl, rest, ends⟩ := exists_gap more
        exact ⟨_, after, by simp [all], .block first rest, ends⟩
  · exact ⟨[], cs, rfl, .nil, starts⟩
termination_by cs.length

section

variable {p : Position} {text gap after : List Char}

-- makes the equations of `skipTrivia` once, before the lemmas that share them are elaborated
attribute [local simp] skipTrivia

theorem skipTrivia_lineComment (first : '\n' ∉ text) (more : List Char) :
    skipTrivia .lineComment p (text ++ '\n' :: more) =
      skipTrivia .blank (p.afterAll (text ++ ['\n'])) more := by
  induction text generalizing p with
  | nil => simp [skipTrivia, Position.afterAll]
  | cons c text ih =>
    obtain ⟨other, first⟩ := not_or.1 (mt List.mem_cons.2 first)
    simp only [List.cons_append, skipTrivia, if_neg (Ne.symm other), ih first]
    rfl

theorem skipTrivia_lineToEnd (first : '\n' ∉ text) :
    skipTrivia .lineComment p text = ⟨[], p.afterAll text⟩ := by
  induction text generalizing p with
  | nil => simp [skipTrivia, Position.afterAll]
  | cons c text ih =>
    obtain ⟨other, first⟩ := not_or.1 (mt List.mem_cons.2 first)
    simp only [skipTrivia, if_neg (Ne.symm other), ih first]
    rfl

/-- A character within a comment. -/
theorem skipTrivia_inBlock {c : Char} {cs : List Char} (open' : ¬['*', '/'] <+: c :: cs) :
    skipTrivia .blockComment p (c :: cs) = skipTrivia .blockComment (p.after c) cs := by
  rw [skipTrivia]
  rintro more rfl rfl
  exact open' ⟨more, rfl⟩

theorem skipTrivia_blockComment (first : ¬['*', '/'] <:+: text) (more : List Char) :
    skipTrivia .blockComment p (text ++ '*' :: '/' :: more) =
      skipTrivia .blank (p.afterAll (text ++ ['*', '/'])) more := by
  induction text generalizing p with
  | nil => simp [skipTrivia, Position.afterAll]
  | cons c text ih =>
    obtain ⟨other, first⟩ := not_or.1 (mt List.infix_cons_iff.2 first)
    rw [List.cons_append, skipTrivia_inBlock, ih first]
    · rfl
    · -- a close that starts in the text would end in it, or with the star behind it
      rintro ⟨rest, all⟩
      cases text with
      | nil => cases all
      | cons d text =>
        obtain ⟨star, all⟩ := List.cons.inj all
        obtain ⟨slash, -⟩ := List.cons.inj all
        exact other ⟨text, by rw [← star, ← slash]; rfl⟩

theorem skipTrivia_blockToEnd (first : ¬['*', '/'] <:+: text) :
    skipTrivia .blockComment p text = ⟨[], p.afterAll text⟩ := by
  induction text generalizing p with
  | nil => simp [skipTrivia, Position.afterAll]
  | cons c text ih =>
    obtain ⟨other, first⟩ := not_or.1 (mt List.infix_cons_iff.2 first)
    rw [skipTrivia_inBlock other, ih first]
    rfl

theorem skipTrivia_of_not_startsGap (ends : ¬StartsGap after) :
    skipTrivia .blank p after = ⟨after, p⟩ := by
  cases after with
  | nil => simp [skipTrivia]
  | cons c cs =>
    rw [skipTrivia]
    · exact if_neg fun blank => ends (.blank blank)
    · rintro more rfl rfl
      exact ends .line
    · rintro more rfl rfl
      exact ends .block

theorem skipTrivia_blank {c : Char} (blank : isBlank c) (cs : List Char) :
    skipTrivia .blank p (c :: cs) = skipTrivia .blank (p.after c) cs := by
  have noSlash : c ≠ '/' := by
    rintro rfl
    revert blank
    decide
  rw [skipTrivia]
  · exact if_pos blank
  · exact fun _ slash => absurd slash noSlash
  · exact fun _ slash => absurd slash noSlash

/-- The lexer skips a gap and no more. -/
theorem skipTrivia_gap (isGap : Gap gap after) (ends : ¬StartsGap after) :
    skipTrivia .blank p (gap ++ after) = ⟨after, p.afterAll gap⟩ := by
  induction isGap generalizing p with
  | nil => exact skipTrivia_of_not_startsGap ends
  | blank isBlank _ ih => rw [List.cons_append, skipTrivia_blank isBlank, ih ends]; rfl
  | @line text gap after first _ ih =>
    simp only [List.cons_append, List.append_assoc, skipTrivia, skipTrivia_lineComment first,
      ih ends]
    rw [← Position.afterAll_append, List.append_assoc]
    rfl
  | @block text gap after first _ ih =>
    simp only [List.cons_append, List.append_assoc, skipTrivia, skipTrivia_blockComment first,
      ih ends]
    rw [← Position.afterAll_append, List.append_assoc]
    rfl
  | lineToEnd first =>
    simp only [List.append_nil, skipTrivia, skipTrivia_lineToEnd first]
    rfl
  | blockToEnd first =>
    simp only [List.append_nil, skipTrivia, skipTrivia_blockToEnd first]
    rfl

end

/-! ## Items -/

/-- Characters of a class in front of one that is not of the class, or of the end. -/
structure LongestRun (P : Char → Bool) (run after : List Char) : Prop where
  all : ∀ c ∈ run, P c
  ends : ∀ c ∈ after.head?, P c = false

/-- What the characters of an item make, with the text behind them:
* a symbol stands alone;
* a string constant goes from a double quote to the next one; if there is none, all of the text up
  to its end is an error;
* an integer constant is a longest run of digits; its value must not be too large, whatever the
  number of its digits;
* a word is a longest run of letters, numbers and underscores that starts with no number; it is a
  keyword if it spells one, else an identifier;
* any other character is an error of its own. -/
inductive Reads : List Char → List Char → Except LexCause Terminal → Prop
  | symbol {after : List Char} (s : Symbol) : Reads [s.char] after (.ok (.symbol s))
  | string {text after : List Char} : '"' ∉ text →
      Reads ('"' :: (text ++ ['"'])) after (.ok (.string (String.ofList text)))
  | openString {text : List Char} : '"' ∉ text → Reads ('"' :: text) [] (.error .unexpectedEnd)
  | integer {digits after : List Char} : digits ≠ [] → LongestRun isDigit digits after →
      Nat.ofDigitChars 10 digits 0 ≤ maxConstant →
      Reads digits after (.ok (.integer (Nat.ofDigitChars 10 digits 0)))
  | tooLarge {digits after : List Char} : digits ≠ [] → LongestRun isDigit digits after →
      maxConstant < Nat.ofDigitChars 10 digits 0 →
      Reads digits after (.error (.integerOutOfRange (String.ofList digits)))
  | keyword {c : Char} {cs after : List Char} {k : Keyword} : startsName c →
      LongestRun continuesName (c :: cs) after → k.text = String.ofList (c :: cs) →
      Reads (c :: cs) after (.ok (.keyword k))
  | identifier {c : Char} {cs after : List Char} : startsName c →
      LongestRun continuesName (c :: cs) after →
      (∀ k : Keyword, k.text ≠ String.ofList (c :: cs)) →
      Reads (c :: cs) after (.ok (.identifier (String.ofList (c :: cs))))
  | other {c : Char} {after : List Char} : (∀ s : Symbol, s.char ≠ c) → c ≠ '"' → ¬isDigit c →
      ¬startsName c → Reads [c] after (.error (.unexpectedChar c))

section

variable {P : Char → Bool} {c : Char} {run after : List Char}

/-- A run is cut off by taking and dropping the characters of the class. -/
theorem longestRun_takeWhile (first : P c) (cs : List Char) :
    LongestRun P (c :: cs.takeWhile P) (cs.dropWhile P) := by
  constructor
  case all => exact List.forall_mem_cons.2 ⟨first, fun _ mem => List.mem_takeWhile_imp mem⟩
  case ends =>
    intro d mem
    have stops := List.head?_dropWhile_not P cs
    rwa [Option.mem_def.1 mem] at stops

theorem LongestRun.takeWhile_eq (longest : LongestRun P run after) :
    (run ++ after).takeWhile P = run := by
  rw [List.takeWhile_append_of_pos longest.all]
  cases after with
  | nil => simp
  | cons d after => simp [longest.ends d rfl]

theorem LongestRun.dropWhile_eq (longest : LongestRun P run after) :
    (run ++ after).dropWhile P = after := by
  rw [List.dropWhile_append_of_pos longest.all]
  cases after with
  | nil => rfl
  | cons d after => simp [longest.ends d rfl]

theorem LongestRun.tail (longest : LongestRun P (c :: run) after) : LongestRun P run after :=
  ⟨(List.forall_mem_cons.1 longest.all).2, longest.ends⟩

end

theorem ofWord_keyword {word : String} {k : Keyword} (spelled : k.text = word) :
    Terminal.ofWord word = .keyword k := by
  simp only [Terminal.ofWord, Keyword.ofText?_eq_some_iff.2 spelled]

theorem ofWord_identifier {word : String} (other : ∀ k : Keyword, k.text ≠ word) :
    Terminal.ofWord word = .identifier word := by
  unfold Terminal.ofWord
  split
  · next k found => exact absurd (Keyword.ofText?_eq_some_iff.1 found) (other k)
  · rfl

/-- What the lexer cuts off is the item that stands there. -/
theorem reads_munchString (cs : List Char) :
    Reads (munchString cs).covered (munchString cs).rest (munchString cs).outcome := by
  have first : '"' ∉ cs.takeWhile (· ≠ '"') := fun mem => by
    simpa using List.mem_takeWhile_imp mem
  unfold munchString
  split
  · exact .openString first
  · next quote rest left =>
    have stops := List.head?_dropWhile_not (fun c => decide (c ≠ '"')) cs
    rw [left] at stops
    obtain rfl : quote = '"' := by simpa using stops
    exact .string first

theorem reads_munchInteger {c : Char} (digit : isDigit c) (cs : List Char) :
    Reads (munchInteger c cs).covered (munchInteger c cs).rest (munchInteger c cs).outcome := by
  have longest := longestRun_takeWhile digit cs
  simp only [munchInteger]
  split
  · next small => exact .integer (List.cons_ne_nil _ _) longest small
  · next large => exact .tooLarge (List.cons_ne_nil _ _) longest (Nat.not_le.1 large)

theorem reads_munchWord {c : Char} (starts : startsName c) (cs : List Char) :
    Reads (munchWord c cs).covered (munchWord c cs).rest (munchWord c cs).outcome := by
  have longest := longestRun_takeWhile (continuesName_of_startsName starts) cs
  simp only [munchWord, Terminal.ofWord]
  split
  · next k found => exact .keyword starts longest (Keyword.ofText?_eq_some_iff.1 found)
  · next none =>
    refine .identifier starts longest fun k spelled => ?_
    rw [Keyword.ofText?_eq_some_iff.2 spelled] at none
    cases none

theorem reads_munch (c : Char) (cs : List Char) :
    Reads (munch c cs).covered (munch c cs).rest (munch c cs).outcome := by
  unfold munch
  split
  · next s symbol =>
    obtain rfl := Symbol.ofChar?_eq_some_iff.1 symbol
    exact .symbol s
  · next noSymbol =>
    split
    · exact reads_munchString cs
    · next noQuote =>
      split
      · next digit => exact reads_munchInteger digit cs
      · next noDigit =>
        split
        · next starts => exact reads_munchWord starts cs
        · next noName =>
          refine .other (fun s same => ?_) noQuote noDigit noName
          rw [Symbol.ofChar?_eq_some_iff.2 same] at noSymbol
          cases noSymbol

/-- No character of names is a double quote. -/
theorem ne_quote_of_continuesName {c : Char} (continues : continuesName c) : c ≠ '"' := by
  rintro rfl
  revert continues
  decide +kernel

section

variable {c : Char} {cs after : List Char}

theorem munch_quote (cs : List Char) : munch '"' cs = munchString cs := by
  have noSymbol : Symbol.ofChar? '"' = none := by decide
  simp only [munch, noSymbol, if_true]

theorem munch_of_isDigit (digit : isDigit c) (cs : List Char) : munch c cs = munchInteger c cs := by
  have continues := continuesName_of_isDigit digit
  simp only [munch, Symbol.ofChar?_eq_none continues,
    if_neg (ne_quote_of_continuesName continues), if_pos digit]

theorem munch_of_startsName (starts : startsName c) (cs : List Char) :
    munch c cs = munchWord c cs := by
  have continues := continuesName_of_startsName starts
  have noDigit : ¬isDigit c := Bool.eq_false_iff.1 (isDigit_eq_false_of_startsName starts)
  simp only [munch, Symbol.ofChar?_eq_none continues,
    if_neg (ne_quote_of_continuesName continues), if_neg noDigit, if_pos starts]

theorem munchInteger_of_longestRun (longest : LongestRun isDigit (c :: cs) after) :
    munchInteger c (cs ++ after) =
      ⟨c :: cs, after,
        if Nat.ofDigitChars 10 (c :: cs) 0 ≤ maxConstant then
          .ok (.integer (Nat.ofDigitChars 10 (c :: cs) 0))
        else .error (.integerOutOfRange (String.ofList (c :: cs)))⟩ := by
  simp only [munchInteger, longest.tail.takeWhile_eq, longest.tail.dropWhile_eq]

theorem munchWord_of_longestRun (longest : LongestRun continuesName (c :: cs) after) :
    munchWord c (cs ++ after) =
      ⟨c :: cs, after, .ok (.ofWord (String.ofList (c :: cs)))⟩ := by
  simp only [munchWord, longest.tail.takeWhile_eq, longest.tail.dropWhile_eq]

/-- The text of a string constant is a longest run of characters that are no double quotes. -/
theorem longestRun_text {text : List Char} (first : '"' ∉ text) (after : List Char)
    (ends : ∀ c ∈ after.head?, c = '"') : LongestRun (· ≠ '"') text after := by
  constructor
  case all =>
    intro c mem
    refine decide_eq_true ?_
    rintro rfl
    exact first mem
  case ends =>
    intro c mem
    obtain rfl := ends c mem
    rfl

end

/-- The item that stands at the front of a text is what the lexer cuts off. -/
theorem munch_of_reads {covered after : List Char} {outcome : Except LexCause Terminal}
    (reads : Reads covered after outcome) :
    ∃ c cs, covered = c :: cs ∧ munch c (cs ++ after) = ⟨covered, after, outcome⟩ := by
  cases reads with
  | symbol s => exact ⟨s.char, [], rfl, by simp only [munch, s.ofChar?_char, List.nil_append]⟩
  | @string text _ first =>
    have longest := longestRun_text first ('"' :: after) fun _ mem =>
      (Option.some.inj mem).symm
    refine ⟨_, _, rfl, ?_⟩
    rw [munch_quote, List.append_assoc, List.singleton_append]
    simp only [munchString, longest.takeWhile_eq, longest.dropWhile_eq, List.cons_append]
  | @openString text first =>
    have longest := longestRun_text first [] nofun
    refine ⟨_, _, rfl, ?_⟩
    rw [munch_quote]
    simp only [munchString, longest.takeWhile_eq, longest.dropWhile_eq]
  | @integer digits _ some longest small =>
    obtain ⟨c, cs, rfl⟩ := List.exists_cons_of_ne_nil some
    refine ⟨c, cs, rfl, ?_⟩
    rw [munch_of_isDigit (longest.all c (.head _)), munchInteger_of_longestRun longest,
      if_pos small]
  | @tooLarge digits _ some longest large =>
    obtain ⟨c, cs, rfl⟩ := List.exists_cons_of_ne_nil some
    refine ⟨c, cs, rfl, ?_⟩
    rw [munch_of_isDigit (longest.all c (.head _)), munchInteger_of_longestRun longest,
      if_neg (Nat.not_le.2 large)]
  | @keyword c cs _ k starts longest spelled =>
    refine ⟨c, cs, rfl, ?_⟩
    rw [munch_of_startsName starts, munchWord_of_longestRun longest, ofWord_keyword spelled]
  | @identifier c cs _ starts longest other =>
    refine ⟨c, cs, rfl, ?_⟩
    rw [munch_of_startsName starts, munchWord_of_longestRun longest, ofWord_identifier other]
  | @other c _ noSymbol noQuote noDigit noName =>
    have none : Symbol.ofChar? c = none := by
      cases found : Symbol.ofChar? c with
      | none => rfl
      | some s => exact absurd (Symbol.ofChar?_eq_some_iff.1 found) (noSymbol s)
    refine ⟨c, [], rfl, ?_⟩
    simp only [munch, none, if_neg noQuote, if_neg noDigit, if_neg noName, List.nil_append]

/-! ## Tilings -/

namespace Lexer

/-- Reading the next item again and again comes to these items and then to the end. -/
inductive Iterates : Lexer → List Item → Lexer → Prop
  | done {l m : Lexer} : l.next = (none, m) → Iterates l [] m
  | step {l m finish : Lexer} {item : Item} {items : List Item} : l.next = (some item, m) →
      Iterates m items finish → Iterates l (item :: items) finish

theorem exists_iterates_itemsFrom (before : List Item) (l : Lexer) :
    ∃ items, (itemsFrom before l).1 = before.reverse ++ items ∧
      Iterates l items (itemsFrom before l).2 := by
  fun_induction itemsFrom before l with
  | case1 before l m h => exact ⟨[], (List.append_nil _).symm, .done h⟩
  | case2 before l item m h ih =>
    obtain ⟨items, all, rest⟩ := ih
    rw [List.reverse_cons, List.append_assoc] at all
    exact ⟨item :: items, all, .step h rest⟩

/-- The items of a text are those that an iteration comes to, and the iteration ends. -/
theorem iterates_items (l : Lexer) : Iterates l l.items.1 l.items.2 := by
  obtain ⟨items, all, iterates⟩ := exists_iterates_itemsFrom [] l
  exact all ▸ iterates

theorem Iterates.unique {l m n : Lexer} {items others : List Item} (first : Iterates l items m)
    (second : Iterates l others n) : items = others := by
  induction first generalizing others with
  | done atEnd =>
    cases second with
    | done _ => rfl
    | step more _ => cases atEnd.symm.trans more
  | step more _ ih =>
    cases second with
    | done atEnd => cases atEnd.symm.trans more
    | step again rest =>
      cases more.symm.trans again
      rw [ih rest]

end Lexer

namespace Item

def span : Item → Span
  | .ok t => t.span
  | .error e => e.span

def line : Item → Nat
  | .ok t => t.line
  | .error e => e.line

/-- What the item is, apart from its place. -/
def outcome : Item → Except LexCause Terminal
  | .ok t => .ok t.terminal
  | .error e => .error e.cause

/-- The item stands in a text behind `before`: it is what `covered` makes in front of `after`, its
span has the bytes of `covered`, and its line is that of its first character. -/
structure Stands (item : Item) (before covered after : List Char) : Prop where
  reads : Reads covered after item.outcome
  start : item.span.start = (String.ofList before).utf8ByteSize
  stop : item.span.stop = (String.ofList (before ++ covered)).utf8ByteSize
  line : item.line = before.count '\n' + 1
  lexeme : ∀ t, item = .ok t → t.lexeme = String.ofList covered

end Item

/-- A text behind `before` is a gap, an item, a gap, an item and so on, and a gap at the end. No
item starts like a gap. -/
inductive Tiles : List Char → List Char → List Item → Prop
  | atEnd {before gap : List Char} : Gap gap [] → Tiles before gap []
  | item {before gap covered after : List Char} {item : Item} {items : List Item} :
      Gap gap (covered ++ after) → ¬StartsGap (covered ++ after) →
      item.Stands (before ++ gap) covered after →
      Tiles (before ++ gap ++ covered) after items →
      Tiles before (gap ++ (covered ++ after)) (item :: items)

theorem Position.offset_afterAll_start (cs : List Char) :
    (Position.start.afterAll cs).offset = (String.ofList cs).utf8ByteSize :=
  (Position.offset_afterAll _ _).trans (Nat.zero_add _)

/-- The line counts line feeds. -/
theorem Position.line_afterAll (p : Position) (cs : List Char) :
    (p.afterAll cs).line = cs.count '\n' + p.line := by
  induction cs generalizing p with
  | nil => exact (Nat.zero_add _).symm
  | cons c cs ih =>
    have first : p.afterAll (c :: cs) = (p.after c).afterAll cs := rfl
    rw [first, ih, List.count_cons]
    by_cases newline : c = '\n'
    · simp [Position.after, newline]
      omega
    · simp [Position.after, newline]

/-- Where an item stands, it is the item that the lexer makes of the characters. -/
theorem Item.stands_iff {item : Item} {before covered after : List Char}
    {outcome : Except LexCause Terminal} (reads : Reads covered after outcome) :
    item = Lexer.itemAt (.afterAll .start before) (.afterAll .start (before ++ covered)) covered
        outcome ↔
      item.Stands before covered after ∧ item.outcome = outcome := by
  constructor
  · rintro rfl
    have line := Position.line_afterAll .start before
    refine ⟨⟨?_, ?_, ?_, ?_, ?_⟩, ?_⟩
    all_goals cases outcome
    case refine_1.ok | refine_1.error => exact reads
    case refine_2.ok | refine_2.error => exact Position.offset_afterAll_start before
    case refine_3.ok | refine_3.error => exact Position.offset_afterAll_start (before ++ covered)
    case refine_4.ok | refine_4.error => exact line
    case refine_5.ok terminal =>
      rintro t same
      cases same
      rfl
    case refine_5.error cause => exact nofun
    case refine_6.ok | refine_6.error => rfl
  · rintro ⟨⟨-, start, stop, line, lexeme⟩, rfl⟩
    rw [← Position.offset_afterAll_start] at start stop
    have line' := line.trans (Position.line_afterAll .start before).symm
    cases item with
    | ok t =>
      obtain ⟨terminal, lexeme', ⟨_, _⟩, _⟩ := t
      have spelled := lexeme _ rfl
      simp only [span, Item.line] at start stop line'
      simp only at spelled
      subst start stop line' spelled
      rfl
    | error e =>
      obtain ⟨cause, ⟨_, _⟩, _⟩ := e
      simp only [span, Item.line] at start stop line'
      subst start stop line'
      rfl

namespace Lexer

section

variable {before gap after : List Char} {p : Position}

theorem next_gap_end (isGap : Gap gap []) : next ⟨gap, p⟩ = (none, ⟨[], p.afterAll gap⟩) := by
  have skipped := skipTrivia_gap (p := p) isGap nofun
  rw [List.append_nil] at skipped
  simp only [next, skip, skipped]

theorem next_gap {c : Char} {cs : List Char} (isGap : Gap gap (c :: cs))
    (ends : ¬StartsGap (c :: cs)) :
    next ⟨gap ++ c :: cs, p⟩ =
      (some (scan (p.afterAll gap) c cs).1, (scan (p.afterAll gap) c cs).2) := by
  simp only [next, skip, skipTrivia_gap isGap ends]

end

/-- What the lexer comes to tiles the text that it starts with. -/
theorem tiles_of_iterates {l finish : Lexer} {items : List Item} {before : List Char}
    (iterates : Iterates l items finish) (here : l.position = .afterAll .start before) :
    Tiles before l.rest items ∧ finish.rest = [] := by
  induction iterates generalizing before with
  | @done l m atEnd =>
    obtain ⟨rest, p⟩ := l
    obtain ⟨gap, after, rfl, isGap, ends⟩ := exists_gap rest
    cases after with
    | nil =>
      rw [List.append_nil] at atEnd ⊢
      rw [next_gap_end isGap] at atEnd
      cases atEnd
      exact ⟨.atEnd isGap, rfl⟩
    | cons c cs =>
      rw [next_gap isGap ends] at atEnd
      cases atEnd
  | @step l m finish item items more _ ih =>
    obtain ⟨rest, p⟩ := l
    obtain ⟨gap, after, rfl, isGap, ends⟩ := exists_gap rest
    obtain rfl : p = _ := here
    cases after with
    | nil =>
      rw [List.append_nil, next_gap_end isGap] at more
      cases more
    | cons c cs =>
      rw [next_gap isGap ends] at more
      have reads := reads_munch c cs
      have whole := Munch.covered_append_rest c cs
      simp only [scan, ← Position.afterAll_append] at more
      obtain ⟨made, rfl⟩ := Prod.mk.inj more
      obtain ⟨stands, -⟩ := (Item.stands_iff reads).1 (Option.some.inj made).symm
      obtain ⟨tiles, done⟩ := ih rfl
      rw [← whole] at isGap ends ⊢
      exact ⟨.item isGap ends stands tiles, done⟩

/-- The lexer comes to the items of every tiling. -/
theorem iterates_of_tiles {items : List Item} {before rest : List Char}
    (tiles : Tiles before rest items) :
    ∃ finish, Iterates ⟨rest, .afterAll .start before⟩ items finish := by
  induction tiles with
  | atEnd isGap => exact ⟨_, .done (next_gap_end isGap)⟩
  | @item before gap covered after item items isGap ends stands _ ih =>
    obtain ⟨finish, others⟩ := ih
    obtain ⟨c, cs, rfl, munched⟩ := munch_of_reads stands.reads
    refine ⟨finish, .step ?_ others⟩
    have made := (Item.stands_iff stands.reads).2 ⟨stands, rfl⟩
    rw [List.cons_append] at isGap ends ⊢
    rw [next_gap isGap ends]
    simp only [scan, munched, ← Position.afterAll_append]
    rw [← made]

end Lexer

/-- The items of a source are those of its only tiling. -/
theorem tiles_iff_items_eq {source : String} {items : List Item} :
    Tiles [] source.toList items ↔ (Lexer.ofString source).items.1 = items := by
  constructor
  · intro tiles
    obtain ⟨finish, iterates⟩ := Lexer.iterates_of_tiles tiles
    exact (Lexer.iterates_items _).unique iterates
  · rintro rfl
    exact (Lexer.tiles_of_iterates (Lexer.iterates_items (.ofString source)) rfl).1

/-! ## Spans -/

theorem Reads.covered_ne_nil {covered after : List Char} {outcome : Except LexCause Terminal}
    (reads : Reads covered after outcome) : covered ≠ [] := by
  obtain ⟨c, cs, rfl, -⟩ := munch_of_reads reads
  exact List.cons_ne_nil c cs

theorem utf8ByteSize_ofList_append (xs ys : List Char) :
    (String.ofList (xs ++ ys)).utf8ByteSize =
      (String.ofList xs).utf8ByteSize + (String.ofList ys).utf8ByteSize := by
  rw [String.ofList_append, String.utf8ByteSize_append]

section

variable {source : String} {before rest : List Char} {items : List Item} {item : Item}

/-- An item of a tiling stands in the text. -/
theorem Tiles.exists_stands (tiles : Tiles before rest items) (mem : item ∈ items) :
    ∃ inner covered after, rest = inner ++ covered ++ after ∧
      item.Stands (before ++ inner) covered after := by
  induction tiles with
  | atEnd _ => cases mem
  | @item before gap covered after other items _ _ stands _ ih =>
    rcases List.mem_cons.1 mem with rfl | mem
    · exact ⟨gap, covered, after, (List.append_assoc ..).symm, stands⟩
    · obtain ⟨inner, covered', after', rfl, stands'⟩ := ih mem
      refine ⟨gap ++ covered ++ inner, covered', after', by simp, ?_⟩
      rwa [List.append_assoc before, List.append_assoc before] at stands'

/-- The next item does not start before an item stops. -/
theorem Tiles.pairwise (tiles : Tiles before rest items) :
    items.Pairwise fun a b => a.span.stop ≤ b.span.start := by
  induction tiles with
  | atEnd _ => exact .nil
  | @item before gap covered after item items _ _ stands others ih =>
    refine .cons (fun other mem => ?_) ih
    obtain ⟨inner, covered', after', -, stands'⟩ := others.exists_stands mem
    rw [stands.stop, stands'.start, utf8ByteSize_ofList_append _ inner]
    exact Nat.le_add_right _ _

theorem Tiles.start_lt_stop (tiles : Tiles before rest items) (mem : item ∈ items) :
    item.span.start < item.span.stop := by
  obtain ⟨inner, covered, after, -, stands⟩ := tiles.exists_stands mem
  obtain ⟨c, cs, rfl⟩ := List.exists_cons_of_ne_nil stands.reads.covered_ne_nil
  have wide := c.utf8Size_pos
  rw [stands.start, stands.stop, utf8ByteSize_ofList_append _ (c :: cs), utf8ByteSize_ofList_cons]
  omega

/-- An offset behind some characters of a text lies between two characters of it. -/
theorem isValid_of_append {front behind : List Char} (all : source.toList = front ++ behind) :
    String.Pos.Raw.IsValid source ⟨(String.ofList front).utf8ByteSize⟩ := by
  refine String.Pos.Raw.isValid_iff_exists_append.2
    ⟨String.ofList front, String.ofList behind, ?_, rfl⟩
  rw [← String.ofList_append, ← all, String.ofList_toList]

end

/-- The items of a tiling and their spans: they are not empty and follow one another, and their
ends lie between two characters of the source. -/
structure Tiling (source : String) (items : List Item) : Prop where
  tiles : Tiles [] source.toList items
  nonempty : ∀ item ∈ items, item.span.start < item.span.stop
  ordered : items.Pairwise fun a b => a.span.stop ≤ b.span.start
  between : ∀ item ∈ items, String.Pos.Raw.IsValid source ⟨item.span.start⟩ ∧
    String.Pos.Raw.IsValid source ⟨item.span.stop⟩
  inside : ∀ item ∈ items, item.span.stop ≤ source.utf8ByteSize

theorem Tiles.tiling {source : String} {items : List Item}
    (tiles : Tiles [] source.toList items) : Tiling source items := by
  have between {item : Item} (mem : item ∈ items) :
      String.Pos.Raw.IsValid source ⟨item.span.start⟩ ∧
        String.Pos.Raw.IsValid source ⟨item.span.stop⟩ := by
    obtain ⟨inner, covered, after, all, stands⟩ := tiles.exists_stands mem
    rw [stands.start, stands.stop]
    exact ⟨isValid_of_append (all.trans (List.append_assoc ..)), isValid_of_append all⟩
  refine ⟨tiles, fun _ => tiles.start_lt_stop, tiles.pairwise, fun _ => between, fun item mem => ?_⟩
  exact (between mem).2.le_rawEndPos

/-- Iterating over a source ends, and its items tile the source: each stands where it starts by its
first character and is as long as it can be, and between them there are only blanks and comments.
No other items do so. -/
theorem items_tile_source (source : String) :
    ∃ items finish, (Lexer.ofString source).items = (items, finish) ∧
      (Lexer.ofString source).Iterates items finish ∧ finish.rest = [] ∧ Tiling source items ∧
      ∀ others, Tiles [] source.toList others → others = items := by
  have iterates := Lexer.iterates_items (.ofString source)
  obtain ⟨tiles, done⟩ :=
    Lexer.tiles_of_iterates iterates (show _ = Position.start.afterAll [] from rfl)
  refine ⟨_, _, rfl, iterates, done, tiles.tiling, fun others tiles' => ?_⟩
  exact (tiles_iff_items_eq.1 tiles').symm

/-- The mark `/*/` opens a comment and does not close it. -/
example : (Lexer.ofString "/*/ a */ b").items.1 = [.ok ⟨.identifier "b", "b", ⟨9, 10⟩, 1⟩] := by
  decide +kernel

end JackToVm
