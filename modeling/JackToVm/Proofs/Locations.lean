import JackToVm.CommandLine
import JackToVm.Proofs.Calls
import JackToVm.Proofs.Sinks
import JackToVm.Proofs.TreeLog
import JackToVm.Proofs.Violations

/-!
# Where errors are reported

The line of an error is counted while the source is read. Its column is found later, from the offset
of a token alone: by the line feed in front of it. The two fit together, whatever stands in the
source before the token: comments, strings of several lines, characters of several bytes.

Results.
1. The line that starts behind the last line feed before a place is the one that is counted there
   (`lineStartFrom_append`), and it does not start behind the place (`lineOffset_le`).
2. A pass that stops blames a token of the text, or the end of a text that is consumed, or the first
   lexical error (`Lexer.Reading.Stops.atEnd`, `Lexer.Reading.Stops.lexical`).
3. So every error of a compilation is found in the source where it is reported
   (`reported_of_compile_eq_error`).
-/

namespace JackToVm

/-! ## Lines -/

/-- The number of bytes before a line of a text; lines are counted from 1. -/
def lineOffset (line : Nat) : List Char → Nat
  | [] => 0
  | c :: cs =>
    if line ≤ 1 then 0
    else c.utf8Size + lineOffset (if c = '\n' then line - 1 else line) cs

section

variable (before after : List Char)

theorem lineOffset_one (cs : List Char) : lineOffset 1 cs = 0 := by
  cases cs <;> rfl

theorem lineOffset_newline (line : Nat) (cs : List Char) :
    lineOffset (line + 2) ('\n' :: cs) = '\n'.utf8Size + lineOffset (line + 1) cs := by
  simp [lineOffset]

theorem lineOffset_of_ne {c : Char} (other : c ≠ '\n') (line : Nat) (cs : List Char) :
    lineOffset (line + 2) (c :: cs) = c.utf8Size + lineOffset (line + 2) cs := by
  simp [lineOffset, other]

/-- The line of a place does not start behind it. -/
theorem lineOffset_le :
    lineOffset (before.count '\n' + 1) (before ++ after) ≤ (String.ofList before).utf8ByteSize := by
  induction before with
  | nil => exact (lineOffset_one after).le.trans (Nat.zero_le _)
  | cons c cs ih =>
    rw [utf8ByteSize_ofList_cons, List.cons_append]
    by_cases newline : c = '\n'
    · subst newline
      rw [List.count_cons_self, lineOffset_newline]
      exact Nat.add_le_add_left ih _
    · rw [List.count_cons_of_ne newline]
      cases lines : cs.count '\n' with
      | zero => exact (lineOffset_one _).le.trans (Nat.zero_le _)
      | succ line =>
        rw [lines] at ih
        rw [lineOffset_of_ne newline]
        exact Nat.add_le_add_left ih _

/-- Looking for the last line feed before a place finds the start of the line that is counted
there. The text starts at `here`, in a line that starts at `start`. -/
theorem lineStartFrom_append (here start : Nat) :
    lineStartFrom (here + (String.ofList before).utf8ByteSize) here start (before ++ after) =
      if before.count '\n' = 0 then start
      else here + lineOffset (before.count '\n' + 1) (before ++ after) := by
  induction before generalizing here start with
  | nil => cases after <;> simp [lineStartFrom]
  | cons c cs ih =>
    have wide := c.utf8Size_pos
    rw [utf8ByteSize_ofList_cons, List.cons_append, lineStartFrom, if_neg (by omega),
      ← Nat.add_assoc, ih]
    -- the start that is carried on is the right one as long as no line feed follows
    by_cases newline : c = '\n'
    · subst newline
      rw [if_pos rfl, List.count_cons_self, if_neg (Nat.succ_ne_zero _), lineOffset_newline,
        ← Nat.add_assoc]
      split
      · next first => rw [first, lineOffset_one, Nat.add_zero]
      · rfl
    · rw [if_neg newline, List.count_cons_of_ne newline]
      cases lines : cs.count '\n' with
      | zero => rfl
      | succ line =>
        rw [if_neg (Nat.succ_ne_zero _), if_neg (Nat.succ_ne_zero _), lineOffset_of_ne newline,
          Nat.add_assoc]

/-- The column and the line of a place lead back to it. -/
theorem lineOffset_add_column {source : String} (all : source.toList = before ++ after) :
    lineStartFrom (String.ofList before).utf8ByteSize 0 0 source.toList ≤
        (String.ofList before).utf8ByteSize ∧
      lineOffset (before.count '\n' + 1) source.toList +
          (column source (String.ofList before).utf8ByteSize - 1) =
        (String.ofList before).utf8ByteSize := by
  have start : lineStartFrom (String.ofList before).utf8ByteSize 0 0 source.toList =
      lineOffset (before.count '\n' + 1) source.toList := by
    have found := lineStartFrom_append before after 0 0
    rw [Nat.zero_add, Nat.zero_add] at found
    rw [all, found]
    split
    · next first => rw [first, lineOffset_one]
    · rfl
  have inside := lineOffset_le before after
  rw [← all] at inside
  rw [column, start, Nat.add_sub_cancel]
  exact ⟨inside, Nat.add_sub_cancel' inside⟩

end

/-! ## Tokens and ends to blame -/

namespace Lexer

/-- Reading without an error consumes the text. -/
theorem rest_finish_readFrom {before : List Token} {l : Lexer}
    (read : (readFrom before l).failure = none) : (readFrom before l).finish.rest = [] := by
  fun_induction readFrom before l with
  | case1 before l m atEnd => exact (skip_of_next_none atEnd).2
  | case2 before l e m _ => cases read
  | case3 before l t m _ ih => exact ih read

theorem tokens_snd (l : Lexer) : l.tokens.2 = l.read.finish := by
  simp only [tokens]
  split <;> rfl

/-- Reading without an error ends on the last line of the text. -/
theorem line_finish_read {source : String} (read : (ofString source).read.failure = none) :
    (ofString source).read.finish.line = source.toList.count '\n' + 1 := by
  have moved := (tokens_of_iterates (iterates_items (ofString source))).2.2
  rw [tokens_snd] at moved
  obtain ⟨consumed, all, line⟩ := moved.line_eq
  rw [Lexer.read, rest_finish_readFrom read, List.append_nil] at all
  rw [line, all]

namespace Reading

variable {r : Reading} {es : List Event} {failure : Failure}

theorem line_locate {t : Token} (blamed : (r.locate failure).token = some t) :
    (r.locate failure).line = t.line := by
  unfold locate at blamed ⊢
  split at blamed
  · cases blamed
    rfl
  · cases blamed

theorem line_locate_of_none (blamed : (r.locate failure).token = none) :
    (r.locate failure).line = r.lastLine := by
  unfold locate at blamed ⊢
  split at blamed
  · cases blamed
  · rfl

/-- A text that is read without an error ends on its last line. -/
theorem lastLine_of_failure_eq_none {source : String}
    (read : (ofString source).read.failure = none) :
    (ofString source).read.lastLine = source.toList.count '\n' + 1 := by
  rw [lastLine, read]
  exact line_finish_read read

/-- What a goal refuses is a token of the text that violates a rule for names and constants. -/
theorem Reaches.exists_violation {g : Goal} {k : List Goal} {ahead : List Terminal}
    {site blamed : Nat} {env : Env} {fault : Fault}
    (reaches : r.Reaches es ⟨g :: k, ahead, site, env⟩)
    (readable : ∀ t ∈ r.tokens.map (·.terminal), t.Readable)
    (act : g.action env site ahead.head? = .refuse fault blamed) :
    blamed < r.tokens.length ∧ ∃ s next t, t.Readable ∧ Scan.Violates s next t fault := by
  obtain ⟨before, t, after, parts, rfl, violates, -⟩ :=
    (reaches.reached.watches readable (Machine.watches_start _)).violates readable act
  have lengths := congrArg List.length parts
  rw [List.length_map, List.length_append, List.length_cons] at lengths
  exact ⟨by omega, _, _, t, readable t (by simp [parts]), violates⟩

/-- A pass that blames no token, and no lexical error, has consumed the text: what a goal refuses is
a token, so it is a goal for the next terminal that fails. -/
theorem Stops.atEnd (stops : r.Stops es failure)
    (readable : ∀ t ∈ r.tokens.map (·.terminal), t.Readable)
    (blamed : r.tokens[failure.site]? = none) (other : ∀ cause, failure.fault ≠ .lexical cause) :
    r.failure = none ∧ terminalsOf es = r.tokens.map (·.terminal) := by
  cases stops with
  | unread _ _ => exact absurd rfl (other _)
  | @stuck es last m _ reaches fails =>
    obtain ⟨tokens, count⟩ := reaches.terminals
    have quiet := fails.quiet reaches.quiet
    rw [List.getElem?_eq_none_iff] at blamed
    have lengths := congrArg List.length tokens
    rw [List.length_map] at lengths
    cases fails with
    | lacks _ _ => exact absurd rfl (other _)
    | refuses act =>
      exact absurd blamed (Nat.not_le.2 (reaches.exists_violation readable act).1)
    | @rejects g k ahead site env what act =>
      simp only [List.length_append] at tokens count lengths blamed
      obtain rfl : ahead = [] := List.eq_nil_of_length_eq_zero (by omega)
      refine ⟨reaches.failure_eq_none rfl, ?_⟩
      rw [terminalsOf_append, quiet, List.append_nil, tokens, List.append_nil]

end Reading

end Lexer

/-! ## Reports -/

/-- An error with a token points at it.

* The token is an item of the source, and it is spelled as the source is in its span.
* The line of the error is the one that the token starts on.
* Its column is found without going below the start of that line, and leads back to the token.
* The report names the line and the column and quotes the spelling. -/
structure PointsAt (source : String) (t : Token) (e : CompileError) : Prop where
  item : .ok t ∈ (Lexer.ofString source).items.1
  spelled : ∃ before after, source = before ++ t.lexeme ++ after ∧
    before.utf8ByteSize = t.span.start ∧ (before ++ t.lexeme).utf8ByteSize = t.span.stop ∧
    e.line = before.toList.count '\n' + 1
  lineStart_le : lineStartFrom t.span.start 0 0 source.toList ≤ t.span.start
  one_le_column : 1 ≤ column source t.span.start
  leadsBack : lineOffset e.line source.toList + (column source t.span.start - 1) = t.span.start
  location : ∀ path, location path source (.parse e) =
    path ++ ":" ++ toString e.line ++ ":" ++ toString (column source t.span.start) ++
      " (at " ++ quoteText t.lexeme ++ ")"

/-- Where an error of a compilation is reported.

* With a token it points at the token.
* Without one, and if it is no lexical error, all tokens of the source are consumed, and it is on
  the last line.
* A lexical error is the first of the source, on the line on which its span starts.
* The program reports it so if the source is the only one, and whatever has become of the files if
  the source is still the same. -/
structure Reported (source : String) (e : CompileError) : Prop where
  pointsAt : ∀ t, e.token = some t → PointsAt source t e
  atEnd : e.token = none → (∀ cause, e.fault ≠ .lexical cause) →
    ∃ tokens : List Token, (Lexer.ofString source).items.1 = tokens.map .ok ∧
      terminalsOf (events source).1.toList = tokens.map (·.terminal) ∧
      e.line = source.toList.count '\n' + 1
  lexical : ∀ cause, e.fault = .lexical cause → e.token = none ∧
    ∃ (tokens : List Token) (error : LexError) (rest : List Item) (before after : String),
      (Lexer.ofString source).items.1 = tokens.map .ok ++ .error error :: rest ∧
      error.cause = cause ∧ source = before ++ after ∧
      before.utf8ByteSize = error.span.start ∧ e.line = before.toList.count '\n' + 1
  report : ∀ files path, files.read? path = some source →
    report files path (.parse e) =
      "Error " ++ location path source (.parse e) ++ ":: " ++ e.message ++ "\n"
  run : ∀ files path verbosity tree, sources files path = .ok [path] →
    files.read? path = some source →
    (run files ⟨path, verbosity, false, tree⟩).errors =
      "Error " ++ location path source (.parse e) ++ ":: " ++ e.message ++ "\n"

section

variable {source : String} {e : CompileError} {item : Item}

/-- An item starts on the line of its span. -/
theorem exists_before_of_mem_items (mem : item ∈ (Lexer.ofString source).items.1) :
    ∃ before covered after, source.toList = before ++ covered ++ after ∧
      item.Stands before covered after :=
  (tiles_iff_items_eq.2 rfl).exists_stands mem

/-- The first error of a source is on the line on which its span starts. -/
theorem exists_items_of_lexical {cause : LexCause}
    (failed : (Lexer.ofString source).read.failure.map (·.cause) = some cause) :
    ∃ (tokens : List Token) (error : LexError) (rest : List Item) (before after : String),
      (Lexer.ofString source).items.1 = tokens.map .ok ++ .error error :: rest ∧
      error.cause = cause ∧ source = before ++ after ∧
      before.utf8ByteSize = error.span.start ∧
      (Lexer.ofString source).read.lastLine = before.toList.count '\n' + 1 := by
  obtain ⟨error, rest, first, same, all⟩ := Lexer.exists_items_of_failure failed
  have mem : (.error error : Item) ∈ (Lexer.ofString source).items.1 := by simp [all]
  obtain ⟨before, covered, after, text, stands⟩ := exists_before_of_mem_items mem
  refine ⟨_, error, rest, String.ofList before, String.ofList (covered ++ after), all, same, ?_,
    stands.start.symm, ?_⟩
  · rw [← String.ofList_append, ← List.append_assoc, ← text, String.ofList_toList]
  · rw [Lexer.Reading.lastLine, first, String.toList_ofList]
    exact stands.line

theorem pointsAt_of_mem_items {t : Token} (mem : .ok t ∈ (Lexer.ofString source).items.1)
    (blamed : e.token = some t) (line : e.line = t.line) : PointsAt source t e := by
  obtain ⟨before, covered, after, all, stands⟩ := exists_before_of_mem_items mem
  have start : t.span.start = _ := stands.start
  have counted : e.line = before.count '\n' + 1 := line.trans stands.line
  obtain ⟨inside, back⟩ := lineOffset_add_column before (covered ++ after)
    (all.trans (List.append_assoc ..))
  rw [← start, ← counted] at back
  rw [← start] at inside
  constructor
  case item => exact mem
  case spelled =>
    have lexeme := stands.lexeme t rfl
    refine ⟨String.ofList before, String.ofList after, ?_, start.symm, ?_, ?_⟩
    · rw [lexeme, ← String.ofList_append, ← String.ofList_append, ← all, String.ofList_toList]
    · rw [lexeme, ← String.ofList_append]
      exact stands.stop.symm
    · rwa [String.toList_ofList]
  case lineStart_le => exact inside
  case one_le_column => exact Nat.le_add_left 1 _
  case leadsBack => exact back
  case location =>
    intro path
    obtain ⟨fault, token, line'⟩ := e
    obtain rfl : token = some t := blamed
    rfl

/-- Where the first output fails nothing is written. -/
theorem makeAll_of_render_error {files : FileTree} {path : String} {output : Output}
    {failure : OutputError} (content : files.read? path = some source)
    (failed : output.render source = .error failure) (outputs : List Output) :
    makeAll files path (output :: outputs) = (files, output.log source, some failure) := by
  simp only [makeAll, Output.make, content, failed]

/-- A run on one source reports why the first output fails. -/
theorem errors_run {files : FileTree} {o : Options} {output : Output} {outputs : List Output}
    {failure : OutputError} (only : sources files o.path = .ok [o.path])
    (content : files.read? o.path = some source) (asked : o.outputs = output :: outputs)
    (failed : output.render source = .error failure) :
    (run files o).errors = report files o.path failure := by
  have made := makeAll_of_render_error content failed outputs
  simp only [run, only, List.foldl_cons, List.foldl_nil, Progress.add, asked, made,
    String.empty_append]

/-- The error of a compilation is that of its log. -/
theorem exists_log_of_compile_eq_error (failed : compile source = .error e) :
    ∃ log failure, events source = (log, some e) ∧
      (Lexer.ofString source).read.Stops log.toList failure ∧
      e = (Lexer.ofString source).read.locate failure := by
  obtain ⟨log, outcome, logged⟩ : ∃ log outcome, events source = (log, outcome) := ⟨_, _, rfl⟩
  rw [compile_of_logged logged] at failed
  rcases finishes_or_stops_of_events logged with ⟨-, rfl⟩ | ⟨failure, stops, rfl⟩
  · cases failed
  · cases failed
    exact ⟨log, failure, logged, stops, rfl⟩

/-- The tree of a source that does not compile fails like its code, so a run that is asked for them
reports the error of the compilation. -/
theorem errors_run_of_compile_eq_error {files : FileTree} {path : String} {verbosity : Nat}
    (failed : compile source = .error e) (only : sources files path = .ok [path])
    (content : files.read? path = some source) (tree : Bool) :
    (run files ⟨path, verbosity, false, tree⟩).errors = report files path (.parse e) := by
  cases tree with
  | false =>
    have coded : Output.code.render source = .error (.parse e) := by
      rw [Output.render, failed]
      rfl
    exact errors_run only content rfl coded
  | true =>
    obtain ⟨log, failure, logged, -⟩ := exists_log_of_compile_eq_error failed
    have drawn : Output.tree.render source = .error (.parse e) := by
      rw [Output.render, treeXml_of_logged logged]
      rfl
    exact errors_run only content rfl drawn

/-- The token of an error is an item of the source. -/
theorem mem_items_of_compile_eq_error {t : Token} (failed : compile source = .error e)
    (blamed : e.token = some t) : .ok t ∈ (Lexer.ofString source).items.1 := by
  obtain ⟨_, failure, -, rfl⟩ := exists_stops_of_compile_eq_error failed
  rw [Lexer.Reading.token_locate] at blamed
  exact Lexer.mem_items_of_mem_read (List.mem_of_getElem? blamed)

/-- Every error of a compilation is found in the source where it is reported. -/
theorem reported_of_compile_eq_error (failed : compile source = .error e) : Reported source e := by
  have report (files : FileTree) (path : String) (content : files.read? path = some source) :
      report files path (.parse e) =
        "Error " ++ location path source (.parse e) ++ ":: " ++ e.message ++ "\n" := by
    rw [JackToVm.report, content]
    rfl
  obtain ⟨log, failure, logged, stops, located⟩ := exists_log_of_compile_eq_error failed
  have token : e.token = (Lexer.ofString source).read.tokens[failure.site]? := by
    rw [located, Lexer.Reading.token_locate]
  have fault : e.fault = failure.fault := by
    rw [located, Lexer.Reading.fault_locate]
  constructor
  case pointsAt =>
    intro t blamed
    refine pointsAt_of_mem_items (mem_items_of_compile_eq_error failed blamed) blamed ?_
    rw [located] at blamed ⊢
    exact Lexer.Reading.line_locate blamed
  case atEnd =>
    intro none other
    rw [fault] at other
    obtain ⟨read, consumed⟩ := stops.atEnd (fun _ => Lexer.readable_of_mem_read)
      (token.symm.trans none) other
    refine ⟨_, Lexer.items_eq_map_ok_iff.2 ⟨read, rfl⟩, ?_, ?_⟩
    · rwa [logged]
    · rw [located] at none ⊢
      rw [Lexer.Reading.line_locate_of_none none]
      exact Lexer.Reading.lastLine_of_failure_eq_none read
  case lexical =>
    intro cause isLexical
    obtain ⟨fault', site⟩ := failure
    obtain rfl : fault' = .lexical cause := fault.symm.trans isLexical
    obtain ⟨rfl, failed'⟩ := stops.lexical
    rw [List.getElem?_eq_none (Nat.le_refl _)] at token
    have lastLine : e.line = (Lexer.ofString source).read.lastLine := by
      rw [located] at token ⊢
      exact Lexer.Reading.line_locate_of_none token
    rw [lastLine]
    exact ⟨token, exists_items_of_lexical failed'⟩
  case report => exact report
  case run =>
    intro files path verbosity tree only content
    rw [← report files path content]
    exact errors_run_of_compile_eq_error failed only content tree

end

/-- A comment and a string of two lines and a character of two bytes stand before the error. -/
def strayPlus : String :=
  "/* one\n */ class A \x7b function void f() \x7b\n do g(\"ü\n\"); ++ \x7d \x7d"

theorem reported_of_strayPlus :
    Reported strayPlus
        ⟨.expected (.symbol .rightBrace), some ⟨.symbol .plus, "+", ⟨55, 56⟩, 4⟩, 4⟩ ∧
      column strayPlus 55 = 5 ∧ lineOffset 4 strayPlus.toList = 51 := by
  have failed : compile strayPlus = .error
      ⟨.expected (.symbol .rightBrace), some ⟨.symbol .plus, "+", ⟨55, 56⟩, 4⟩, 4⟩ := by
    decide +kernel
  exact ⟨reported_of_compile_eq_error failed, by decide +kernel, by decide +kernel⟩

end JackToVm
