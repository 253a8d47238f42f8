import JackToVm.Proofs.Characters
import JackToVm.Proofs.Markup
import JackToVm.Proofs.TreeLog

/-!
# Reading XML back

No angle bracket is left in a text that is written in XML. So an opening one in a document starts a
tag, and the piece from there to the next one is the tag and what is behind it: for an element its
text between two spaces, for a node the end of the line. Line breaks and spaces in the text of an
element are part of it, and they are kept.

Results.
1. A text is read back (`unescapeXml_escapeXml`).
2. The calls that wrote a row of trees are read back from its lines (`Markup.callsOfXml_xml`), and
   so are the row and the terminals in it (`forestOfXml_xml`, `terminalsOfXml_xml`).
3. The terminals of a document of tokens are read back (`terminalsOfXml_tokensDocument`).
4. Sources with the same XML have the same terminals (`xml_is_lossless`).
-/

namespace JackToVm

/-! ## Texts -/

/-- The characters that are written in XML. An ampersand that starts no entity stands for itself. -/
def unescape : List Char → List Char
  | '&' :: 'l' :: 't' :: ';' :: rest => '<' :: unescape rest
  | '&' :: 'g' :: 't' :: ';' :: rest => '>' :: unescape rest
  | '&' :: 'a' :: 'm' :: 'p' :: ';' :: rest => '&' :: unescape rest
  | '&' :: 'q' :: 'u' :: 'o' :: 't' :: ';' :: rest => '"' :: unescape rest
  | c :: rest => c :: unescape rest
  | [] => []

def unescapeXml (text : String) : String :=
  String.ofList (unescape text.toList)

theorem unescape_cons {c : Char} (plain : c ≠ '&') (rest : List Char) :
    unescape (c :: rest) = c :: unescape rest := by
  rw [unescape]
  all_goals
    rintro _ rfl
    exact absurd rfl plain

theorem unescape_escapeXmlChar (c : Char) (rest : List Char) :
    unescape (escapeXmlChar c ++ rest) = c :: unescape rest := by
  unfold escapeXmlChar
  split
  · next less => subst less; rfl
  split
  · next greater => subst greater; rfl
  split
  · next ampersand => subst ampersand; rfl
  split
  · next quote => subst quote; rfl
  · next plain _ => exact unescape_cons plain rest

theorem unescape_flatMap_escapeXmlChar (text : List Char) :
    unescape (text.flatMap escapeXmlChar) = text := by
  induction text with
  | nil => rfl
  | cons c text ih => rw [List.flatMap_cons, unescape_escapeXmlChar, ih]

/-- A text is read back from what is written for it. -/
theorem unescapeXml_escapeXml (text : String) : unescapeXml (escapeXml text) = text := by
  simp [unescapeXml, escapeXml, unescape_flatMap_escapeXmlChar]

theorem not_mem_escapeXmlChar (c : Char) : '<' ∉ escapeXmlChar c := by
  unfold escapeXmlChar
  split_ifs with less
  case neg => simpa using Ne.symm less
  all_goals decide

/-- No opening angle bracket is left in a text. -/
theorem not_mem_escapeXml (text : String) : '<' ∉ (escapeXml text).toList := by
  rw [escapeXml, String.toList_ofList, List.mem_flatMap]
  rintro ⟨c, -, mem⟩
  exact not_mem_escapeXmlChar c mem

/-! ## Tags -/

def TerminalKind.ofTag? (tag : String) : Option TerminalKind :=
  [keyword, symbol, identifier, integer, string].find? (·.tag = tag)

def Node.ofName? (name : String) : Option Node :=
  all.find? (·.name = name)

/-- A text with no angle bracket can stand in a tag. -/
def PlainTag (tag : List Char) : Prop :=
  '<' ∉ tag ∧ '>' ∉ tag

theorem Node.plainTag (n : Node) : PlainTag n.name.toList := by
  cases n <;> exact ⟨by decide, by decide⟩

theorem TerminalKind.plainTag (kind : TerminalKind) : PlainTag kind.tag.toList := by
  cases kind <;> exact ⟨by decide, by decide⟩

theorem PlainTag.slash {tag : List Char} (plain : PlainTag tag) : PlainTag ('/' :: tag) := by
  simpa [PlainTag] using plain

/-- The call that wrote a tag with some text behind it. The tag behind the text of an element was
written by no call of its own, and neither were those around a document of tokens. -/
def TreeCall.ofTag? (tag text : List Char) : Option TreeCall :=
  match TerminalKind.ofTag? (String.ofList tag) with
  | some kind => some (.element kind (unescapeXml (String.ofList text.tail.dropLast)))
  | none =>
    match tag with
    | '/' :: name => (Node.ofName? (String.ofList name)).map .closed
    | name => (Node.ofName? (String.ofList name)).map .opened

/-- The call that wrote a piece of a document, which goes on behind the tag. -/
def TreeCall.ofPiece? (piece : List Char) : Option TreeCall :=
  ofTag? (piece.takeWhile (· ≠ '>')) (piece.dropWhile (· ≠ '>')).tail

theorem TreeCall.ofPiece?_append {tag : List Char} (plain : PlainTag tag) (text : List Char) :
    ofPiece? (tag ++ '>' :: text) = ofTag? tag text := by
  have before : ∀ c ∈ tag, decide (c ≠ '>') = true := fun c mem =>
    decide_eq_true (ne_of_mem_of_not_mem mem plain.2)
  rw [ofPiece?, List.takeWhile_append_of_pos before, List.dropWhile_append_of_pos before]
  simp

theorem TerminalKind.ofTag?_tag (kind : TerminalKind) : ofTag? kind.tag = some kind := by
  cases kind <;> decide

theorem TreeCall.ofTag?_opened (n : Node) (text : List Char) :
    ofTag? n.name.toList text = some (.opened n) := by
  cases n <;> rfl

theorem TreeCall.ofTag?_closed (n : Node) (text : List Char) :
    ofTag? ('/' :: n.name.toList) text = some (.closed n) := by
  cases n <;> rfl

theorem TreeCall.ofTag?_element (kind : TerminalKind) (text : String) :
    ofTag? kind.tag.toList (' ' :: (escapeXml text).toList ++ [' ']) =
      some (.element kind text) := by
  simp [ofTag?, TerminalKind.ofTag?_tag, unescapeXml_escapeXml]

theorem TreeCall.ofTag?_endOfElement (kind : TerminalKind) (text : List Char) :
    ofTag? ('/' :: kind.tag.toList) text = none := by
  cases kind <;> rfl

/-! ## Documents -/

/-- The calls that wrote a document: each opening angle bracket starts a piece. -/
def callsOfChars : List Char → List TreeCall
  | [] => []
  | c :: rest =>
    if c = '<' then (TreeCall.ofPiece? (rest.takeWhile (· ≠ '<'))).toList ++ callsOfChars rest
    else callsOfChars rest

def callsOfXml (xml : String) : List TreeCall :=
  callsOfChars xml.toList

theorem callsOfChars_append {text : List Char} (plain : '<' ∉ text) (rest : List Char) :
    callsOfChars (text ++ rest) = callsOfChars rest := by
  induction text with
  | nil => rfl
  | cons c text ih =>
    obtain ⟨other, others⟩ := List.ne_and_not_mem_of_not_mem_cons plain
    rw [List.cons_append, callsOfChars, if_neg (Ne.symm other), ih others]

/-- A tag with some text behind it is read, and then what follows the text. -/
theorem callsOfChars_tag {tag text : List Char} (plain : PlainTag tag)
    (plain' : '<' ∉ text) (rest : List Char) :
    callsOfChars ('<' :: tag ++ '>' :: text ++ rest) =
      (TreeCall.ofTag? tag (text ++ rest.takeWhile (· ≠ '<'))).toList ++ callsOfChars rest := by
  have piece : '<' ∉ tag ++ '>' :: text := by simp [plain.1, plain']
  have before : ∀ c ∈ tag ++ '>' :: text, decide (c ≠ '<') = true := fun c mem =>
    decide_eq_true (ne_of_mem_of_not_mem mem piece)
  have whole : '<' :: tag ++ '>' :: text ++ rest = '<' :: ((tag ++ '>' :: text) ++ rest) := by
    simp
  rw [whole, callsOfChars, if_pos rfl, callsOfChars_append piece,
    List.takeWhile_append_of_pos before, List.append_assoc, List.cons_append,
    TreeCall.ofPiece?_append plain]

/-! ## Lines -/

section

variable (depth : Nat) (rest : List Char)

theorem not_mem_replicate_space (n : Nat) : '<' ∉ List.replicate n ' ' := by
  simp

theorem callsOfChars_opened (n : Node) :
    callsOfChars ((TreeText.indented depth (openTag n.name)).toList ++ rest) =
      .opened n :: callsOfChars rest := by
  have line : (TreeText.indented depth (openTag n.name)).toList ++ rest =
      List.replicate (2 * depth) ' ' ++ ('<' :: n.name.toList ++ '>' :: ['\n'] ++ rest) := by
    simp [TreeText.indented, openTag]
  rw [line, callsOfChars_append (not_mem_replicate_space _),
    callsOfChars_tag n.plainTag (by decide), TreeCall.ofTag?_opened]
  rfl

theorem callsOfChars_closed (n : Node) :
    callsOfChars ((TreeText.indented depth (closeTag n.name)).toList ++ rest) =
      .closed n :: callsOfChars rest := by
  have line : (TreeText.indented depth (closeTag n.name)).toList ++ rest =
      List.replicate (2 * depth) ' ' ++
        ('<' :: ('/' :: n.name.toList) ++ '>' :: ['\n'] ++ rest) := by
    simp [TreeText.indented, closeTag]
  rw [line, callsOfChars_append (not_mem_replicate_space _),
    callsOfChars_tag n.plainTag.slash (by decide), TreeCall.ofTag?_closed]
  rfl

theorem callsOfChars_element (kind : TerminalKind) (text : String) :
    callsOfChars ((TreeText.indented depth (xmlElement kind text)).toList ++ rest) =
      .element kind text :: callsOfChars rest := by
  have line : (TreeText.indented depth (xmlElement kind text)).toList ++ rest =
      List.replicate (2 * depth) ' ' ++
        ('<' :: kind.tag.toList ++ '>' :: (' ' :: (escapeXml text).toList ++ [' ']) ++
          ('<' :: ('/' :: kind.tag.toList) ++ '>' :: ['\n'] ++ rest)) := by
    simp [TreeText.indented, xmlElement, openTag, closeTag]
  have plain : '<' ∉ ' ' :: (escapeXml text).toList ++ [' '] := by
    simpa using not_mem_escapeXml text
  generalize tail : '<' :: ('/' :: kind.tag.toList) ++ '>' :: ['\n'] ++ rest = last at line
  have stop : last.takeWhile (· ≠ '<') = [] := by
    rw [← tail]
    rfl
  have behind : callsOfChars last = callsOfChars rest := by
    rw [← tail, callsOfChars_tag kind.plainTag.slash (by decide), TreeCall.ofTag?_endOfElement]
    rfl
  rw [line, callsOfChars_append (not_mem_replicate_space _), callsOfChars_tag kind.plainTag plain,
    stop, List.append_nil, TreeCall.ofTag?_element, behind]
  rfl

/-- The lines of a row are read one by one, whatever stands behind them. -/
theorem Markup.callsOfChars_xml (m : Markup) :
    callsOfChars ((m.xml depth).toList ++ rest) = m.calls ++ callsOfChars rest := by
  induction m generalizing depth rest with
  | nil => rfl
  | element kind text others ih =>
    rw [xml, String.toList_append, List.append_assoc, callsOfChars_element, ih]
    rfl
  | node n inner others ih ih' =>
    simp only [xml, String.toList_append, List.append_assoc]
    rw [callsOfChars_opened, ih, callsOfChars_closed, ih']
    simp [calls]

/-- The calls that wrote a row of trees are read back from its lines. -/
theorem Markup.callsOfXml_xml (m : Markup) : callsOfXml (m.xml depth) = m.calls := by
  have read := callsOfChars_xml depth [] m
  rw [List.append_nil] at read
  simpa [callsOfXml, callsOfChars] using read

end

/-! ## Terminals -/

/-- The terminal that an element of a kind shows. -/
def Terminal.ofContent? : TerminalKind → String → Option Terminal
  | .keyword, text => (Keyword.ofText? text).map .keyword
  | .symbol, text =>
    match text.toList with
    | [c] => (Symbol.ofChar? c).map .symbol
    | _ => none
  | .identifier, text => some (.identifier text)
  | .integer, text => (decimal? text).map .integer
  | .string, text => some (.string text)

theorem Terminal.ofContent?_content (t : Terminal) : ofContent? t.kind t.content = some t := by
  cases t with
  | keyword word => simp [ofContent?, kind, content, text, Keyword.ofText?_text]
  | symbol s => simp [ofContent?, kind, content, text, Symbol.ofChar?_char]
  | identifier name => rfl
  | integer value => exact congrArg (Option.map integer) (decimal?_toString value)
  | string text => rfl

/-- The call that adds a terminal. -/
def Terminal.call (t : Terminal) : TreeCall :=
  .element t.kind t.content

/-- The terminal that a call adds. -/
def TreeCall.terminal? : TreeCall → Option Terminal
  | element kind text => Terminal.ofContent? kind text
  | opened _ | closed _ => none

@[simp]
theorem Terminal.terminal?_call (t : Terminal) : t.call.terminal? = some t :=
  t.ofContent?_content

/-- The terminals of a document, be it one of tokens or a parse tree. -/
def terminalsOfXml (xml : String) : List Terminal :=
  (callsOfXml xml).filterMap TreeCall.terminal?

/-- The lines of a document of tokens. -/
def Markup.ofTerminals : List Terminal → Markup
  | [] => nil
  | t :: ts => element t.kind t.content (ofTerminals ts)

theorem Markup.calls_ofTerminals (ts : List Terminal) :
    (ofTerminals ts).calls = ts.map Terminal.call := by
  induction ts with
  | nil => rfl
  | cons t ts ih =>
    rw [ofTerminals, calls, ih]
    rfl

theorem Markup.xml_ofTerminals (ts : List Terminal) :
    (ofTerminals ts).xml 0 = String.join (ts.map fun t => t.element ++ "\n") := by
  induction ts with
  | nil => rfl
  | cons t ts ih => simp [ofTerminals, xml, TreeText.indented, ih, Terminal.element]

/-- The terminals of a document of tokens are read back. -/
theorem terminalsOfXml_tokensDocument (ts : List Terminal) :
    terminalsOfXml (tokensDocument ts) = ts := by
  have document : (tokensDocument ts).toList =
      '<' :: "tokens".toList ++ '>' :: ['\n'] ++
        (((Markup.ofTerminals ts).xml 0).toList ++
          ('<' :: "/tokens".toList ++ '>' :: ['\n'] ++ [])) := by
    simp [tokensDocument, Markup.xml_ofTerminals]
  have front (text : List Char) : TreeCall.ofTag? "tokens".toList text = none := rfl
  have back (text : List Char) : TreeCall.ofTag? "/tokens".toList text = none := rfl
  have read : callsOfXml (tokensDocument ts) = ts.map Terminal.call := by
    rw [callsOfXml, document, callsOfChars_tag ⟨by decide, by decide⟩ (by decide), front,
      Markup.callsOfChars_xml, callsOfChars_tag ⟨by decide, by decide⟩ (by decide), back,
      Markup.calls_ofTerminals]
    simp [callsOfChars]
  rw [terminalsOfXml, read]
  simp [List.filterMap_map]

/-- The text of a string constant looks like a tag, and has an entity and a line break in it. -/
example : terminalsOfXml
      "<tokens>\n<stringConstant> &lt;symbol&gt; &amp;lt;\n  </stringConstant>\n</tokens>\n" =
    [.string "<symbol> &lt;\n "] := by
  decide +kernel

/-! ## Forests -/

/-- The lines of a forest. -/
def Forest.markup : Forest → Markup
  | nil => .nil
  | leaf t rest => .element t.kind t.content rest.markup
  | node n inner rest => .node n inner.markup rest.markup

/-- The forest of a row of trees, if all its elements are terminals. -/
def Markup.forest? : Markup → Option Forest
  | nil => some .nil
  | element kind text rest =>
    (Terminal.ofContent? kind text).bind fun t => rest.forest?.map (.leaf t)
  | node n inner rest => inner.forest?.bind fun f => rest.forest?.map (.node n f)

theorem Forest.forest?_markup (f : Forest) : f.markup.forest? = some f := by
  induction f with
  | nil => rfl
  | leaf t rest ih => simp [markup, Markup.forest?, Terminal.ofContent?_content, ih]
  | node n inner rest ih ih' => simp [markup, Markup.forest?, ih, ih']

/-- The terminals of a forest are those that its calls add. -/
theorem Forest.terminals_markup (f : Forest) :
    f.markup.calls.filterMap TreeCall.terminal? = f.leaves := by
  induction f with
  | nil => rfl
  | leaf t rest ih =>
    simp [markup, Markup.calls, TreeCall.terminal?, Terminal.ofContent?_content, leaves, ih]
  | node n inner rest ih ih' =>
    simp [markup, Markup.calls, List.filterMap_cons, TreeCall.terminal?, leaves, ih, ih']

/-- The row of trees of a document. -/
def markupOfXml (xml : String) : Option Markup :=
  Markup.ofCalls? (callsOfXml xml)

theorem Markup.markupOfXml_xml (m : Markup) : markupOfXml (m.xml 0) = some m := by
  rw [markupOfXml, m.callsOfXml_xml, m.ofCalls?_calls]

/-- The forest of a parse tree. -/
def forestOfXml (xml : String) : Option Forest :=
  (markupOfXml xml).bind Markup.forest?

theorem forestOfXml_xml (f : Forest) : forestOfXml (f.markup.xml 0) = some f := by
  rw [forestOfXml, f.markup.markupOfXml_xml]
  exact f.forest?_markup

theorem terminalsOfXml_xml (f : Forest) : terminalsOfXml (f.markup.xml 0) = f.leaves := by
  rw [terminalsOfXml, f.markup.callsOfXml_xml, f.terminals_markup]

/-! ## Parse trees -/

/-- A tree that is being written is told of a forest by the calls of its lines. -/
theorem Forest.foldl_report (f : Forest) (t : TreeText) :
    f.events.foldl TreeText.report t = f.markup.calls.foldl TreeText.call t := by
  induction f generalizing t with
  | nil => rfl
  | leaf _ rest ih => exact ih _
  | node n inner rest ih ih' =>
    simp only [events, nodeEvents, markup, Markup.calls, List.foldl_append, List.foldl_cons,
      List.cons_append, List.append_assoc, List.nil_append, ih, ih']
    rfl

/-- Only the events of nodes and terminals are written. -/
theorem foldl_report_treeEvents (es : List Event) (t : TreeText) :
    (treeEvents es).foldl TreeText.report t = es.foldl TreeText.report t := by
  induction es generalizing t with
  | nil => rfl
  | cons e es ih => cases e <;> simp [treeEvents_cons, Event.ofTree, ih, TreeText.report]

theorem tokenXml_eq_ok_iff {source xml : String} :
    tokenXml source = .ok xml ↔ ∃ ts, Lexes source ts ∧ tokensDocument ts = xml := by
  constructor
  · intro written
    cases failed : (Lexer.ofString source).read.failure with
    | none =>
      have lexes : Lexes source _ := lexes_iff.2 ⟨failed, rfl⟩
      rw [tokenXml_of_lexes lexes] at written
      exact ⟨_, lexes, Except.ok.inj written⟩
    | some e =>
      rw [tokenXml, Lexer.tokens, failed] at written
      cases written
  · rintro ⟨ts, lexes, rfl⟩
    exact tokenXml_of_lexes lexes

/-- The parse tree of a source shows the derivation of its tokens. -/
theorem exists_forest_of_treeXml {source xml : String} (written : treeXml source = .ok xml) :
    ∃ (f : Forest) (tokens : List Token),
      SpellsTree source (events source).1.toList f tokens ∧ f.markup.xml 0 = xml := by
  have logged : events source = ((events source).1, (events source).2) := rfl
  generalize (events source).1 = log, (events source).2 = outcome at logged
  rw [treeXml_of_logged logged] at written
  cases outcome with
  | some e => cases written
  | none =>
    obtain ⟨f, tokens, spells⟩ := exists_spellsTree logged
    have text : (log.toList.foldl TreeText.report .empty).text = xml := Except.ok.inj written
    refine ⟨f, tokens, spells, ?_⟩
    rw [← text, ← foldl_report_treeEvents, spells.events, f.foldl_report, Markup.foldl_calls]
    simp [TreeText.empty]

/-! ## Nothing is lost -/

/-- A parse tree is read back as the derivation of the terminals of the source, with the nodes and
the terminals that its compilation tells of. -/
structure ReadsTreeBack (source xml : String) (f : Forest) : Prop where
  back : forestOfXml xml = some f
  text : f.markup.xml 0 = xml
  terminals : terminalsOfXml xml = f.leaves
  lexes : Lexes source f.leaves
  root : f.row = [.node .classDec]
  derived : f.Derived
  events : treeEvents (events source).1.toList = f.events

theorem exists_readsTreeBack {source xml : String} (written : treeXml source = .ok xml) :
    ∃ f, ReadsTreeBack source xml f := by
  obtain ⟨f, tokens, spells, rfl⟩ := exists_forest_of_treeXml written
  refine ⟨f, ?_⟩
  constructor
  case back => exact forestOfXml_xml f
  case text => rfl
  case terminals => exact terminalsOfXml_xml f
  case lexes => exact ⟨tokens, spells.read, spells.leaves.symm⟩
  case root => exact spells.root
  case derived => exact spells.derived
  case events => exact spells.events

/-- What is read back from the XML of a source.

* The document of tokens of a source with no lexical error has the terminals of the source.
* A parse tree is read back.
* A source that compiles has both, and they have the same terminals. -/
structure ReadsBack (source : String) : Prop where
  tokens : ∀ ts, Lexes source ts ↔ ∃ xml, tokenXml source = .ok xml ∧ terminalsOfXml xml = ts
  tree : ∀ xml, treeXml source = .ok xml → ∃ f, ReadsTreeBack source xml f
  both : ∀ text, compile source = .ok text → ∃ xml xml',
    tokenXml source = .ok xml ∧ treeXml source = .ok xml' ∧
      terminalsOfXml xml' = terminalsOfXml xml

theorem readsBack (source : String) : ReadsBack source := by
  constructor
  case tokens =>
    intro ts
    constructor
    · intro lexes
      exact ⟨_, tokenXml_of_lexes lexes, terminalsOfXml_tokensDocument ts⟩
    · rintro ⟨xml, written, rfl⟩
      obtain ⟨ts, lexes, rfl⟩ := tokenXml_eq_ok_iff.1 written
      rwa [terminalsOfXml_tokensDocument]
  case tree => exact fun xml => exists_readsTreeBack
  case both =>
    intro text compiled
    obtain ⟨xml', written⟩ := exists_treeXml_of_compile compiled
    obtain ⟨f, reads⟩ := exists_readsTreeBack written
    refine ⟨_, xml', tokenXml_of_lexes reads.lexes, written, ?_⟩
    rw [reads.terminals, terminalsOfXml_tokensDocument]

theorem Lexes.tokenXml_eq_iff {source source' : String} {ts ts' : List Terminal}
    (lexes : Lexes source ts) (lexes' : Lexes source' ts') :
    tokenXml source = tokenXml source' ↔ ts = ts' := by
  rw [tokenXml_of_lexes lexes, tokenXml_of_lexes lexes']
  constructor
  · intro same
    have read := congrArg terminalsOfXml (Except.ok.inj same)
    rwa [terminalsOfXml_tokensDocument, terminalsOfXml_tokensDocument] at read
  · rintro rfl
    rfl

/-- If one of two sources compiles, the other one has its parse tree exactly if it has its
terminals. -/
theorem Lexes.treeXml_eq_iff {source source' text : String} {ts ts' : List Terminal}
    (lexes : Lexes source ts) (lexes' : Lexes source' ts')
    (compiled : compile source = .ok text) :
    treeXml source = treeXml source' ↔ ts = ts' := by
  obtain ⟨xml, written⟩ := exists_treeXml_of_compile compiled
  constructor
  · intro same
    obtain ⟨f, reads⟩ := exists_readsTreeBack written
    obtain ⟨f', reads'⟩ := exists_readsTreeBack (same.symm.trans written)
    rw [lexes.unique reads.lexes, lexes'.unique reads'.lexes, ← reads.terminals, reads'.terminals]
  · rintro rfl
    rw [written, treeXml_congr_of_lexes lexes lexes' written]

/-- What balanced calls write: one row of trees, of which each node and each element has a line. It
is read back from its lines. -/
structure Writes (calls : List TreeCall) (m : Markup) : Prop where
  row : m.calls = calls
  text : calls.foldl TreeText.call .empty = ⟨m.xml 0, 0⟩
  callsBack : callsOfXml (m.xml 0) = calls
  back : markupOfXml (m.xml 0) = some m

theorem Markup.writes (m : Markup) : Writes m.calls m := by
  refine ⟨rfl, ?_, m.callsOfXml_xml 0, m.markupOfXml_xml⟩
  rw [m.foldl_calls]
  simp [TreeText.empty]

/-- Calls are balanced exactly if they write a row of trees. -/
theorem balanced_iff_exists_writes {calls : List TreeCall} :
    TreeCall.Balanced calls ↔ ∃ m, Writes calls m := by
  constructor
  · intro balanced
    obtain ⟨m, rfl⟩ := Markup.exists_calls_of_balanced balanced
    exact ⟨m, m.writes⟩
  · rintro ⟨m, written⟩
    rw [← written.row]
    exact m.nest_calls []

/-- The XML of a source has all of its terminals, and of its parse tree if it compiles. Whatever
nodes and elements are written, they are the only ones with that text. -/
theorem xml_is_lossless :
    (∀ source, ReadsBack source) ∧
      (∀ source source' ts ts', Lexes source ts → Lexes source' ts' →
        (tokenXml source = tokenXml source' ↔ ts = ts') ∧
          ∀ text, compile source = .ok text → (treeXml source = treeXml source' ↔ ts = ts')) ∧
      (∀ calls, TreeCall.Balanced calls ↔ ∃ m, Writes calls m) ∧
      (∀ m m' : Markup, m.xml 0 = m'.xml 0 → m = m') ∧
      ∀ f g : Forest, f.markup.xml 0 = g.markup.xml 0 → f = g := by
  refine ⟨readsBack, fun source source' ts ts' lexes lexes' => ?_,
    fun _ => balanced_iff_exists_writes, ?_, ?_⟩
  · exact ⟨lexes.tokenXml_eq_iff lexes', fun _ => lexes.treeXml_eq_iff lexes'⟩
  · intro m m' same
    have read := congrArg markupOfXml same
    rw [m.markupOfXml_xml, m'.markupOfXml_xml] at read
    exact Option.some.inj read
  · intro f g same
    have read := congrArg forestOfXml same
    rw [forestOfXml_xml, forestOfXml_xml] at read
    exact Option.some.inj read

end JackToVm
