import JackToVm.Proofs.Printing
import JackToVm.Proofs.Sinks

/-!
# Sources without layout

A source can be written again with the spellings of its tokens alone and a space between any two of
them. Integers keep the zeros that they start with, and strings keep what is in them.

Results.
1. A spelling that stands in some source is one token on its own (`isSpelling_of_mem_items`,
   `items_of_isSpelling`).
2. The terminals that are read somewhere are those that are readable (`Terminal.readable_iff`).
3. A source is read in the same way without its layout, so taking it away twice is taking it away
   once, and the same text is compiled (`lexing_undoes_printing`).
-/

namespace JackToVm

/-! ## Spellings in a source -/

section

variable {source text : String} {t : Terminal} {token : Token}

theorem isSpelling_of_mem_items (mem : .ok token ∈ (Lexer.ofString source).items.1) :
    token.terminal.IsSpelling token.lexeme := by
  obtain ⟨inner, covered, after, -, stands⟩ := (tiles_iff_items_eq.2 rfl).exists_stands mem
  rw [Terminal.IsSpelling, stands.lexeme token rfl, String.toList_ofList]
  exact stands.reads.of_apart apart_nil

theorem Terminal.IsSpelling.readable (spelled : t.IsSpelling text) : t.Readable := by
  obtain ⟨c, cs, -, munched⟩ := munch_of_reads spelled
  exact munch_readable (congrArg Munch.outcome munched)

/-- A spelling on its own is one token, which covers all of it. -/
theorem items_of_isSpelling (spelled : t.IsSpelling text) :
    (Lexer.ofString text).items.1 = [.ok ⟨t, text, ⟨0, text.utf8ByteSize⟩, 1⟩] := by
  have step := Lexer.next_spelling spelled apart_nil .start
  have size := Position.offset_afterAll_start text.toList
  rw [String.ofList_toList] at size
  rw [List.append_nil, size] at step
  rw [Lexer.items, Lexer.ofString, Lexer.itemsFrom_of_some step,
    Lexer.itemsFrom_of_none (Lexer.next_nil _)]
  rfl

/-- The readable terminals are those that the lexer reads in some source. -/
theorem Terminal.readable_iff :
    t.Readable ↔ ∃ (source : String) (token : Token),
      .ok token ∈ (Lexer.ofString source).items.1 ∧ token.terminal = t := by
  constructor
  · intro readable
    have items := items_of_isSpelling (isSpelling_text readable)
    exact ⟨t.text, _, by rw [items]; exact .head _, rfl⟩
  · rintro ⟨source, token, mem, rfl⟩
    exact (isSpelling_of_mem_items mem).readable

end

/-! ## Taking the layout away -/

/-- The spellings of a source, with a space between any two of them. -/
def normalized (source : String) : String :=
  " ".intercalate ((Lexer.ofString source).read.tokens.map (·.lexeme))

section

variable {source : String} {tokens : List Token}

theorem normalized_eq_spaced (source : String) :
    normalized source = spaced ((Lexer.ofString source).read.tokens.map Token.word) := by
  rw [normalized, spaced, List.map_map]
  rfl

/-- The lexer finds the spellings of a source again, for what they were. -/
theorem read_normalized (items : (Lexer.ofString source).items.1 = tokens.map .ok) :
    (Lexer.ofString (normalized source)).read.failure = none ∧
      (Lexer.ofString (normalized source)).read.tokens.map Token.word = tokens.map Token.word := by
  obtain ⟨-, read⟩ := Lexer.items_eq_map_ok_iff.1 items
  rw [normalized_eq_spaced, read]
  refine read_spaced fun w listed => ?_
  obtain ⟨token, inside, rfl⟩ := List.mem_map.1 listed
  have mem : .ok token ∈ (Lexer.ofString source).items.1 := by
    rw [items]
    exact List.mem_map_of_mem inside
  exact isSpelling_of_mem_items mem

theorem lexes_normalized (items : (Lexer.ofString source).items.1 = tokens.map .ok) :
    Lexes (normalized source) (tokens.map (·.terminal)) := by
  obtain ⟨read, words⟩ := read_normalized items
  refine lexes_iff.2 ⟨read, ?_⟩
  have terminals := congrArg (List.map (·.1)) words
  rwa [List.map_map, List.map_map] at terminals

theorem normalized_normalized (items : (Lexer.ofString source).items.1 = tokens.map .ok) :
    normalized (normalized source) = normalized source := by
  obtain ⟨-, words⟩ := read_normalized items
  obtain ⟨-, read⟩ := Lexer.items_eq_map_ok_iff.1 items
  rw [normalized_eq_spaced (normalized source), words, normalized_eq_spaced, read]

end

/-- Reading undoes printing. Terminals that are readable, which are those that are read somewhere,
are read back from their text. In a source without errors every spelling is one token on its own,
and the source without its layout has the same terminals: it stays as it is when its layout is taken
away again, and it compiles to the same text. -/
theorem lexing_undoes_printing :
    (∀ ts : List Terminal, (∀ t ∈ ts, t.Readable) → Lexes (printed ts) ts) ∧
    (∀ t : Terminal, t.Readable ↔ ∃ (source : String) (token : Token),
      .ok token ∈ (Lexer.ofString source).items.1 ∧ token.terminal = t) ∧
    ∀ (source : String) (tokens : List Token),
      (Lexer.ofString source).items.1 = tokens.map .ok →
      (∀ t ∈ tokens, t.Spells source ∧ (Lexer.ofString t.lexeme).items.1 =
        [.ok ⟨t.terminal, t.lexeme, ⟨0, t.lexeme.utf8ByteSize⟩, 1⟩]) ∧
      Lexes (normalized source) (tokens.map (·.terminal)) ∧
      normalized (normalized source) = normalized source ∧
      ∀ text, compile (normalized source) = .ok text ↔ compile source = .ok text := by
  refine ⟨fun ts => lexes_printed, fun t => Terminal.readable_iff, fun source tokens items => ?_⟩
  have lexes : Lexes source (tokens.map (·.terminal)) := ⟨tokens, items, rfl⟩
  have lexes' := lexes_normalized items
  refine ⟨fun t mem => ?_, lexes', normalized_normalized items, fun text => ?_⟩
  · obtain ⟨-, read⟩ := Lexer.items_eq_map_ok_iff.1 items
    constructor
    · exact Lexer.spells_of_mem_read (by rwa [read])
    · have mem' : .ok t ∈ (Lexer.ofString source).items.1 := by
        rw [items]
        exact List.mem_map_of_mem mem
      exact items_of_isSpelling (isSpelling_of_mem_items mem')
  · exact ⟨compile_congr_of_lexes lexes' lexes, compile_congr_of_lexes lexes lexes'⟩

/-- The zeros of an integer stay, and what looks like a comment in a string. -/
theorem lexing_undoes_printing_of_zeros :
    normalized "let s=\"/*\"+007/*;*/;" = "let s = \"/*\" + 007 ;" ∧
    Lexes "let s = \"/*\" + 007 ;"
      [.keyword .kwLet, .identifier "s", .symbol .equals, .string "/*", .symbol .plus, .integer 7,
        .symbol .semicolon] := by
  have normal : normalized "let s=\"/*\"+007/*;*/;" = "let s = \"/*\" + 007 ;" := by
    decide +kernel
  have items : (Lexer.ofString "let s=\"/*\"+007/*;*/;").items.1 =
      (Lexer.ofString "let s=\"/*\"+007/*;*/;").read.tokens.map .ok := by decide +kernel
  have terminals : (Lexer.ofString "let s=\"/*\"+007/*;*/;").read.tokens.map (·.terminal) =
      [.keyword .kwLet, .identifier "s", .symbol .equals, .string "/*", .symbol .plus, .integer 7,
        .symbol .semicolon] := by decide +kernel
  obtain ⟨-, lexes, -⟩ := lexing_undoes_printing.2.2 _ _ items
  rw [normal, terminals] at lexes
  exact ⟨normal, lexes⟩

end JackToVm
