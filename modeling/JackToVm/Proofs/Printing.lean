import JackToVm.Proofs.Acceptance
import JackToVm.Proofs.Tiling

/-!
# Printed terminals are read back

Terminals are printed with a space between any two of them. What the lexer reads in such a text are
the terminals that were printed.

Results.
1. In front of a blank or the end of a text, the text of a terminal is an item
   (`Terminal.reads_text`), and it does not start like a gap (`Reads.not_startsGap`).
2. A terminal may have other spellings: what makes it in some text makes it in front of a blank or
   the end of another one (`Reads.of_apart`).
3. The lexer reads spellings with spaces between them for what they are (`read_spaced`), and so
   what was printed (`lexes_printed`).
-/

namespace JackToVm

/-! ## One terminal -/

/-- What may stand behind a terminal: a blank or nothing. -/
def Apart (rest : List Char) : Prop :=
  ∀ c ∈ rest.head?, isBlank c

section

variable {P : Char → Bool} {cs rest : List Char}

theorem Apart.longestRun (apart : Apart rest) (all : ∀ c ∈ cs, P c)
    (ends : ∀ c, isBlank c → P c = false) : LongestRun P cs rest :=
  ⟨all, fun c mem => ends c (apart c mem)⟩

theorem Apart.longestRun_word {c : Char} (apart : Apart rest) (starts : startsName c)
    (continues : ∀ char ∈ cs, continuesName char) : LongestRun continuesName (c :: cs) rest :=
  apart.longestRun (List.forall_mem_cons.2 ⟨continuesName_of_startsName starts, continues⟩)
    fun _ => continuesName_eq_false_of_isBlank

theorem Apart.longestRun_digits (apart : Apart rest) (digits : ∀ c ∈ cs, isDigit c) :
    LongestRun isDigit cs rest := by
  refine apart.longestRun digits fun c blank => Bool.eq_false_iff.2 fun digit => ?_
  have other := continuesName_eq_false_of_isBlank blank
  rw [continuesName_of_isDigit digit] at other
  cases other

end

theorem Keyword.exists_toList (k : Keyword) : ∃ c cs, k.text.toList = c :: cs ∧ startsName c ∧
    ∀ char ∈ cs, continuesName char := by
  cases k <;> exact ⟨_, _, rfl, by decide, List.all_eq_true.1 (by decide)⟩

/-- The spelling of a terminal is an item. -/
theorem Terminal.reads_text {t : Terminal} (readable : t.Readable) {rest : List Char}
    (apart : Apart rest) : Reads t.text.toList rest (.ok t) := by
  cases t with
  | keyword k =>
    obtain ⟨c, cs, spelled, starts, continues⟩ := k.exists_toList
    have word : k.text = String.ofList (c :: cs) := by rw [← spelled, String.ofList_toList]
    rw [text, spelled]
    exact .keyword starts (apart.longestRun_word starts continues) word
  | symbol s =>
    rw [text, Char.toString, String.toList_singleton]
    exact .symbol s
  | identifier name =>
    obtain ⟨other, c, cs, spelled, starts, continues⟩ := readable
    have word : String.ofList (c :: cs) = name := by rw [← spelled, String.ofList_toList]
    rw [text, spelled, ← word]
    refine .identifier starts (apart.longestRun_word starts continues) fun k same => ?_
    rw [← word, Keyword.ofText?_eq_some_iff.2 same] at other
    cases other
  | integer n =>
    have spelled : (integer n).text.toList = Nat.toDigits 10 n := by simp [text, Nat.toList_repr]
    have value : Nat.ofDigitChars 10 (Nat.toDigits 10 n) 0 = n := Nat.ofDigitChars_ten_toDigits
    have longest := apart.longestRun_digits fun _ => isDigit_of_mem_toDigits (n := n)
    have reads := Reads.integer Nat.toDigits_ne_nil longest (by rw [value]; exact readable)
    rw [value] at reads
    rwa [spelled]
  | string text =>
    have spelled : (string text).text.toList = '"' :: (text.toList ++ ['"']) := by
      simp [Terminal.text]
    rw [spelled, ← String.ofList_toList (s := text), String.toList_ofList]
    exact .string readable

/-! ## Trivia in front of a terminal -/

section

variable {t : Terminal} {c : Char} {cs covered rest : List Char}

theorem Reads.not_isBlank (reads : Reads (c :: cs) rest (.ok t)) : ¬isBlank c := by
  have inName (continues : continuesName c) : ¬isBlank c := fun blank => by
    rw [continuesName_eq_false_of_isBlank blank] at continues
    cases continues
  cases reads with
  | symbol s => cases s <;> decide
  | string _ => decide
  | integer _ longest _ => exact inName (continuesName_of_isDigit (longest.all c (.head _)))
  | keyword starts _ _ | identifier starts _ _ =>
    exact inName (continuesName_of_startsName starts)

theorem Reads.eq_nil_of_slash (reads : Reads (c :: cs) rest (.ok t)) (slash : c = '/') :
    cs = [] := by
  cases reads with
  | symbol s => rfl
  | string _ => exact absurd slash (by decide)
  | integer _ longest _ => exact absurd (slash ▸ longest.all c (.head _)) (by decide)
  | keyword starts _ _ | identifier starts _ _ => exact absurd (slash ▸ starts) (by decide +kernel)

/-- A terminal does not start like a gap. In particular a slash in front of a blank starts no
comment. -/
theorem Reads.not_startsGap (reads : Reads covered rest (.ok t)) (apart : Apart rest) :
    ¬StartsGap (covered ++ rest) := by
  obtain ⟨c, cs, rfl, -⟩ := munch_of_reads reads
  have behind {d : Char} {more : List Char} (slash : c = '/') (all : cs ++ rest = d :: more) :
      isBlank d := by
    obtain rfl := reads.eq_nil_of_slash slash
    exact apart d (by rw [← List.nil_append rest, all]; rfl)
  intro starts
  generalize all : c :: cs ++ rest = text at starts
  cases starts with
  | blank blank =>
    obtain ⟨rfl, -⟩ := List.cons.inj all
    exact reads.not_isBlank blank
  | line | block =>
    obtain ⟨slash, all⟩ := List.cons.inj all
    exact absurd (behind slash all) (by decide)

end

/-! ## Spellings -/

/-- A text is a spelling of a terminal if it is an item on its own. -/
def Terminal.IsSpelling (t : Terminal) (text : String) : Prop :=
  Reads text.toList [] (.ok t)

theorem apart_nil : Apart [] :=
  nofun

/-- What makes a terminal in front of some text makes it wherever a blank or nothing is behind
it. -/
theorem Reads.of_apart {t : Terminal} {covered after rest : List Char}
    (reads : Reads covered after (.ok t)) (apart : Apart rest) : Reads covered rest (.ok t) := by
  cases reads with
  | symbol s => exact .symbol s
  | string first => exact .string first
  | integer some longest small => exact .integer some (apart.longestRun_digits longest.all) small
  | keyword starts longest spelled =>
    exact .keyword starts (apart.longestRun_word starts longest.tail.all) spelled
  | identifier starts longest noKeyword =>
    exact .identifier starts (apart.longestRun_word starts longest.tail.all) noKeyword

theorem Terminal.isSpelling_text {t : Terminal} (readable : t.Readable) : t.IsSpelling t.text :=
  reads_text readable apart_nil

namespace Lexer

/-- The next token, where a spelling of a terminal stands. -/
theorem next_spelling {t : Terminal} {text : String} (spelled : t.IsSpelling text)
    {rest : List Char} (apart : Apart rest) (p : Position) :
    next ⟨text.toList ++ rest, p⟩ =
      (some (.ok ⟨t, text, ⟨p.offset, (p.afterAll text.toList).offset⟩, p.line⟩),
        ⟨rest, p.afterAll text.toList⟩) := by
  have reads := spelled.of_apart apart
  have ends := reads.not_startsGap apart
  obtain ⟨c, cs, covered, munched⟩ := munch_of_reads reads
  have whole : String.ofList (c :: cs) = text := by rw [← covered, String.ofList_toList]
  rw [covered] at ends munched ⊢
  have read : next ⟨c :: (cs ++ rest), p⟩ = _ := next_gap .nil ends
  rw [List.cons_append, read]
  simp only [scan, munched, itemAt, whole]
  rfl

theorem next_space (cs : List Char) (p : Position) :
    next ⟨' ' :: cs, p⟩ = next ⟨cs, p.after ' '⟩ := by
  simp [next, skip, skipTrivia, isBlank]

theorem next_nil (p : Position) : next ⟨[], p⟩ = (none, ⟨[], p⟩) := by
  simp [next, skip, skipTrivia]

end Lexer

/-! ## Spellings with spaces between them -/

/-- What a token is, and how it is spelled. -/
def Token.word (t : Token) : Terminal × String :=
  (t.terminal, t.lexeme)

/-- Spellings as a text, with a space between any two of them. -/
def spaced (words : List (Terminal × String)) : String :=
  " ".intercalate (words.map (·.2))

theorem apart_spaced (words : List (Terminal × String)) :
    Apart (words.flatMap fun w => ' ' :: w.2.toList) := by
  cases words with
  | nil => simp [Apart]
  | cons w words =>
    rintro c ⟨⟩
    decide

theorem toList_spaced_cons (w : Terminal × String) (words : List (Terminal × String)) :
    (spaced (w :: words)).toList = w.2.toList ++ words.flatMap fun v => ' ' :: v.2.toList := by
  induction words generalizing w with
  | nil => simp [spaced]
  | cons v words ih =>
    have more := ih v
    simp only [spaced, String.toList_intercalate, List.map_cons] at more ⊢
    rw [List.intercalate_cons_cons, more]
    simp

section

variable {words : List (Terminal × String)}

/-- Each further spelling has a space in front of it. -/
theorem Lexer.readFrom_spaced (spelled : ∀ w ∈ words, w.1.IsSpelling w.2) (before : List Token)
    (p : Position) :
    let r := readFrom before ⟨words.flatMap fun w => ' ' :: w.2.toList, p⟩
    r.failure = none ∧ r.tokens.map Token.word = before.reverse.map Token.word ++ words := by
  induction words generalizing before p with
  | nil => simp [readFrom_of_none (next_nil p)]
  | cons w words ih =>
    obtain ⟨first, more⟩ := List.forall_mem_cons.1 spelled
    have step := next_spelling first (apart_spaced words) (p.after ' ')
    rw [← next_space] at step
    obtain ⟨read, tokens⟩ := ih more _ _
    simp only [List.flatMap_cons, List.cons_append, readFrom_of_ok step]
    refine ⟨read, ?_⟩
    simp [tokens, Token.word]

/-- The lexer reads each spelling for what it is. -/
theorem read_spaced (spelled : ∀ w ∈ words, w.1.IsSpelling w.2) :
    (Lexer.ofString (spaced words)).read.failure = none ∧
      (Lexer.ofString (spaced words)).read.tokens.map Token.word = words := by
  cases words with
  | nil => exact Lexer.readFrom_spaced spelled [] .start
  | cons w words =>
    obtain ⟨first, more⟩ := List.forall_mem_cons.1 spelled
    have step := Lexer.next_spelling first (apart_spaced words) .start
    rw [Lexer.ofString, toList_spaced_cons, Lexer.read, Lexer.readFrom_of_ok step]
    exact Lexer.readFrom_spaced more _ _

theorem lexes_spaced (spelled : ∀ w ∈ words, w.1.IsSpelling w.2) :
    Lexes (spaced words) (words.map (·.1)) := by
  obtain ⟨read, tokens⟩ := read_spaced spelled
  refine lexes_iff.2 ⟨read, ?_⟩
  have terminals := congrArg (List.map (·.1)) tokens
  rwa [List.map_map] at terminals

end

/-! ## Printing -/

/-- Some terminals as a text, with a space between any two of them. -/
def printed (ts : List Terminal) : String :=
  " ".intercalate (ts.map Terminal.text)

/-- The lexer reads what was printed. -/
theorem lexes_printed {ts : List Terminal} (readable : ∀ t ∈ ts, t.Readable) :
    Lexes (printed ts) ts := by
  have spelled : ∀ w ∈ ts.map fun t => (t, t.text), w.1.IsSpelling w.2 := by
    intro w mem
    obtain ⟨t, inside, rfl⟩ := List.mem_map.1 mem
    exact Terminal.isSpelling_text (readable t inside)
  have lexes := lexes_spaced spelled
  simpa [spaced, printed, Function.comp_def] using lexes

end JackToVm
