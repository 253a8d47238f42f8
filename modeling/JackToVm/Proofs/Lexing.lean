import Mathlib.Data.List.TakeWhile
import JackToVm.Lexer

/-!
# What the lexer reads

Results.
1. All items of a text are tokens exactly when reading it meets no error, and then they are the
   tokens that were read (`Lexer.items_eq_map_ok_iff`).
2. The first error that reading meets is the first among the items, and what stands before it are
   the tokens that were read (`Lexer.exists_items_eq_append`).
3. Whatever is read is a terminal with a spelling: an identifier is made of the characters of names
   and is no keyword, an integer is small enough (`Lexer.readable_of_mem_read`).
4. The spelling of a token is what the source has in the span of the token
   (`Lexer.spells_of_mem_read`).
-/

namespace JackToVm

namespace Lexer

/-! ## Item by item -/

theorem itemsFrom_of_none {before : List Item} {l m : Lexer} (h : l.next = (none, m)) :
    itemsFrom before l = (before.reverse, m) := by
  rw [itemsFrom]
  split <;> simp_all

theorem itemsFrom_of_some {before : List Item} {l m : Lexer} {item : Item}
    (h : l.next = (some item, m)) : itemsFrom before l = itemsFrom (item :: before) m := by
  rw [itemsFrom]
  split <;> simp_all

theorem readFrom_of_none {before : List Token} {l m : Lexer} (h : l.next = (none, m)) :
    readFrom before l = ⟨before.reverse, none, m⟩ := by
  rw [readFrom]
  split <;> simp_all

theorem readFrom_of_error {before : List Token} {l m : Lexer} {e : LexError}
    (h : l.next = (some (.error e), m)) : readFrom before l = ⟨before.reverse, some e, m⟩ := by
  rw [readFrom]
  split <;> simp_all

theorem readFrom_of_ok {before : List Token} {l m : Lexer} {t : Token}
    (h : l.next = (some (.ok t), m)) : readFrom before l = readFrom (t :: before) m := by
  rw [readFrom]
  split <;> simp_all

/-- What was read before comes first, and changes nothing else. -/
theorem readFrom_eq (before : List Token) (l : Lexer) :
    readFrom before l = ⟨before.reverse ++ l.read.tokens, l.read.failure, l.read.finish⟩ := by
  unfold read
  rw [readFrom, readFrom]
  split
  · simp
  · simp
  · next t m more =>
    have shorter := next_length_lt more
    rw [readFrom_eq (t :: before) m, readFrom_eq [t] m]
    simp
termination_by l.rest.length

/-- Items that were read stay read. -/
theorem mem_itemsFrom {before : List Item} {item : Item} (mem : item ∈ before) (l : Lexer) :
    item ∈ (itemsFrom before l).1 := by
  fun_induction itemsFrom before l with
  | case1 before l m h => simpa using mem
  | case2 before l item' m h ih => exact ih (.tail _ mem)

theorem itemsFrom_eq_map_ok_iff (before tokens : List Token) (l : Lexer) :
    (itemsFrom (before.map .ok) l).1 = tokens.map .ok ↔
      (readFrom before l).failure = none ∧ (readFrom before l).tokens = tokens := by
  fun_induction readFrom before l with
  | case1 before l m h =>
    have injective : Function.Injective (Except.ok : Token → Item) := fun _ _ => Except.ok.inj
    rw [itemsFrom_of_none h, ← List.map_reverse, List.map_inj_right injective]
    simp
  | case2 before l e m h =>
    rw [itemsFrom_of_some h]
    have error := mem_itemsFrom (List.mem_cons_self (a := .error e) (l := before.map .ok)) m
    constructor
    · intro same
      rw [same] at error
      simp at error
    · rintro ⟨⟨⟩, -⟩
  | case3 before l t m h ih =>
    rw [itemsFrom_of_some h]
    exact ih

/-- A text has no error exactly when reading it to its first error reads all of it. -/
theorem items_eq_map_ok_iff {tokens : List Token} {l : Lexer} :
    l.items.1 = tokens.map .ok ↔ l.read.failure = none ∧ l.read.tokens = tokens :=
  itemsFrom_eq_map_ok_iff [] tokens l

/-- Items that were read come first. -/
theorem exists_itemsFrom_eq_append (before : List Item) (l : Lexer) :
    ∃ rest, (itemsFrom before l).1 = before.reverse ++ rest := by
  fun_induction itemsFrom before l with
  | case1 before l m h => exact ⟨[], (List.append_nil _).symm⟩
  | case2 before l item m h ih =>
    obtain ⟨rest, all⟩ := ih
    rw [List.reverse_cons, List.append_assoc] at all
    exact ⟨_, all⟩

theorem exists_itemsFrom_of_failure (before : List Token) {l : Lexer} {e : LexError}
    (failed : (readFrom before l).failure = some e) :
    ∃ rest, (itemsFrom (before.map .ok) l).1 =
      (readFrom before l).tokens.map .ok ++ .error e :: rest := by
  fun_induction readFrom before l with
  | case1 before l m h => cases failed
  | case2 before l e' m h =>
    cases failed
    rw [itemsFrom_of_some h]
    obtain ⟨rest, all⟩ := exists_itemsFrom_eq_append (.error e :: before.map .ok) m
    rw [List.reverse_cons, List.append_assoc, ← List.map_reverse] at all
    exact ⟨rest, all⟩
  | case3 before l t m h ih =>
    rw [itemsFrom_of_some h]
    exact ih failed

/-- What stands before the first error are the tokens that are read. -/
theorem exists_items_eq_append (l : Lexer) :
    (l.read.failure = none ∧ l.items.1 = l.read.tokens.map .ok) ∨
      ∃ e rest, l.read.failure = some e ∧
        l.items.1 = l.read.tokens.map .ok ++ .error e :: rest := by
  cases failed : l.read.failure with
  | none => exact .inl ⟨rfl, items_eq_map_ok_iff.2 ⟨failed, rfl⟩⟩
  | some e =>
    obtain ⟨rest, all⟩ := exists_itemsFrom_of_failure [] failed
    exact .inr ⟨e, rest, rfl, all⟩

/-- The cause that ends a reading is that of the first error. -/
theorem exists_items_of_failure {l : Lexer} {cause : LexCause}
    (failed : l.read.failure.map (·.cause) = some cause) :
    ∃ e rest, l.read.failure = some e ∧ e.cause = cause ∧
      l.items.1 = l.read.tokens.map .ok ++ .error e :: rest := by
  obtain ⟨e, first, same⟩ := Option.map_eq_some_iff.1 failed
  obtain ⟨rest, all⟩ := exists_itemsFrom_of_failure [] first
  exact ⟨e, rest, first, same, all⟩

theorem mem_items_of_mem_read {l : Lexer} {t : Token} (mem : t ∈ l.read.tokens) :
    .ok t ∈ l.items.1 := by
  have inside : (.ok t : Item) ∈ l.read.tokens.map .ok := List.mem_map_of_mem mem
  rcases l.exists_items_eq_append with ⟨-, all⟩ | ⟨error, rest, -, all⟩
  · rwa [all]
  · rw [all]
    exact List.mem_append_left _ inside

end Lexer

/-! ## Terminals that can be read -/

/-- A name: a letter or an underscore, then letters, numbers and underscores; no keyword. -/
def IsName (name : String) : Prop :=
  Keyword.ofText? name = none ∧
    ∃ c cs, name.toList = c :: cs ∧ startsName c ∧ ∀ char ∈ cs, continuesName char

/-- A terminal that has a spelling. -/
def Terminal.Readable : Terminal → Prop
  | keyword _ | symbol _ => True
  | identifier name => IsName name
  | integer value => value ≤ maxConstant
  | string text => '"' ∉ text.toList

@[simp]
theorem Terminal.readable_keyword (k : Keyword) : (keyword k).Readable := trivial

@[simp]
theorem Terminal.readable_symbol (s : Symbol) : (symbol s).Readable := trivial

@[simp]
theorem Terminal.readable_identifier (name : String) : (identifier name).Readable ↔ IsName name :=
  .rfl

theorem Terminal.readable_ofWord {c : Char} {cs : List Char} (starts : startsName c)
    (continues : ∀ char ∈ cs, continuesName char) :
    (ofWord (String.ofList (c :: cs))).Readable := by
  unfold ofWord
  split
  · trivial
  · next other => exact ⟨other, c, cs, String.toList_ofList, starts, continues⟩

theorem munchString_readable {cs : List Char} {t : Terminal}
    (h : (munchString cs).outcome = .ok t) : t.Readable := by
  unfold munchString at h
  split at h
  · cases h
  · cases h
    intro quote
    rw [String.toList_ofList] at quote
    simpa using List.mem_takeWhile_imp quote

theorem munch_readable {c : Char} {cs : List Char} {t : Terminal}
    (h : (munch c cs).outcome = .ok t) : t.Readable := by
  unfold munch at h
  split at h
  · cases h
    trivial
  · split at h
    · exact munchString_readable h
    · split at h
      · simp only [munchInteger] at h
        split at h
        · next small => cases h; exact small
        · cases h
      · split at h
        · next starts =>
          cases h
          exact Terminal.readable_ofWord starts fun _ => List.mem_takeWhile_imp
        · cases h

namespace Lexer

theorem next_readable {l m : Lexer} {t : Token} (h : l.next = (some (.ok t), m)) :
    t.terminal.Readable := by
  unfold next at h
  split at h
  · simp at h
  · next c cs p here =>
    have read := (Prod.mk.inj h).1
    simp only [itemAt] at read
    split at read
    · next terminal munched =>
      cases read
      exact munch_readable munched
    · simp at read

theorem readFrom_readable {before : List Token} {l : Lexer}
    (earlier : ∀ t ∈ before, t.terminal.Readable) :
    ∀ t ∈ (readFrom before l).tokens, t.terminal.Readable := by
  fun_induction readFrom before l with
  | case1 before l m h => simpa using earlier
  | case2 before l e m h => simpa using earlier
  | case3 before l t m h ih => exact ih (List.forall_mem_cons.2 ⟨next_readable h, earlier⟩)

/-- Whatever is read has a spelling; in particular no keyword is read as a name. -/
theorem readable_of_mem_read {l : Lexer} {t : Terminal} (mem : t ∈ l.read.tokens.map (·.terminal)) :
    t.Readable := by
  obtain ⟨token, there, rfl⟩ := List.mem_map.1 mem
  exact readFrom_readable (by simp) token there

end Lexer

/-! ## Spellings and spans -/

/-- The spelling of a token is the text between the two ends of its span. -/
def Token.Spells (t : Token) (source : String) : Prop :=
  ∃ before after, source = before ++ t.lexeme ++ after ∧ before.utf8ByteSize = t.span.start ∧
    (before ++ t.lexeme).utf8ByteSize = t.span.stop

theorem Position.afterAll_append (p : Position) (cs ds : List Char) :
    p.afterAll (cs ++ ds) = (p.afterAll cs).afterAll ds :=
  List.foldl_append

theorem utf8ByteSize_ofList_cons (c : Char) (cs : List Char) :
    (String.ofList (c :: cs)).utf8ByteSize = c.utf8Size + (String.ofList cs).utf8ByteSize := by
  rw [String.ofList_cons, String.utf8ByteSize_append, String.utf8ByteSize_singleton]

/-- The offset counts bytes. -/
theorem Position.offset_afterAll (p : Position) (cs : List Char) :
    (p.afterAll cs).offset = p.offset + (String.ofList cs).utf8ByteSize := by
  induction cs generalizing p with
  | nil => rfl
  | cons c cs ih =>
    have first : p.afterAll (c :: cs) = (p.after c).afterAll cs := rfl
    rw [first, ih, utf8ByteSize_ofList_cons, ← Nat.add_assoc]
    rfl

namespace Lexer

/-- The lexer stands in a source: what is left is the end of it, and the place is right. -/
def In (l : Lexer) (source : List Char) : Prop :=
  ∃ before, source = before ++ l.rest ∧ l.position = Position.start.afterAll before

theorem in_ofString (source : String) : (ofString source).In source.toList :=
  ⟨[], rfl, rfl⟩

theorem In.move {p : Position} {rest source : List Char} (covered : List Char)
    (h : In ⟨covered ++ rest, p⟩ source) : In ⟨rest, p.afterAll covered⟩ source := by
  obtain ⟨before, rfl, rfl⟩ := h
  exact ⟨before ++ covered, (List.append_assoc ..).symm, (Position.afterAll_append ..).symm⟩

theorem in_skipTrivia {source : List Char} (t : Trivia) (p : Position) (cs : List Char)
    (h : In ⟨cs, p⟩ source) : (skipTrivia t p cs).In source := by
  fun_induction skipTrivia t p cs with
  | case1 p cs ih => exact ih (h.move ['/', '/'])
  | case2 p cs ih => exact ih (h.move ['/', '*'])
  | case3 p c cs _ _ _ ih => exact ih (h.move [c])
  | case4 p c cs => exact h
  | case5 p c cs ih => exact ih (h.move [c])
  | case6 p cs ih => exact ih (h.move ['*', '/'])
  | case7 p c cs _ ih => exact ih (h.move [c])
  | case8 t p => exact h

theorem In.next {source : String} {l m : Lexer} {t : Token} (h : l.In source.toList)
    (read : l.next = (some (.ok t), m)) : t.Spells source ∧ m.In source.toList := by
  have skipped : l.skip.In source.toList := in_skipTrivia .blank l.position l.rest h
  unfold Lexer.next at read
  split at read
  · cases read
  · next c cs p here =>
    rw [here, ← Munch.covered_append_rest] at skipped
    obtain ⟨item, rfl⟩ := Prod.mk.inj read
    refine ⟨?_, skipped.move⟩
    simp only [itemAt] at item
    split at item
    · cases item
      obtain ⟨before, all, rfl⟩ := skipped
      have size : (String.ofList before).utf8ByteSize = (Position.start.afterAll before).offset :=
        ((Position.offset_afterAll _ _).trans (Nat.zero_add _)).symm
      refine ⟨String.ofList before, String.ofList (munch c cs).rest, ?_, size, ?_⟩
      · rw [← String.ofList_append, ← String.ofList_append, List.append_assoc, ← all,
          String.ofList_toList]
      · rw [String.utf8ByteSize_append, size]
        exact (Position.offset_afterAll _ _).symm
    · cases item

theorem readFrom_spells {source : String} {before : List Token} {l : Lexer}
    (h : l.In source.toList) (earlier : ∀ t ∈ before, t.Spells source) :
    ∀ t ∈ (readFrom before l).tokens, t.Spells source := by
  fun_induction readFrom before l with
  | case1 before l m _ => simpa using earlier
  | case2 before l e m _ => simpa using earlier
  | case3 before l t m read ih =>
    obtain ⟨spells, rest⟩ := h.next read
    exact ih rest (List.forall_mem_cons.2 ⟨spells, earlier⟩)

/-- Every token is spelled as the source is in its span. -/
theorem spells_of_mem_read {source : String} {t : Token}
    (mem : t ∈ (ofString source).read.tokens) : t.Spells source :=
  readFrom_spells (in_ofString source) (by simp) t mem

end Lexer

end JackToVm
