import JackToVm.Proofs.Sinks
import JackToVm.Proofs.Tiling

/-!
# Spacing between tokens

A text can be spaced out in front of any of its tokens: with a blank, and behind that blank with
more blanks and with comments that are closed. The blank keeps the slash of a comment apart from a
slash in front of it. What is before the token stays as it is; the token and what is behind it only
move.

Results.
1. Spacing is what may stand in a gap before an item (`spacing_iff_gap`), so a gap can be made
   longer by it (`Spacing.append_gap`).
2. An item is read in the same way if the text behind it starts with the same character as before,
   or with a blank (`Reads.of_startsLike`).
3. A tiling moves as a whole (`Tiles.shift`); spacing moves the part of it that is behind
   (`Tiles.insert`).
4. The result of a compilation depends on the terminals alone, so it stays the same
   (`spacing_keeps_result`).
-/

namespace JackToVm

/-! ## Spacing -/

/-- Blanks, comments from two slashes to a line feed, and comments from `/*` to the first `*/`. -/
inductive Spacing : List Char → Prop
  | nil : Spacing []
  | blank {c : Char} {more : List Char} : isBlank c → Spacing more → Spacing (c :: more)
  | line {text more : List Char} : '\n' ∉ text → Spacing more →
      Spacing ('/' :: '/' :: (text ++ '\n' :: more))
  | block {text more : List Char} : ¬['*', '/'] <:+: text → Spacing more →
      Spacing ('/' :: '*' :: (text ++ '*' :: '/' :: more))

/-- Spacing that starts with a blank. -/
inductive Layout : List Char → Prop
  | mk {c : Char} {more : List Char} : isBlank c → Spacing more → Layout (c :: more)

section

variable {layout gap after : List Char}

theorem Layout.spacing (isLayout : Layout layout) : Spacing layout := by
  cases isLayout with
  | mk blank more => exact .blank blank more

/-- A gap is made longer by spacing in front of it. -/
theorem Spacing.append_gap (isSpacing : Spacing layout) (isGap : Gap gap after) :
    Gap (layout ++ gap) after := by
  induction isSpacing with
  | nil => exact isGap
  | blank blank _ ih => exact .blank blank ih
  | line first _ ih =>
    simp only [List.cons_append, List.append_assoc]
    exact .line first ih
  | block first _ ih =>
    simp only [List.cons_append, List.append_assoc]
    exact .block first ih

/-- A gap in front of an item has no open comment in it. -/
theorem Gap.spacing (isGap : Gap gap after) (inFront : after ≠ []) : Spacing gap := by
  induction isGap with
  | nil => exact .nil
  | blank blank _ ih => exact .blank blank (ih inFront)
  | line first _ ih => exact .line first (ih inFront)
  | block first _ ih => exact .block first (ih inFront)
  | lineToEnd | blockToEnd => exact absurd rfl inFront

/-- Spacing is what makes a gap in front of every text. -/
theorem spacing_iff_gap : Spacing layout ↔ ∀ after, Gap layout after := by
  constructor
  · intro isSpacing after
    have isGap : Gap (layout ++ []) after := isSpacing.append_gap .nil
    rwa [List.append_nil] at isGap
  · exact fun isGap => (isGap ['.']).spacing (List.cons_ne_nil _ _)

end

/-! ## The text behind an item -/

/-- Another text instead of one that is not empty: it starts with the same character, or with a
blank. -/
inductive StartsLike : List Char → List Char → Prop
  | same {c : Char} {cs ds : List Char} : StartsLike (c :: cs) (c :: ds)
  | blank {c d : Char} {cs ds : List Char} : isBlank c → StartsLike (c :: cs) (d :: ds)

section

variable {other after covered : List Char}

theorem StartsLike.ne_nil (like : StartsLike other after) : after ≠ [] := by
  cases like <;> exact List.cons_ne_nil _ _

/-- Spacing behind `covered` goes between it and what was behind it. -/
theorem startsLike_insert {gap layout : List Char} (isLayout : Layout layout)
    (some : covered ≠ []) :
    StartsLike (gap ++ layout ++ (covered ++ after)) (gap ++ (covered ++ after)) := by
  obtain ⟨d, ds, rfl⟩ := List.exists_cons_of_ne_nil some
  cases gap with
  | nil =>
    cases isLayout with
    | mk blank _ => exact .blank blank
  | cons c gap => exact .same

/-- A longest run of characters of names ends where it ended. -/
theorem LongestRun.of_startsLike {P : Char → Bool} (inNames : ∀ c, P c → continuesName c)
    (longest : LongestRun P covered after) (like : StartsLike other after) :
    LongestRun P covered other := by
  refine ⟨longest.all, fun c mem => ?_⟩
  cases like with
  | same => exact longest.ends c mem
  | blank blank =>
    obtain rfl := Option.some.inj mem
    refine Bool.eq_false_iff.2 fun inRun => ?_
    have inName := inNames _ inRun
    rw [continuesName_eq_false_of_isBlank blank] at inName
    cases inName

theorem Reads.of_startsLike {outcome : Except LexCause Terminal}
    (reads : Reads covered after outcome) (like : StartsLike other after) :
    Reads covered other outcome := by
  have digits := fun c => continuesName_of_isDigit (c := c)
  cases reads with
  | symbol s => exact .symbol s
  | string first => exact .string first
  | openString => exact absurd rfl like.ne_nil
  | integer some longest small => exact .integer some (longest.of_startsLike digits like) small
  | tooLarge some longest large => exact .tooLarge some (longest.of_startsLike digits like) large
  | keyword starts longest spelled =>
    exact .keyword starts (longest.of_startsLike (fun _ => id) like) spelled
  | identifier starts longest noKeyword =>
    exact .identifier starts (longest.of_startsLike (fun _ => id) like) noKeyword
  | other noSymbol noQuote noDigit noName => exact .other noSymbol noQuote noDigit noName

/-- No gap starts with the last slash of an item, if none did. -/
theorem not_startsGap_of_startsLike (ends : ¬StartsGap (covered ++ after)) (some : covered ≠ [])
    (like : StartsLike other after) : ¬StartsGap (covered ++ other) := by
  obtain ⟨c, cs, rfl⟩ := List.exists_cons_of_ne_nil some
  intro starts
  refine ends ?_
  cases cs with
  | cons d cs =>
    cases starts with
    | blank blank => exact .blank blank
    | line => exact .line
    | block => exact .block
  | nil =>
    cases like with
    | same =>
      cases starts with
      | blank blank => exact .blank blank
      | line => exact .line
      | block => exact .block
    | blank blank =>
      cases starts with
      | blank blank => exact .blank blank
      | line | block => exact absurd blank (by decide)

end

/-! ## Moving items -/

def Span.shift (s : Span) (bytes : Nat) : Span :=
  ⟨s.start + bytes, s.stop + bytes⟩

/-- A token some bytes and some lines further down. -/
def Token.shift (t : Token) (bytes lines : Nat) : Token :=
  { t with span := t.span.shift bytes, line := t.line + lines }

namespace Item

/-- An item some bytes and some lines further down. -/
def shift (bytes lines : Nat) : Item → Item
  | .ok t => .ok (t.shift bytes lines)
  | .error e => .error { e with span := e.span.shift bytes, line := e.line + lines }

/-- An item stands behind another text as it stood, moved by the bytes and the lines that there
are more of. -/
theorem Stands.shift {item : Item} {before before' covered after : List Char} {bytes lines : Nat}
    (stands : item.Stands before covered after)
    (size : (String.ofList before').utf8ByteSize = (String.ofList before).utf8ByteSize + bytes)
    (count : before'.count '\n' = before.count '\n' + lines) :
    (item.shift bytes lines).Stands before' covered after := by
  have start : (item.shift bytes lines).span.start = item.span.start + bytes := by
    cases item <;> rfl
  have stop : (item.shift bytes lines).span.stop = item.span.stop + bytes := by
    cases item <;> rfl
  have line : (item.shift bytes lines).line = item.line + lines := by
    cases item <;> rfl
  have outcome : (item.shift bytes lines).outcome = item.outcome := by
    cases item <;> rfl
  constructor
  case reads => rw [outcome]; exact stands.reads
  case start => rw [start, stands.start, size]
  case stop =>
    rw [stop, stands.stop, utf8ByteSize_ofList_append, utf8ByteSize_ofList_append, size]
    omega
  case line =>
    rw [line, stands.line, count]
    omega
  case lexeme =>
    rintro t same
    cases item with
    | ok u => cases same; exact stands.lexeme u rfl
    | error e => cases same

end Item

/-- A tiling behind another text. -/
theorem Tiles.shift {before before' rest : List Char} {items : List Item} {bytes lines : Nat}
    (tiles : Tiles before rest items)
    (size : (String.ofList before').utf8ByteSize = (String.ofList before).utf8ByteSize + bytes)
    (count : before'.count '\n' = before.count '\n' + lines) :
    Tiles before' rest (items.map (Item.shift bytes lines)) := by
  induction tiles generalizing before' with
  | atEnd isGap => exact .atEnd isGap
  | @item before gap covered after item items isGap ends stands _ ih =>
    refine .item isGap ends (stands.shift ?_ ?_) (ih ?_ ?_)
    all_goals simp only [utf8ByteSize_ofList_append, List.count_append, size, count]
    all_goals omega

/-- Layout in front of a token: the items before it stay, the others move by its bytes and its
lines. -/
theorem Tiles.insert {before rest layout : List Char} {items ante post : List Item} {t : Token}
    (tiles : Tiles before rest items) (parts : items = ante ++ .ok t :: post)
    (isLayout : Layout layout) :
    ∃ front behind, rest = front ++ behind ∧
      (String.ofList (before ++ front)).utf8ByteSize = t.span.start ∧
      StartsLike (front ++ layout ++ behind) rest ∧
      Tiles before (front ++ layout ++ behind) (ante ++ (.ok t :: post).map
        (Item.shift (String.ofList layout).utf8ByteSize (layout.count '\n'))) := by
  induction ante generalizing before rest items with
  | nil =>
    cases tiles with
    | atEnd => cases parts
    | @item _ gap covered after item items isGap ends stands others =>
      obtain ⟨rfl, rfl⟩ := List.cons.inj parts
      have some := stands.reads.covered_ne_nil
      have inFront : covered ++ after ≠ [] := fun none => some (List.append_eq_nil_iff.1 none).1
      have isGap' : Gap (gap ++ layout) (covered ++ after) :=
        (isGap.spacing inFront).append_gap (spacing_iff_gap.1 isLayout.spacing _)
      have stands' : (Item.shift (String.ofList layout).utf8ByteSize (layout.count '\n')
          (.ok t)).Stands (before ++ (gap ++ layout)) covered after :=
        stands.shift (by simp only [utf8ByteSize_ofList_append, Nat.add_assoc])
          (by simp only [List.count_append, Nat.add_assoc])
      have others' : Tiles (before ++ (gap ++ layout) ++ covered) after
          (items.map (Item.shift (String.ofList layout).utf8ByteSize (layout.count '\n'))) :=
        others.shift (by simp only [utf8ByteSize_ofList_append]; omega)
          (by simp only [List.count_append]; omega)
      exact ⟨gap, covered ++ after, rfl, stands.start.symm, startsLike_insert isLayout some,
        .item isGap' ends stands' others'⟩
  | cons first ante ih =>
    cases tiles with
    | atEnd => cases parts
    | @item _ gap covered after item items isGap ends stands others =>
      obtain ⟨rfl, rfl⟩ := List.cons.inj parts
      obtain ⟨front, behind, rfl, size, like, moved⟩ := ih others rfl
      have some := stands.reads.covered_ne_nil
      have inFront : covered ++ (front ++ behind) ≠ [] :=
        fun none => some (List.append_eq_nil_iff.1 none).1
      have isGap' := spacing_iff_gap.1 (isGap.spacing inFront)
        (covered ++ (front ++ layout ++ behind))
      have stands' : item.Stands (before ++ gap) covered (front ++ layout ++ behind) :=
        { stands with reads := stands.reads.of_startsLike like }
      have all : gap ++ covered ++ front ++ layout ++ behind =
          gap ++ (covered ++ (front ++ layout ++ behind)) := by
        simp only [List.append_assoc]
      refine ⟨gap ++ covered ++ front, behind, by simp only [List.append_assoc], ?_, ?_, ?_⟩
      · simpa only [List.append_assoc] using size
      · rw [all]
        obtain ⟨c, cs, rfl⟩ := List.exists_cons_of_ne_nil some
        cases gap <;> exact .same
      · rw [all]
        exact .item isGap' (not_startsGap_of_startsLike ends some like) stands' moved

/-! ## Sources -/

/-- A source with some of its items moved has the same terminals. -/
theorem Lexes.of_shift {source source' : String} {ts : List Terminal} {ante post : List Item}
    {bytes lines : Nat} (items : (Lexer.ofString source).items.1 = ante ++ post)
    (items' : (Lexer.ofString source').items.1 = ante ++ post.map (Item.shift bytes lines))
    (lexes : Lexes source ts) : Lexes source' ts := by
  obtain ⟨tokens, read, rfl⟩ := lexes
  obtain ⟨first, others, rfl, rfl, rfl⟩ := List.map_eq_append_iff.1 (read.symm.trans items)
  refine ⟨first ++ others.map (Token.shift · bytes lines), ?_, ?_⟩
  · rw [items', List.map_append, List.map_map, List.map_map]
    rfl
  · rw [List.map_append, List.map_append, List.map_map]
    rfl

/-- Layout in front of a token moves that token and what is behind it, and changes no result. -/
theorem spacing_keeps_result {source layout : String} {ante post : List Item} {t : Token}
    (items : (Lexer.ofString source).items.1 = ante ++ .ok t :: post)
    (isLayout : Layout layout.toList) :
    ∃ front behind : String, source = front ++ behind ∧ front.utf8ByteSize = t.span.start ∧
      (Lexer.ofString (front ++ layout ++ behind)).items.1 =
        ante ++ (.ok t :: post).map
          (Item.shift layout.utf8ByteSize (layout.toList.count '\n')) ∧
      ∀ text, compile source = .ok text →
        compile (front ++ layout ++ behind) = .ok text ∧
        ∃ tokens tree,
          tokenXml source = .ok tokens ∧ tokenXml (front ++ layout ++ behind) = .ok tokens ∧
          treeXml source = .ok tree ∧ treeXml (front ++ layout ++ behind) = .ok tree := by
  obtain ⟨front, behind, cut, size, -, tiles⟩ :=
    (tiles_iff_items_eq.2 items).insert rfl isLayout
  have whole : (String.ofList front ++ layout ++ String.ofList behind).toList =
      front ++ layout.toList ++ behind := by
    simp only [String.toList_append, String.toList_ofList]
  rw [← whole, String.ofList_toList] at tiles
  have moved := tiles_iff_items_eq.1 tiles
  refine ⟨String.ofList front, String.ofList behind, ?_, size, moved, fun text compiled => ?_⟩
  · rw [← String.ofList_append, ← cut, String.ofList_toList]
  · obtain ⟨d, lexes, -⟩ := compile_eq_ok_iff.1 compiled
    obtain ⟨tree, written⟩ := exists_treeXml_of_compile compiled
    have lexes' := lexes.of_shift items moved
    exact ⟨compile_congr_of_lexes lexes lexes' compiled, _, tree, tokenXml_of_lexes lexes,
      tokenXml_of_lexes lexes', written, treeXml_congr_of_lexes lexes lexes' written⟩

/-- A comment that opens with `/*/` has a quote in it, and a comment to the end of the line is
behind it. -/
theorem spacing_keeps_division :
    (Lexer.ofString "class A{function int f(){return 6/2;}}").items.1 =
        (Lexer.ofString "class A{function int f(){return 6/2;}}").items.1.take 12 ++
          .ok ⟨.integer 2, "2", ⟨34, 35⟩, 1⟩ ::
            (Lexer.ofString "class A{function int f(){return 6/2;}}").items.1.drop 13 ∧
      Layout "\t/*/\"*///\n".toList ∧
      ∃ front behind : String,
        "class A{function int f(){return 6/2;}}" = front ++ behind ∧ front.utf8ByteSize = 34 ∧
        compile (front ++ "\t/*/\"*///\n" ++ behind) =
          .ok "function A.f 0\npush constant 6\npush constant 2\ncall Math.divide 2\nreturn\n" := by
  have items : (Lexer.ofString "class A{function int f(){return 6/2;}}").items.1 =
      (Lexer.ofString "class A{function int f(){return 6/2;}}").items.1.take 12 ++
        .ok ⟨.integer 2, "2", ⟨34, 35⟩, 1⟩ ::
          (Lexer.ofString "class A{function int f(){return 6/2;}}").items.1.drop 13 := by
    decide +kernel
  have isLayout : Layout "\t/*/\"*///\n".toList :=
    .mk (by decide) (@Spacing.block ['/', '"'] _ (by decide) (@Spacing.line [] _ (by decide) .nil))
  have compiled : compile "class A{function int f(){return 6/2;}}" =
      .ok "function A.f 0\npush constant 6\npush constant 2\ncall Math.divide 2\nreturn\n" := by
    decide +kernel
  obtain ⟨front, behind, cut, size, -, same⟩ := spacing_keeps_result items isLayout
  exact ⟨items, isLayout, front, behind, cut, size, (same _ compiled).1⟩

end JackToVm
