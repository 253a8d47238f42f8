import JackToVm.Writer
import JackToVm.Xml
import JackToVm.Proofs.Ending

/-!
# Sinks that refuse instructions

The log of a compilation tells what every other sink sees. A sink is told the events of the log up
to the first instruction that it refuses; that instruction ends the compilation, and the error is
blamed on the token that is next in the text. Nothing before it is changed.

Results.
1. A sink that refuses nothing has the outcome of the log (`compileInto_of_fed`), and a sink that
   refuses an instruction has that refusal as its outcome (`compileInto_of_refused`), also where the
   text has errors behind it. Every sink is told what it takes of the log (`fst_compileInto`).
2. A log with a limit has what the log without has, up to the first instruction above the limit
   (`Sink.feed_logUpTo`, `exists_split_at_instruction`).
3. A writer with a quota takes that many bytes of what a writer without one takes
   (`Sink.feed_writer`, `exists_refused_of_gt`), and the same holds of a program that is written
   as a whole (`Writer.emitAll_eq_feed`).
4. All of it together: `sinks_follow_log`.
-/

namespace JackToVm

/-! ## Sinks and the log -/

/-- The error for an instruction that is refused where `k` terminals are consumed: it names the
token that is next. At the end of the text there is none, and the line is the last one. -/
def Lexer.Reading.refusal (r : Lexer.Reading) (reason : String) (k : Nat) : CompileError :=
  match r.tokens[k]? with
  | some t => ⟨.emission reason, some t, t.line⟩
  | none => ⟨.emission reason, none, r.finish.line⟩

section

variable {σ : Type} {sink : Sink σ} {source reason : String} {s t u : σ} {log : Array Event}
  {outcome : Option CompileError} {es before after : List Event} {i : Instruction}

/-- The log has the events of the pass. -/
theorem finishes_or_stops_of_events (logged : events source = (log, outcome)) :
    (Lexer.ofString source).read.Finishes log.toList ∧ outcome = none ∨
      ∃ failure, (Lexer.ofString source).read.Stops log.toList failure ∧
        outcome = some ((Lexer.ofString source).read.locate failure) := by
  have told (es : List Event) : Sink.log.feed #[] es = (es.toArray, none) := by
    rw [Sink.feed_log, Array.empty_append]
  rcases (Lexer.ofString source).read.exists_ending with ⟨es, finishes⟩ | ⟨es, failure, stops⟩
  · have ran := compileInto_of_finishes finishes (told es)
    obtain ⟨rfl, rfl⟩ := Prod.mk.inj (logged.symm.trans ran)
    exact .inl ⟨finishes, rfl⟩
  · have ran := compileInto_of_stops stops (told es)
    obtain ⟨rfl, rfl⟩ := Prod.mk.inj (logged.symm.trans ran)
    exact .inr ⟨failure, stops, rfl⟩

/-- A sink that takes all instructions of the log has its outcome. -/
theorem compileInto_of_fed (logged : events source = (log, outcome))
    (fed : sink.feed s log.toList = (t, none)) : compileInto sink source s = (t, outcome) := by
  rcases finishes_or_stops_of_events logged with ⟨finishes, rfl⟩ | ⟨failure, stops, rfl⟩
  · exact compileInto_of_finishes finishes fed
  · exact compileInto_of_stops stops fed

/-- An instruction of the log comes from a machine that the pass gets to. -/
theorem exists_emits_of_events (logged : events source = (log, outcome))
    (parts : log.toList = before ++ .emitted i :: after) :
    ∃ m next, (Lexer.ofString source).read.Reaches before m ∧
      m.move ((Lexer.ofString source).read.failure.map (·.cause)) = .emits i next := by
  have split {m : Machine} {after : List Event}
      (reaches : (Lexer.ofString source).read.Reaches (before ++ .emitted i :: after) m) :
      ∃ m next, (Lexer.ofString source).read.Reaches before m ∧
        m.move ((Lexer.ofString source).read.failure.map (·.cause)) = .emits i next := by
    obtain ⟨n, next, first, emits⟩ := reaches.reached.split_emitted (Machine.start_proper _)
    exact ⟨n, next, ⟨reaches.starts, first⟩, emits⟩
  rcases finishes_or_stops_of_events logged with ⟨⟨m, reaches, -⟩, -⟩ | ⟨failure, stops, -⟩
  · rw [parts] at reaches
    exact split reaches
  · generalize log.toList = events at parts stops
    cases stops with
    | unread _ _ => cases before <;> cases parts
    | @stuck es last m _ reaches fails =>
      -- the last events hold no instruction, so it stands before them
      have silent := fails.silent (reaches.reached.proper (Machine.start_proper _))
      rcases List.append_eq_append_iff.1 parts with ⟨rest, rfl, tail⟩ | ⟨rest, rfl, tail⟩
      · rw [tail, instructionsOf_append, instructionsOf_cons] at silent
        cases (List.append_eq_nil_iff.1 silent).2
      · cases rest with
        | nil =>
          rw [List.nil_append] at tail
          rw [← tail, instructionsOf_cons] at silent
          cases silent
        | cons e rest =>
          obtain ⟨rfl, -⟩ := List.cons.inj tail
          exact split reaches

/-- A sink that refuses an instruction ends the compilation there. -/
theorem compileInto_of_refused (logged : events source = (log, outcome))
    (parts : log.toList = before ++ .emitted i :: after) (fed : sink.feed s before = (t, none))
    (refused : sink.emit t i = (u, some reason)) :
    compileInto sink source s =
      (u, some ((Lexer.ofString source).read.refusal reason (terminalsOf before).length)) := by
  obtain ⟨m, next, reaches, emits⟩ := exists_emits_of_events logged parts
  obtain ⟨read, count⟩ := reaches.terminals
  have ran := Machine.run_of_reaches (Machine.start_proper _) reaches.reached fed
  rw [Machine.run_of_refused emits refused] at ran
  have located : (Lexer.ofString source).read.locate ⟨.emission reason, m.site⟩ =
      (Lexer.ofString source).read.refusal reason (terminalsOf before).length := by
    unfold Lexer.Reading.locate Lexer.Reading.refusal
    rw [count]
    split
    · next t there => simp only [there]
    · next atEnd =>
      simp only [atEnd]
      have short : m.ahead = [] := by
        have few : (Lexer.ofString source).read.tokens.length ≤ (terminalsOf before).length :=
          List.getElem?_eq_none_iff.1 atEnd
        have lengths := congrArg List.length read
        rw [List.length_map, List.length_append] at lengths
        exact List.eq_nil_of_length_eq_zero (by omega)
      rw [Lexer.Reading.lastLine, reaches.failure_eq_none short]
  simp only [compileInto, Lexer.Reading.compileTerminals_eq_run reaches.starts, ran,
    Option.map_some, located]

/-- A sink that refuses an instruction is told no event behind it. -/
theorem Sink.feed_of_refused (fed : sink.feed s before = (t, none))
    (refused : sink.emit t i = (u, some reason)) :
    sink.feed s (before ++ .emitted i :: after) = (u, some reason) := by
  rw [feed_append, fed]
  simp only [feed, refused]

/-- A sink stops at an instruction only. -/
theorem Sink.exists_refused (fed : sink.feed s es = (u, some reason)) :
    ∃ before i after t, es = before ++ .emitted i :: after ∧ sink.feed s before = (t, none) ∧
      sink.emit t i = (u, some reason) := by
  induction es generalizing s with
  | nil => cases fed
  | cons e es ih =>
    cases silent : e.instruction? with
    | none =>
      rw [feed_cons_of_silent silent] at fed
      obtain ⟨before, i, after, t, rfl, first, refused⟩ := ih fed
      refine ⟨e :: before, i, after, t, rfl, ?_, refused⟩
      rw [feed_cons_of_silent silent, first]
    | some i =>
      obtain rfl : e = .emitted i := by cases e <;> cases silent; rfl
      simp only [feed] at fed
      split at fed
      · next t taken =>
        obtain ⟨before, j, after, t', rfl, first, refused⟩ := ih fed
        refine ⟨.emitted i :: before, j, after, t', rfl, ?_, refused⟩
        simp only [feed, taken, first]
      · next refused =>
        cases fed
        exact ⟨[], i, es, s, rfl, rfl, refused⟩

/-- Whatever a sink takes, it is told of a compilation what it takes of the log. -/
theorem fst_compileInto (sink : Sink σ) (source : String) (s : σ) :
    (compileInto sink source s).1 = (sink.feed s (events source).1.toList).1 := by
  have logged : events source = ((events source).1, (events source).2) := rfl
  cases fed : sink.feed s (events source).1.toList with
  | mk u refusal =>
    cases refusal with
    | none => rw [compileInto_of_fed logged fed]
    | some reason =>
      obtain ⟨before, i, after, t, parts, first, refused⟩ := Sink.exists_refused fed
      rw [compileInto_of_refused logged parts first refused]

end

/-- The sink of parse trees takes every instruction. -/
theorem Sink.feed_xmlTree (t : TreeText) (es : List Event) :
    xmlTree.feed t es = (es.foldl TreeText.report t, none) := by
  induction es generalizing t with
  | nil => rfl
  | cons e es ih => cases e <;> exact ih _

/-! ## Sources with the same terminals -/

section

variable {source source' : String} {ts : List Terminal}

/-- Of a source that can be read only the terminals matter; its tokens tell where an error is. -/
theorem compileInto_of_lexes {σ : Type} {sink : Sink σ} (lexes : Lexes source ts) (s : σ) :
    compileInto sink source s =
      ((compileTerminals sink ts none s).1,
        (compileTerminals sink ts none s).2.map (Lexer.ofString source).read.locate) := by
  obtain ⟨noError, rfl⟩ := lexes_iff.1 lexes
  simp only [compileInto, noError, Option.map_none]

/-- A sink ends up the same for two sources with the same terminals. -/
theorem compileInto_congr_of_lexes {σ : Type} {sink : Sink σ} {s t : σ} (lexes : Lexes source ts)
    (lexes' : Lexes source' ts) (compiled : compileInto sink source s = (t, none)) :
    compileInto sink source' s = (t, none) := by
  rw [compileInto_of_lexes lexes, Prod.mk.injEq, Option.map_eq_none_iff] at compiled
  obtain ⟨done, well⟩ := compiled
  rw [compileInto_of_lexes lexes', done, well]
  rfl

theorem compile_congr_of_lexes {text : String} (lexes : Lexes source ts) (lexes' : Lexes source' ts)
    (compiled : compile source = .ok text) : compile source' = .ok text := by
  obtain ⟨d, reads, rules, rfl⟩ := compile_eq_ok_iff.1 compiled
  obtain rfl : ts = d.terminals :=
    (lexes_iff.1 lexes).2.symm.trans (lexes_iff.1 reads).2
  exact compile_eq_ok_iff.2 ⟨d, lexes', rules, rfl⟩

theorem treeXml_eq_ok_iff {xml : String} :
    treeXml source = .ok xml ↔
      ∃ t : TreeText, compileInto .xmlTree source .empty = (t, none) ∧ t.text = xml := by
  unfold treeXml
  split
  · next t here => simp [here]
  · next e here => simp [here]

theorem treeXml_congr_of_lexes {xml : String} (lexes : Lexes source ts) (lexes' : Lexes source' ts)
    (compiled : treeXml source = .ok xml) : treeXml source' = .ok xml := by
  obtain ⟨t, written, rfl⟩ := treeXml_eq_ok_iff.1 compiled
  exact treeXml_eq_ok_iff.2 ⟨t, compileInto_congr_of_lexes lexes lexes' written, rfl⟩

theorem tokenXml_of_lexes (lexes : Lexes source ts) :
    tokenXml source = .ok (tokensDocument ts) := by
  obtain ⟨noError, rfl⟩ := lexes_iff.1 lexes
  simp only [tokenXml, Lexer.tokens, noError]
  rfl

/-- A source that compiles has a parse tree. -/
theorem exists_treeXml_of_compile {text : String} (compiled : compile source = .ok text) :
    ∃ xml, treeXml source = .ok xml := by
  obtain ⟨d, lexes, rules, -⟩ := compile_eq_ok_iff.1 compiled
  have takes (t : TreeText) (es : List Event) : (Sink.xmlTree.feed t es).2 = none :=
    congrArg Prod.snd (Sink.feed_xmlTree t es)
  exact ⟨_, treeXml_eq_ok_iff.2 ⟨_, (compileInto_eq_iff takes).2 ⟨d, lexes, rules, rfl⟩, rfl⟩⟩

end

/-! ## A log with a limit -/

/-- A log with a limit keeps all events while there is room. -/
theorem Sink.feed_logUpTo {limit : Nat} (reason : String) {es : List Event} {s : Array Event}
    {taken : Nat} (room : taken + (instructionsOf es).length ≤ limit) :
    (Sink.logUpTo limit reason).feed (s, taken) es =
      ((s ++ es.toArray, taken + (instructionsOf es).length), none) := by
  induction es generalizing s taken with
  | nil => simp [feed]
  | cons e es ih =>
    rw [instructionsOf_cons, List.length_append] at room
    cases silent : e.instruction? with
    | none =>
      rw [silent, Option.toList_none, List.length_nil, Nat.zero_add] at room
      have told : (Sink.logUpTo limit reason).report (s, taken) e = (s.push e, taken) := rfl
      rw [feed_cons_of_silent silent, told, ih room, instructionsOf_cons, silent]
      simp
    | some i =>
      obtain rfl : e = .emitted i := by cases e <;> cases silent; rfl
      rw [silent, Option.toList_some, List.length_singleton, ← Nat.add_assoc] at room
      have short : taken < limit := by omega
      have emitted : (Sink.logUpTo limit reason).emit (s, taken) i =
          ((s.push (.emitted i), taken + 1), none) := if_pos short
      simp only [feed, emitted, ih room, instructionsOf_cons, Event.instruction?]
      simp [Nat.add_assoc, Nat.add_comm 1]

/-- The place of an instruction among some events. -/
theorem exists_split_at_instruction {es : List Event} {n : Nat}
    (more : n < (instructionsOf es).length) :
    ∃ before i after, es = before ++ .emitted i :: after ∧ (instructionsOf before).length = n := by
  induction es generalizing n with
  | nil => cases more
  | cons e es ih =>
    rw [instructionsOf_cons, List.length_append] at more
    cases silent : e.instruction? with
    | none =>
      rw [silent, Option.toList_none, List.length_nil, Nat.zero_add] at more
      obtain ⟨before, i, after, rfl, count⟩ := ih more
      refine ⟨e :: before, i, after, rfl, ?_⟩
      rw [instructionsOf_cons, silent]
      exact count
    | some i =>
      obtain rfl : e = .emitted i := by cases e <;> cases silent; rfl
      cases n with
      | zero => exact ⟨[], i, es, rfl, rfl⟩
      | succ n =>
        rw [silent, Option.toList_some, List.length_singleton] at more
        obtain ⟨before, j, after, rfl, count⟩ := ih (n := n) (by omega)
        refine ⟨.emitted i :: before, j, after, rfl, ?_⟩
        rw [instructionsOf_cons, List.length_append, count]
        exact Nat.add_comm 1 n

/-! ## Writers -/

/-- The text of the instructions among some events. -/
def textOf (es : List Event) : String :=
  vmText (instructionsOf es)

theorem textOf_append (es fs : List Event) : textOf (es ++ fs) = textOf es ++ textOf fs := by
  unfold textOf vmText
  rw [instructionsOf_append, List.map_append, String.join_append]

theorem textOf_cons_of_silent {e : Event} (silent : e.instruction? = none) (es : List Event) :
    textOf (e :: es) = textOf es := by
  unfold textOf
  rw [instructionsOf_cons, silent, Option.toList_none, List.nil_append]

theorem textOf_cons_emitted (i : Instruction) (es : List Event) :
    textOf (.emitted i :: es) = i.line ++ textOf es :=
  String.join_cons

section

variable {w : Writer} {es : List Event} {q : Nat}

theorem extract_of_size_le {bytes : ByteArray} {n : Nat} (short : bytes.size ≤ n) :
    bytes.extract 0 n = bytes := by
  have all := ByteArray.extract_zero_max_size (a := bytes) (i := n)
  rwa [Nat.max_eq_left short] at all

/-- A writer with room for all of an instruction. -/
theorem Writer.emit_of_room {i : Instruction}
    (room : ∀ q, w.quota = some q → w.written.size + i.line.utf8ByteSize ≤ q) :
    w.emit i = (⟨w.written ++ i.line.toUTF8, w.quota⟩, none) := by
  obtain ⟨bytes, _ | q⟩ := w
  · rfl
  · have fits : i.line.toUTF8.size ≤ q - bytes.size := Nat.le_sub_of_add_le' (room q rfl)
    simp only [emit, write, fits, decide_true, extract_of_size_le]

/-- A writer takes all instructions of some events if it has room for their text. -/
theorem Sink.feed_writer (es : List Event)
    (room : ∀ q, w.quota = some q → w.written.size + (textOf es).utf8ByteSize ≤ q) :
    Sink.writer.feed w es = (⟨w.written ++ (textOf es).toUTF8, w.quota⟩, none) := by
  induction es generalizing w with
  | nil =>
    have empty : (textOf []).toUTF8 = .empty := rfl
    rw [empty, ByteArray.append_empty]
    rfl
  | cons e es ih =>
    cases silent : e.instruction? with
    | none =>
      rw [textOf_cons_of_silent silent] at room ⊢
      rw [feed_cons_of_silent silent]
      exact ih room
    | some i =>
      obtain rfl : e = .emitted i := by cases e <;> cases silent; rfl
      rw [textOf_cons_emitted, String.utf8ByteSize_append] at room
      have first : Sink.writer.emit w i = (⟨w.written ++ i.line.toUTF8, w.quota⟩, none) :=
        Writer.emit_of_room fun q quota => by have := room q quota; omega
      have others := ih (w := ⟨w.written ++ i.line.toUTF8, w.quota⟩) fun q quota => by
        have size : i.line.toUTF8.size = i.line.utf8ByteSize := rfl
        rw [ByteArray.size_append, size, Nat.add_assoc]
        exact room q quota
      have text : (textOf (.emitted i :: es)).toUTF8 = i.line.toUTF8 ++ (textOf es).toUTF8 := by
        rw [textOf_cons_emitted]
        exact String.toByteArray_append
      simp only [feed, first, others, text, ByteArray.append_assoc]

/-- The instruction at which the text of some events gets longer than `q` bytes. -/
theorem exists_crossing (long : q < (textOf es).utf8ByteSize) :
    ∃ before i after, es = before ++ .emitted i :: after ∧ (textOf before).utf8ByteSize ≤ q ∧
      q < (textOf before).utf8ByteSize + i.line.utf8ByteSize := by
  induction es generalizing q with
  | nil => cases long
  | cons e es ih =>
    cases silent : e.instruction? with
    | none =>
      rw [textOf_cons_of_silent silent] at long
      obtain ⟨before, i, after, rfl, below, above⟩ := ih long
      refine ⟨e :: before, i, after, rfl, ?_, ?_⟩
      all_goals rw [textOf_cons_of_silent silent]
      · exact below
      · exact above
    | some i =>
      obtain rfl : e = .emitted i := by cases e <;> cases silent; rfl
      rw [textOf_cons_emitted, String.utf8ByteSize_append] at long
      by_cases here : q < i.line.utf8ByteSize
      · exact ⟨[], i, es, rfl, Nat.zero_le q, Nat.lt_of_lt_of_le here (Nat.le_add_left _ _)⟩
      · obtain ⟨before, j, after, rfl, below, above⟩ := ih (q := q - i.line.utf8ByteSize) (by omega)
        refine ⟨.emitted i :: before, j, after, rfl, ?_, ?_⟩
        all_goals rw [textOf_cons_emitted, String.utf8ByteSize_append]
        all_goals omega

/-- A writer whose quota is below the size of a text takes the first bytes of it. -/
theorem exists_refused_of_gt (long : q < (textOf es).utf8ByteSize) :
    ∃ before i after t, es = before ++ .emitted i :: after ∧
      (textOf before).utf8ByteSize ≤ q ∧
      q < (textOf before).utf8ByteSize + i.line.utf8ByteSize ∧
      Sink.writer.feed ⟨.empty, some q⟩ before = (t, none) ∧
      Sink.writer.emit t i = (⟨(textOf es).toUTF8.extract 0 q, some q⟩, some Writer.exceeded) := by
  obtain ⟨before, i, after, rfl, below, above⟩ := exists_crossing long
  have fed := Sink.feed_writer (w := ⟨.empty, some q⟩) before fun _ quota => by
    cases quota
    exact Nat.le_trans (Nat.le_of_eq (Nat.zero_add _)) below
  refine ⟨before, i, after, _, rfl, below, above, fed, ?_⟩
  rw [ByteArray.empty_append]
  have size : (textOf before).toUTF8.size = (textOf before).utf8ByteSize := rfl
  have lineSize : i.line.toUTF8.size = i.line.utf8ByteSize := rfl
  have long : ¬ i.line.toUTF8.size ≤ q - (textOf before).toUTF8.size := by
    rw [size, lineSize]
    omega
  -- the quota ends within the line, so what is behind the line does not count
  have text : (textOf (before ++ .emitted i :: after)).toUTF8.extract 0 q =
      (textOf before).toUTF8 ++ i.line.toUTF8.extract 0 (q - (textOf before).toUTF8.size) := by
    rw [textOf_append, textOf_cons_emitted]
    have parts : (textOf before ++ (i.line ++ textOf after)).toUTF8 =
        (textOf before).toUTF8 ++ (i.line.toUTF8 ++ (textOf after).toUTF8) := by
      show String.toByteArray _ = _
      rw [String.toByteArray_append, String.toByteArray_append]
      rfl
    rw [parts, ByteArray.extract_append, ByteArray.extract_append]
    rw [extract_of_size_le (Nat.le_trans (Nat.le_of_eq size) below), Nat.zero_sub, Nat.zero_sub]
    have none : (textOf after).toUTF8.extract 0
        (q - (textOf before).toUTF8.size - i.line.toUTF8.size) =
        .empty := by
      rw [ByteArray.extract_eq_empty_iff]
      omega
    rw [none, ByteArray.append_empty]
  simp only [Sink.writer, Writer.emit, Writer.write, long, decide_false, text]

/-- A program that is written as a whole is written instruction by instruction. -/
theorem Writer.emitAll_eq_feed (w : Writer) (code : List Instruction) :
    w.emitAll code = Sink.writer.feed w (code.map .emitted) := by
  induction code generalizing w with
  | nil => rfl
  | cons i code ih =>
    have step : Sink.writer.emit w i = w.emit i := rfl
    simp only [emitAll, List.map_cons, Sink.feed, step, ih]
    rcases w.emit i with ⟨t, _ | reason⟩ <;> rfl

theorem textOf_map_emitted (code : List Instruction) :
    textOf (code.map .emitted) = vmText code := by
  unfold textOf instructionsOf
  rw [List.filterMap_map]
  exact congrArg vmText List.filterMap_some

theorem Writer.emitAll_unlimited (code : List Instruction) :
    emitAll ⟨.empty, none⟩ code = (⟨(vmText code).toUTF8, none⟩, none) := by
  rw [emitAll_eq_feed, Sink.feed_writer (w := ⟨.empty, none⟩) _ nofun, textOf_map_emitted,
    ByteArray.empty_append]

theorem Writer.emitAll_limited (code : List Instruction) (q : Nat) :
    emitAll ⟨.empty, some q⟩ code =
      (⟨(vmText code).toUTF8.extract 0 q, some q⟩,
        if (vmText code).utf8ByteSize ≤ q then none else some exceeded) := by
  rw [emitAll_eq_feed, ← textOf_map_emitted]
  split
  · next fits =>
    have size : (textOf (code.map .emitted)).toUTF8.size ≤ q := fits
    rw [extract_of_size_le size]
    rw [Sink.feed_writer _ fun _ quota => by
      cases quota
      exact Nat.le_trans (Nat.le_of_eq (Nat.zero_add _)) fits]
    rw [ByteArray.empty_append]
  · next long =>
    obtain ⟨before, i, after, t, parts, -, -, fed, refused⟩ :=
      exists_refused_of_gt (Nat.not_le.1 long)
    conv_lhs => rw [parts]
    exact Sink.feed_of_refused fed refused

end

/-! ## All sinks -/

/-- What sinks get of a source that has this log and this outcome:
* a limit on the instructions changes nothing unless there are more of them, and else cuts the log
  in front of the first instruction above it;
* a writer gets the text of the instructions, or as many bytes of it as its quota has;
* the text of a compilation is all of it, or none. -/
structure SinksFollow (source : String) (log : List Event) (outcome : Option CompileError) :
    Prop where
  log_of_le : ∀ n reason, (instructionsOf log).length ≤ n →
    compileInto (.logUpTo n reason) source (#[], 0) =
      ((log.toArray, (instructionsOf log).length), outcome)
  log_of_gt : ∀ n reason, n < (instructionsOf log).length →
    ∃ before i after, log = before ++ .emitted i :: after ∧ (instructionsOf before).length = n ∧
      compileInto (.logUpTo n reason) source (#[], 0) =
        ((before.toArray, n),
          some ((Lexer.ofString source).read.refusal reason (terminalsOf before).length))
  writer : compileInto .writer source ⟨.empty, none⟩ = (⟨(textOf log).toUTF8, none⟩, outcome)
  writer_of_le : ∀ q, (textOf log).utf8ByteSize ≤ q →
    compileInto .writer source ⟨.empty, some q⟩ = (⟨(textOf log).toUTF8, some q⟩, outcome)
  writer_of_gt : ∀ q, q < (textOf log).utf8ByteSize →
    ∃ before i after, log = before ++ .emitted i :: after ∧
      (textOf before).utf8ByteSize ≤ q ∧
      q < (textOf before).utf8ByteSize + i.line.utf8ByteSize ∧
      compileInto .writer source ⟨.empty, some q⟩ =
        (⟨(textOf log).toUTF8.extract 0 q, some q⟩,
          some ((Lexer.ofString source).read.refusal Writer.exceeded
            (terminalsOf before).length))
  text : compile source = outcome.elim (.ok (textOf log)) .error

/-- The text of a compilation is that of the instructions of the log. -/
theorem compile_of_logged {source : String} {log : Array Event} {outcome : Option CompileError}
    (logged : events source = (log, outcome)) :
    compile source = outcome.elim (.ok (textOf log.toList)) .error := by
  have coded := compileInto_of_fed logged (Sink.feed_code #[] log.toList)
  rw [Array.empty_append] at coded
  unfold compile instructions
  rw [coded]
  cases outcome <;> rfl

/-- The parse tree of a compilation has the nodes and terminals of the log. -/
theorem treeXml_of_logged {source : String} {log : Array Event} {outcome : Option CompileError}
    (logged : events source = (log, outcome)) :
    treeXml source =
      outcome.elim (.ok (log.toList.foldl TreeText.report .empty).text) .error := by
  have written := compileInto_of_fed logged (Sink.feed_xmlTree .empty log.toList)
  unfold treeXml
  rw [written]
  cases outcome <;> rfl

/-- Every sink gets what the log of the compilation says, for all limits and quotas; a program that
is written as a whole gets as far as its text fits. -/
theorem sinks_follow_log (source : String) :
    SinksFollow source (events source).1.toList (events source).2 ∧
      (∀ code, Writer.emitAll ⟨.empty, none⟩ code = (⟨(vmText code).toUTF8, none⟩, none)) ∧
      ∀ code q, Writer.emitAll ⟨.empty, some q⟩ code =
        (⟨(vmText code).toUTF8.extract 0 q, some q⟩,
          if (vmText code).utf8ByteSize ≤ q then none else some Writer.exceeded) := by
  refine ⟨?_, Writer.emitAll_unlimited, Writer.emitAll_limited⟩
  have logged : events source = ((events source).1, (events source).2) := rfl
  constructor
  case log_of_le =>
    intro n reason few
    have room := Nat.le_trans (Nat.le_of_eq (Nat.zero_add _)) few
    have fed := Sink.feed_logUpTo reason (s := #[]) room
    rw [Array.empty_append, Nat.zero_add] at fed
    exact compileInto_of_fed logged fed
  case log_of_gt =>
    intro n reason more
    obtain ⟨before, i, after, parts, count⟩ := exists_split_at_instruction more
    refine ⟨before, i, after, parts, count, ?_⟩
    have room : 0 + (instructionsOf before).length ≤ n :=
      Nat.le_of_eq ((Nat.zero_add _).trans count)
    have fed := Sink.feed_logUpTo reason (s := #[]) room
    rw [Array.empty_append, Nat.zero_add, count] at fed
    exact compileInto_of_refused logged parts fed (if_neg (Nat.lt_irrefl n))
  case writer =>
    have fed := Sink.feed_writer (w := ⟨.empty, none⟩) (events source).1.toList nofun
    rw [ByteArray.empty_append] at fed
    exact compileInto_of_fed logged fed
  case writer_of_le =>
    intro q fits
    have fed := Sink.feed_writer (w := ⟨.empty, some q⟩) _ fun _ quota => by
      cases quota
      exact Nat.le_trans (Nat.le_of_eq (Nat.zero_add _)) fits
    rw [ByteArray.empty_append] at fed
    exact compileInto_of_fed logged fed
  case writer_of_gt =>
    intro q long
    obtain ⟨before, i, after, t, parts, below, above, fed, refused⟩ := exists_refused_of_gt long
    exact ⟨before, i, after, parts, below, above, compileInto_of_refused logged parts fed refused⟩
  case text => exact compile_of_logged logged

end JackToVm
