import JackToVm.Proofs.Acceptance
import JackToVm.Proofs.Evaluation

/-!
# The code of a class does what the class means

The block of a subroutine, run by the stack machine, ends as the reference semantics says, in the
same store; and the machine never gets stuck in it.

Both directions are about code that stands before other code in a block, where it starts and ends
with an empty stack. How control goes through a conditional or a loop is told without labels
(`Connects`, `Branches`), once for both.

Results.
1. `Statements.Exec.simulated`: what the semantics says, the machine does, by induction on the
   derivation.
2. `Statements.traced`: what the machine does, the semantics says, by induction on the steps that
   are left and, for equal numbers, on the tree.
3. The preservation of meaning, for every source that is accepted
   (`blocks_implement_of_compile_eq_ok`).
-/

namespace JackToVm

/-! ## Ways through a block -/

section Ways

variable (r : Runtime) (c : Context) (block : List Instruction)

/-- From one place of a block, in some steps, control comes to another one and changes nothing. -/
def Connects (start next : List Instruction) : Prop :=
  ∀ σ scratch, ∃ m, r.step block ⟨start, [], σ, scratch⟩ = some m ∧
    r.Runs block m ⟨next, [], σ, scratch⟩

/-- A condition is evaluated, and control comes to one of two places. -/
def Branches (e : Expression) (start yes no : List Instruction) : Prop :=
  ∀ σ scratch, ∃ scratch', r.Runs block ⟨start, [], σ, scratch⟩
    ⟨if (e.eval r c σ).1 = trueValue then yes else no, [], (e.eval r c σ).2, scratch'⟩

/-- A piece of code stands in a block, before other code. -/
structure Placed (uses : List Use) (code next : List Instruction) : Prop where
  distinct : (labelsOf block).Nodup
  allowed : AllAllowed c uses
  suffix : code ++ next <:+ block

end Ways

variable {r : Runtime} {c : Context} {block : List Instruction}

theorem Connects.runs {start next : List Instruction} (way : Connects r block start next)
    (σ : Store) (scratch : Scratch) :
    r.Runs block ⟨start, [], σ, scratch⟩ ⟨next, [], σ, scratch⟩ := by
  obtain ⟨m, stepped, rest⟩ := way σ scratch
  exact .head stepped rest

theorem Connects.trans {start middle next : List Instruction}
    (first : Connects r block start middle) (second : Connects r block middle next) :
    Connects r block start next := by
  intro σ scratch
  obtain ⟨m, stepped, rest⟩ := first σ scratch
  exact ⟨m, stepped, rest.trans (second.runs σ scratch)⟩

theorem connects_label (name : String) (next : List Instruction) :
    Connects r block (.label name :: next) next := fun _ _ => ⟨_, rfl, .refl _⟩

theorem connects_goto {name : String} {target : List Instruction}
    (found : fromLabel name block = some target) (next : List Instruction) :
    Connects r block (.goto name :: next) target := by
  intro σ scratch
  refine ⟨⟨target, [], σ, scratch⟩, ?_, .refl _⟩
  show (fromLabel name block).map _ = _
  rw [found]
  rfl

theorem Connects.branches {e : Expression} {start middle yes no : List Instruction}
    (way : Connects r block start middle) (branches : Branches r c block e middle yes no) :
    Branches r c block e start yes no := by
  intro σ scratch
  obtain ⟨scratch', runs⟩ := branches σ scratch
  exact ⟨scratch', (way.runs σ scratch).trans runs⟩

theorem Branches.connects {e : Expression} {start yes middle no : List Instruction}
    (branches : Branches r c block e start yes middle) (way : Connects r block middle no) :
    Branches r c block e start yes no := by
  intro σ scratch
  obtain ⟨scratch', runs⟩ := branches σ scratch
  refine ⟨scratch', ?_⟩
  split at runs
  · next holds => rwa [if_pos holds]
  · next fails =>
    rw [if_neg fails]
    exact runs.trans (way.runs _ scratch')

/-- The complement of a word is 0 only for true. -/
theorem complement_eq_zero_iff (value : Word) : ~~~value = 0 ↔ value = trueValue := by
  constructor
  · intro zero
    have twice : ~~~(~~~value) = ~~~(0 : Word) := congrArg (~~~·) zero
    rw [BitVec.not_not] at twice
    exact twice
  · rintro rfl
    decide

/-- A condition is followed by a jump that is taken where it fails. -/
theorem branches_condition {e : Expression} (allowed : AllAllowed c e.uses) {name : String}
    {target : List Instruction} (found : fromLabel name block = some target)
    (yes : List Instruction) :
    Branches r c block e (e.code c ++ .arithmetic .not :: .ifGoto name :: yes) yes target := by
  intro σ scratch
  obtain ⟨scratch', condition⟩ :=
    e.runs r block allowed (.arithmetic .not :: .ifGoto name :: yes) [] σ scratch
  refine ⟨scratch', condition.trans (.head rfl (.single ?_))⟩
  show (if ~~~(e.eval r c σ).1 = 0 then _ else (fromLabel name block).map _) = _
  rw [found]
  by_cases holds : (e.eval r c σ).1 = trueValue
  · rw [if_pos holds, if_pos ((complement_eq_zero_iff _).2 holds)]
  · rw [if_neg holds, if_neg (mt (complement_eq_zero_iff _).1 holds)]
    rfl

/-! ## Statements in a block -/

theorem suffix_of_append_cons {pre code : List Instruction} {i : Instruction}
    (suffix : pre ++ i :: code <:+ block) : code <:+ block :=
  ((List.suffix_cons i code).trans (List.suffix_append pre _)).trans suffix

namespace Placed

variable {e : Expression} {body other : Statements} {n : Nat} {next : List Instruction}

theorem split {uses more : List Use} {code rest : List Instruction}
    (placed : Placed c block (uses ++ more) (code ++ rest) next) :
    Placed c block uses code (rest ++ next) ∧ Placed c block more rest next := by
  obtain ⟨distinct, allowed, suffix⟩ := placed
  rw [allAllowed_append] at allowed
  rw [List.append_assoc] at suffix
  have later : rest ++ next <:+ block := (List.suffix_append code _).trans suffix
  exact ⟨⟨distinct, allowed.1, suffix⟩, distinct, allowed.2, later⟩

/-- Control goes into the body of a conditional or behind it, and from the body behind it. -/
theorem ifThen (r : Runtime) (placed : Placed c block (Statement.ifThen e body).uses
      ((Statement.ifThen e body).code c n) next) :
    ∃ after, Placed c block body.uses (body.code c (n + 1)) after ∧
      Connects r block after next ∧
      Branches r c block e ((Statement.ifThen e body).code c n ++ next)
        (body.code c (n + 1) ++ after) next := by
  obtain ⟨distinct, allowed, suffix⟩ := placed
  rw [Statement.uses, allAllowed_append] at allowed
  have shape : (Statement.ifThen e body).code c n ++ next =
      e.code c ++ .arithmetic .not :: .ifGoto (c.label "IF_ELSE" n) ::
        (body.code c (n + 1) ++ .goto (c.label "IF_END" n) :: .label (c.label "IF_ELSE" n) ::
          .label (c.label "IF_END" n) :: next) := by
    simp [Statement.code]
  rw [shape] at suffix ⊢
  have ofBody := (List.suffix_cons _ _).trans (suffix_of_append_cons suffix)
  have ofElse := suffix_of_append_cons ofBody
  have ofEnd := (List.suffix_cons _ _).trans ofElse
  have elseFound := fromLabel_of_suffix distinct ofElse
  have endFound := fromLabel_of_suffix distinct ofEnd
  refine ⟨_, ⟨distinct, allowed.2, ofBody⟩, ?_, ?_⟩
  · exact (connects_goto endFound _).trans (connects_label _ next)
  · exact (branches_condition allowed.1 elseFound _).connects
      ((connects_label _ _).trans (connects_label _ next))

/-- Control goes into one of two bodies, and from both behind the conditional. -/
theorem ifElse (r : Runtime) (placed : Placed c block (Statement.ifElse e body other).uses
      ((Statement.ifElse e body other).code c n) next) :
    ∃ after after', Placed c block body.uses (body.code c (n + 1)) after ∧
      Placed c block other.uses (other.code c (n + 1 + body.constructs)) after' ∧
      Connects r block after next ∧ Connects r block after' next ∧
      Branches r c block e ((Statement.ifElse e body other).code c n ++ next)
        (body.code c (n + 1) ++ after)
        (other.code c (n + 1 + body.constructs) ++ after') := by
  obtain ⟨distinct, allowed, suffix⟩ := placed
  rw [Statement.uses, allAllowed_append, allAllowed_append] at allowed
  have shape : (Statement.ifElse e body other).code c n ++ next =
      e.code c ++ .arithmetic .not :: .ifGoto (c.label "IF_ELSE" n) ::
        (body.code c (n + 1) ++ .goto (c.label "IF_END" n) :: .label (c.label "IF_ELSE" n) ::
          (other.code c (n + 1 + body.constructs) ++ .label (c.label "IF_END" n) :: next)) := by
    simp [Statement.code]
  rw [shape] at suffix ⊢
  have ofBody := (List.suffix_cons _ _).trans (suffix_of_append_cons suffix)
  have ofElse := suffix_of_append_cons ofBody
  have ofOther := (List.suffix_cons _ _).trans ofElse
  have ofEnd := (List.suffix_append _ _).trans ofOther
  have elseFound := fromLabel_of_suffix distinct ofElse
  have endFound := fromLabel_of_suffix distinct ofEnd
  refine ⟨_, _, ⟨distinct, allowed.2.1, ofBody⟩, ⟨distinct, allowed.2.2, ofOther⟩, ?_, ?_, ?_⟩
  · exact (connects_goto endFound _).trans (connects_label _ next)
  · exact connects_label _ next
  · exact (branches_condition allowed.1 elseFound _).connects (connects_label _ _)

/-- Control goes into the body of a loop or behind it, and from the body back to the loop. -/
theorem whileDo (r : Runtime) (placed : Placed c block (Statement.whileDo e body).uses
      ((Statement.whileDo e body).code c n) next) :
    ∃ after, Placed c block body.uses (body.code c (n + 1)) after ∧
      Connects r block after ((Statement.whileDo e body).code c n ++ next) ∧
      Branches r c block e ((Statement.whileDo e body).code c n ++ next)
        (body.code c (n + 1) ++ after) next := by
  obtain ⟨distinct, allowed, suffix⟩ := placed
  rw [Statement.uses, allAllowed_append] at allowed
  have shape : (Statement.whileDo e body).code c n ++ next =
      .label (c.label "WHILE_EXP" n) ::
        (e.code c ++ .arithmetic .not :: .ifGoto (c.label "WHILE_END" n) ::
          (body.code c (n + 1) ++ .goto (c.label "WHILE_EXP" n) ::
            .label (c.label "WHILE_END" n) :: next)) := by
    simp [Statement.code]
  rw [shape] at suffix ⊢
  have ofCondition := (List.suffix_cons _ _).trans suffix
  have ofBody := (List.suffix_cons _ _).trans (suffix_of_append_cons ofCondition)
  have ofEnd := suffix_of_append_cons ofBody
  have headFound := fromLabel_of_suffix distinct suffix
  have endFound := fromLabel_of_suffix distinct ofEnd
  refine ⟨_, ⟨distinct, allowed.2, ofBody⟩, connects_goto headFound _, ?_⟩
  exact (connects_label _ _).branches
    ((branches_condition allowed.1 endFound _).connects (connects_label _ next))

end Placed

/-! ## Completion of code -/

/-- What a state is when statements before `next` complete. -/
def State.Stands (m : State) (next : List Instruction) : Completion → Store → Prop
  | .finished, σ => m.control = next ∧ m.stack = [] ∧ m.store = σ
  | .returned value, σ => m.Shows (.returned value) σ

/-- Code from `start` to before `next`, run in a store, completes in another store. -/
def Completes (r : Runtime) (block start next : List Instruction) (σ : Store)
    (completion : Completion) (σ' : Store) : Prop :=
  ∀ scratch, ∃ z, r.Runs block ⟨start, [], σ, scratch⟩ z ∧ z.Stands next completion σ'

namespace Completes

variable {start middle yes no next : List Instruction} {e : Expression} {σ σ₁ σ' : Store}
  {value : Word} {completion : Completion}

theorem of_runs (runs : ∀ scratch, ∃ scratch',
      r.Runs block ⟨start, [], σ, scratch⟩ ⟨next, [], σ', scratch'⟩) :
    Completes r block start next σ .finished σ' := by
  intro scratch
  obtain ⟨scratch', runs⟩ := runs scratch
  exact ⟨_, runs, rfl, rfl, rfl⟩

theorem trans (first : Completes r block start middle σ .finished σ₁)
    (second : Completes r block middle next σ₁ completion σ') :
    Completes r block start next σ completion σ' := by
  intro scratch
  obtain ⟨⟨control, stack, store, scratch₁⟩, runs, here⟩ := first scratch
  obtain ⟨rfl, rfl, rfl⟩ := here
  obtain ⟨z, more, stands⟩ := second scratch₁
  exact ⟨z, runs.trans more, stands⟩

theorem connects (first : Completes r block start middle σ completion σ')
    (way : Connects r block middle next) : Completes r block start next σ completion σ' := by
  cases completion with
  | finished => exact first.trans (of_runs fun scratch => ⟨scratch, way.runs σ' scratch⟩)
  | returned value => exact first

theorem of_true (branches : Branches r c block e start yes no)
    (holds : e.eval r c σ = (trueValue, σ₁))
    (rest : Completes r block yes next σ₁ completion σ') :
    Completes r block start next σ completion σ' := by
  intro scratch
  obtain ⟨scratch₁, runs⟩ := branches σ scratch
  rw [holds, if_pos rfl] at runs
  obtain ⟨z, more, stands⟩ := rest scratch₁
  exact ⟨z, runs.trans more, stands⟩

theorem of_false (branches : Branches r c block e start yes no)
    (evaluated : e.eval r c σ = (value, σ₁)) (fails : value ≠ trueValue)
    (rest : Completes r block no next σ₁ completion σ') :
    Completes r block start next σ completion σ' := by
  intro scratch
  obtain ⟨scratch₁, runs⟩ := branches σ scratch
  rw [evaluated, if_neg fails] at runs
  obtain ⟨z, more, stands⟩ := rest scratch₁
  exact ⟨z, runs.trans more, stands⟩

theorem refl (start : List Instruction) (σ : Store) :
    Completes r block start start σ .finished σ :=
  of_runs fun scratch => ⟨scratch, .refl _⟩

end Completes

/-! ## Statements that do not jump -/

section Straight

variable {x : String} {i e : Expression} {call : Call}

theorem completes_letVariable (allowed : AllAllowed c (Statement.letVariable x e).uses) (n : Nat)
    (next : List Instruction) (σ : Store) :
    Completes r block ((Statement.letVariable x e).code c n ++ next) next σ .finished
      (c.assign (e.eval r c σ).2 x (e.eval r c σ).1) := by
  rw [Statement.uses, allAllowed_cons] at allowed
  rw [Statement.code, List.append_assoc]
  refine .of_runs fun scratch => ?_
  obtain ⟨scratch₁, value⟩ := e.runs r block allowed.2 (.store (c.slot x) :: next) [] σ scratch
  exact ⟨scratch₁, value.trans (runs_store r block allowed.1 next _ [] _ scratch₁)⟩

theorem completes_letElement (allowed : AllAllowed c (Statement.letElement x i e).uses) (n : Nat)
    (next : List Instruction) (σ : Store) :
    Completes r block ((Statement.letElement x i e).code c n ++ next) next σ .finished
      ((e.eval r c (i.eval r c σ).2).2.setHeap
        (r.add (i.eval r c σ).1 (c.value (i.eval r c σ).2 x)) (e.eval r c (i.eval r c σ).2).1) := by
  rw [Statement.uses, allAllowed_cons, allAllowed_append] at allowed
  obtain ⟨declared, ofIndex, ofValue⟩ := allowed
  have shape : (Statement.letElement x i e).code c n ++ next =
      i.code c ++ .load (c.slot x) :: .arithmetic .add ::
        (e.code c ++ .pop .temp 0 :: .pop .pointer 1 :: .push .temp 0 :: .pop .that 0 :: next) := by
    simp [Statement.code]
  rw [shape]
  refine .of_runs fun scratch => ?_
  obtain ⟨scratch₁, index⟩ := i.runs r block ofIndex _ [] σ scratch
  have base := runs_load r block declared (.arithmetic .add ::
    (e.code c ++ .pop .temp 0 :: .pop .pointer 1 :: .push .temp 0 :: .pop .that 0 :: next))
    [(i.eval r c σ).1] (i.eval r c σ).2 scratch₁
  -- the address is on the stack while the value is computed
  obtain ⟨scratch₂, value⟩ := e.runs r block ofValue
    (.pop .temp 0 :: .pop .pointer 1 :: .push .temp 0 :: .pop .that 0 :: next)
    [r.add (i.eval r c σ).1 (c.value (i.eval r c σ).2 x)] (i.eval r c σ).2 scratch₁
  have stored := runs_storeElement r block
    (r.add (i.eval r c σ).1 (c.value (i.eval r c σ).2 x)) (e.eval r c (i.eval r c σ).2).1 next []
    (e.eval r c (i.eval r c σ).2).2 scratch₂
  exact ⟨_, index.trans (base.trans (.head rfl (value.trans stored)))⟩

theorem completes_doCall (allowed : AllAllowed c (Statement.doCall call).uses) (n : Nat)
    (next : List Instruction) (σ : Store) :
    Completes r block ((Statement.doCall call).code c n ++ next) next σ .finished
      (call.eval r c σ).2 := by
  rw [Statement.code, List.append_assoc]
  refine .of_runs fun scratch => ?_
  obtain ⟨scratch₁, result⟩ := call.runs r block allowed (.pop .temp 0 :: next) [] σ scratch
  exact ⟨_, result.trans (.single rfl)⟩

theorem completes_returnNothing (n : Nat) (next : List Instruction) (σ : Store) :
    Completes r block (Statement.returnNothing.code c n ++ next) next σ (.returned 0) σ :=
  fun _ => ⟨_, .single rfl, ⟨next, rfl⟩, rfl, rfl⟩

theorem completes_returnValue (allowed : AllAllowed c (Statement.returnValue e).uses) (n : Nat)
    (next : List Instruction) (σ : Store) :
    Completes r block ((Statement.returnValue e).code c n ++ next) next σ
      (.returned (e.eval r c σ).1) (e.eval r c σ).2 := by
  rw [Statement.code, List.append_assoc]
  intro scratch
  obtain ⟨scratch₁, value⟩ := e.runs r block allowed (.ret :: next) [] σ scratch
  exact ⟨_, value, ⟨next, rfl⟩, rfl, rfl⟩

end Straight

/-! ## From the semantics to the machine -/

/-- The code of a statement does what the statement does, wherever it stands. -/
def Statement.Simulated (r : Runtime) (c : Context) (s : Statement) (σ : Store)
    (completion : Completion) (σ' : Store) : Prop :=
  ∀ block n next, Placed c block s.uses (s.code c n) next →
    Completes r block (s.code c n ++ next) next σ completion σ'

def Statements.Simulated (r : Runtime) (c : Context) (ss : Statements) (σ : Store)
    (completion : Completion) (σ' : Store) : Prop :=
  ∀ block n next, Placed c block ss.uses (ss.code c n) next →
    Completes r block (ss.code c n ++ next) next σ completion σ'

/-- What the semantics says, the machine does. -/
theorem Statements.Exec.simulated {ss : Statements} {σ σ' : Store} {completion : Completion}
    (exec : ss.Exec r c σ completion σ') : ss.Simulated r c σ completion σ' := by
  refine @Statements.Exec.rec r c (fun s σ completion σ' _ => s.Simulated r c σ completion σ')
    (fun ss σ completion σ' _ => ss.Simulated r c σ completion σ')
    ?letVariable ?letElement ?ifThenTrue ?ifThenFalse ?ifElseTrue ?ifElseFalse ?whileFalse
    ?whileAgain ?whileReturned ?doCall ?returnNothing ?returnValue ?nil ?cons ?returned
    ss σ completion σ' exec
  case letVariable =>
    intro x e σ σ' value evaluated block n next placed
    have result : Completes r block _ next σ _ _ :=
      completes_letVariable placed.allowed n next σ
    rwa [evaluated] at result
  case letElement =>
    intro x i e σ σ₁ σ₂ index value indexed evaluated block n next placed
    have result : Completes r block _ next σ _ _ :=
      completes_letElement placed.allowed n next σ
    rwa [indexed, evaluated] at result
  case ifThenTrue =>
    intro e body σ σ₁ σ' completion holds _ ih block n next placed
    obtain ⟨after, inner, way, branches⟩ := placed.ifThen r
    exact .of_true branches holds ((ih block (n + 1) after inner).connects way)
  case ifThenFalse =>
    intro e body σ σ' value evaluated fails block n next placed
    obtain ⟨after, inner, way, branches⟩ := placed.ifThen r
    exact .of_false branches evaluated fails (.refl next σ')
  case ifElseTrue =>
    intro e body other σ σ₁ σ' completion holds _ ih block n next placed
    obtain ⟨after, after', inner, _, way, _, branches⟩ := placed.ifElse r
    exact .of_true branches holds ((ih block (n + 1) after inner).connects way)
  case ifElseFalse =>
    intro e body other σ σ₁ σ' value completion evaluated fails _ ih block n next placed
    obtain ⟨after, after', _, inner, _, way, branches⟩ := placed.ifElse r
    exact .of_false branches evaluated fails ((ih block _ after' inner).connects way)
  case whileFalse =>
    intro e body σ σ' value evaluated fails block n next placed
    obtain ⟨after, inner, way, branches⟩ := placed.whileDo r
    exact .of_false branches evaluated fails (.refl next σ')
  case whileAgain =>
    intro e body σ σ₁ σ₂ σ' completion holds _ _ ih again block n next placed
    obtain ⟨after, inner, way, branches⟩ := placed.whileDo r
    have once := (ih block (n + 1) after inner).connects way
    exact .of_true branches holds (once.trans (again block n next placed))
  case whileReturned =>
    intro e body σ σ₁ σ' value holds _ ih block n next placed
    obtain ⟨after, inner, way, branches⟩ := placed.whileDo r
    exact .of_true branches holds (ih block (n + 1) after inner)
  case doCall =>
    intro call σ σ' value evaluated block n next placed
    have result : Completes r block _ next σ _ _ :=
      completes_doCall placed.allowed n next σ
    rwa [evaluated] at result
  case returnNothing =>
    intro σ block n next _
    exact completes_returnNothing n next σ
  case returnValue =>
    intro e σ σ' value evaluated block n next placed
    have result : Completes r block _ next σ _ _ :=
      completes_returnValue placed.allowed n next σ
    rwa [evaluated] at result
  case nil =>
    intro σ block n next _
    exact .refl next σ
  case cons =>
    intro s ss σ σ₁ σ' completion _ _ ih more block n next placed
    obtain ⟨first, rest⟩ := placed.split
    rw [Statements.code, List.append_assoc]
    exact (ih block n _ first).trans (more block _ next rest)
  case returned =>
    intro s ss σ σ' value _ ih block n next placed
    obtain ⟨first, -⟩ := placed.split
    rw [Statements.code, List.append_assoc]
    exact ih block n _ first

/-! ## From the machine to the semantics -/

namespace Runtime.StopsIn

variable {n : Nat} {m z : State}

/-- A run that starts where no step can be made is over. -/
theorem eq_of_stuck (stops : r.StopsIn block n m z) (stuck : r.step block m = none) : z = m := by
  obtain ⟨steps, -⟩ := stops
  cases steps with
  | refl => rfl
  | head stepped _ =>
    rw [stuck] at stepped
    cases stepped

theorem of_connects {start next : List Instruction} {σ : Store} {scratch : Scratch}
    (stops : r.StopsIn block n ⟨start, [], σ, scratch⟩ z) (way : Connects r block start next) :
    ∃ k < n, r.StopsIn block k ⟨next, [], σ, scratch⟩ z := by
  obtain ⟨m, stepped, runs⟩ := way σ scratch
  obtain ⟨k, less, stops⟩ := stops.of_step stepped
  obtain ⟨j, le, stops⟩ := stops.of_runs runs
  exact ⟨j, Nat.lt_of_le_of_lt le less, stops⟩

end Runtime.StopsIn

/-- A run that stops goes through one of the two places of a branch. -/
theorem Branches.of_stops {e : Expression} {start yes no : List Instruction} {n : Nat} {σ : Store}
    {scratch : Scratch} {z : State} (branches : Branches r c block e start yes no)
    (stops : r.StopsIn block n ⟨start, [], σ, scratch⟩ z) :
    ∃ k ≤ n, ∃ value σ' scratch', e.eval r c σ = (value, σ') ∧
      (value = trueValue ∧ r.StopsIn block k ⟨yes, [], σ', scratch'⟩ z ∨
        value ≠ trueValue ∧ r.StopsIn block k ⟨no, [], σ', scratch'⟩ z) := by
  obtain ⟨scratch', runs⟩ := branches σ scratch
  obtain ⟨k, le, stops⟩ := stops.of_runs runs
  refine ⟨k, le, (e.eval r c σ).1, (e.eval r c σ).2, scratch', rfl, ?_⟩
  by_cases holds : (e.eval r c σ).1 = trueValue
  · rw [if_pos holds] at stops
    exact .inl ⟨holds, stops⟩
  · rw [if_neg holds] at stops
    exact .inr ⟨holds, stops⟩

/-- Of a run that stops after `n` steps, its first part is an execution: one that returns, or one
behind which the run goes on at `next`. -/
def Explains (r : Runtime) (block next : List Instruction) (n : Nat) (z : State)
    (exec : Completion → Store → Prop) : Prop :=
  (∃ value σ', exec (.returned value) σ' ∧ z.Shows (.returned value) σ') ∨
    ∃ σ' scratch', exec .finished σ' ∧ ∃ k ≤ n, r.StopsIn block k ⟨next, [], σ', scratch'⟩ z

namespace Explains

variable {start middle next : List Instruction} {n k : Nat} {z : State} {σ σ' : Store}
  {scratch : Scratch} {completion : Completion} {exec exec' : Completion → Store → Prop}

theorem of_completes (stops : r.StopsIn block n ⟨start, [], σ, scratch⟩ z)
    (completes : Completes r block start next σ completion σ') (holds : exec completion σ') :
    Explains r block next n z exec := by
  obtain ⟨⟨control, stack, store, scratch'⟩, runs, stands⟩ := completes scratch
  obtain ⟨k, le, stops⟩ := stops.of_runs runs
  cases completion with
  | finished =>
    obtain ⟨rfl, rfl, rfl⟩ := stands
    exact .inr ⟨store, scratch', holds, k, le, stops⟩
  | returned value =>
    have shows : State.Shows ⟨control, stack, store, scratch'⟩ (.returned value) σ' := stands
    rw [stops.eq_of_stuck shows.step_eq_none]
    exact .inl ⟨value, σ', holds, shows⟩

theorem imp (h : Explains r block next k z exec) (le : k ≤ n)
    (whole : ∀ completion σ', exec completion σ' → exec' completion σ') :
    Explains r block next n z exec' := by
  rcases h with ⟨value, σ', holds, shows⟩ | ⟨σ', scratch', holds, j, le', stops⟩
  · exact .inl ⟨value, σ', whole _ σ' holds, shows⟩
  · exact .inr ⟨σ', scratch', whole _ σ' holds, j, Nat.le_trans le' le, stops⟩

/-- Where the first part does not return, the rest of the run is explained by itself. -/
theorem andThen (h : Explains r block middle k z exec)
    (returned : ∀ value σ', exec (.returned value) σ' → exec' (.returned value) σ')
    (rest : ∀ σ' scratch' j, exec .finished σ' → j ≤ k →
      r.StopsIn block j ⟨middle, [], σ', scratch'⟩ z → Explains r block next n z exec') :
    Explains r block next n z exec' := by
  rcases h with ⟨value, σ', holds, shows⟩ | ⟨σ', scratch', holds, j, le, stops⟩
  · exact .inl ⟨value, σ', returned value σ' holds, shows⟩
  · exact rest σ' scratch' j holds le stops

/-- An execution of a part is one of the whole, and the ends of both are connected. -/
theorem connects (h : Explains r block middle k z exec) (le : k ≤ n)
    (way : Connects r block middle next)
    (whole : ∀ completion σ', exec completion σ' → exec' completion σ') :
    Explains r block next n z exec' := by
  refine h.andThen (fun value σ' => whole _ σ') fun σ' scratch' j holds le' stops => ?_
  obtain ⟨i, less, stops⟩ := stops.of_connects way
  exact .inr ⟨σ', scratch', whole _ σ' holds, i, by omega, stops⟩

end Explains

mutual

/-- What the machine does in the code of a statement, the semantics says. -/
theorem Statement.traced (s : Statement) (n : Nat) {l : Nat} {next : List Instruction} {σ : Store}
    {scratch : Scratch} {z : State} (placed : Placed c block s.uses (s.code c l) next)
    (stops : r.StopsIn block n ⟨s.code c l ++ next, [], σ, scratch⟩ z) :
    Explains r block next n z (s.Exec r c σ) := by
  cases s with
  | letVariable x e =>
    exact .of_completes stops (completes_letVariable placed.allowed l next σ) (.letVariable rfl)
  | letElement x i e =>
    exact .of_completes stops (completes_letElement placed.allowed l next σ) (.letElement rfl rfl)
  | ifThen e body =>
    obtain ⟨after, inner, way, branches⟩ := placed.ifThen r
    obtain ⟨k, le, value, σ₁, scratch₁, evaluated, ⟨rfl, stops⟩ | ⟨fails, stops⟩⟩ :=
      branches.of_stops stops
    · exact (body.traced k inner stops).connects le way fun _ _ => .ifThenTrue evaluated
    · exact .inr ⟨σ₁, scratch₁, .ifThenFalse evaluated fails, k, le, stops⟩
  | ifElse e body other =>
    obtain ⟨after, after', inner, inner', way, way', branches⟩ := placed.ifElse r
    obtain ⟨k, le, value, σ₁, scratch₁, evaluated, ⟨rfl, stops⟩ | ⟨fails, stops⟩⟩ :=
      branches.of_stops stops
    · exact (body.traced k inner stops).connects le way fun _ _ => .ifElseTrue evaluated
    · exact (other.traced k inner' stops).connects le way' fun _ _ => .ifElseFalse evaluated fails
  | whileDo e body =>
    obtain ⟨after, inner, way, branches⟩ := placed.whileDo r
    obtain ⟨k, le, value, σ₁, scratch₁, evaluated, ⟨rfl, stops⟩ | ⟨fails, stops⟩⟩ :=
      branches.of_stops stops
    · refine (body.traced k inner stops).andThen (fun _ _ => .whileReturned evaluated) ?_
      intro σ₂ scratch₂ j once le' stops
      -- the jump back is a step, so fewer are left for the rest of the loop
      obtain ⟨i, less, stops⟩ := stops.of_connects way
      have fewer : i < n := by omega
      exact ((Statement.whileDo e body).traced i placed stops).imp (Nat.le_of_lt fewer)
        fun _ _ => .whileAgain evaluated once
    · exact .inr ⟨σ₁, scratch₁, .whileFalse evaluated fails, k, le, stops⟩
  | doCall call =>
    exact .of_completes stops (completes_doCall placed.allowed l next σ) (.doCall rfl)
  | returnNothing => exact .of_completes stops (completes_returnNothing l next σ) .returnNothing
  | returnValue e =>
    exact .of_completes stops (completes_returnValue placed.allowed l next σ) (.returnValue rfl)
termination_by (n, sizeOf s)
decreasing_by
  · exact Prod.Lex.right' _ le (by decreasing_tactic)
  · exact Prod.Lex.right' _ le (by decreasing_tactic)
  · exact Prod.Lex.right' _ le (by decreasing_tactic)
  · exact Prod.Lex.right' _ le (by decreasing_tactic)
  · exact Prod.Lex.left _ _ fewer

theorem Statements.traced (ss : Statements) (n : Nat) {l : Nat} {next : List Instruction}
    {σ : Store} {scratch : Scratch} {z : State}
    (placed : Placed c block ss.uses (ss.code c l) next)
    (stops : r.StopsIn block n ⟨ss.code c l ++ next, [], σ, scratch⟩ z) :
    Explains r block next n z (ss.Exec r c σ) := by
  cases ss with
  | nil => exact .inr ⟨σ, scratch, .nil, n, Nat.le_refl n, stops⟩
  | cons s ss =>
    obtain ⟨first, rest⟩ := placed.split
    rw [Statements.code, List.append_assoc] at stops
    refine (s.traced n first stops).andThen (fun _ _ => .returned) ?_
    intro σ₁ scratch₁ k once le stops
    exact (ss.traced k rest stops).imp le fun _ _ => .cons once
termination_by (n, sizeOf ss)
decreasing_by
  · exact Prod.Lex.right' _ (Nat.le_refl n) (by decreasing_tactic)
  · exact Prod.Lex.right' _ le (by decreasing_tactic)

end

/-! ## Subroutines -/

/-- A block does what a subroutine does. It completes in the same way and in the same store, or it
runs forever where the subroutine does; it stops nowhere else. -/
structure SubroutineDec.ImplementedBy (d : ClassDec) (s : SubroutineDec)
    (block : List Instruction) : Prop where
  completes (r : Runtime) (before : Store) (scratch : Scratch) (completion : Completion)
    (after : Store) : s.Exec r d before completion after ↔
      ∃ z, r.Runs block ⟨block, [], before, scratch⟩ z ∧ z.Shows completion after
  stops (r : Runtime) (before : Store) (scratch : Scratch) (z : State) :
    r.Runs block ⟨block, [], before, scratch⟩ z → r.step block z = none →
      ∃ completion after, z.Shows completion after

namespace SubroutineDec

variable {d : ClassDec} {s : SubroutineDec}

/-- The instructions before the first statement make the store in which the body starts. -/
theorem runs_prologue (r : Runtime) (block : List Instruction) (d : ClassDec) (s : SubroutineDec)
    (n : Nat) (before : Store) (scratch : Scratch) :
    r.Runs block ⟨s.code d n, [], before, scratch⟩
      ⟨s.body.code (d.context s) n, [], s.enter r d before, scratch⟩ := by
  refine .head rfl ?_
  unfold prologueCode enter
  cases s.kind with
  | constructor =>
    have one : [BitVec.ofNat 16 (countKind .field d.declarations)].length = 1 := rfl
    exact .head rfl ((runs_call r block one "Memory.alloc" _ [] _ scratch).trans (.single rfl))
  | method => exact .head rfl (.single rfl)
  | function => exact .refl _

/-- The body stands in the block, and no code behind it. -/
theorem placed_body (rules : s.WellScoped d) (n : Nat) :
    Placed (d.context s) (s.code d n) s.body.uses (s.body.code (d.context s) n) [] where
  distinct := by
    rw [labelsOf_code]
    exact s.body.nodup_labelsOf (d.context s) n
  allowed := rules.uses
  suffix := by
    rw [List.append_nil]
    exact (List.suffix_append (s.prologueCode d) _).trans (List.suffix_cons _ _)

/-- Where the block stops, the subroutine has completed. -/
theorem exec_of_stops (rules : s.WellScoped d) (n : Nat) {r : Runtime} {before : Store}
    {scratch : Scratch} {z : State}
    (runs : r.Runs (s.code d n) ⟨s.code d n, [], before, scratch⟩ z)
    (stuck : r.step (s.code d n) z = none) :
    ∃ completion after, s.Exec r d before completion after ∧ z.Shows completion after := by
  obtain ⟨count, steps⟩ := runs
  have stops : r.StopsIn (s.code d n) count ⟨s.code d n, [], before, scratch⟩ z := ⟨steps, stuck⟩
  obtain ⟨k, -, stops⟩ := stops.of_runs (runs_prologue r (s.code d n) d s n before scratch)
  rw [← List.append_nil (s.body.code (d.context s) n)] at stops
  rcases s.body.traced k (s.placed_body rules n) stops with
    ⟨value, after, exec, shows⟩ | ⟨after, scratch', exec, j, -, stops⟩
  · exact ⟨.returned value, after, exec, shows⟩
  · rw [stops.eq_of_stuck rfl]
    exact ⟨.finished, after, exec, rfl, rfl, rfl⟩

theorem implementedBy_code (rules : s.WellScoped d) (n : Nat) :
    s.ImplementedBy d (s.code d n) where
  completes r before scratch completion after := by
    constructor
    · intro exec
      have body := exec.simulated (s.code d n) n [] (s.placed_body rules n)
      obtain ⟨z, runs, stands⟩ := body scratch
      rw [List.append_nil] at runs
      refine ⟨z, (runs_prologue r (s.code d n) d s n before scratch).trans runs, ?_⟩
      cases completion <;> exact stands
    · rintro ⟨z, runs, shows⟩
      obtain ⟨completion', after', exec, shows'⟩ := exec_of_stops rules n runs shows.step_eq_none
      obtain ⟨rfl, rfl⟩ := shows.unique shows'
      exact exec
  stops r before scratch z runs stuck := by
    obtain ⟨completion, after, -, shows⟩ := exec_of_stops rules n runs stuck
    exact ⟨completion, after, shows⟩

end SubroutineDec

/-! ## Classes -/

theorem ClassDec.exists_blocksFrom_getElem? (d : ClassDec) {ss : List SubroutineDec} {i : Nat}
    {s : SubroutineDec} (here : ss[i]? = some s) (n : Nat) :
    ∃ m, (d.blocksFrom n ss)[i]? = some (s.code d m) := by
  induction ss generalizing i n with
  | nil => cases here
  | cons s' ss ih =>
    cases i with
    | zero =>
      cases here
      exact ⟨n, rfl⟩
    | succ i => exact ih here _

/-- Every source that is accepted is the text of a class that keeps the rules. For each such class
the output is made of one block for each subroutine, and each block does what its subroutine
does. -/
theorem blocks_implement_of_compile_eq_ok {source text : String}
    (compiled : compile source = .ok text) :
    (∃ d : ClassDec, Lexes source d.terminals ∧ d.WellScoped) ∧
      ∀ d : ClassDec, Lexes source d.terminals → d.WellScoped →
        text = vmText d.blocks.flatten ∧
          ∀ (i : Nat) (s : SubroutineDec), d.subroutines[i]? = some s →
            ∃ block, d.blocks[i]? = some block ∧ s.ImplementedBy d block := by
  constructor
  · obtain ⟨d, lexes, rules, -⟩ := compile_eq_ok_iff.1 compiled
    exact ⟨d, lexes, rules⟩
  · intro d lexes rules
    have output : compile source = .ok (vmText d.code) :=
      compile_eq_ok_iff.2 ⟨d, lexes, rules, rfl⟩
    rw [compiled] at output
    refine ⟨Except.ok.inj output, fun i s here => ?_⟩
    obtain ⟨n, there⟩ := d.exists_blocksFrom_getElem? here 0
    have ofSubroutine := rules.subroutines s (List.mem_of_getElem? here)
    exact ⟨s.code d n, there, s.implementedBy_code ofSubroutine n⟩

theorem blocks_implement_of_countdown :
    ∃ d : ClassDec,
      Lexes "class A { method int f(int n) { while (n > 0) { let n = n - 1; } return n; } }"
        d.terminals ∧
      ∀ (i : Nat) (s : SubroutineDec), d.subroutines[i]? = some s →
        ∃ block, d.blocks[i]? = some block ∧ s.ImplementedBy d block := by
  have compiled : compile
      "class A { method int f(int n) { while (n > 0) { let n = n - 1; } return n; } }" =
        .ok "function A.f 0\npush argument 0\npop pointer 0\nlabel A.WHILE_EXP0\npush argument 1\npush constant 0\ngt\nnot\nif-goto A.WHILE_END0\npush argument 1\npush constant 1\nsub\npop argument 1\ngoto A.WHILE_EXP0\nlabel A.WHILE_END0\npush argument 1\nreturn\n" := by
    decide +kernel
  obtain ⟨⟨d, lexes, rules⟩, implemented⟩ := blocks_implement_of_compile_eq_ok compiled
  exact ⟨d, lexes, (implemented d lexes rules).2⟩

end JackToVm
