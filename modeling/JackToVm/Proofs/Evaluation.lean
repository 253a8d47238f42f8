import JackToVm.Proofs.Semantics

/-!
# The code of an expression computes its value

The code of an expression, run by the stack machine, puts the value that the reference semantics
gives onto the stack, whatever lies below and whatever code follows, and leaves the store that the
semantics gives. Only the address of the last array and the cells for a short time may change
besides.

Results.
1. Each piece of code by itself: variables (`runs_load`, `runs_store`), elements of arrays
   (`runs_loadElement`, `runs_storeElement`), calls (`runs_call`), operators, words and strings.
2. `Expression.runs`, by recursion on the tree.
-/

namespace JackToVm

variable (r : Runtime) {c : Context} (block : List Instruction)

/-! ## Cells of variables -/

/-- Loading a variable puts its value onto the stack. -/
theorem runs_load {x : String} (allowed : (Use.var x).Allowed c) (k : List Instruction)
    (stack : List Word) (σ : Store) (scratch : Scratch) :
    r.Runs block ⟨.load (c.slot x) :: k, stack, σ, scratch⟩
      ⟨k, c.value σ x :: stack, σ, scratch⟩ := by
  obtain ⟨v, found, -⟩ := allowed
  have value : State.read ⟨k, stack, σ, scratch⟩ (c.slot x).segment (c.slot x).index =
      c.value σ x := by
    rw [Context.slot, Context.value, found]
    obtain ⟨name, type, kind, index⟩ := v
    cases kind <;> rfl
  rw [← value]
  exact .single rfl

/-- Storing into a variable assigns to it. -/
theorem runs_store {x : String} (allowed : (Use.var x).Allowed c) (k : List Instruction)
    (value : Word) (stack : List Word) (σ : Store) (scratch : Scratch) :
    r.Runs block ⟨.store (c.slot x) :: k, value :: stack, σ, scratch⟩
      ⟨k, stack, c.assign σ x value, scratch⟩ := by
  obtain ⟨v, found, -⟩ := allowed
  refine .single ?_
  rw [Instruction.store, Context.slot, Context.assign, found]
  obtain ⟨name, type, kind, index⟩ := v
  cases kind <;> rfl

/-! ## Elements of arrays -/

/-- `that` is bound to an element, and its value comes onto the stack. -/
theorem runs_loadElement (index base : Word) (k : List Instruction) (stack : List Word)
    (σ : Store) (scratch : Scratch) :
    r.Runs block
      ⟨.arithmetic .add :: .pop .pointer 1 :: .push .that 0 :: k, base :: index :: stack, σ,
        scratch⟩
      ⟨k, σ.memory.heap (r.add index base) :: stack, σ,
        { scratch with that := r.add index base }⟩ := by
  have value : State.read ⟨k, stack, σ, { scratch with that := r.add index base }⟩ .that 0 =
      σ.memory.heap (r.add index base) :=
    congrArg σ.memory.heap (BitVec.add_zero _)
  rw [← value]
  exact .head rfl (.head rfl (.single rfl))

/-- The value waits in a cell while `that` is bound to the element. -/
theorem runs_storeElement (address value : Word) (k : List Instruction) (stack : List Word)
    (σ : Store) (scratch : Scratch) :
    r.Runs block
      ⟨.pop .temp 0 :: .pop .pointer 1 :: .push .temp 0 :: .pop .that 0 :: k,
        value :: address :: stack, σ, scratch⟩
      ⟨k, stack, σ.setHeap address value,
        { that := address, temp := Function.update scratch.temp 0 value }⟩ := by
  have kept : Function.update scratch.temp 0 value 0 = value := Function.update_self ..
  have place : address + BitVec.ofNat 16 0 = address := BitVec.add_zero address
  refine .head rfl (.head rfl (.head rfl (.single ?_)))
  show some (State.mk k stack (σ.setHeap (address + BitVec.ofNat 16 0)
    (Function.update scratch.temp 0 value 0)) _) = _
  rw [kept, place]
  rfl

/-! ## Calls and operators -/

/-- A call takes its arguments from the stack, the last one first. -/
theorem runs_call {arguments : List Word} {count : Nat} (length : arguments.length = count)
    (name : String) (k : List Instruction) (stack : List Word) (σ : Store) (scratch : Scratch) :
    r.Runs block ⟨.call name count :: k, arguments.reverse ++ stack, σ, scratch⟩
      ⟨k, (r.invoke σ name arguments).1 :: stack, (r.invoke σ name arguments).2, scratch⟩ := by
  have pushed : arguments.reverse.length = count := by rw [List.length_reverse, length]
  have enough : count ≤ (arguments.reverse ++ stack).length := by
    rw [List.length_append, pushed]
    exact Nat.le_add_right count _
  refine .single ?_
  simp only [Runtime.step, if_pos enough]
  rw [List.take_left' pushed, List.drop_left' pushed, List.reverse_reverse]
  rfl

theorem BinaryOperator.runs (o : BinaryOperator) (x y : Word) (k : List Instruction)
    (stack : List Word) (σ : Store) (scratch : Scratch) :
    r.Runs block ⟨o.code :: k, y :: x :: stack, σ, scratch⟩
      ⟨k, (o.apply r σ x y).1 :: stack, (o.apply r σ x y).2, scratch⟩ := by
  have two : [x, y].length = 2 := rfl
  cases o with
  | times => exact runs_call r block two "Math.multiply" k stack σ scratch
  | divide => exact runs_call r block two "Math.divide" k stack σ scratch
  | plus | minus | and | or | less | greater | equals => exact .single rfl

theorem UnaryOperator.runs (o : UnaryOperator) (x : Word) (k : List Instruction)
    (stack : List Word) (σ : Store) (scratch : Scratch) :
    r.Runs block ⟨o.code :: k, x :: stack, σ, scratch⟩
      ⟨k, o.apply r x :: stack, σ, scratch⟩ := by
  cases o <;> exact .single rfl

theorem ConstantWord.runs (w : ConstantWord) (k : List Instruction) (stack : List Word)
    (σ : Store) (scratch : Scratch) :
    r.Runs block ⟨w.code ++ k, stack, σ, scratch⟩ ⟨k, w.value σ :: stack, σ, scratch⟩ := by
  cases w with
  | trueWord =>
    have ones : ~~~(0 : Word) = trueValue := by decide
    rw [ConstantWord.value, ← ones]
    exact .head rfl (.single rfl)
  | falseWord | nullWord | thisWord => exact .single rfl

theorem runs_characters (text : List Char) (string : Word) (k : List Instruction)
    (stack : List Word) (σ : Store) (scratch : Scratch) :
    r.Runs block
      ⟨(text.flatMap fun char =>
          [.push .constant char.toNat, .call "String.appendChar" 2]) ++ k,
        string :: stack, σ, scratch⟩
      ⟨k, (r.appendAll σ string text).1 :: stack, (r.appendAll σ string text).2, scratch⟩ := by
  induction text generalizing string σ with
  | nil => exact .refl _
  | cons char text ih =>
    have two : [string, BitVec.ofNat 16 char.toNat].length = 2 := rfl
    refine .head rfl ((runs_call r block two "String.appendChar" _ stack σ scratch).trans ?_)
    exact ih _ _

theorem runs_textCode (text : String) (k : List Instruction) (stack : List Word) (σ : Store)
    (scratch : Scratch) :
    r.Runs block ⟨textCode text ++ k, stack, σ, scratch⟩
      ⟨k, (r.newString σ text).1 :: stack, (r.newString σ text).2, scratch⟩ := by
  have one : [BitVec.ofNat 16 text.length].length = 1 := rfl
  refine .head rfl ((runs_call r block one "String.new" _ stack σ scratch).trans ?_)
  exact runs_characters r block text.toList _ k stack _ scratch

/-! ## Expressions -/

theorem Arguments.length_eval (r : Runtime) (c : Context) (σ : Store) (as : Arguments) :
    (as.eval r c σ).1.length = as.count := by
  cases as with
  | nil => rfl
  | cons e as => rw [eval, List.length_cons, as.length_eval, count]

/-- A call on a receiver that was pushed before the arguments. -/
theorem Arguments.runs_callOn (c : Context) (as : Arguments) (name : String) (receiver : Word)
    (k : List Instruction) (stack : List Word) (σ : Store) (scratch : Scratch) :
    r.Runs block
      ⟨.call name (as.count + 1) :: k, (as.eval r c σ).1.reverse ++ receiver :: stack,
        (as.eval r c σ).2, scratch⟩
      ⟨k, (r.invoke (as.eval r c σ).2 name (receiver :: (as.eval r c σ).1)).1 :: stack,
        (r.invoke (as.eval r c σ).2 name (receiver :: (as.eval r c σ).1)).2, scratch⟩ := by
  have length : (receiver :: (as.eval r c σ).1).length = as.count + 1 := by
    rw [List.length_cons, as.length_eval]
  have result := runs_call r block length name k stack (as.eval r c σ).2 scratch
  rwa [List.reverse_cons, List.append_assoc] at result

mutual

/-- The code of an expression puts its value onto the stack and leaves what lies below. -/
theorem Expression.runs (r : Runtime) {c : Context} (block : List Instruction) (e : Expression)
    (allowed : AllAllowed c e.uses) (k : List Instruction) (stack : List Word) (σ : Store)
    (scratch : Scratch) :
    ∃ scratch', r.Runs block ⟨e.code c ++ k, stack, σ, scratch⟩
      ⟨k, (e.eval r c σ).1 :: stack, (e.eval r c σ).2, scratch'⟩ := by
  cases e with
  | of t ops =>
    simp only [Expression.uses, allAllowed_append] at allowed
    rw [Expression.code, List.append_assoc]
    obtain ⟨scratch₁, first⟩ := t.runs r block allowed.1 (ops.code c ++ k) stack σ scratch
    obtain ⟨scratch₂, more⟩ := ops.runs r block allowed.2 k stack _ _ scratch₁
    exact ⟨scratch₂, first.trans more⟩

theorem Operations.runs (r : Runtime) {c : Context} (block : List Instruction)
    (ops : Operations) (allowed : AllAllowed c ops.uses) (k : List Instruction)
    (stack : List Word) (σ : Store) (value : Word) (scratch : Scratch) :
    ∃ scratch', r.Runs block ⟨ops.code c ++ k, value :: stack, σ, scratch⟩
      ⟨k, (ops.eval r c σ value).1 :: stack, (ops.eval r c σ value).2, scratch'⟩ := by
  cases ops with
  | nil => exact ⟨scratch, .refl _⟩
  | cons o t ops =>
    simp only [Operations.uses, allAllowed_append] at allowed
    rw [Operations.code, List.append_assoc]
    obtain ⟨scratch₁, operand⟩ :=
      t.runs r block allowed.1 (o.code :: (ops.code c ++ k)) (value :: stack) σ scratch
    have result := o.runs r block value (t.eval r c σ).1 (ops.code c ++ k) stack
      (t.eval r c σ).2 scratch₁
    obtain ⟨scratch₂, more⟩ := ops.runs r block allowed.2 k stack _ _ scratch₁
    exact ⟨scratch₂, operand.trans (result.trans more)⟩

theorem Term.runs (r : Runtime) {c : Context} (block : List Instruction) (t : Term)
    (allowed : AllAllowed c t.uses) (k : List Instruction) (stack : List Word) (σ : Store)
    (scratch : Scratch) :
    ∃ scratch', r.Runs block ⟨t.code c ++ k, stack, σ, scratch⟩
      ⟨k, (t.eval r c σ).1 :: stack, (t.eval r c σ).2, scratch'⟩ := by
  cases t with
  | integer n => exact ⟨scratch, .single rfl⟩
  | text text => exact ⟨scratch, runs_textCode r block text k stack σ scratch⟩
  | word w => exact ⟨scratch, w.runs r block k stack σ scratch⟩
  | var x =>
    have allowed : (Use.var x).Allowed c := by simpa only [Term.uses, allAllowed_cons,
      allAllowed_nil, and_true] using allowed
    exact ⟨scratch, runs_load r block allowed k stack σ scratch⟩
  | element x e =>
    simp only [Term.uses, allAllowed_cons] at allowed
    rw [Term.code, List.append_assoc]
    obtain ⟨scratch₁, index⟩ := e.runs r block allowed.2 _ stack σ scratch
    have base := runs_load r block allowed.1
      (.arithmetic .add :: .pop .pointer 1 :: .push .that 0 :: k)
      ((e.eval r c σ).1 :: stack) (e.eval r c σ).2 scratch₁
    exact ⟨_, index.trans (base.trans (runs_loadElement r block _ _ k stack _ scratch₁))⟩
  | call call => exact call.runs r block allowed k stack σ scratch
  | group e => exact e.runs r block allowed k stack σ scratch
  | unary o t =>
    rw [Term.code, List.append_assoc]
    obtain ⟨scratch₁, operand⟩ := t.runs r block allowed (o.code :: k) stack σ scratch
    exact ⟨scratch₁, operand.trans (o.runs r block _ k stack _ scratch₁)⟩

theorem Call.runs (r : Runtime) {c : Context} (block : List Instruction) (call : Call)
    (allowed : AllAllowed c call.uses) (k : List Instruction) (stack : List Word) (σ : Store)
    (scratch : Scratch) :
    ∃ scratch', r.Runs block ⟨call.code c ++ k, stack, σ, scratch⟩
      ⟨k, (call.eval r c σ).1 :: stack, (call.eval r c σ).2, scratch'⟩ := by
  cases call with
  | own m as =>
    rw [Call.code, List.cons_append, List.append_assoc]
    obtain ⟨scratch₁, arguments⟩ := as.runs r block allowed
      (.call (c.memberName m) (as.count + 1) :: k) (σ.this :: stack) σ scratch
    refine ⟨scratch₁, .head rfl (arguments.trans ?_)⟩
    exact as.runs_callOn r block c (c.memberName m) σ.this k stack σ scratch₁
  | dotted x m as =>
    simp only [Call.uses, allAllowed_cons] at allowed
    rw [Call.code, List.append_assoc, List.append_assoc, Call.eval]
    cases found : c.resolve x with
    | some v =>
      have declared : (Use.var x).Allowed c := ⟨v, found, allowed.1 v found⟩
      have load : c.receiverCode x = [.load (c.slot x)] := by
        rw [Context.receiverCode, Context.slot, found]
      have receiver := runs_load r block declared
        (as.code c ++ .call (c.target x m) (as.count + 1) :: k) stack σ scratch
      have value : c.value σ x = σ.get v := by rw [Context.value, found]
      rw [value] at receiver
      obtain ⟨scratch₁, arguments⟩ := as.runs r block allowed.2
        (.call (c.target x m) (as.count + 1) :: k) (σ.get v :: stack) σ scratch
      refine ⟨scratch₁, ?_⟩
      rw [load]
      refine receiver.trans (arguments.trans ?_)
      have result := as.runs_callOn r block c (c.target x m) (σ.get v) k stack σ scratch₁
      rwa [Context.target, found] at result ⊢
    | none =>
      have load : c.receiverCode x = [] := by rw [Context.receiverCode, found]
      obtain ⟨scratch₁, arguments⟩ := as.runs r block allowed.2
        (.call (c.target x m) as.count :: k) stack σ scratch
      refine ⟨scratch₁, ?_⟩
      rw [load]
      refine arguments.trans ?_
      have result := runs_call r block (as.length_eval r c σ) (c.target x m) k stack
        (as.eval r c σ).2 scratch₁
      rwa [Context.target, found] at result ⊢

/-- The arguments of a call come onto the stack one after the other. -/
theorem Arguments.runs (r : Runtime) {c : Context} (block : List Instruction) (as : Arguments)
    (allowed : AllAllowed c as.uses) (k : List Instruction) (stack : List Word) (σ : Store)
    (scratch : Scratch) :
    ∃ scratch', r.Runs block ⟨as.code c ++ k, stack, σ, scratch⟩
      ⟨k, (as.eval r c σ).1.reverse ++ stack, (as.eval r c σ).2, scratch'⟩ := by
  cases as with
  | nil => exact ⟨scratch, .refl _⟩
  | cons e as =>
    simp only [Arguments.uses, allAllowed_append] at allowed
    rw [Arguments.code, Arguments.eval, List.append_assoc, List.reverse_cons, List.append_assoc]
    obtain ⟨scratch₁, first⟩ := e.runs r block allowed.1 (as.code c ++ k) stack σ scratch
    obtain ⟨scratch₂, more⟩ := as.runs r block allowed.2 k _ _ scratch₁
    exact ⟨scratch₂, first.trans more⟩

end

end JackToVm
