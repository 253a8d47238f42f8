import Mathlib.Logic.Function.Basic
import JackToVm.Proofs.Labels

/-!
# The stack machine

How the block of a subroutine runs. The machine does one instruction after the other; it has a
stack of words, the arguments and locals of the subroutine, and a memory of statics and a heap.

What a call does is not told by the block: a runtime is given, which takes the name of a subroutine,
its arguments and the memory, and gives a result and a new memory. It also gives the arithmetic,
apart from `not`, which is the complement.

A run stops where no instruction is left, where a `return` stands, or where an instruction does not
find what it needs.

Results.
1. A run is determined: one that stops goes through every state that is run to
   (`Runtime.StopsIn.of_runs`).
2. A label that stands once in a block is found where it stands (`fromLabel_of_suffix`).
-/

namespace JackToVm

/-! ## Words and memory -/

abbrev Word := BitVec 16

structure Memory where
  statics : Nat → Word
  heap : Word → Word

/-- The arithmetic of the machine and the subroutines that a block calls. -/
structure Runtime where
  add : Word → Word → Word
  sub : Word → Word → Word
  neg : Word → Word
  eq : Word → Word → Word
  gt : Word → Word → Word
  lt : Word → Word → Word
  and : Word → Word → Word
  or : Word → Word → Word
  call : String → List Word → Memory → Word × Memory

/-- What the variables of a subroutine are kept in; `this` is the address of the object that is
bound. -/
structure Store where
  memory : Memory
  arguments : Nat → Word
  locals : Nat → Word
  this : Word

/-- The rest of what a subroutine has to itself: the address of an array, and cells that hold a
value for a short time. -/
structure Scratch where
  that : Word
  temp : Nat → Word

/-! ## States -/

/-- A state of the machine; `control` is what is left of the block. -/
structure State where
  control : List Instruction
  stack : List Word
  store : Store
  scratch : Scratch

namespace Store

def setStatic (σ : Store) (index : Nat) (value : Word) : Store :=
  { σ with memory.statics := Function.update σ.memory.statics index value }

def setHeap (σ : Store) (address value : Word) : Store :=
  { σ with memory.heap := Function.update σ.memory.heap address value }

def setArgument (σ : Store) (index : Nat) (value : Word) : Store :=
  { σ with arguments := Function.update σ.arguments index value }

def setLocal (σ : Store) (index : Nat) (value : Word) : Store :=
  { σ with locals := Function.update σ.locals index value }

end Store

namespace State

/-- The value of a cell. -/
def read (m : State) : Segment → Nat → Word
  | .constant, n => BitVec.ofNat 16 n
  | .argument, i => m.store.arguments i
  | .localVar, i => m.store.locals i
  | .static, i => m.store.memory.statics i
  | .this, i => m.store.memory.heap (m.store.this + BitVec.ofNat 16 i)
  | .that, i => m.store.memory.heap (m.scratch.that + BitVec.ofNat 16 i)
  | .pointer, i => if i = 0 then m.store.this else m.scratch.that
  | .temp, i => m.scratch.temp i

/-- A value goes into a cell; constants stay as they are. -/
def write (m : State) (segment : Segment) (i : Nat) (value : Word) : State :=
  match segment with
  | .constant => m
  | .argument => { m with store := m.store.setArgument i value }
  | .localVar => { m with store := m.store.setLocal i value }
  | .static => { m with store := m.store.setStatic i value }
  | .this => { m with store := m.store.setHeap (m.store.this + BitVec.ofNat 16 i) value }
  | .that => { m with store := m.store.setHeap (m.scratch.that + BitVec.ofNat 16 i) value }
  | .pointer =>
    if i = 0 then { m with store.this := value } else { m with scratch.that := value }
  | .temp => { m with scratch.temp := Function.update m.scratch.temp i value }

end State

/-! ## Steps -/

/-- A command on the stack; the second operand is on top of the first. -/
def Runtime.perform (r : Runtime) : Operation → List Word → Option (List Word)
  | .neg, x :: stack => some (r.neg x :: stack)
  | .not, x :: stack => some (~~~x :: stack)
  | .add, y :: x :: stack => some (r.add x y :: stack)
  | .sub, y :: x :: stack => some (r.sub x y :: stack)
  | .eq, y :: x :: stack => some (r.eq x y :: stack)
  | .gt, y :: x :: stack => some (r.gt x y :: stack)
  | .lt, y :: x :: stack => some (r.lt x y :: stack)
  | .and, y :: x :: stack => some (r.and x y :: stack)
  | .or, y :: x :: stack => some (r.or x y :: stack)
  | _, _ => none

/-- What stands in a block from a label on. -/
def fromLabel (name : String) : List Instruction → Option (List Instruction)
  | [] => none
  | i :: code => if i = .label name then some (i :: code) else fromLabel name code

/-- One step of the machine on a block. -/
def Runtime.step (r : Runtime) (block : List Instruction) (m : State) : Option State :=
  match m.control with
  | [] => none
  | i :: control =>
    let m := { m with control }
    match i, m.stack with
    | .push segment n, stack => some { m with stack := m.read segment n :: stack }
    | .pop segment n, value :: stack => some { m.write segment n value with stack }
    | .arithmetic command, stack => (r.perform command stack).map fun stack => { m with stack }
    | .label _, _ => some m
    | .goto name, _ => (fromLabel name block).map fun control => { m with control }
    | .ifGoto name, value :: stack =>
      if value = 0 then some { m with stack }
      else (fromLabel name block).map fun control => { m with control, stack }
    | .call name count, stack =>
      if count ≤ stack.length then
        let (value, memory) := r.call name (stack.take count).reverse m.store.memory
        some { m with stack := value :: stack.drop count, store.memory := memory }
      else none
    | .function _ count, _ =>
      some { m with store.locals := fun i => if i < count then 0 else m.store.locals i }
    | .pop .., [] | .ifGoto _, [] | .ret, _ => none

/-- How the body of a subroutine ends. -/
inductive Completion
  | finished
  | returned (value : Word)

/-- A run is over: the end of the block is reached, or a value is returned, and nothing else is on
the stack. -/
def State.Shows (m : State) : Completion → Store → Prop
  | .finished, σ => m.control = [] ∧ m.stack = [] ∧ m.store = σ
  | .returned value, σ => (∃ code, m.control = .ret :: code) ∧ m.stack = [value] ∧ m.store = σ

/-! ## Runs -/

section

variable (r : Runtime) (block : List Instruction)

/-- A run of `n` steps. -/
inductive Runtime.Steps : Nat → State → State → Prop
  | refl (m : State) : Steps 0 m m
  | head {n : Nat} {m next z : State} :
      r.step block m = some next → Steps n next z → Steps (n + 1) m z

def Runtime.Runs (m z : State) : Prop :=
  ∃ n, r.Steps block n m z

/-- The machine stops after `n` steps. -/
def Runtime.StopsIn (n : Nat) (m z : State) : Prop :=
  r.Steps block n m z ∧ r.step block z = none

end

variable {r : Runtime} {block : List Instruction} {m next z : State}

namespace Runtime.Runs

theorem refl (m : State) : r.Runs block m m :=
  ⟨0, .refl m⟩

theorem head (stepped : r.step block m = some next) (rest : r.Runs block next z) :
    r.Runs block m z := by
  obtain ⟨n, steps⟩ := rest
  exact ⟨n + 1, .head stepped steps⟩

theorem single (stepped : r.step block m = some z) : r.Runs block m z :=
  head stepped (refl z)

theorem trans (first : r.Runs block m next) (second : r.Runs block next z) :
    r.Runs block m z := by
  obtain ⟨n, steps⟩ := first
  induction steps with
  | refl => exact second
  | head stepped _ ih => exact head stepped (ih second)

end Runtime.Runs

namespace Runtime.StopsIn

/-- A step that can be made is made. -/
theorem of_step {n : Nat} (stops : r.StopsIn block n m z) (stepped : r.step block m = some next) :
    ∃ k < n, r.StopsIn block k next z := by
  obtain ⟨steps, last⟩ := stops
  cases steps with
  | refl => rw [stepped] at last; cases last
  | @head k _ _ _ stepped' rest =>
    rw [stepped] at stepped'
    cases stepped'
    exact ⟨k, Nat.lt_succ_self k, rest, last⟩

/-- A run that stops goes through every state that is run to. -/
theorem of_runs {n : Nat} (stops : r.StopsIn block n m z) (runs : r.Runs block m next) :
    ∃ k ≤ n, r.StopsIn block k next z := by
  obtain ⟨_, steps⟩ := runs
  induction steps generalizing n with
  | refl => exact ⟨n, Nat.le_refl n, stops⟩
  | head stepped _ ih =>
    obtain ⟨k, lt, stops⟩ := stops.of_step stepped
    obtain ⟨j, le, stops⟩ := ih stops
    exact ⟨j, by omega, stops⟩

end Runtime.StopsIn

/-- Where a run is over, no step can be made. -/
theorem State.Shows.step_eq_none {completion : Completion} {σ : Store}
    (shows : m.Shows completion σ) : r.step block m = none := by
  obtain ⟨control, stack, store, scratch⟩ := m
  cases completion with
  | finished =>
    obtain ⟨rfl, -, -⟩ := shows
    rfl
  | returned value =>
    obtain ⟨⟨code, rfl⟩, -, -⟩ := shows
    rfl

/-- A state shows one outcome at most. -/
theorem State.Shows.unique {completion completion' : Completion} {σ σ' : Store}
    (shows : m.Shows completion σ) (shows' : m.Shows completion' σ') :
    completion = completion' ∧ σ = σ' := by
  obtain ⟨control, stack, store, scratch⟩ := m
  cases completion <;> cases completion' <;> simp_all [State.Shows]

/-! ## Labels in a block -/

/-- A label that stands once in a block is found where it stands. -/
theorem fromLabel_of_suffix {name : String} {code : List Instruction}
    (distinct : (labelsOf block).Nodup) (suffix : .label name :: code <:+ block) :
    fromLabel name block = some (.label name :: code) := by
  obtain ⟨before, rfl⟩ := suffix
  have fresh : name ∉ labelsOf before := by
    rw [labelsOf_append, List.nodup_append] at distinct
    exact fun mem => distinct.2.2 name mem name (.head _) rfl
  clear distinct
  induction before with
  | nil => exact if_pos rfl
  | cons i before ih =>
    have other : i ≠ .label name := by
      rintro rfl
      exact fresh (.head _)
    rw [List.cons_append, fromLabel, if_neg other]
    refine ih fun mem => fresh ?_
    rw [← List.singleton_append, labelsOf_append]
    exact List.mem_append_right _ mem

end JackToVm
