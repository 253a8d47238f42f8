import JackToVm.Proofs.Scoping

/-!
# The history of a symbol table

A symbol table is changed by declarations, some of which are refused, and by starts of subroutines.
A declaration is in force if it was taken and, for an argument or a local, no subroutine started
since. What the table holds and answers after any calls is told by the declarations in force alone.

Results.
1. A call more: a declaration that is taken is in force behind the others, and the start of a
   subroutine ends those of arguments and locals (`inForce_declare`, `inForce_enterSubroutine`).
2. The table is the one that has seen the declarations in force, and no scope has a name twice
   (`performAll_eq_table`).
3. So it agrees with its history in all that it answers (`agrees_with_history`).
-/

namespace JackToVm

/-! ## Calls -/

/-- A call that may change a symbol table. -/
inductive TableCall
  | declare (d : Declaration)
  | enterSubroutine
deriving DecidableEq, Repr

namespace SymbolTable

/-- The table after a call. A declaration that is refused leaves it as it is. -/
def perform (t : SymbolTable) : TableCall → SymbolTable
  | .declare d =>
    match t.declare d.name d.type d.kind with
    | .ok (_, u) => u
    | .error _ => t
  | .enterSubroutine => t.enterSubroutine

def performAll (t : SymbolTable) (calls : List TableCall) : SymbolTable :=
  calls.foldl perform t

/-- The table takes the declaration. -/
def takes (t : SymbolTable) (d : Declaration) : Bool :=
  (t.declare d.name d.type d.kind).isOk

/-- The declarations in force after some calls, in the order of the calls: those that were taken
and, for arguments and locals, behind which no subroutine started. -/
def inForce (t : SymbolTable) : List TableCall → List Declaration
  | [] => []
  | .enterSubroutine :: calls => inForce (t.perform .enterSubroutine) calls
  | .declare d :: calls =>
    if t.takes d ∧ (d.kind.belongsToClass ∨ .enterSubroutine ∉ calls) then
      d :: inForce (t.perform (.declare d)) calls
    else inForce (t.perform (.declare d)) calls

/-! ## One call more -/

section

variable (t : SymbolTable) (calls : List TableCall)

theorem performAll_concat (call : TableCall) :
    t.performAll (calls ++ [call]) = (t.performAll calls).perform call := by
  rw [performAll, List.foldl_append]
  rfl

theorem inForce_declare (d : Declaration) :
    t.inForce (calls ++ [.declare d]) =
      t.inForce calls ++ if (t.performAll calls).takes d then [d] else [] := by
  induction calls generalizing t with
  | nil =>
    by_cases taken : t.takes d
    · simp [inForce, performAll, taken]
    · simp [inForce, performAll, taken]
  | cons call calls ih =>
    cases call with
    | enterSubroutine => exact ih _
    | declare e =>
      have later :
          .enterSubroutine ∈ calls ++ [TableCall.declare d] ↔ .enterSubroutine ∈ calls := by
        simp
      simp only [List.cons_append, inForce, ih, later]
      split <;> rfl

theorem inForce_enterSubroutine :
    t.inForce (calls ++ [.enterSubroutine]) =
      (t.inForce calls).filter (·.kind.belongsToClass) := by
  induction calls generalizing t with
  | nil => rfl
  | cons call calls ih =>
    cases call with
    | enterSubroutine => exact ih _
    | declare e =>
      have later : .enterSubroutine ∈ calls ++ [TableCall.enterSubroutine] := by simp
      simp only [List.cons_append, inForce, ih, later, not_true_eq_false, or_false]
      by_cases ofClass : e.kind.belongsToClass
      · by_cases taken : t.takes e
        · simp [ofClass, taken]
        · simp [taken]
      · by_cases stays : t.takes e ∧ .enterSubroutine ∉ calls
        · simp [ofClass, stays]
        · simp [ofClass, stays]

end

end SymbolTable

/-! ## Declarations by scope -/

/-- Some declarations, sorted into those of the class and those of the subroutine. -/
def Declarations.ofList (ds : List Declaration) : Declarations :=
  ⟨ds.filter (·.kind.belongsToClass), ds.filter (!·.kind.belongsToClass)⟩

/-- No scope has a name twice. -/
def Distinct (ds : List Declaration) : Prop :=
  ∀ kind : Kind, (((Declarations.ofList ds).scope kind).map (·.name)).Nodup

theorem Declarations.scope_ofList (ds : List Declaration) (kind : Kind) :
    (ofList ds).scope kind = ds.filter (·.kind.belongsToClass = kind.belongsToClass) := by
  cases h : kind.belongsToClass <;> simp [scope, ofList, h]

theorem Declarations.ofList_concat (ds : List Declaration) (d : Declaration) :
    ofList (ds ++ [d]) = (ofList ds).extend d.kind [d] := by
  cases h : d.kind.belongsToClass <;> simp [ofList, extend, h]

/-- The variables of some kinds are numbered without the others. -/
theorem filter_numbered (P : Kind → Bool) (ds : List Declaration) :
    (numbered ds).filter (P ·.kind) = numbered (ds.filter (P ·.kind)) := by
  induction ds using List.reverseRecOn with
  | nil => rfl
  | append_singleton ds d ih =>
    rw [numbered_concat, List.filter_append, List.filter_append, ih]
    by_cases keeps : P d.kind
    · have same : (ds.filter (P ·.kind)).countP (·.kind = d.kind) =
          ds.countP (·.kind = d.kind) := by
        rw [List.countP_filter]
        refine List.countP_congr fun e _ => ?_
        by_cases equal : e.kind = d.kind
        · simp [equal, keeps]
        · simp [equal]
      have kept : [d].filter (P ·.kind) = [d] := by simp [keeps]
      rw [kept, numbered_concat]
      simp [Declaration.toVariable, same, keeps]
    · simp [Declaration.toVariable, keeps]

/-- Variables of one kind are numbered from 0. -/
theorem map_index_numbered {ds : List Declaration} {kind : Kind} (same : ∀ d ∈ ds, d.kind = kind) :
    (numbered ds).map (·.index) = List.range ds.length := by
  induction ds using List.reverseRecOn with
  | nil => rfl
  | append_singleton ds d ih =>
    have earlier : ∀ e ∈ ds, e.kind = kind := fun e mem => same e (by simp [mem])
    have all : ds.countP (·.kind = d.kind) = ds.length := by
      rw [List.countP_eq_length]
      intro e mem
      rw [earlier e mem, same d (by simp)]
      exact decide_eq_true rfl
    rw [numbered_concat, List.map_append, ih earlier, List.length_append, List.length_singleton,
      List.range_succ]
    simp [Declaration.toVariable, all]

/-- Where no name stands twice, a search by a name finds the variable that has it. -/
theorem find?_of_mem {vs : List Variable} (distinct : (vs.map (·.name)).Nodup) {v : Variable}
    (mem : v ∈ vs) : vs.find? (·.name = v.name) = some v := by
  induction vs with
  | nil => cases mem
  | cons w vs ih =>
    rw [List.map_cons, List.nodup_cons] at distinct
    cases mem with
    | head => simp
    | tail _ mem =>
      have apart : w.name ≠ v.name := by
        intro same
        exact distinct.1 (same ▸ List.mem_map_of_mem mem)
      rw [List.find?_cons_of_neg (by simpa using apart)]
      exact ih distinct.2 mem

theorem countP_numbered (ds : List Declaration) (kind : Kind) :
    (numbered ds).countP (·.kind = kind) = ds.countP (·.kind = kind) := by
  have length := congrArg List.length (map_name_numbered (ds.filter (·.kind = kind)))
  rw [List.length_map, List.length_map, ← filter_numbered (fun other => other = kind)] at length
  rw [List.countP_eq_length_filter, List.countP_eq_length_filter, length]

theorem Distinct.concat {ds : List Declaration} (distinct : Distinct ds) {d : Declaration}
    (fresh : d.name ∉ ((Declarations.ofList ds).scope d.kind).map (·.name)) :
    Distinct (ds ++ [d]) := by
  intro kind
  rw [Declarations.scope_ofList, List.filter_append, List.map_append, ← Declarations.scope_ofList]
  by_cases same : d.kind.belongsToClass = kind.belongsToClass
  · have scope : (Declarations.ofList ds).scope kind = (Declarations.ofList ds).scope d.kind := by
      rw [Declarations.scope, Declarations.scope, same]
    have kept : [d].filter (·.kind.belongsToClass = kind.belongsToClass) = [d] := by simp [same]
    rw [kept, scope, List.map_singleton, List.nodup_append]
    refine ⟨distinct d.kind, by simp, fun name mem other equal => ?_⟩
    rintro rfl
    exact fresh (List.mem_singleton.1 equal ▸ mem)
  · simpa [same] using distinct kind

theorem Distinct.filter {ds : List Declaration} (distinct : Distinct ds)
    (keeps : Declaration → Bool) : Distinct (ds.filter keeps) := by
  intro kind
  have names := distinct kind
  rw [Declarations.scope_ofList] at names ⊢
  exact names.sublist ((List.filter_sublist.filter _).map _)

/-! ## The table of the declarations in force -/

namespace SymbolTable

/-- What the declarations in force make of an empty table is what all the calls made of it. -/
theorem performAll_eq_table (calls : List TableCall) :
    empty.performAll calls = (Declarations.ofList (empty.inForce calls)).table ∧
      Distinct (empty.inForce calls) := by
  induction calls using List.reverseRecOn with
  | nil => exact ⟨rfl, fun kind => by cases kind <;> exact List.nodup_nil⟩
  | append_singleton calls call ih =>
    obtain ⟨table, distinct⟩ := ih
    cases call with
    | enterSubroutine =>
      rw [performAll_concat, inForce_enterSubroutine, table]
      refine ⟨?_, distinct.filter _⟩
      have gone : (empty.inForce calls).filter (fun _ => false) = [] := by simp
      simp [perform, enterSubroutine, Declarations.table, Declarations.ofList, List.filter_filter,
        gone, numbered, numberedFrom]
    | declare d =>
      rw [performAll_concat, inForce_declare, takes, perform, table]
      by_cases fresh :
          d.name ∉ ((Declarations.ofList (empty.inForce calls)).scope d.kind).map (·.name)
      · rw [Declarations.declare_table_eq_ok fresh]
        exact ⟨by simp [Except.isOk, Except.toBool, Declarations.ofList_concat],
          by simpa [Except.isOk, Except.toBool] using distinct.concat fresh⟩
      · cases outcome : (Declarations.ofList (empty.inForce calls)).table.declare d.name d.type
            d.kind with
        | ok r => exact absurd (Declarations.not_mem_of_declare_table outcome) fresh
        | error e =>
          simpa [Except.isOk, Except.toBool] using distinct

end SymbolTable

/-! ## What the table answers -/

/-- The variables of the declarations in force. The index of each is the number of declarations of
its kind in force before it. -/
def history (calls : List TableCall) : List Variable :=
  numbered (SymbolTable.empty.inForce calls)

/-- The variable that a name stands for among some variables, if any: the argument or local of
that name, else the static or field. -/
inductive StandsFor (vs : List Variable) (name : String) : Option Variable → Prop
  | inner {v : Variable} : v ∈ vs → v.name = name → v.kind.belongsToClass = false →
      StandsFor vs name (some v)
  | outer {v : Variable} : v ∈ vs → v.name = name → v.kind.belongsToClass = true →
      (∀ w ∈ vs, w.name = name → w.kind.belongsToClass = true) → StandsFor vs name (some v)
  | nothing : (∀ w ∈ vs, w.name ≠ name) → StandsFor vs name none

/-- All that a table answers about a name of which it has found this. -/
structure SymbolTable.Answers (t : SymbolTable) (name : String) (found : Option Variable) :
    Prop where
  find? : t.find? name = found
  kind? : t.kind? name = found.map (·.kind)
  get : t.get name = found.elim (.error (.unresolved name)) .ok
  getType : t.getType name = found.elim (.error (.unresolved name)) (.ok ·.type)
  getIndex : t.getIndex name = found.elim (.error (.unresolved name)) (.ok ·.index)

/-- The table after some calls agrees with its history.

* It takes a declaration if no variable in force in that scope has the name; the index is then the
  number of variables of the kind in force.
* It refuses any other with the kind of the variable in force, and stays as it is.
* It lists the variables of a kind in the order of the calls, numbered from 0 up to their number.
* A name stands for one variable at most, and the table answers what that one is.
* The start of a subroutine leaves statics and fields alone and ends arguments and locals. -/
structure AgreesWithHistory (calls : List TableCall) : Prop where
  taken (d : Declaration) :
    (∀ v ∈ history calls, v.name = d.name → v.kind.belongsToClass ≠ d.kind.belongsToClass) →
    (SymbolTable.empty.performAll calls).declare d.name d.type d.kind =
      .ok (⟨d.name, d.type, d.kind, (history calls).countP (·.kind = d.kind)⟩,
        SymbolTable.empty.performAll (calls ++ [.declare d]))
  refused (d : Declaration) (v : Variable) :
    v ∈ history calls → v.name = d.name → v.kind.belongsToClass = d.kind.belongsToClass →
    (SymbolTable.empty.performAll calls).declare d.name d.type d.kind =
        .error (.duplicate d.name v.kind) ∧
      SymbolTable.empty.performAll (calls ++ [.declare d]) = SymbolTable.empty.performAll calls
  ofKind (kind : Kind) :
    (SymbolTable.empty.performAll calls).ofKind kind = (history calls).filter (·.kind = kind)
  indices (kind : Kind) :
    ((SymbolTable.empty.performAll calls).ofKind kind).map (·.index) =
      List.range ((SymbolTable.empty.performAll calls).count kind)
  count (kind : Kind) :
    (SymbolTable.empty.performAll calls).count kind = (history calls).countP (·.kind = kind)
  answers (name : String) :
    ∃ found, (SymbolTable.empty.performAll calls).Answers name found ∧
      ∀ other, StandsFor (history calls) name other ↔ other = found
  starts : history (calls ++ [.enterSubroutine]) =
    (history calls).filter (·.kind.belongsToClass)
  keeps (kind : Kind) : kind.belongsToClass = true →
    (SymbolTable.empty.performAll (calls ++ [.enterSubroutine])).ofKind kind =
        (SymbolTable.empty.performAll calls).ofKind kind ∧
      (SymbolTable.empty.performAll (calls ++ [.enterSubroutine])).count kind =
        (SymbolTable.empty.performAll calls).count kind

/-! ## The scopes of the table -/

namespace Declarations

variable {ds : List Declaration} {kind : Kind} {name : String} {v : Variable}

/-- A scope holds the variables of its kinds, newest first. -/
theorem scopeOf_table_ofList (ds : List Declaration) (kind : Kind) :
    (ofList ds).table.scopeOf kind =
      ((numbered ds).filter (·.kind.belongsToClass = kind.belongsToClass)).reverse := by
  rw [scopeOf_table, scope_ofList,
    filter_numbered (fun other => other.belongsToClass = kind.belongsToClass)]

theorem find?_scopeOf_of_mem (distinct : Distinct ds) (mem : v ∈ numbered ds)
    (inScope : v.kind.belongsToClass = kind.belongsToClass) :
    ((ofList ds).table.scopeOf kind).find? v.name = some v := by
  have names := distinct kind
  rw [← map_name_numbered, scope_ofList,
    ← filter_numbered (fun other => other.belongsToClass = kind.belongsToClass)] at names
  rw [scopeOf_table_ofList, Scope.find?, find?_reverse_of_nodup names]
  exact find?_of_mem names (List.mem_filter.2 ⟨mem, decide_eq_true inScope⟩)

theorem find?_scopeOf_eq_none
    (free : ∀ v ∈ numbered ds, v.name = name → v.kind.belongsToClass ≠ kind.belongsToClass) :
    ((ofList ds).table.scopeOf kind).find? name = none := by
  rw [scopeOf_table_ofList, Scope.find?, List.find?_eq_none]
  intro v mem named
  rw [List.mem_reverse, List.mem_filter] at mem
  exact free v mem.1 (of_decide_eq_true named) (of_decide_eq_true mem.2)

theorem ofKind_table_ofList (ds : List Declaration) (kind : Kind) :
    (ofList ds).table.ofKind kind = (numbered ds).filter (·.kind = kind) := by
  rw [SymbolTable.ofKind, scopeOf_table_ofList, List.filter_reverse, List.reverse_reverse,
    List.filter_filter]
  refine List.filter_congr fun v _ => ?_
  by_cases same : v.kind = kind
  · simp [same]
  · simp [same]

theorem count_table_ofList (ds : List Declaration) (kind : Kind) :
    (ofList ds).table.count kind = (numbered ds).countP (·.kind = kind) := by
  rw [table_count, scope_ofList, List.countP_filter, countP_numbered]
  refine List.countP_congr fun d _ => ?_
  by_cases same : d.kind = kind
  · simp [same]
  · simp [same]

theorem map_index_ofKind (ds : List Declaration) (kind : Kind) :
    ((ofList ds).table.ofKind kind).map (·.index) =
      List.range ((ofList ds).table.count kind) := by
  rw [ofKind_table_ofList, filter_numbered (fun other => other = kind), count_table_ofList,
    countP_numbered, List.countP_eq_length_filter]
  exact map_index_numbered fun d mem => of_decide_eq_true (List.mem_filter.1 mem).2

end Declarations

/-! ## Names -/

section

variable {ds : List Declaration} {name : String} {found : Option Variable}

/-- The table finds what a name stands for. -/
theorem StandsFor.find? (stands : StandsFor (numbered ds) name found) (distinct : Distinct ds) :
    (Declarations.ofList ds).table.find? name = found := by
  have order : (Declarations.ofList ds).table.find? name =
      (((Declarations.ofList ds).table.scopeOf .argument).find? name <|>
        ((Declarations.ofList ds).table.scopeOf .static).find? name) := rfl
  rw [order]
  cases stands with
  | @inner v mem named inner =>
    have own : v.kind.belongsToClass = Kind.argument.belongsToClass := inner
    rw [← named, Declarations.find?_scopeOf_of_mem distinct mem own]
    rfl
  | @outer v mem named outer alone =>
    have hidden : ∀ w ∈ numbered ds, w.name = name →
        w.kind.belongsToClass ≠ Kind.argument.belongsToClass := by
      intro w mem same
      rw [alone w mem same]
      decide
    have own : v.kind.belongsToClass = Kind.static.belongsToClass := outer
    rw [Declarations.find?_scopeOf_eq_none hidden, ← named,
      Declarations.find?_scopeOf_of_mem distinct mem own]
    rfl
  | nothing free =>
    rw [Declarations.find?_scopeOf_eq_none fun w mem same => absurd same (free w mem),
      Declarations.find?_scopeOf_eq_none fun w mem same => absurd same (free w mem)]
    rfl

theorem exists_standsFor (vs : List Variable) (name : String) :
    ∃ found, StandsFor vs name found := by
  by_cases inner : ∃ v ∈ vs, v.name = name ∧ v.kind.belongsToClass = false
  · obtain ⟨v, mem, named, kind⟩ := inner
    exact ⟨some v, .inner mem named kind⟩
  · have outside : ∀ w ∈ vs, w.name = name → w.kind.belongsToClass = true := by
      intro w mem named
      by_contra kind
      exact inner ⟨w, mem, named, by simpa using kind⟩
    by_cases outer : ∃ v ∈ vs, v.name = name
    · obtain ⟨v, mem, named⟩ := outer
      exact ⟨some v, .outer mem named (outside v mem named) outside⟩
    · exact ⟨none, .nothing fun w mem named => outer ⟨w, mem, named⟩⟩

end

theorem SymbolTable.answers_find? (t : SymbolTable) (name : String) :
    t.Answers name (t.find? name) := by
  cases h : t.find? name <;>
    exact ⟨h, by simp [kind?, h], by simp [get, h], by simp [getType, get, h, Except.map],
      by simp [getIndex, get, h, Except.map]⟩

/-! ## Agreement -/

theorem history_enterSubroutine (calls : List TableCall) :
    history (calls ++ [.enterSubroutine]) = (history calls).filter (·.kind.belongsToClass) := by
  rw [history, history, SymbolTable.inForce_enterSubroutine, filter_numbered]

/-- After any calls on an empty table, what it answers is told by the declarations in force. -/
theorem agrees_with_history (calls : List TableCall) : AgreesWithHistory calls := by
  obtain ⟨table, distinct⟩ := SymbolTable.performAll_eq_table calls
  constructor
  case taken =>
    intro d free
    have none := Declarations.find?_scopeOf_eq_none free
    have made : (Declarations.ofList (SymbolTable.empty.inForce calls)).table.declare d.name d.type
        d.kind = .ok _ := SymbolTable.declare_eq_ok_iff.2 ⟨none, rfl⟩
    rw [SymbolTable.performAll_concat, SymbolTable.perform, table, made,
      Declarations.count_table_ofList]
    rfl
  case refused =>
    intro d v mem named same
    have earlier := Declarations.find?_scopeOf_of_mem distinct mem same
    rw [named] at earlier
    have refusal : (Declarations.ofList (SymbolTable.empty.inForce calls)).table.declare d.name
        d.type d.kind = .error _ := SymbolTable.declare_eq_error_iff.2 ⟨v, earlier, rfl⟩
    rw [SymbolTable.performAll_concat, SymbolTable.perform, table, refusal]
    exact ⟨rfl, rfl⟩
  case ofKind => exact table ▸ Declarations.ofKind_table_ofList _
  case indices => exact table ▸ Declarations.map_index_ofKind _
  case count => exact table ▸ Declarations.count_table_ofList _
  case answers =>
    intro name
    refine ⟨_, SymbolTable.answers_find? _ name, fun other => ⟨fun stands => ?_, ?_⟩⟩
    · rw [table, stands.find? distinct]
    · rintro rfl
      obtain ⟨found, stands⟩ := exists_standsFor (history calls) name
      rw [table, stands.find? distinct]
      exact stands
  case starts => exact history_enterSubroutine calls
  case keeps =>
    intro kind ofClass
    rw [SymbolTable.performAll_concat, SymbolTable.perform, SymbolTable.ofKind, SymbolTable.count,
      SymbolTable.scopeOf_enterSubroutine, if_pos ofClass]
    exact ⟨rfl, rfl⟩

end JackToVm
