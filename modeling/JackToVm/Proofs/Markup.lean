import JackToVm.Xml

/-!
# Trees of XML

A tree is written by calls that open a node, close a node, or add an element. Calls that are
balanced are those of a row of trees, read from left to right, and of one only. What they write is
that row, with one tag or element on a line and two spaces in front of it for each node around it.

Results.
1. The calls of a row are balanced, and the row is found again from its calls
   (`Markup.nest_calls`, `Markup.ofCalls?_calls`).
2. Balanced calls are those of a row (`Markup.exists_calls_of_balanced`).
3. They write the row (`Markup.foldl_calls`).
-/

namespace JackToVm

/-! ## Calls and rows -/

/-- What a tree that is being written is told. -/
inductive TreeCall
  | opened (node : Node)
  | closed (node : Node)
  | element (kind : TerminalKind) (text : String)
deriving DecidableEq, Repr

def TreeText.call (t : TreeText) : TreeCall → TreeText
  | .opened n => t.openNode n.name
  | .closed n => t.closeNode n.name
  | .element kind text => t.addElement kind text

/-- The open nodes after a call, innermost first. Only the innermost one can close. -/
def TreeCall.nest (stack : List Node) : TreeCall → Option (List Node)
  | opened n => some (n :: stack)
  | closed n => if stack.head? = some n then some stack.tail else none
  | element .. => some stack

/-- Every node that closes is the innermost open one, and none stays open. -/
def TreeCall.Balanced (calls : List TreeCall) : Prop :=
  calls.foldlM TreeCall.nest [] = some []

/-- A row of trees whose leaves are elements. -/
inductive Markup
  | nil
  | element (kind : TerminalKind) (text : String) (rest : Markup)
  | node (node : Node) (inner rest : Markup)
deriving DecidableEq, Repr

namespace Markup

/-- The calls that write a row. -/
def calls : Markup → List TreeCall
  | nil => []
  | element kind text rest => .element kind text :: rest.calls
  | node n inner rest => .opened n :: (inner.calls ++ .closed n :: rest.calls)

/-- A row with `depth` nodes around it. -/
def xml (depth : Nat) : Markup → String
  | nil => ""
  | element kind text rest => TreeText.indented depth (xmlElement kind text) ++ rest.xml depth
  | node n inner rest =>
    TreeText.indented depth (openTag n.name) ++ inner.xml (depth + 1) ++
      TreeText.indented depth (closeTag n.name) ++ rest.xml depth

/-- The calls of a row write it, and leave the depth as it was. -/
theorem foldl_calls (m : Markup) (t : TreeText) :
    m.calls.foldl TreeText.call t = ⟨t.text ++ m.xml t.depth, t.depth⟩ := by
  induction m generalizing t with
  | nil => simp [calls, xml]
  | element kind text rest ih =>
    rw [calls, List.foldl_cons, ih]
    simp [TreeText.call, TreeText.addElement, xml, String.append_assoc]
  | node n inner rest ih ih' =>
    rw [calls, List.foldl_cons, List.foldl_append, ih, List.foldl_cons, ih']
    simp [TreeText.call, TreeText.openNode, TreeText.closeNode, xml, String.append_assoc]

/-- The calls of a row leave the open nodes as they were. -/
theorem nest_calls (m : Markup) (stack : List Node) :
    m.calls.foldlM TreeCall.nest stack = some stack := by
  induction m generalizing stack with
  | nil => rfl
  | element kind text rest ih => exact ih stack
  | node n inner rest ih ih' =>
    rw [calls, List.foldlM_cons]
    show (inner.calls ++ .closed n :: rest.calls).foldlM TreeCall.nest (n :: stack) = some stack
    rw [List.foldlM_append, ih]
    show (TreeCall.nest (n :: stack) (.closed n)).bind (rest.calls.foldlM TreeCall.nest) = _
    simp [TreeCall.nest, ih']

/-! ## The row of some calls -/

/-- Calls are read from the last one on. What is known then are the trees behind a call, and for
each node around it that is still to be opened the trees behind that node. -/
abbrev Pending := Markup × List (Node × Markup)

/-- One more call in front. -/
def prepend : TreeCall → Pending → Option Pending
  | .element kind text, (behind, outer) => some (element kind text behind, outer)
  | .closed n, (behind, outer) => some (nil, (n, behind) :: outer)
  | .opened _, (_, []) => none
  | .opened n, (inner, (m, behind) :: outer) =>
    if n = m then some (node n inner behind, outer) else none

/-- What is known in front of some calls. -/
def pending? : List TreeCall → Option Pending
  | [] => some (nil, [])
  | call :: calls => (pending? calls).bind (prepend call)

/-- The row that has these calls, if there is one. -/
def ofCalls? (calls : List TreeCall) : Option Markup :=
  match pending? calls with
  | some (m, []) => some m
  | _ => none

/-- The trees of one row in front of those of another. -/
def append : Markup → Markup → Markup
  | nil, g => g
  | element kind text rest, g => element kind text (rest.append g)
  | node n inner rest, g => node n inner (rest.append g)

theorem append_nil (m : Markup) : m.append nil = m := by
  induction m with
  | nil => rfl
  | element kind text rest ih => rw [append, ih]
  | node n inner rest _ ih => rw [append, ih]

/-- The trees of a row stand in front of those behind it. -/
theorem pending?_calls_append (m : Markup) (more : List TreeCall) :
    pending? (m.calls ++ more) =
      (pending? more).map fun (behind, outer) => (m.append behind, outer) := by
  induction m generalizing more with
  | nil => simp [calls, append]
  | element kind text rest ih =>
    rw [calls, List.cons_append, pending?, ih]
    cases pending? more <;> rfl
  | node n inner rest ih ih' =>
    have parts : (node n inner rest).calls ++ more =
        .opened n :: (inner.calls ++ .closed n :: (rest.calls ++ more)) := by
      simp [calls]
    rw [parts, pending?, ih, pending?, ih']
    cases pending? more with
    | none => rfl
    | some p => simp [prepend, append, append_nil]

/-- A row is found again from its calls. -/
theorem ofCalls?_calls (m : Markup) : ofCalls? m.calls = some m := by
  have found := m.pending?_calls_append []
  rw [List.append_nil] at found
  simp [ofCalls?, found, pending?, append_nil]

/-! ## Balanced calls -/

/-- The calls behind a place: those of the trees there, and for each node around it its closing and
the calls of the trees behind it. -/
def callsOf : Pending → List TreeCall
  | (m, outer) => m.calls ++ outer.flatMap fun (n, behind) => .closed n :: behind.calls

/-- What calls leave open behind them is empty, so they close the nodes that are open in front. -/
theorem exists_pending_of_nest {stack : List Node} {calls : List TreeCall}
    (nested : calls.foldlM TreeCall.nest stack = some []) :
    ∃ p : Pending, p.2.map (·.1) = stack ∧ callsOf p = calls := by
  induction calls generalizing stack with
  | nil =>
    cases nested
    exact ⟨(nil, []), rfl, rfl⟩
  | cons call calls ih =>
    rw [List.foldlM_cons] at nested
    obtain ⟨stack', first, others⟩ := Option.bind_eq_some_iff.1 nested
    obtain ⟨⟨m, outer⟩, open', rfl⟩ := ih others
    cases call with
    | element kind text =>
      cases first
      exact ⟨(element kind text m, outer), open', rfl⟩
    | opened n =>
      cases first
      obtain ⟨⟨n', behind⟩, outer', rfl, rfl, rfl⟩ := List.map_eq_cons_iff.1 open'
      refine ⟨(node n' m behind, outer'), rfl, ?_⟩
      simp [callsOf, Markup.calls]
    | closed n =>
      obtain ⟨top, rest⟩ := Option.ite_none_right_eq_some.1 first
      cases rest
      cases stack with
      | nil => cases top
      | cons n' stack =>
        cases top
        refine ⟨(nil, (n, m) :: outer), ?_, ?_⟩
        · exact congrArg (n :: ·) open'
        · simp [callsOf, Markup.calls]

/-- Balanced calls are those of a row. -/
theorem exists_calls_of_balanced {calls : List TreeCall} (balanced : TreeCall.Balanced calls) :
    ∃ m : Markup, m.calls = calls := by
  obtain ⟨⟨m, outer⟩, none, same⟩ := exists_pending_of_nest balanced
  obtain rfl := List.map_eq_nil_iff.1 none
  refine ⟨m, ?_⟩
  rw [← same]
  simp [callsOf]

end Markup

end JackToVm
