import JackToVm.Proofs.Checking

/-!
# The first violation of the rules for names and constants

Results.
1. A pass keeps track of the scan (`Machine.Reaches.watches`), and the terminal that it refuses is
   the first one that violates a rule (`Machine.Watches.violates`).
2. An error of a name or of a constant is reported at the first token of the text that violates a
   rule, and says which one (`first_violation_of_compile_eq_error`).
-/

namespace JackToVm

/-! ## Passes -/

theorem Scan.clean_append {s : Scan} {ts us rest : List Terminal}
    (first : s.Clean ts (us ++ rest)) (second : (s.afterAll ts).Clean us rest) :
    s.Clean (ts ++ us) rest := by
  induction ts generalizing s with
  | nil => exact second
  | cons t ts ih =>
    obtain ⟨head, tail⟩ := first
    rw [← List.append_assoc] at head
    exact ⟨head, ih tail second⟩

/-- No terminal of a clean list violates a rule, by the terminals before it. -/
theorem Scan.Clean.not_violates {s : Scan} {ts rest before after : List Terminal} {t : Terminal}
    (clean : s.Clean ts rest) (parts : ts ++ rest = before ++ t :: after)
    (short : before.length < ts.length) (fault : Fault) :
    ¬(s.afterAll before).Violates after.head? t fault := by
  induction ts generalizing s before with
  | nil => exact absurd short (Nat.not_lt_zero _)
  | cons u ts ih =>
    cases before with
    | nil =>
      cases parts
      exact clean.1 fault
    | cons v before =>
      obtain ⟨rfl, others⟩ := List.cons.inj parts
      show ¬((s.after u).afterAll before).Violates _ _ _
      exact ih clean.2 others (Nat.lt_of_succ_lt_succ short)

namespace Machine

/-- What a machine has consumed of the terminals `ts` is checked or waits, and no terminal that is
checked violates a rule. -/
def Watches (ts : List Terminal) (m : Machine) : Prop :=
  ∃ checked pending w, ts = checked ++ (pending ++ m.ahead) ∧
    m.site = checked.length + pending.length ∧ Scan.start.Clean checked (pending ++ m.ahead) ∧
    w.Holds m.env checked.length pending m.ahead.head? ∧ m.env.Agrees (scan checked) ∧
    PassAll m.goals (scan checked).spot w fun _ _ => True

theorem watches_start (ts : List Terminal) : (start ts).Watches ts := by
  refine ⟨[], [], .nothing, rfl, rfl, trivial, rfl, ?_, ?_⟩
  · exact ⟨fun _ => rfl, fun _ _ _ => rfl, fun _ => rfl, by simp [scan, Scan.start], rfl⟩
  · exact ⟨by decide, rfl, rfl, trivial⟩

/-- The goals of a move are put on the others. -/
theorem watches_of_resumes {ts checked consumed ahead : List Terminal} {next k : List Goal}
    {env : Env} {site : Nat} (parts : ts = checked ++ (consumed ++ ahead))
    (count : site = checked.length + consumed.length)
    (clean : Scan.start.Clean checked (consumed ++ ahead))
    (resumes : Resumes (scan checked) checked.length consumed ahead next env
      fun p w => PassAll k p w fun _ _ => True) :
    Watches ts ⟨next ++ k, ahead, site, env⟩ := by
  obtain ⟨done, pending, w, rfl, clean', holds, agrees, passes⟩ := resumes
  have scanned : scan (checked ++ done) = (scan checked).afterAll done :=
    Scan.afterAll_append _ _ _
  rw [List.append_assoc] at parts clean
  refine ⟨checked ++ done, pending, w, ?_, ?_, Scan.clean_append clean clean', ?_, ?_, ?_⟩
  · rw [parts, List.append_assoc]
  · rw [count, List.length_append, List.length_append, Nat.add_assoc]
  · rwa [List.length_append]
  · rwa [scanned]
  · rw [scanned]
    exact (passAll_append _ _ _ _ _).2 passes

variable {ending : Option LexCause} {m z : Machine} {es : List Event} {ts : List Terminal}

/-- A machine that moves keeps watching. -/
theorem Reaches.watches (reached : Reaches ending m es z) (readable : ∀ t ∈ ts, t.Readable)
    (watches : m.Watches ts) : z.Watches ts := by
  induction reached with
  | refl => exact watches
  | @emit g k ahead site env i es z act _ ih =>
    obtain ⟨checked, pending, w, rfl, rfl, clean, holds, agrees, passes⟩ := watches
    have others := List.forall_mem_append.1 readable
    have tracks := g.action_tracked env _ _ _ _ w _ passes holds agrees others.2
    rw [act] at tracks
    exact ih ⟨checked, pending, w, rfl, rfl, clean, holds, agrees, tracks⟩
  | @expand g k next ahead site env env' events es z act _ ih =>
    obtain ⟨checked, pending, w, rfl, rfl, clean, holds, agrees, passes⟩ := watches
    have others := List.forall_mem_append.1 readable
    have tracks := g.action_tracked env _ _ _ _ w _ passes holds agrees others.2
    rw [act] at tracks
    exact ih (watches_of_resumes rfl rfl clean tracks)
  | @accept g k next t ahead site env env' events es z act _ _ ih =>
    obtain ⟨checked, pending, w, rfl, rfl, clean, holds, agrees, passes⟩ := watches
    have others := List.forall_mem_append.1 readable
    have tracks := g.action_tracked env _ _ _ (t :: ahead) w _ passes holds agrees others.2
    rw [List.head?_cons, act] at tracks
    have parts : checked ++ (pending ++ t :: ahead) = checked ++ ((pending ++ [t]) ++ ahead) := by
      rw [List.append_assoc, List.singleton_append]
    refine ih (watches_of_resumes parts ?_ ?_ (tracks t ahead rfl))
    · rw [List.length_append]
      rfl
    · rwa [List.append_assoc, List.singleton_append]

/-- What a machine refuses is the first terminal that violates a rule. -/
theorem Watches.violates {g : Goal} {k : List Goal} {ahead : List Terminal} {site blamed : Nat}
    {env : Env} {fault : Fault} (watches : Watches ts ⟨g :: k, ahead, site, env⟩)
    (readable : ∀ t ∈ ts, t.Readable)
    (act : g.action env site ahead.head? = .refuse fault blamed) :
    ∃ before t after, ts = before ++ t :: after ∧ blamed = before.length ∧
      (scan before).Violates after.head? t fault ∧
      ∀ before' u after', ts = before' ++ u :: after' → before'.length < before.length →
        ∀ fault, ¬(scan before').Violates after'.head? u fault := by
  obtain ⟨checked, pending, w, rfl, rfl, clean, holds, agrees, passes⟩ := watches
  have others := List.forall_mem_append.1 readable
  have tracks := g.action_tracked env _ _ _ _ w _ passes holds agrees others.2
  rw [act] at tracks
  obtain ⟨rfl, t, rest, rfl, violates⟩ := tracks
  exact ⟨checked, t, rest ++ ahead, rfl, rfl, violates, fun _ _ _ parts short fault =>
    clean.not_violates parts short fault⟩

end Machine

/-! ## Compilations -/

/-- A fault of a name or of a constant comes from a goal that refuses what was read. -/
theorem Lexer.Reading.Stops.refused {r : Lexer.Reading} {es : List Event} {fault : Fault}
    {site : Nat} (stops : r.Stops es ⟨fault, site⟩)
    (ofRules : (∃ error, fault = .symbol error) ∨ ∃ n, fault = .constantOutOfRange n) :
    ∃ es' g k ahead here env, r.Reaches es' ⟨g :: k, ahead, here, env⟩ ∧
      g.action env here ahead.head? = .refuse fault site := by
  generalize atFault : Failure.mk fault site = failure at stops
  cases stops with
  | unread _ _ =>
    cases atFault
    rcases ofRules with ⟨_, other⟩ | ⟨_, other⟩ <;> cases other
  | stuck reaches fails =>
    cases fails with
    | refuses act =>
      cases atFault
      exact ⟨_, _, _, _, _, _, reaches, act⟩
    | rejects _ | lacks _ _ =>
      cases atFault
      rcases ofRules with ⟨_, other⟩ | ⟨_, other⟩ <;> cases other

/-- A list of tokens has the parts that its terminals have. -/
theorem exists_tokens_of_map_eq {tokens : List Token} {before after : List Terminal} {t : Terminal}
    (parts : tokens.map (·.terminal) = before ++ t :: after) :
    ∃ before' t' after', tokens = before' ++ t' :: after' ∧
      before = before'.map (·.terminal) ∧ t = t'.terminal ∧ after = after'.map (·.terminal) := by
  obtain ⟨before', others, rfl, rfl, rest⟩ := List.map_eq_append_iff.1 parts
  obtain ⟨t', after', rfl, rfl, rfl⟩ := List.map_eq_cons_iff.1 rest
  exact ⟨before', t', after', rfl, rfl, rfl, rfl⟩

/-- An error of a name or of a constant is reported at the first token of the text that violates a
rule for names and constants, and it is the one that the rule tells. -/
theorem first_violation_of_compile_eq_error {source : String} {e : CompileError}
    (failed : compile source = .error e)
    (ofRules : (∃ error, e.fault = .symbol error) ∨ ∃ n, e.fault = .constantOutOfRange n) :
    ∃ before t after, (Lexer.ofString source).read.tokens = before ++ t :: after ∧
      e.token = some t ∧
      (scan (before.map (·.terminal))).Violates (after.head?.map (·.terminal)) t.terminal e.fault ∧
      ∀ before' u after', (Lexer.ofString source).read.tokens = before' ++ u :: after' →
        before'.length < before.length → ∀ fault,
        ¬(scan (before'.map (·.terminal))).Violates (after'.head?.map (·.terminal)) u.terminal
          fault := by
  obtain ⟨es, ⟨fault, site⟩, stops, rfl⟩ := exists_stops_of_compile_eq_error failed
  rw [Lexer.Reading.fault_locate] at ofRules ⊢
  rw [Lexer.Reading.token_locate]
  obtain ⟨es', g, k, ahead, here, env, reaches, act⟩ := stops.refused ofRules
  have readable : ∀ t ∈ (Lexer.ofString source).read.tokens.map (·.terminal), t.Readable :=
    fun t mem => Lexer.readable_of_mem_read mem
  obtain ⟨_, _, _, parts, rfl, violates, first⟩ :=
    (reaches.reached.watches readable (Machine.watches_start _)).violates readable act
  obtain ⟨before, t, after, tokens, rfl, rfl, rfl⟩ := exists_tokens_of_map_eq parts
  rw [List.head?_map] at violates
  refine ⟨before, t, after, tokens, ?_, violates, ?_⟩
  · rw [tokens, List.length_map, List.getElem?_append_right (Nat.le_refl _), Nat.sub_self]
    rfl
  · intro before' u after' others shorter fault
    rw [← List.head?_map]
    refine first _ _ _ ?_ ?_ fault
    · rw [others, List.map_append, List.map_cons]
    · rwa [List.length_map, List.length_map]

def fieldInFunction : String :=
  "class A { field int x; function int f() { return x; } }"

/-- The token of a name is found where the field is read. -/
theorem first_violation_of_fieldInFunction :
    ∃ before t after, (Lexer.ofString fieldInFunction).read.tokens = before ++ t :: after ∧
      some ⟨.identifier "x", "x", ⟨49, 50⟩, 1⟩ = some t ∧
      (scan (before.map (·.terminal))).Violates (after.head?.map (·.terminal)) t.terminal
        (.symbol (.fieldWithoutReceiver "x")) ∧
      ∀ before' u after', (Lexer.ofString fieldInFunction).read.tokens = before' ++ u :: after' →
        before'.length < before.length → ∀ fault,
        ¬(scan (before'.map (·.terminal))).Violates (after'.head?.map (·.terminal)) u.terminal
          fault := by
  have failed : compile fieldInFunction = .error
      ⟨.symbol (.fieldWithoutReceiver "x"), some ⟨.identifier "x", "x", ⟨49, 50⟩, 1⟩, 1⟩ := by
    decide +kernel
  exact first_violation_of_compile_eq_error failed (.inl ⟨_, rfl⟩)

end JackToVm
