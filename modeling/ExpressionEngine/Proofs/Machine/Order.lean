import ExpressionEngine.Machine.Moment
import ExpressionEngine.Machine.Supervised
import ExpressionEngine.Proofs.Machine.Parts
import ExpressionEngine.Scalar.Tracing

/-! The order of execution. A run executes the elements of its program one after another, in the order
in which they are listed when every nested expression is replaced in place, and it stops at the first
thing that goes wrong, at whatever depth. The error then tells where: an element's own error comes from
the last call, and after any other error no call has failed. -/

namespace ExpressionEngine

variable {τ ν ε α β : Type}

/-! ### Calls in order -/

def Call.Succeeds (c : Call τ ν ε) : Prop := ∃ vs, c.outcome.result = .ok vs

/-- One call after another. Each comes to what its element makes of its arguments, under the signal as
the calls before it leave it: nothing else touches the signal, and a call only by asking to cancel. -/
inductive Chained : Signal → List (Call τ ν ε) → Signal → Prop
  | nil (s : Signal) : Chained s [] s
  | cons {s s' : Signal} {c : Call τ ν ε} {later : List (Call τ ν ε)} (handed : c.signal = s)
      (executed : c.outcome = c.element.execute c.signal c.arguments)
      (next : Chained (s.cancelIf c.outcome.cancels) later s') : Chained s (c :: later) s'

theorem Chained.append {s t u : Signal} {calls calls' : List (Call τ ν ε)} (h : Chained s calls t)
    (h' : Chained t calls' u) : Chained s (calls ++ calls') u := by
  induction h with
  | nil s => exact h'
  | cons handed executed _ ih => exact .cons handed executed (ih h')

/-- A call is handed the signal of the start, cancelled if a call before it asked to. -/
theorem Chained.at_split {s s' : Signal} {past later : List (Call τ ν ε)} {c : Call τ ν ε}
    (h : Chained s (past ++ c :: later) s') :
    c.signal = s.cancelIf (past.any fun d => d.outcome.cancels) ∧
      c.outcome = c.element.execute c.signal c.arguments := by
  induction past generalizing s with
  | nil =>
    cases h with
    | cons handed executed _ => exact ⟨by simp [handed], executed⟩
  | cons d past ih =>
    cases h with
    | cons handed executed next =>
      obtain ⟨hsignal, hexecuted⟩ := ih next
      exact ⟨by rw [hsignal, Signal.cancelIf_cancelIf, List.any_cons], hexecuted⟩

/-- What the calls of a run come to if it ends with the error. -/
def ExecutionError.EndsCalls (calls : List (Call τ ν ε)) : ExecutionError ε → Prop
  | .element error => ∃ past c, calls = past ++ [c] ∧ (∀ d ∈ past, d.Succeeds) ∧
      c.outcome.result = .error error
  | _ => ∀ c ∈ calls, c.Succeeds

theorem ExecutionError.EndsCalls.append {e : ExecutionError ε} {calls calls' : List (Call τ ν ε)}
    (hc : ∀ c ∈ calls, c.Succeeds) (h : e.EndsCalls calls') : e.EndsCalls (calls ++ calls') := by
  cases e with
  | element error =>
    obtain ⟨past, c, rfl, hpast, hfailed⟩ := h
    exact ⟨calls ++ past, c, (List.append_assoc _ _ _).symm, List.forall_mem_append.2 ⟨hc, hpast⟩,
      hfailed⟩
  | stackUnderflow symbol required available => exact List.forall_mem_append.2 ⟨hc, h⟩
  | wrongResultArity expected found => exact List.forall_mem_append.2 ⟨hc, h⟩
  | stackOverflow size max => exact List.forall_mem_append.2 ⟨hc, h⟩

theorem ExecutionError.EndsCalls.succeeds {e : ExecutionError ε} {past later : List (Call τ ν ε)}
    {c : Call τ ν ε} (h : e.EndsCalls (past ++ c :: later)) (hl : later ≠ []) : c.Succeeds := by
  have hmem : c ∈ past ++ c :: later := List.mem_append_cons_self
  cases e with
  | element error =>
    obtain ⟨before, last, hsplit, hbefore, -⟩ := h
    have hcut := congrArg List.dropLast hsplit
    rw [List.dropLast_append_of_ne_nil (List.cons_ne_nil c later), List.dropLast_concat,
      List.dropLast_cons_of_ne_nil hl] at hcut
    exact hbefore c (hcut ▸ List.mem_append_cons_self)
  | stackUnderflow symbol required available => exact h c hmem
  | wrongResultArity expected found => exact h c hmem
  | stackOverflow size max => exact h c hmem

/-! ### Runs through a list of elements -/

namespace Run

/-- Started on `s`, the run executes the elements in order, all of them if it has a result; of the
calls it makes no more than the last fails, and if it does, the run ends with that error. -/
structure Traverses (r : Run τ ν ε α) (s : Signal) (es : List (Element τ ν ε)) : Prop where
  chained : Chained s r.calls r.signal
  order : r.calls.map Call.element <+: es
  value : ∀ a, r.result = .ok a → r.calls.map Call.element = es ∧ ∀ c ∈ r.calls, c.Succeeds
  error : ∀ e, r.result = .error e → e.EndsCalls r.calls

namespace Traverses

theorem finished (s : Signal) (a : α) : (Run.finished s a : Run τ ν ε α).Traverses s [] where
  chained := .nil s
  order := List.nil_prefix
  value _ _ := ⟨rfl, by simp [Run.finished]⟩
  error e he := nomatch he

theorem failed {e : ExecutionError ε} (h : e.EndsCalls ([] : List (Call τ ν ε))) (s : Signal)
    (es : List (Element τ ν ε)) : (Run.failed s e : Run τ ν ε α).Traverses s es where
  chained := .nil s
  order := List.nil_prefix
  value _ ha := nomatch ha
  error e' he := by cases he; exact h

theorem bind {r : Run τ ν ε α} {s : Signal} {es es' : List (Element τ ν ε)}
    (h : r.Traverses s es) {next : α → Signal → Run τ ν ε β}
    (hn : ∀ a s, (next a s).Traverses s es') : (r.bind next).Traverses s (es ++ es') := by
  cases hr : r.result with
  | error e =>
    rw [bind_of_error hr]
    refine ⟨h.chained, h.order.trans (List.prefix_append es es'), (fun b hb => nomatch hb),
      fun e' he => ?_⟩
    cases he
    exact h.error e hr
  | ok a =>
    obtain ⟨hall, hsucceed⟩ := h.value a hr
    have hnext := hn a r.signal
    rw [bind_of_ok hr]
    refine ⟨h.chained.append hnext.chained, ?_, fun b hb => ?_, fun e he => ?_⟩
    · rw [List.map_append, hall]
      exact (List.prefix_append_right_inj es).2 hnext.order
    · obtain ⟨hall', hsucceed'⟩ := hnext.value b hb
      exact ⟨by rw [List.map_append, hall, hall'],
        List.forall_mem_append.2 ⟨hsucceed, hsucceed'⟩⟩
    · exact .append hsucceed (hnext.error e he)

/-- What comes after executes nothing. -/
theorem bind_nil {r : Run τ ν ε α} {s : Signal} {es : List (Element τ ν ε)} (h : r.Traverses s es)
    {next : α → Signal → Run τ ν ε β} (hn : ∀ a s, (next a s).Traverses s []) :
    (r.bind next).Traverses s es := by
  simpa only [List.append_nil] using h.bind hn

/-- However the run ends, only the last call may have failed. -/
theorem succeeds {r : Run τ ν ε α} {s : Signal} {es : List (Element τ ν ε)} (h : r.Traverses s es)
    {past later : List (Call τ ν ε)} {c : Call τ ν ε} (hsplit : r.calls = past ++ c :: later)
    (hl : later ≠ []) : c.Succeeds := by
  cases hr : r.result with
  | error e =>
    have hends := h.error e hr
    rw [hsplit] at hends
    exact hends.succeeds hl
  | ok a =>
    obtain ⟨-, hsucceed⟩ := h.value a hr
    exact hsucceed c (hsplit ▸ List.mem_append_cons_self)

end Traverses

end Run

theorem Stack.load_traverses (stack : Stack ν) (s : Signal) (values : List ν) :
    (stack.load s values : Run τ ν ε (Stack ν)).Traverses s [] := by
  rw [load]
  split
  · exact ⟨.nil s, List.nil_prefix, fun _ _ => ⟨rfl, by simp⟩, by simp⟩
  · refine ⟨.nil s, List.nil_prefix, by simp, fun e he => ?_⟩
    cases he
    intro c hc
    cases hc

theorem Element.run_traverses (e : Element τ ν ε) (s : Signal) (arguments : List ν) :
    (e.run s arguments).Traverses s [e] where
  chained := .cons rfl rfl (.nil _)
  order := List.prefix_refl [e]
  value vs hvs := by
    refine ⟨rfl, fun c hc => ?_⟩
    rw [List.mem_singleton.1 hc]
    exact ⟨vs, execute_of_run_eq_ok hvs⟩
  error err herr := by
    obtain ⟨error, rfl, hfailed⟩ := execute_of_run_eq_error herr
    exact ⟨[], _, rfl, by simp, hfailed⟩

theorem runProgram_traverses {options : ExecutionOptions} {program : List (Node τ ν ε)}
    (hn : ∀ n ∈ program, ∀ s (arguments : List ν), (n.run options s arguments).Traverses s n.leaves)
    (stack : Stack ν) (s : Signal) :
    (runProgram options program stack s).Traverses s (leavesOf program) := by
  induction program generalizing stack s with
  | nil => exact .finished s stack
  | cons n rest ih =>
    obtain ⟨limit, items⟩ := stack
    rcases Stack.lt_or_exists_top n.inputs.length items with h | ⟨below, arguments, rfl, ha⟩
    · rw [runProgram_cons_of_lt h]
      refine .failed ?_ s _
      intro c hc
      cases hc
    · rw [runProgram_cons_append ha]
      refine (hn n List.mem_cons_self s arguments).bind fun produced s => ?_
      refine (Stack.load_traverses _ s produced).bind fun stack s => ?_
      exact ih (fun m hm => hn m (List.mem_cons_of_mem n hm)) stack s

theorem runFrom_traverses {options : ExecutionOptions} {program : List (Node τ ν ε)}
    (hn : ∀ n ∈ program, ∀ s (arguments : List ν), (n.run options s arguments).Traverses s n.leaves)
    (s : Signal) (inputs : List ν) :
    (runFrom options program s inputs).Traverses s (leavesOf program) := by
  refine (Stack.load_traverses _ s inputs).bind fun stack s => ?_
  exact (runProgram_traverses hn stack s).bind_nil fun stack s => .finished s stack.items

theorem Expression.run_traverses (options : ExecutionOptions) (x : Expression τ ν ε) (s : Signal)
    (inputs : List ν) : (x.run options s inputs).Traverses s x.leaves := by
  induction x using Expression.nestedInduction generalizing s inputs with
  | step x ih =>
    rw [run_eq, leaves_eq]
    refine runFrom_traverses (fun n hn s arguments => ?_) s inputs
    cases n with
    | element e => exact e.run_traverses s arguments
    | nested y => exact ih y hn s arguments

theorem Node.run_traverses (options : ExecutionOptions) (n : Node τ ν ε) (s : Signal)
    (arguments : List ν) : (n.run options s arguments).Traverses s n.leaves := by
  cases n with
  | element e => exact e.run_traverses s arguments
  | nested y => exact y.run_traverses options s arguments

/-! ### The point where a run stops -/

/-- The run ends with the error after the elements listed. -/
def Run.FailsAfter (r : Run τ ν ε α) (es : List (Element τ ν ε)) (e : ExecutionError ε) : Prop :=
  r.result = .error e ∧ r.calls.map Call.element = es

namespace Run

theorem not_failsAfter_finished (s : Signal) (a : α) {es : List (Element τ ν ε)}
    {e : ExecutionError ε} : ¬ (finished s a : Run τ ν ε α).FailsAfter es e := by
  rintro ⟨he, -⟩
  cases he

/-- Runs in sequence fail in the first, or in the second after all that the first has executed. -/
theorem failsAfter_bind_iff {r : Run τ ν ε α} {next : α → Signal → Run τ ν ε β}
    {es : List (Element τ ν ε)} {e : ExecutionError ε} : (r.bind next).FailsAfter es e ↔
      r.FailsAfter es e ∨ ∃ a es', r.result = .ok a ∧ (next a r.signal).FailsAfter es' e ∧
        es = r.calls.map Call.element ++ es' := by
  cases hr : r.result with
  | error e' =>
    rw [bind_of_error hr]
    simp [FailsAfter, hr]
  | ok a =>
    rw [bind_of_ok hr]
    constructor
    · rintro ⟨he, rfl⟩
      exact .inr ⟨a, _, rfl, ⟨he, rfl⟩, List.map_append⟩
    · rintro (⟨he, -⟩ | ⟨b, es', hb, ⟨he, rfl⟩, rfl⟩)
      · exact nomatch hr.symm.trans he
      · cases hb
        exact ⟨he, List.map_append⟩

theorem failsAfter_map_iff {r : Run τ ν ε α} {f : α → β} {es : List (Element τ ν ε)}
    {e : ExecutionError ε} : (r.map f).FailsAfter es e ↔ r.FailsAfter es e := by
  rw [map, failsAfter_bind_iff]
  refine or_iff_left ?_
  rintro ⟨a, es', -, hfails, -⟩
  exact not_failsAfter_finished _ _ hfails

end Run

/-- With values to be put on a stack first, a run fails for want of room, or later. -/
theorem Stack.failsAfter_load_bind_iff {stack : Stack ν} {s : Signal} {values : List ν}
    {next : Stack ν → Signal → Run τ ν ε β} {es : List (Element τ ν ε)} {e : ExecutionError ε} :
    ((stack.load s values).bind next).FailsAfter es e ↔
      (es = [] ∧ ∃ filled overflow, stack.extend values = (filled, some overflow) ∧
        e = .stackOverflow overflow.size overflow.max) ∨
      ∃ stack', stack.extend values = (stack', none) ∧ (next stack' s).FailsAfter es e := by
  cases h : stack.extend values with
  | mk filled overflow =>
    cases overflow with
    | none => simp [load, h, Run.bind, Run.FailsAfter]
    | some overflow =>
      rw [load, h]
      constructor
      · rintro ⟨he, rfl⟩
        cases he
        exact .inl ⟨rfl, filled, overflow, rfl, rfl⟩
      · rintro (⟨rfl, _, _, hfull, rfl⟩ | ⟨_, hroom, -⟩)
        · cases hfull
          exact ⟨rfl, rfl⟩
        · cases hroom

theorem Element.failsAfter_run_iff {e : Element τ ν ε} {s : Signal} {arguments : List ν}
    {es : List (Element τ ν ε)} {err : ExecutionError ε} :
    (e.run s arguments).FailsAfter es err ↔ es = [e] ∧
      ∃ error, (e.execute s arguments).result = .error error ∧ err = .element error := by
  constructor
  · rintro ⟨herr, rfl⟩
    obtain ⟨error, rfl, hfailed⟩ := execute_of_run_eq_error herr
    exact ⟨rfl, error, hfailed, rfl⟩
  · rintro ⟨rfl, error, hfailed, rfl⟩
    exact ⟨congrArg (Except.mapError ExecutionError.element) hfailed, rfl⟩

/-- A program that is run from what was reached so far fails where the whole does. -/
theorem failsAfter_runFrom_append {options : ExecutionOptions} {past rest : List (Node τ ν ε)}
    {s : Signal} {inputs held : List ν}
    (reached : (runFrom options past s inputs).result = .ok held) {es : List (Element τ ν ε)}
    {e : ExecutionError ε}
    (h : (runProgram options rest ⟨options.maxStackSize, held⟩
      (runFrom options past s inputs).signal).FailsAfter es e) :
    (runFrom options (past ++ rest) s inputs).FailsAfter (leavesOf past ++ es) e := by
  have hpast := (runFrom_traverses (fun n _ => n.run_traverses options) s inputs).value held reached
  rw [runFrom_append, Run.failsAfter_bind_iff]
  exact .inr ⟨held, es, reached, Run.failsAfter_map_iff.2 h, by rw [hpast.1]⟩

namespace Expression

variable {options : ExecutionOptions} {x : Expression τ ν ε} {s : Signal} {inputs : List ν}
  {es : List (Element τ ν ε)} {e : ExecutionError ε}

theorem StopsAt.failsAfter (h : x.StopsAt options s inputs es e) :
    (x.run options s inputs).FailsAfter es e := by
  induction h with
  | inputs full =>
    rw [run_eq, runFrom, Stack.failsAfter_load_bind_iff]
    exact .inl ⟨rfl, _, _, full, rfl⟩
  | underflow split reached lacking =>
    rw [run_eq, split, ← List.append_nil (leavesOf _)]
    refine failsAfter_runFrom_append reached ?_
    rw [runProgram_cons_of_lt lacking]
    exact ⟨rfl, rfl⟩
  | element split reached taken failed =>
    rw [run_eq, split]
    refine failsAfter_runFrom_append reached ?_
    rw [runProgram_cons_append (n := .element _) taken, Run.failsAfter_bind_iff]
    exact .inl (Element.failsAfter_run_iff.2 ⟨rfl, _, failed, rfl⟩)
  | nested split reached taken _ ih =>
    rw [run_eq, split]
    refine failsAfter_runFrom_append reached ?_
    rw [runProgram_cons_append (n := .nested _) taken, Run.failsAfter_bind_iff]
    exact .inl ih
  | @outputs x s inputs past rest n below arguments produced filled overflow split reached taken
      given full =>
    rw [run_eq, split]
    refine failsAfter_runFrom_append reached ?_
    rw [runProgram_cons_append taken, Run.failsAfter_bind_iff]
    have hnode := (n.run_traverses options _ arguments).value produced given
    refine .inr ⟨produced, [], given, ?_, by rw [hnode.1, List.append_nil]⟩
    exact Stack.failsAfter_load_bind_iff.2 (.inl ⟨rfl, _, _, full, rfl⟩)

/-- A run that fails in what is left of its program stops there, if every nested expression does. -/
theorem stopsAt_of_rest
    (hn : ∀ y, .nested y ∈ x.program → ∀ s inputs es e, (y.run options s inputs).FailsAfter es e →
      y.StopsAt options s inputs es e)
    {rest past : List (Node τ ν ε)} {held : List ν} (split : x.program = past ++ rest)
    (reached : (runFrom options past s inputs).result = .ok held)
    (h : (runProgram options rest ⟨options.maxStackSize, held⟩
      (runFrom options past s inputs).signal).FailsAfter es e) :
    x.StopsAt options s inputs (leavesOf past ++ es) e := by
  induction rest generalizing past held es with
  | nil => exact absurd h (Run.not_failsAfter_finished _ _)
  | cons n rest ih =>
    rcases Stack.lt_or_exists_top n.inputs.length held with hlt | ⟨below, arguments, rfl, ha⟩
    · rw [runProgram_cons_of_lt hlt] at h
      obtain ⟨he, rfl⟩ := h
      cases he
      rw [Run.failed, List.map_nil, List.append_nil]
      exact .underflow split reached hlt
    rw [runProgram_cons_append ha, Run.failsAfter_bind_iff] at h
    rcases h with h | ⟨produced, es', hr, h, rfl⟩
    · cases n with
      | element m =>
        obtain ⟨rfl, error, hfailed, rfl⟩ := Element.failsAfter_run_iff.1 h
        exact .element split reached ha hfailed
      | nested y =>
        have hmem : .nested y ∈ x.program := split ▸ List.mem_append_cons_self
        exact .nested split reached ha (hn y hmem _ _ _ _ h)
    -- the node has given its values; they are put on the stack, and the rest is run
    rw [((n.run_traverses options _ arguments).value produced hr).1]
    rcases Stack.failsAfter_load_bind_iff.1 h with ⟨rfl, filled, overflow, full, rfl⟩ |
      ⟨stack, room, h⟩
    · rw [List.append_nil]
      exact .outputs split reached ha hr full
    · have split' : x.program = (past ++ [n]) ++ rest := by rw [split, List.append_cons]
      obtain ⟨reached', hsignal⟩ := runFrom_snoc reached ha hr room
      rw [Stack.eq_of_extend_eq_none room, ← hsignal] at h
      have hstops := ih split' reached' h
      rwa [leavesOf_append, leavesOf_singleton, List.append_assoc] at hstops

/-- Where a run stops, and with what error, is settled by the point it comes to. -/
theorem failsAfter_iff_stopsAt :
    (x.run options s inputs).FailsAfter es e ↔ x.StopsAt options s inputs es e := by
  refine ⟨fun h => ?_, StopsAt.failsAfter⟩
  induction x using Expression.nestedInduction generalizing s inputs es e with
  | step x ih =>
    have hn : ∀ y, .nested y ∈ x.program → ∀ s inputs es e,
        (y.run options s inputs).FailsAfter es e → y.StopsAt options s inputs es e :=
      fun y hy s inputs es e => ih y hy
    rw [run_eq, runFrom] at h
    rcases Stack.failsAfter_load_bind_iff.1 h with ⟨rfl, filled, overflow, full, rfl⟩ |
      ⟨stack, room, h⟩
    · exact .inputs full
    have hstart : runFrom options ([] : List (Node τ ν ε)) s inputs = _ := runFrom_nil_of_room room s
    rw [Run.failsAfter_map_iff, Stack.eq_of_extend_eq_none room] at h
    refine stopsAt_of_rest hn (List.nil_append _).symm (congrArg Run.result hstart) ?_
    rwa [hstart]

end Expression

/-- The order of execution, in the run of any expression under any context. The elements executed are
an initial part of those listed, and each is handed the caller's own context, in the state to which
earlier calls have brought it. Only the last call may fail; a run that gives values has executed all
elements, and one that fails with an element's error has that very error from its last call. After any
other error no call has failed, and the point where the run stops shows that nothing was executed
beyond it. -/
theorem Contexts.execution_order (cs : Contexts) (c : Context) (options : ExecutionOptions)
    (x : Expression τ ν ε) (inputs : List ν) :
    let r := x.run options (cs.signal c) inputs
    (r.calls.map Call.element <+: x.leaves ∧
        ∀ past call later, r.calls = past ++ call :: later →
          call.signal =
              (if past.any (fun d => d.outcome.cancels) then cs.cancel c else cs).signal c ∧
            call.outcome = call.element.execute call.signal call.arguments ∧
            (later ≠ [] → call.Succeeds)) ∧
      (∀ vs, (cs.run c options x inputs).1 = .ok vs →
        r.calls.map Call.element = x.leaves ∧ ∀ call ∈ r.calls, call.Succeeds) ∧
      (∀ err, (cs.run c options x inputs).1 = .error err →
        err.EndsCalls r.calls ∧
          x.StopsAt options (cs.signal c) inputs (r.calls.map Call.element) err) ∧
      (x.runSingle options (cs.signal c) inputs).calls = r.calls ∧
      (∀ v, (cs.runSingle c options x inputs).1 = .ok v ↔ (cs.run c options x inputs).1 = .ok [v]) ∧
      ∀ err, (cs.runSingle c options x inputs).1 = .error err ↔
        (cs.run c options x inputs).1 = .error err ∨
          ∃ vs, (cs.run c options x inputs).1 = .ok vs ∧ vs.length ≠ 1 ∧
            err = .wrongResultArity 1 vs.length := by
  intro r
  have h := x.run_traverses options (cs.signal c) inputs
  refine ⟨⟨h.order, fun past call later hsplit => ?_⟩, h.value, fun err herr => ?_, ?_,
    fun v => Expression.runSingle_eq_ok_iff, fun err => Expression.runSingle_eq_error_iff⟩
  · have hchained : Chained (cs.signal c) (past ++ call :: later) r.signal := hsplit ▸ h.chained
    obtain ⟨hsignal, hexecuted⟩ := hchained.at_split
    refine ⟨?_, hexecuted, h.succeeds hsplit⟩
    rw [signal_ite_cancel]
    exact hsignal
  · exact ⟨h.error err herr, Expression.failsAfter_iff_stopsAt.1 ⟨herr, rfl⟩⟩
  · exact (x.runSingle_calls_peak options (cs.signal c) inputs).1

/-- Two levels down, an element fails. The call before it succeeded and asked to cancel; what comes
after it, on whatever level, is not executed. -/
theorem Contexts.execution_order_failed :
    let ending : Element TypeTag Scalar String :=
      { Tracing.element "a" .value 0 0 .left with
        execute := fun s arguments => (Behaviour.execute "a" (.call 1) s arguments).cancelling }
    let broken : Element TypeTag Scalar String :=
      { Tracing.element "!" .operator 1 0 .right with execute := Behaviour.execute "!" (.fail "e") }
    let y : Expression TypeTag Scalar String :=
      ⟨"y", [.element broken, Tracing.value "c"], [Tracing.text], [Tracing.text, Tracing.text]⟩
    let x : Expression TypeTag Scalar String :=
      ⟨"x", [.element ending, .nested ⟨"z", [.nested y], y.inputs, y.outputs⟩, Tracing.value "b"], [],
        [Tracing.text, Tracing.text, Tracing.text]⟩
    let cs : Contexts := {}
    let r := x.run {} (cs.signal ⟨0, some 5⟩) []
    x.leaves.map Element.symbol = ["a", "!", "c", "b"] ∧
      r.calls.map (fun call => call.element.symbol) = ["a", "!"] ∧
      x.StopsAt {} (cs.signal ⟨0, some 5⟩) [] (r.calls.map Call.element) (.element "e") ∧
      ∃ call, r.calls.getLast? = some call ∧ call.signal = ⟨true, some 5, 0⟩ ∧
        call.outcome.result = .error "e" := by
  intro ending broken y x cs r
  obtain ⟨-, -, herror, -⟩ := execution_order cs ⟨0, some 5⟩ {} x []
  obtain ⟨⟨past, call, hsplit, -, hfailed⟩, hstops⟩ := herror (.element "e") rfl
  have hlast : r.calls.getLast? = some call := hsplit ▸ List.getLast?_concat
  have hsignal : r.calls.getLast?.map Call.signal = some ⟨true, some 5, 0⟩ := rfl
  rw [hlast] at hsignal
  exact ⟨rfl, rfl, hstops, call, hlast, Option.some.inj hsignal, hfailed⟩

end ExpressionEngine
