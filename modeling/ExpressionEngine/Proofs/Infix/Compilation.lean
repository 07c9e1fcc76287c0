import ExpressionEngine.Proofs.Infix.Placement
import ExpressionEngine.Proofs.Infix.Typing
import ExpressionEngine.Proofs.Machine.Limit
import ExpressionEngine.Proofs.Machine.Soundness

/-! Compiling and running an infix tree is evaluating it. The program of a tree, run on any stack,
makes the calls of the evaluation in the same order and leaves the tree's value on top, and the
tokens of a precedence-correct tree compile to that program. The elements keep their arities; nothing
else is asked of what they compute. -/

namespace ExpressionEngine

variable {τ ν ε : Type}

/-- The values, as many as they should be, on top of the items. -/
def OnTop (items : List ν) (count : Nat) (stack : Stack ν) (values : List ν) : Prop :=
  stack = ⟨none, items ++ values⟩ ∧ values.length = count

theorem runProgram_singleton {n : Node τ ν ε} (hn : n.RunsWell (fun _ _ => True) {})
    (items : List ν) {arguments : List ν} (ha : arguments.length = n.inputs.length) (s : Signal) :
    (runProgram {} [n] ⟨none, items ++ arguments⟩ s).Agrees (OnTop items n.outputs.length)
      (n.run {} s arguments) := by
  have hvalues : ∀ vs, (n.run {} s arguments).result = .ok vs → vs.length = n.outputs.length := by
    intro vs hvs
    exact forall₂_true_iff.1 ((hn s arguments (forall₂_true_iff.2 ha)).value vs hvs)
  have h : (runProgram {} [n] ⟨none, items ++ arguments⟩ s).Agrees (OnTop items n.outputs.length)
      ((n.run {} s arguments).bind fun vs s => .finished s vs) := by
    rw [runProgram_cons_append ha]
    refine (Run.Agrees.self hvalues).bind fun vs _ s hvs => ?_
    obtain ⟨rfl, hl⟩ := hvs
    rw [Stack.load_of_unlimited]
    exact ⟨rfl, rfl, .ok ⟨rfl, hl⟩⟩
  rwa [Run.bind_finished] at h

theorem InfixTree.forall_mem_postorder_unary {o : Node τ ν ε} {operand : InfixTree τ ν ε}
    {P : Node τ ν ε → Prop} :
    (∀ n ∈ (InfixTree.unary o operand).postorder, P n) ↔ (∀ n ∈ operand.postorder, P n) ∧ P o := by
  rw [postorder, List.forall_mem_append, List.forall_mem_singleton]

theorem InfixTree.forall_mem_postorder_binary {o : Node τ ν ε} {left right : InfixTree τ ν ε}
    {P : Node τ ν ε → Prop} :
    (∀ n ∈ (InfixTree.binary o left right).postorder, P n) ↔
      ((∀ n ∈ left.postorder, P n) ∧ ∀ n ∈ right.postorder, P n) ∧ P o := by
  rw [postorder, List.forall_mem_append, List.forall_mem_append, List.forall_mem_singleton]

/-- The program of a tree puts the tree's value on top of whatever the stack holds. -/
theorem runProgram_postorder {t : InfixTree τ ν ε} (ha : t.HasArities)
    (hn : ∀ n ∈ t.postorder, n.RunsWell (fun _ _ => True) {}) (items : List ν) (s : Signal) :
    (runProgram {} t.postorder ⟨none, items⟩ s).Agrees (OnTop items 1) (t.eval s) := by
  induction t generalizing items s with
  | leaf n =>
    obtain ⟨hin, hout⟩ := ha
    have hargs : ([] : List ν).length = n.inputs.length := hin.symm
    have h := runProgram_singleton (hn n List.mem_cons_self) items hargs s
    rwa [List.append_nil, hout] at h
  | group opener inner closer ih => exact ih ha hn items s
  | unary o operand ih =>
    obtain ⟨⟨hin, hout⟩, hao⟩ := ha
    obtain ⟨hnodes, ho⟩ := InfixTree.forall_mem_postorder_unary.1 hn
    rw [InfixTree.postorder, runProgram_append, InfixTree.eval]
    refine (ih hao hnodes items s).bind fun _ values s hv => ?_
    obtain ⟨rfl, hl⟩ := hv
    have h := runProgram_singleton ho items (hl.trans hin.symm) s
    rwa [hout] at h
  | binary o left right ihl ihr =>
    obtain ⟨⟨hin, hout⟩, hal, har⟩ := ha
    obtain ⟨⟨hnodesl, hnodesr⟩, ho⟩ := InfixTree.forall_mem_postorder_binary.1 hn
    rw [InfixTree.postorder, List.append_assoc, runProgram_append, InfixTree.eval]
    refine (ihl hal hnodesl items s).bind fun _ lefts s hlefts => ?_
    obtain ⟨rfl, hll⟩ := hlefts
    rw [runProgram_append]
    -- the left operand's value is one more item below the right operand
    refine (ihr har hnodesr (items ++ lefts) s).bind fun _ rights s hrights => ?_
    obtain ⟨rfl, hlr⟩ := hrights
    have hargs : (lefts ++ rights).length = o.inputs.length := by
      rw [List.length_append]
      omega
    have h := runProgram_singleton ho items hargs s
    rwa [hout, ← List.append_assoc] at h

/-- Running the expression is evaluating the tree: the same calls, the same signal at the end, and the
same error or the tree's value on top of what the run was given. Alone on the stack it is the single
result. A limit makes no difference unless it is exceeded, and then the run overflows. -/
structure Expression.Computes (x : Expression τ ν ε) (t : InfixTree τ ν ε) : Prop where
  run : ∀ s given, (x.run {} s given).Agrees (fun vs values => vs = given ++ values) (t.eval s)
  runSingle : ∀ s, (x.runSingle {} s []).Agrees (fun v values => [v] = values) (t.eval s)
  within : ∀ max s given, (x.run {} s given).peak ≤ max →
    (x.run ⟨some max⟩ s given).Agrees (fun vs values => vs = given ++ values) (t.eval s)
  beyond : ∀ max s given, max < (x.run {} s given).peak →
    (x.run ⟨some max⟩ s given).result = .error (.stackOverflow (max + 1) max)

theorem Expression.run_agrees_eval {x : Expression τ ν ε} {t : InfixTree τ ν ε}
    (hx : x.program = t.postorder) (ha : t.HasArities)
    (hn : ∀ n ∈ t.postorder, n.RunsWell (fun _ _ => True) {}) (s : Signal) (given : List ν) :
    (x.run {} s given).Agrees (fun vs values => vs = given ++ values ∧ values.length = 1)
      (t.eval s) := by
  have hload : ((Stack.empty none).load s given : Run τ ν ε (Stack ν)).Agrees
      (fun stack _ => stack = ⟨none, given⟩) (.finished s given) := by
    rw [Stack.empty, Stack.load_of_unlimited]
    exact ⟨rfl, rfl, .ok rfl⟩
  have h : (x.run {} s given).Agrees (fun vs values => vs = given ++ values ∧ values.length = 1)
      ((Run.finished s given).bind fun _ s =>
        (t.eval s).bind fun values s => .finished s values) := by
    rw [run_eq, runFrom, hx]
    refine hload.bind fun stack _ s hstack => ?_
    rw [hstack]
    refine (runProgram_postorder ha hn given s).bind fun stack' values s hv => ?_
    obtain ⟨rfl, hl⟩ := hv
    exact .finished ⟨rfl, hl⟩ s
  rwa [Run.finished_bind, Run.bind_finished] at h

theorem Expression.computes {x : Expression τ ν ε} {t : InfixTree τ ν ε}
    (hx : x.program = t.postorder) (ha : t.HasArities)
    (hn : ∀ n ∈ t.postorder, n.RunsWell (fun _ _ => True) {}) : x.Computes t := by
  have hrun : ∀ s given, (x.run {} s given).Agrees (fun vs values => vs = given ++ values)
      (t.eval s) := by
    intro s given
    exact (run_agrees_eval hx ha hn s given).mono fun _ _ h => h.1
  refine ⟨hrun, fun s => ?_, fun max s given hpeak => ?_, fun max s given hpeak => ?_⟩
  · have h : (x.runSingle {} s []).Agrees (fun v values => [v] = values)
        ((t.eval s).bind fun values s => .finished s values) := by
      refine (run_agrees_eval hx ha hn s []).bind fun vs values s hv => ?_
      obtain ⟨rfl, hl⟩ := hv
      obtain ⟨v, rfl⟩ := List.length_eq_one_iff.1 hl
      show (Run.finished s v).Agrees (fun v values => [v] = values) (.finished s [v])
      refine .finished ?_ s
      rfl
    rwa [Run.bind_finished] at h
  · exact .of_eq ((x.run_limits max s given).within hpeak) (hrun s given)
  · exact (x.run_limits max s given).beyond hpeak

variable [Ty τ]

/-- Compiled and run, a precedence-correct tree gives what its evaluation gives. Its tokens are all
taken, and the only thing to stop it is an operator that does not accept what its operands may give;
without one, the program runs on top of the declared inputs and leaves one value more. -/
theorem Builder.finalize_computes {b : Builder τ ν ε} (hb : b.Fresh) {t : InfixTree τ ν ε}
    (hw : t.WellFormed) (ha : t.HasArities) (hp : t.PrecedenceCorrect)
    (hc : ∀ y, .nested y ∈ t.postorder → Compiled y)
    (he : ∀ e ∈ leavesOf t.postorder, e.KeepsArity) :
    (b.appendEach t.tokens).refused = [] ∧
      (¬ t.WellTyped → ∃ element required provided,
        (b.appendEach t.tokens).builder.finalize =
          .error (.typeMismatch element required provided)) ∧
      (t.WellTyped → ∃ x, (b.appendEach t.tokens).builder.finalize = .ok x ∧
        x.program = t.postorder ∧ x.outputs = b.inputs ++ t.outputs ∧ t.outputs.length = 1 ∧
        x.Computes t) := by
  have hn : ∀ n ∈ t.postorder, n.RunsWell (fun _ _ => True) {} := by
    intro n hmem
    refine Node.runsWell (fun _ _ _ _ _ => trivial) ?_ ?_ {}
    · intro y hy
      exact (hc y (hy ▸ hmem)).checked
    · intro e hleaf
      exact (he e (mem_leavesOf.2 ⟨n, hmem, hleaf⟩)).respects
  refine ⟨?_, fun ht => ?_, fun ht => ?_⟩
  · rw [appendEach_tokens hb hw hp]
  · obtain ⟨element, required, provided, h⟩ :=
      InfixTree.typeCheck_postorder_of_not_wellTyped ha ht b.inputs
    refine ⟨element, required, provided, ?_⟩
    rw [finalize_tokens hb hw hp, h]
    rfl
  · rw [finalize_tokens hb hw hp, InfixTree.typeCheck_postorder_of_wellTyped ha ht]
    exact ⟨_, rfl, rfl, rfl, InfixTree.length_outputs ha, Expression.computes rfl ha hn⟩

theorem Builder.finalize_computes_mixed :
    ∃ x, (Builder.appendEach {} Tracing.mixed.tokens).builder.finalize = .ok x ∧
      (x.runSingle {} {} []).result = .ok (.text "not(~(-(a(),!(b())),-(*(c(),d()),e())))") := by
  have hc : ∀ y, .nested y ∈ Tracing.mixed.postorder → Compiled y := by
    intro y hy
    have hconstant : y = Tracing.constant := by
      simpa [Tracing.mixed, InfixTree.postorder, Tracing.value, Tracing.unary, Tracing.binary]
        using hy
    rw [hconstant]
    exact Tracing.compiled_constant
  have he : ∀ e ∈ leavesOf Tracing.mixed.postorder, e.KeepsArity := by
    simp only [Tracing.mixed, InfixTree.postorder, Tracing.value, Tracing.unary, Tracing.binary,
      Tracing.constant, List.cons_append, List.nil_append, leavesOf, Node.leaves,
      Expression.leaves, List.append_nil, List.forall_mem_cons, Tracing.keepsArity]
    simp
  obtain ⟨-, -, hwell⟩ := Builder.finalize_computes (b := {}) ⟨rfl, rfl⟩ (t := Tracing.mixed)
    (by decide) (by decide) (by decide) hc he
  obtain ⟨x, hx, -, -, -, hcomputes⟩ := hwell (by decide)
  have heval : (Tracing.mixed.eval {}).result =
      .ok [.text "not(~(-(a(),!(b())),-(*(c(),d()),e())))"] := rfl
  have hresult := (hcomputes.runSingle {}).result
  rw [heval] at hresult
  refine ⟨x, hx, ?_⟩
  generalize (x.runSingle {} {} []).result = r at hresult ⊢
  cases hresult with
  | ok h => rw [List.singleton_inj.1 h]

end ExpressionEngine
