import ExpressionEngine.Proofs.Machine.Peak
import ExpressionEngine.Proofs.Machine.Soundness

/-! Nested execution is inlined execution. A nested expression takes its arguments to a stack of its
own and hands its values back; its elements, run in place on the one stack of the whole, find the same
arguments on top of all that lies below, and as the static check never lets them reach further down,
they do the same. The single stack is never lower than any of those it stands for. -/

namespace ExpressionEngine

variable {τ ν ε α β γ δ : Type}

/-! ### Runs that stand for others -/

namespace Run

/-- The run overflows, or it agrees with the other one and fails by an element, if at all. -/
def Mirrors (rel : α → β → Prop) (r : Run τ ν ε α) (u : Run τ ν ε β) : Prop :=
  r.Overflows ∨ r.Agrees rel u ∧ r.FailsByElement

namespace Mirrors

variable {rel : α → β → Prop} {rel' : γ → δ → Prop}

theorem of_agrees_ok {r : Run τ ν ε α} {a : α} {u : Run τ ν ε β} (hr : r.result = .ok a)
    (h : r.Agrees rel u) : r.Mirrors rel u := by
  refine .inr ⟨h, fun e he => ?_⟩
  rw [hr] at he
  cases he

theorem finished {a : α} {b : β} (h : rel a b) (s : Signal) :
    (Run.finished s a : Run τ ν ε α).Mirrors rel (.finished s b) :=
  .of_agrees_ok rfl (.finished h s)

theorem bind {r : Run τ ν ε α} {u : Run τ ν ε β} {f : α → Signal → Run τ ν ε γ}
    {g : β → Signal → Run τ ν ε δ} (h : r.Mirrors rel u)
    (hn : ∀ a b s, rel a b → (f a s).Mirrors rel' (g b s)) :
    (r.bind f).Mirrors rel' (u.bind g) := by
  rcases h with ho | ⟨ha, hf⟩
  · exact .inl (ho.bind f)
  · obtain ⟨result, signal, calls, peak⟩ := r
    obtain ⟨result', signal', calls', peak'⟩ := u
    obtain ⟨rfl, rfl, hresult⟩ := ha
    cases hresult with
    | error e => exact .inr ⟨⟨rfl, rfl, .error e⟩, fun e' he => by cases he; exact hf e rfl⟩
    | ok hab =>
      rcases hn _ _ signal hab with ⟨size, max, ho⟩ | ⟨ha, hf⟩
      · exact .inl ⟨size, max, ho⟩
      · exact .inr ⟨⟨ha.signal, congrArg (calls ++ ·) ha.calls, ha.result⟩, hf⟩

end Mirrors

end Run

/-! ### Values on a stack -/

namespace Stack

/-- The same values on the same stack. -/
theorem load_mirrors {limit : Option Nat} {items : List ν} (h : WithinLimit limit items)
    (s : Signal) (values : List ν) :
    ((⟨limit, items⟩ : Stack ν).load s values : Run τ ν ε (Stack ν)).Mirrors
      (fun stack stack' => stack = ⟨limit, items ++ values⟩ ∧ stack' = ⟨limit, items ++ values⟩ ∧
        WithinLimit limit (items ++ values))
      ((⟨limit, items⟩ : Stack ν).load s values) := by
  rcases load_overflows_or_within h s values with ho | hw
  · exact .inl ho
  · rw [load_eq_of_within hw]
    exact .of_agrees_ok rfl ⟨rfl, rfl, .ok ⟨rfl, rfl, hw⟩⟩

/-- Values for which there is room may as well be there already. -/
theorem mirrors_load_bind {limit : Option Nat} {items values : List ν}
    (h : WithinLimit limit (items ++ values)) {rel : α → β → Prop} {s : Signal}
    {r : Run τ ν ε α} {g : Stack ν → Signal → Run τ ν ε β}
    (hr : r.Mirrors rel (g ⟨limit, items ++ values⟩ s)) :
    r.Mirrors rel (((⟨limit, items⟩ : Stack ν).load s values).bind g) := by
  rw [load_eq_of_within h, Run.bind_of_ok rfl]
  rcases hr with ho | ⟨ha, hf⟩
  · exact .inl ho
  · exact .inr ⟨⟨ha.signal, ha.calls, ha.result⟩, hf⟩

end Stack

/-! ### Programs and expressions -/

/-- The values stand above the items, at least `count` of them, and the limit allows it. -/
structure Above (limit : Option Nat) (items : List ν) (count : Nat) (stack : Stack ν)
    (values : List ν) : Prop where
  stack_eq : stack = ⟨limit, items ++ values⟩
  within : WithinLimit limit (items ++ values)
  count_le : count ≤ values.length

/-- What the node does on a stack of its own, its elements do on top of any other items. -/
def Node.Inlines (options : ExecutionOptions) (n : Node τ ν ε) : Prop :=
  ∀ (items arguments : List ν) (s : Signal), arguments.length = n.inputs.length →
    WithinLimit options.maxStackSize (items ++ arguments) →
    (runProgram options (inlined [n]) ⟨options.maxStackSize, items ++ arguments⟩ s).Mirrors
      (Above options.maxStackSize items n.outputs.length) (n.run options s arguments)

variable {options : ExecutionOptions}

theorem Element.KeepsArity.run_mirrors {e : Element τ ν ε} (he : e.KeepsArity) {arguments : List ν}
    (ha : arguments.length = e.inputs.length) (s : Signal) :
    (e.run s arguments).Mirrors (fun vs vs' => vs = vs' ∧ vs.length = e.outputs.length)
      (e.run s arguments) := by
  refine .inr ⟨.self fun vs hvs => ?_, fun err herr => ?_⟩
  · exact he s arguments vs ha (execute_of_run_eq_ok hvs)
  · obtain ⟨x, hx, -⟩ := execute_of_run_eq_error herr
    exact ⟨x, hx⟩

theorem Element.KeepsArity.inlines {e : Element τ ν ε} (he : e.KeepsArity) :
    (Node.element e).Inlines options := by
  intro items arguments s ha hl
  have hitems : WithinLimit options.maxStackSize items :=
    hl.of_length_le (by rw [List.length_append]; omega)
  show (runProgram options [Node.element e] _ s).Mirrors _ (e.run s arguments)
  rw [runProgram_cons_append ha, ← Run.bind_finished (e.run s arguments)]
  refine (he.run_mirrors ha s).bind fun vs vs' s hvs => ?_
  obtain ⟨rfl, hlength⟩ := hvs
  rcases Stack.load_overflows_or_within hitems s vs with ho | hw
  · exact .inl (ho.bind _)
  · rw [Stack.load_eq_of_within hw]
    exact .of_agrees_ok rfl ⟨rfl, rfl, .ok ⟨rfl, hw, Nat.le_of_eq hlength.symm⟩⟩

theorem runFrom_not_overflows (program : List (Node τ ν ε)) (s : Signal) (inputs : List ν) :
    ¬ (runFrom {} program s inputs).Overflows := by
  rintro ⟨size, max, h⟩
  have hrun : (runFrom {} program s inputs).Unbounded :=
    runFrom_unbounded (fun n _ => n.run_unbounded) s inputs
  exact hrun.error _ h size max rfl

variable [Ty τ]

/-- Node by node, the single stack holds what the stack of the activation does on top of what lies
below; of that the program takes nothing, as it finds enough for every slot that was checked. -/
theorem runProgram_inlined {program : List (Node τ ν ε)} (hn : ∀ n ∈ program, n.Inlines options)
    {slots outputs : List (TypeSet τ)} (hc : typeCheck slots program = .ok outputs)
    {items : List ν} (hs : slots.length ≤ items.length) (below : List ν)
    (hl : WithinLimit options.maxStackSize (below ++ items)) (s : Signal) :
    (runProgram options (inlined program) ⟨options.maxStackSize, below ++ items⟩ s).Mirrors
      (fun flat stack => Above options.maxStackSize below outputs.length flat stack.items)
      (runProgram options program ⟨options.maxStackSize, items⟩ s) := by
  induction program generalizing slots items s with
  | nil =>
    cases hc
    exact .finished ⟨rfl, hl, hs⟩ s
  | cons n rest ih =>
    obtain ⟨slots', hstep, hrest⟩ := typeCheck_cons_eq_ok_iff.1 hc
    obtain ⟨kept, provided, rfl, hf, rfl⟩ := Node.typeStep_eq_ok_iff.1 hstep
    have hprovided := hf.length_eq
    rw [List.length_append] at hs
    obtain ⟨own, arguments, rfl, ha⟩ :=
      Stack.exists_top (n := n.inputs.length) (show _ ≤ items.length by omega)
    rw [List.length_append] at hs
    -- what the node does not take lies below it on the single stack, with all that did already
    rw [← List.append_assoc] at hl ⊢
    rw [← List.singleton_append, inlined_append, List.singleton_append, runProgram_append,
      runProgram_cons_append ha]
    refine (hn n List.mem_cons_self (below ++ own) arguments s ha hl).bind
      fun flat produced s hproduced => ?_
    obtain ⟨rfl, hwithin, hcount⟩ := hproduced
    rw [List.append_assoc] at hwithin ⊢
    refine Stack.mirrors_load_bind (hwithin.of_length_le (by simp)) ?_
    refine ih (fun m hm => hn m (List.mem_cons_of_mem n hm)) hrest ?_ hwithin s
    rw [List.length_append, List.length_append]
    omega

/-- The elements of a nested expression, on top of any other items. -/
theorem Checked.inlines {y : Expression τ ν ε} (hy : Checked y)
    (hn : ∀ n ∈ y.program, n.Inlines options) : (Node.nested y).Inlines options := by
  intro items arguments s ha hl
  have harguments : WithinLimit options.maxStackSize ([] ++ arguments) :=
    hl.of_length_le (by simp)
  rw [inlined_nested, Node.run, Expression.run_eq, runFrom, Stack.empty]
  -- the arguments are moved to a fresh stack; the single one holds them in place
  refine Stack.mirrors_load_bind harguments ?_
  rw [← Run.bind_finished (runProgram options (inlined y.program) _ s)]
  refine (runProgram_inlined hn hy.check (Nat.le_of_eq ha.symm) items hl s).bind
    fun flat stack s h => ?_
  exact .finished h s

theorem Checked.node_inlines {x : Expression τ ν ε} (hx : Checked x)
    (he : ∀ e ∈ x.leaves, e.KeepsArity) : ∀ n ∈ x.program, n.Inlines options := by
  induction hx with
  | @intro x _ nested ih =>
    intro n hmem
    cases n with
    | element e => exact (he e (Expression.mem_leaves_of_element hmem)).inlines
    | nested y =>
      refine (nested y hmem).inlines (ih y hmem fun e hy => ?_)
      exact he e (Expression.mem_leaves_of_nested hmem hy)

theorem Checked.run_mirrors {x : Expression τ ν ε} (hx : Checked x)
    (he : ∀ e ∈ x.leaves, e.KeepsArity) (options : ExecutionOptions) (s : Signal)
    {inputs : List ν} (hi : x.inputs.length ≤ inputs.length) :
    (runFrom options (inlined x.program) s inputs).Mirrors (· = ·) (x.run options s inputs) := by
  have hempty : WithinLimit options.maxStackSize ([] : List ν) := fun _ _ => Nat.zero_le _
  rw [Expression.run_eq, runFrom, runFrom, Stack.empty]
  refine (Stack.load_mirrors hempty s inputs).bind fun stack stack' s h => ?_
  obtain ⟨rfl, rfl, hw⟩ := h
  refine (runProgram_inlined (hx.node_inlines he) hx.check hi [] hw s).bind fun flat stack s h => ?_
  refine .finished ?_ s
  rw [h.stack_eq, List.nil_append]

/-- Nested execution is inlined execution. Without a limit both make the same calls and end with the
same values or the same failure of an element, and with nothing else; under a limit the nested run
still does what the inlined one does, unless it is the inlined one that overflows. -/
theorem Compiled.run_inlined {x : Expression τ ν ε} (hx : Compiled x)
    (he : ∀ e ∈ x.leaves, e.KeepsArity) (s : Signal) {inputs : List ν}
    (hi : x.inputs.length ≤ inputs.length) :
    ((x.run {} s inputs).result = (runFrom {} (inlined x.program) s inputs).result ∧
      (x.run {} s inputs).signal = (runFrom {} (inlined x.program) s inputs).signal ∧
      (x.run {} s inputs).calls = (runFrom {} (inlined x.program) s inputs).calls ∧
      ((∃ vs, (x.run {} s inputs).result = .ok vs) ∨
        ∃ e, (x.run {} s inputs).result = .error (.element e))) ∧
    ∀ max,
      (∀ vs, (runFrom ⟨some max⟩ (inlined x.program) s inputs).result = .ok vs →
        (x.run ⟨some max⟩ s inputs).result = .ok vs) ∧
      (∀ e, (runFrom ⟨some max⟩ (inlined x.program) s inputs).result = .error (.element e) →
        (x.run ⟨some max⟩ s inputs).result = .error (.element e)) ∧
      ((x.run ⟨some max⟩ s inputs).Overflows →
        (runFrom ⟨some max⟩ (inlined x.program) s inputs).Overflows) := by
  constructor
  · have hmirrors := hx.checked.run_mirrors he {} s hi
    obtain ⟨ha, hf⟩ := hmirrors.resolve_left (runFrom_not_overflows _ s inputs)
    refine ⟨ha.result.eq.symm, ha.signal.symm, ha.calls.symm, ?_⟩
    rw [← ha.result.eq]
    cases hres : (runFrom {} (inlined x.program) s inputs).result with
    | ok vs => exact .inl ⟨vs, rfl⟩
    | error e =>
      obtain ⟨x, rfl⟩ := hf e hres
      exact .inr ⟨x, rfl⟩
  · intro max
    rcases hx.checked.run_mirrors he ⟨some max⟩ s hi with ho | ⟨ha, -⟩
    · obtain ⟨size, limit, ho'⟩ := id ho
      refine ⟨fun vs h => ?_, fun e h => ?_, fun _ => ho⟩
      · rw [ho'] at h
        cases h
      · rw [ho'] at h
        cases h
    · rw [Run.Overflows, Run.Overflows, ha.result.eq]
      exact ⟨fun vs h => h, fun e h => h, fun h => h⟩

/-- Two levels of nesting, run in place. Room for three values is needed there, while two are enough
for every stack of the nested run. -/
theorem Compiled.run_inlined_product :
    let flat options := runFrom options (inlined Tracing.product.program) {} [.text "v"]
    (flat {}).result = .ok [.text "*(v,-(a(),e()))"] ∧
      (Tracing.product.run {} {} [.text "v"]).result = (flat {}).result ∧
      (Tracing.product.run ⟨some 3⟩ {} [.text "v"]).result = .ok [.text "*(v,-(a(),e()))"] ∧
      (flat ⟨some 2⟩).result = .error (.stackOverflow 3 2) ∧
      (Tracing.product.run ⟨some 2⟩ {} [.text "v"]).result = .ok [.text "*(v,-(a(),e()))"] := by
  have he : ∀ e ∈ Tracing.product.leaves, e.KeepsArity := by
    simp only [Tracing.product, Tracing.difference, Tracing.constant, Tracing.value, Tracing.binary,
      Expression.leaves, leavesOf, Node.leaves, List.cons_append, List.nil_append, List.append_nil,
      List.forall_mem_cons, Tracing.keepsArity]
    simp
  have hi : Tracing.product.inputs.length ≤ [Scalar.text "v"].length := Nat.le_refl 1
  obtain ⟨⟨hresult, -⟩, hlimit⟩ := Compiled.run_inlined Tracing.compiled_product he {} hi
  exact ⟨rfl, hresult, (hlimit 3).1 _ rfl, rfl, rfl⟩

end ExpressionEngine
