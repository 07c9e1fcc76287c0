import ExpressionEngine.Proofs.Machine.Parts
import ExpressionEngine.Proofs.Machine.Soundness

/-! Counting values. The static check knows how many slots there are before every node, and the stack
holds as many values, or at least as many, as long as the calls made give as many values as their
elements declare, or at least as many. This is a matter of the calls that a run makes and not of what
its elements might do in another one, so it tells what a run that lacks values has to be blamed on. -/

namespace ExpressionEngine

variable {τ ν ε α β : Type}

/-! ### Runs judged by their calls -/

namespace Run

/-- If every call of the run is as it should be, so is what the run ends with. -/
def Follows (r : Run τ ν ε α) (callOk : Call τ ν ε → Prop) (errorOk : ExecutionError ε → Prop)
    (post : α → Prop) : Prop :=
  (∀ c ∈ r.calls, callOk c) → r.Ensures callOk errorOk post

namespace Follows

variable {callOk : Call τ ν ε → Prop} {errorOk : ExecutionError ε → Prop}

theorem finished {post : α → Prop} {a : α} (h : post a) (s : Signal) :
    (Run.finished s a : Run τ ν ε α).Follows callOk errorOk post :=
  fun _ => .finished h s

theorem bind {r : Run τ ν ε α} {next : α → Signal → Run τ ν ε β} {mid : α → Prop} {post : β → Prop}
    (h : r.Follows callOk errorOk mid)
    (hn : ∀ a s, mid a → (next a s).Follows callOk errorOk post) :
    (r.bind next).Follows callOk errorOk post := by
  intro hcalls
  have hr := h fun c hc => hcalls c ((Within.bind_left r next).calls hc)
  cases hres : r.result with
  | error e =>
    rw [bind_of_error hres] at hcalls ⊢
    refine ⟨hcalls, fun e' he => ?_, fun b hb => nomatch hb⟩
    cases he
    exact hr.error e hres
  | ok a =>
    have hnext := hn a r.signal (hr.value a hres) fun c hc =>
      hcalls c ((Within.bind_right hres next).calls hc)
    rw [bind_of_ok hres] at hcalls ⊢
    exact ⟨hcalls, hnext.error, hnext.value⟩

end Follows

end Run

/-! ### Numbers of values -/

/-- A way to compare a number of values with the number there should be. -/
structure Comparison (R : ℕ → ℕ → Prop) : Prop where
  refl : ∀ n, R n n
  le : ∀ {m n}, R m n → m ≤ n
  cancel : ∀ {m n k}, R (m + k) (n + k) → R m n
  add : ∀ {m n m' n'}, R m n → R m' n' → R (m + m') (n + n')

theorem Comparison.exactly : Comparison (· = ·) where
  refl _ := rfl
  le h := Nat.le_of_eq h
  cancel h := Nat.add_right_cancel h
  add h h' := by rw [h, h']

theorem Comparison.atLeast : Comparison (· ≤ ·) where
  refl := Nat.le_refl
  le h := h
  cancel h := Nat.le_of_add_le_add_right h
  add := Nat.add_le_add

variable {R : ℕ → ℕ → Prop}

/-- If the call succeeded, it gave as many values as its element declares. -/
def Call.Gives (R : ℕ → ℕ → Prop) (c : Call τ ν ε) : Prop :=
  ∀ vs, c.outcome.result = .ok vs → R c.element.outputs.length vs.length

instance [DecidableRel R] (c : Call τ ν ε) : Decidable (c.Gives R) :=
  match h : c.outcome.result with
  | .error _ => .isTrue fun _ hvs => nomatch h.symm.trans hvs
  | .ok vs => decidable_of_iff (R c.element.outputs.length vs.length)
    ⟨fun hr _ hws => Except.ok.inj (h.symm.trans hws) ▸ hr, fun hg => hg vs h⟩

/-- The call succeeded with fewer values than its element declares. -/
def Call.FallsShort (c : Call τ ν ε) : Prop :=
  ∃ vs, c.outcome.result = .ok vs ∧ vs.length < c.element.outputs.length

theorem Call.gives_of_not_fallsShort {c : Call τ ν ε} (h : ¬ c.FallsShort) :
    c.Gives (· ≤ ·) := by
  intro vs hvs
  apply Nat.le_of_not_lt
  intro hlt
  exact h ⟨vs, hvs, hlt⟩

/-- On its declared number of arguments, the node ends with as many values as it should. -/
def Node.Counts (R : ℕ → ℕ → Prop) (options : ExecutionOptions) (n : Node τ ν ε) : Prop :=
  ∀ s arguments, arguments.length = n.inputs.length → (n.run options s arguments).Follows
    (Call.Gives R) ExecutionError.NoUnderflow fun vs : List ν => R n.outputs.length vs.length

theorem Node.counts_element (R : ℕ → ℕ → Prop) (options : ExecutionOptions) (e : Element τ ν ε) :
    (Node.element e).Counts R options := by
  intro s arguments _ hcalls
  have hcall := hcalls ⟨e, s, arguments, e.execute s arguments⟩ List.mem_cons_self
  refine ⟨hcalls, fun err herr => ?_, fun vs hvs => ?_⟩
  · obtain ⟨x, rfl, -⟩ := Element.execute_of_run_eq_error herr
    exact ExecutionError.noUnderflow_element x
  · exact hcall vs (Element.execute_of_run_eq_ok hvs)

/-! ### A single value -/

namespace Expression

variable {x : Expression τ ν ε} {options : ExecutionOptions} {s : Signal} {inputs : List ν}

/-- Asking for a single value adds no underflow. -/
theorem run_underflow_of_runSingle {symbol : String} {required available : Nat}
    (h : (x.runSingle options s inputs).result =
      .error (.stackUnderflow symbol required available)) :
    (x.run options s inputs).result = .error (.stackUnderflow symbol required available) := by
  rcases runSingle_eq_error_iff.1 h with h | ⟨vs, -, -, he⟩
  · exact h
  · cases he

theorem runSingle_wrongResultArity_iff {vs : List ν}
    (h : (x.run options s inputs).result = .ok vs) :
    (∃ expected found, (x.runSingle options s inputs).result =
      .error (.wrongResultArity expected found)) ↔ vs.length ≠ 1 := by
  simp [runSingle_eq_error_iff, h]

end Expression

/-! ### Heights and slots -/

variable [Ty τ]

/-- The heights of the stack stay in step with the numbers of slots. -/
theorem runProgram_counts (hR : Comparison R) {options : ExecutionOptions}
    {program : List (Node τ ν ε)} (hn : ∀ n ∈ program, n.Counts R options)
    {slots outputs : List (TypeSet τ)} (hc : typeCheck slots program = .ok outputs)
    {stack : Stack ν} (hs : R slots.length stack.height) (s : Signal) :
    (runProgram options program stack s).Follows (Call.Gives R) ExecutionError.NoUnderflow
      fun stack' => R outputs.length stack'.height := by
  induction program generalizing slots stack s with
  | nil =>
    cases hc
    rw [runProgram_nil]
    refine .finished ?_ s
    exact hs
  | cons n rest ih =>
    obtain ⟨slots', hstep, hrest⟩ := typeCheck_cons_eq_ok_iff.1 hc
    obtain ⟨below, provided, rfl, hf, rfl⟩ := Node.typeStep_eq_ok_iff.1 hstep
    have hprovided := hf.length_eq
    obtain ⟨limit, items⟩ := stack
    have henough : n.inputs.length ≤ items.length := by
      have hheight : (below ++ provided).length ≤ items.length := hR.le hs
      rw [List.length_append] at hheight
      omega
    obtain ⟨kept, arguments, rfl, hargs⟩ := Stack.exists_top henough
    have hkept : R below.length kept.length := by
      rw [Stack.height, List.length_append, List.length_append, hargs, hprovided] at hs
      exact hR.cancel hs
    rw [runProgram_cons_append hargs]
    refine (hn n List.mem_cons_self s arguments hargs).bind fun produced s hprod => ?_
    refine Run.Follows.bind (fun _ => Stack.load_ensures ExecutionError.noUnderflow_stackOverflow _ s
      produced) fun stack' s hload => ?_
    refine ih (fun m hm => hn m (List.mem_cons_of_mem n hm)) hrest ?_ s
    rw [hload, Stack.height, List.length_append, List.length_append]
    exact hR.add hkept hprod

theorem runFrom_counts (hR : Comparison R) {options : ExecutionOptions}
    {program : List (Node τ ν ε)} (hn : ∀ n ∈ program, n.Counts R options)
    {slots outputs : List (TypeSet τ)} (hc : typeCheck slots program = .ok outputs)
    {inputs : List ν} (hi : R slots.length inputs.length) (s : Signal) :
    (runFrom options program s inputs).Follows (Call.Gives R) ExecutionError.NoUnderflow
      fun vs => R outputs.length vs.length := by
  rw [runFrom]
  refine Run.Follows.bind (fun _ => Stack.load_ensures ExecutionError.noUnderflow_stackOverflow _ s
    inputs) fun stack s hload => ?_
  have hheight : R slots.length stack.height := by
    rw [hload]
    simpa [Stack.height] using hi
  refine (runProgram_counts hR hn hc hheight s).bind fun stack' s h => .finished ?_ s
  exact h

theorem Checked.node_counts (hR : Comparison R) {x : Expression τ ν ε} (hx : Checked x)
    (options : ExecutionOptions) : ∀ n ∈ x.program, n.Counts R options := by
  induction hx with
  | @intro x _ nested ih =>
    intro n hmem
    cases n with
    | element e => exact Node.counts_element R options e
    | nested y =>
      intro s arguments hargs
      have hi : R y.inputs.length arguments.length := by
        rw [hargs]
        exact hR.refl _
      rw [Node.run, Expression.run_eq]
      exact runFrom_counts hR (ih y hmem) (nested y hmem).check hi s

theorem Checked.run_counts (hR : Comparison R) {x : Expression τ ν ε} (hx : Checked x)
    (options : ExecutionOptions) (s : Signal) {inputs : List ν}
    (hi : R x.inputs.length inputs.length) :
    (x.run options s inputs).Follows (Call.Gives R) ExecutionError.NoUnderflow
      fun vs => R x.outputs.length vs.length := by
  rw [Expression.run_eq]
  exact runFrom_counts hR (hx.node_counts hR options) hx.check hi s

/-- At every moment, in whatever activation, the check knows the height of the stack. -/
theorem Checked.meets_counts (hR : Comparison R) {x : Expression τ ν ε} (hx : Checked x)
    {options : ExecutionOptions} {s : Signal} {inputs : List ν}
    (hi : R x.inputs.length inputs.length) (hc : ∀ c ∈ (x.run options s inputs).calls, c.Gives R)
    {m : Moment τ ν ε} (hm : x.Meets options s inputs m) :
    ∃ slots, typeCheck m.expression.inputs m.past = .ok slots ∧ R slots.length m.held.length := by
  induction hm with
  | @own x s inputs past rest held split reached =>
    obtain ⟨slots, hpast, -⟩ := typeCheck_append_eq_ok_iff.1 (split ▸ hx.check)
    have hn : ∀ n ∈ past, n.Counts R options := by
      intro n hmem
      refine hx.node_counts hR options n ?_
      rw [split]
      exact List.mem_append_left rest hmem
    have hcalls : ∀ c ∈ (runFrom options past s inputs).calls, c.Gives R := by
      intro c hmem
      exact hc c ((Expression.past_within split).calls hmem)
    exact ⟨slots, hpast, (runFrom_counts hR hn hpast hi s hcalls).value held reached⟩
  | @nested x y s inputs past rest below arguments m split reached taken _ ih =>
    have hy : Checked y := hx.nested (split ▸ List.mem_append_right past List.mem_cons_self)
    have hwithin : (y.run options (runFrom options past s inputs).signal arguments).Within
        (x.run options s inputs) := Expression.nested_within split reached taken
    refine ih hy ?_ fun c hmem => hc c (hwithin.calls hmem)
    -- the arguments are as many as declared, even where the stack around holds a surplus
    rw [taken]
    exact hR.refl _

/-! ### What to blame -/

theorem Checked.blame {x : Expression τ ν ε} (hx : Checked x) {options : ExecutionOptions}
    {s : Signal} {inputs : List ν} {symbol : String} {required available : Nat}
    (h : (x.run options s inputs).result = .error (.stackUnderflow symbol required available)) :
    inputs.length < x.inputs.length ∨ ∃ c ∈ (x.run options s inputs).calls, c.FallsShort := by
  by_contra hnone
  rw [not_or] at hnone
  obtain ⟨hinputs, hcalls⟩ := hnone
  have hgives : ∀ c ∈ (x.run options s inputs).calls, c.Gives (· ≤ ·) := by
    intro c hc
    exact Call.gives_of_not_fallsShort fun hshort => hcalls ⟨c, hc, hshort⟩
  have hrun := hx.run_counts .atLeast options s (Nat.le_of_not_lt hinputs) hgives
  exact hrun.error _ h symbol required available rfl

/-- If a run lacks values, it was given fewer than it declares to take, or one of the calls that it
made until then gave fewer than its element declares to give. If it was given as many as it declares
and every call gave as many as declared, every stack holds before every node what the check holds, an
end is made with as many values as were derived, and it is the derived outputs alone that decide
whether there is just one. -/
theorem Compiled.underflow_blame {x : Expression τ ν ε} (hx : Compiled x)
    (options : ExecutionOptions) (s : Signal) (inputs : List ν) :
    (∀ symbol required available,
        (x.run options s inputs).result = .error (.stackUnderflow symbol required available) ∨
          (x.runSingle options s inputs).result =
            .error (.stackUnderflow symbol required available) →
        inputs.length < x.inputs.length ∨ ∃ c ∈ (x.run options s inputs).calls, c.FallsShort) ∧
      (x.inputs.length = inputs.length →
        (∀ c ∈ (x.run options s inputs).calls, c.Gives (· = ·)) →
        (∀ m, x.Meets options s inputs m → ∃ slots,
          typeCheck m.expression.inputs m.past = .ok slots ∧ slots.length = m.held.length) ∧
        ∀ vs, (x.run options s inputs).result = .ok vs → x.outputs.length = vs.length ∧
          ((∃ expected found, (x.runSingle options s inputs).result =
            .error (.wrongResultArity expected found)) ↔ x.outputs.length ≠ 1)) := by
  refine ⟨fun symbol required available h => ?_, fun hi hc => ⟨fun m hm => ?_, fun vs hvs => ?_⟩⟩
  · rcases h with h | h
    · exact hx.checked.blame h
    · exact hx.checked.blame (Expression.run_underflow_of_runSingle h)
  · exact hx.checked.meets_counts .exactly hi hc hm
  · have hlength := (hx.checked.run_counts .exactly options s hi hc).value vs hvs
    refine ⟨hlength, ?_⟩
    rw [hlength]
    exact Expression.runSingle_wrongResultArity_iff hvs

/-- A nested element that keeps back its value makes the operator outside run short. In the product, where
nothing is kept back, the heights are as checked at both levels of nesting. -/
theorem Compiled.underflow_blame_nested :
    let keeper : Element TypeTag Scalar String :=
      { Tracing.element "c" .value 0 0 .left with execute := Behaviour.execute "c" (.const []) }
    let x : Expression TypeTag Scalar String :=
      ⟨"x", [.nested ⟨"y", [.element keeper], [], [Tracing.text]⟩, Tracing.unary "!" 5], [],
        [Tracing.text]⟩
    Compiled x ∧ (x.run {} {} []).result = .error (.stackUnderflow "!" 1 0) ∧
      (∃ c ∈ (x.run {} {} []).calls, c.FallsShort) ∧
      (Tracing.product.run {} {} [.text "v"]).result = .ok [.text "*(v,-(a(),e()))"] ∧
      ∀ m, Tracing.product.Meets {} {} [.text "v"] m → ∃ slots,
        typeCheck m.expression.inputs m.past = .ok slots ∧ slots.length = m.held.length := by
  intro keeper x
  have hx : Compiled x := by
    refine Checked.compiled (.intro rfl fun y hy => ?_)
    have hy' : y = ⟨"y", [.element keeper], [], [Tracing.text]⟩ := by
      simpa [x, Tracing.unary] using hy
    rw [hy']
    refine .intro rfl fun z hz => ?_
    cases List.mem_singleton.1 hz
  have hrun : (x.run {} {} []).result = .error (.stackUnderflow "!" 1 0) := rfl
  obtain ⟨hblame, -⟩ := Compiled.underflow_blame hx {} {} []
  obtain ⟨-, hexact⟩ := Compiled.underflow_blame Tracing.compiled_product {} {} [.text "v"]
  have hgives : ∀ c ∈ (Tracing.product.run {} {} [.text "v"]).calls, c.Gives (· = ·) := by decide
  refine ⟨hx, hrun, (hblame _ _ _ (.inl hrun)).resolve_left (Nat.not_lt_zero _), rfl, ?_⟩
  exact (hexact rfl hgives).1

end ExpressionEngine
