import ExpressionEngine.Expression.Inline
import ExpressionEngine.Proofs.Compiled
import ExpressionEngine.Proofs.Machine.Ensures
import ExpressionEngine.Proofs.Typing
import ExpressionEngine.Scalar.Tracing

/-! Soundness of the static check. The check moves type sets over a stack as the machine moves values,
and entry by entry the values stay related to the sets. The relation is arbitrary as long as a value
that is related to a set is related to every set it is compatible with: membership of the value's type
is such a relation, and so is the one that always holds and leaves only the numbers of values. A
nested program receives arguments that fit what it declares, which is all it was checked against. -/

namespace ExpressionEngine

variable {τ ν ε : Type}

/-- Not caused by a stack that holds too little. -/
def ExecutionError.NoUnderflow (e : ExecutionError ε) : Prop :=
  ∀ symbol required available, e ≠ .stackUnderflow symbol required available

theorem ExecutionError.noUnderflow_stackOverflow (size max : Nat) :
    (ExecutionError.stackOverflow size max : ExecutionError ε).NoUnderflow := by
  intro _ _ _ h
  cases h

theorem ExecutionError.noUnderflow_element (x : ε) : (ExecutionError.element x).NoUnderflow := by
  intro _ _ _ h
  cases h

section Relation

variable {R : TypeSet τ → ν → Prop}

/-- Arguments that fit the declared inputs are turned into values that fit the declared outputs. -/
def Element.Respects (R : TypeSet τ → ν → Prop) (e : Element τ ν ε) : Prop :=
  ∀ s arguments vs, List.Forall₂ R e.inputs arguments → (e.execute s arguments).result = .ok vs →
    List.Forall₂ R e.outputs vs

/-- The call was handed what its element declares to take. -/
def Call.Admitted (R : TypeSet τ → ν → Prop) (c : Call τ ν ε) : Prop :=
  List.Forall₂ R c.element.inputs c.arguments

/-- A node that runs well on whatever fits its inputs. -/
def Node.RunsWell (R : TypeSet τ → ν → Prop) (options : ExecutionOptions) (n : Node τ ν ε) : Prop :=
  ∀ s arguments, List.Forall₂ R n.inputs arguments → (n.run options s arguments).Ensures
    (Call.Admitted R) ExecutionError.NoUnderflow (List.Forall₂ R n.outputs)

theorem Element.Respects.runsWell {e : Element τ ν ε} (he : e.Respects R)
    (options : ExecutionOptions) : (Node.element e).RunsWell R options := by
  intro s arguments hargs
  refine ⟨fun c hc => ?_, fun err herr => ?_, fun vs hvs => ?_⟩
  · rw [List.mem_singleton.1 hc]
    exact hargs
  · obtain ⟨x, rfl, -⟩ := Element.execute_of_run_eq_error herr
    exact ExecutionError.noUnderflow_element x
  · exact he s arguments vs hargs (Element.execute_of_run_eq_ok hvs)

variable [Ty τ]

/-- A relation that goes over to every set that a set is compatible with. -/
def Subsumes (R : TypeSet τ → ν → Prop) : Prop :=
  ∀ provided accepted v, provided.isCompatibleWith accepted = true → R provided v → R accepted v

theorem Subsumes.forall₂ (hR : Subsumes R) {provided accepted : List (TypeSet τ)} {vs : List ν}
    (hf : Fits provided accepted) (h : List.Forall₂ R provided vs) : List.Forall₂ R accepted vs :=
  forall₂_trans (fun a p v hpa hv => hR p a v hpa hv) (.flip hf) h

/-- The machine follows the check: related before, related after, and never short of values. -/
theorem runProgram_ensures (hR : Subsumes R) {options : ExecutionOptions}
    {program : List (Node τ ν ε)} (hn : ∀ n ∈ program, n.RunsWell R options)
    {slots outputs : List (TypeSet τ)} (hc : typeCheck slots program = .ok outputs)
    {stack : Stack ν} (hs : List.Forall₂ R slots stack.items) (s : Signal) :
    (runProgram options program stack s).Ensures (Call.Admitted R) ExecutionError.NoUnderflow
      fun stack' => List.Forall₂ R outputs stack'.items := by
  induction program generalizing slots stack s with
  | nil =>
    cases hc
    rw [runProgram_nil]
    refine .finished ?_ s
    exact hs
  | cons n rest ih =>
    obtain ⟨slots', hstep, hrest⟩ := typeCheck_cons_eq_ok_iff.1 hc
    obtain ⟨below, provided, rfl, hf, rfl⟩ := Node.typeStep_eq_ok_iff.1 hstep
    obtain ⟨limit, items⟩ := stack
    obtain ⟨kept, arguments, rfl, hkept, hprov⟩ := forall₂_append_left hs
    have hargs := hR.forall₂ hf hprov
    rw [runProgram_cons_append hargs.length_eq.symm]
    refine (hn n List.mem_cons_self s arguments hargs).bind fun produced s hprod => ?_
    refine (Stack.load_ensures ExecutionError.noUnderflow_stackOverflow _ s produced).bind
      fun stack' s hload => ?_
    refine ih (fun m hm => hn m (List.mem_cons_of_mem n hm)) hrest ?_ s
    rw [hload]
    exact List.rel_append hkept hprod

theorem Checked.run_ensures (hR : Subsumes R) {x : Expression τ ν ε} (hx : Checked x)
    (he : ∀ e ∈ x.leaves, e.Respects R) (options : ExecutionOptions) (s : Signal)
    {inputs : List ν} (hi : List.Forall₂ R x.inputs inputs) :
    (x.run options s inputs).Ensures (Call.Admitted R) ExecutionError.NoUnderflow
      (List.Forall₂ R x.outputs) := by
  induction hx generalizing inputs s with
  | @intro x check _ ih =>
    have hn : ∀ n ∈ x.program, n.RunsWell R options := by
      intro n hmem
      cases n with
      | element e => exact (he e (Expression.mem_leaves_of_element hmem)).runsWell options
      | nested y =>
        intro s arguments hargs
        exact ih y hmem (fun e hy => he e (Expression.mem_leaves_of_nested hmem hy)) s hargs
    rw [Expression.run_eq, runFrom]
    refine (Stack.load_ensures ExecutionError.noUnderflow_stackOverflow _ s inputs).bind
      fun stack s hload => ?_
    refine (runProgram_ensures hR hn check ?_ s).map fun _ h => h
    rw [hload]
    simpa using hi

theorem Node.runsWell (hR : Subsumes R) {n : Node τ ν ε} (hc : ∀ y, n = .nested y → Checked y)
    (he : ∀ e ∈ n.leaves, e.Respects R) (options : ExecutionOptions) : n.RunsWell R options := by
  cases n with
  | element e => exact (he e (by simp [leaves])).runsWell options
  | nested y => exact fun s _ hargs => (hc y rfl).run_ensures hR he options s hargs

/-- One value alone is asked for; the derived outputs decide whether there is just one. -/
theorem Checked.runSingle_ensures (hR : Subsumes R) {x : Expression τ ν ε} (hx : Checked x)
    (he : ∀ e ∈ x.leaves, e.Respects R) (options : ExecutionOptions) (s : Signal)
    {inputs : List ν} (hi : List.Forall₂ R x.inputs inputs) :
    (x.runSingle options s inputs).Ensures (Call.Admitted R) ExecutionError.NoUnderflow
      fun v => List.Forall₂ R x.outputs [v] := by
  refine (hx.run_ensures hR he options s hi).bind fun vs s hvs => ?_
  split
  · refine .finished ?_ s
    exact hvs
  · refine .failed ?_ s
    intro _ _ _ h
    cases h

end Relation

/-! ### Numbers of values -/

/-- On its declared number of arguments the element gives its declared number of values, if any. -/
def Element.KeepsArity (e : Element τ ν ε) : Prop :=
  ∀ s arguments vs, arguments.length = e.inputs.length → (e.execute s arguments).result = .ok vs →
    vs.length = e.outputs.length

theorem forall₂_true_iff {α β : Type} {as : List α} {bs : List β} :
    List.Forall₂ (fun _ _ => True) as bs ↔ bs.length = as.length := by
  rw [List.forall₂_iff_zip]
  simp [eq_comm]

theorem Element.KeepsArity.respects {e : Element τ ν ε} (he : e.KeepsArity) :
    e.Respects fun _ _ => True := by
  intro s arguments vs hargs hvs
  rw [forall₂_true_iff] at hargs ⊢
  exact he s arguments vs hargs hvs

theorem Tracing.keepsArity (symbol : String) (kind : ElementKind) (arity : Nat) (precedence : Int)
    (associativity : Associativity) :
    (Tracing.element symbol kind arity precedence associativity).KeepsArity := by
  intro s arguments vs _ hvs
  rw [execute_element] at hvs
  cases hvs
  rfl

theorem Tracing.compiled_constant : Compiled Tracing.constant := by
  refine Checked.compiled (.intro rfl fun y hy => ?_)
  cases List.mem_singleton.1 hy

theorem Tracing.compiled_difference : Compiled Tracing.difference := by
  refine Checked.compiled (.intro rfl fun y hy => ?_)
  rcases List.mem_cons.1 hy with h | h
  · cases h
    exact compiled_constant.checked
  · cases List.mem_singleton.1 h

theorem Tracing.compiled_product : Compiled Tracing.product := by
  refine Checked.compiled (.intro rfl fun y hy => ?_)
  have hy' : y = Tracing.difference := by
    simpa [Tracing.product, Tracing.value, Tracing.binary] using hy
  rw [hy']
  exact compiled_difference.checked

theorem Tracing.compiled_relayed : Compiled Tracing.relayed := by
  refine Checked.compiled (.intro rfl fun y hy => ?_)
  obtain rfl : y = ⟨"t", [.nested relay], [optional], [optional]⟩ := by
    simpa [Tracing.relayed, Tracing.value] using hy
  refine .intro rfl fun z hz => ?_
  obtain rfl : z = Tracing.relay := by simpa using hz
  exact .intro rfl fun _ h => nomatch h

/-! ### Types of values -/

variable [Ty τ] [Value ν τ]

/-- One value for each slot, of a type that the slot lists. -/
def HasTypes (slots : List (TypeSet τ)) (vs : List ν) : Prop :=
  List.Forall₂ (fun slot v => slot.contains (Value.typeOf v) = true) slots vs

/-- Whenever the arguments have the declared types and the element succeeds, so have its values. -/
def Element.Conforming (e : Element τ ν ε) : Prop :=
  ∀ s arguments vs, HasTypes e.inputs arguments → (e.execute s arguments).result = .ok vs →
    HasTypes e.outputs vs

theorem Tracing.conforming (symbol : String) (kind : ElementKind) (arity : Nat) (precedence : Int)
    (associativity : Associativity) :
    (Tracing.element symbol kind arity precedence associativity).Conforming := by
  intro s arguments vs _ hvs
  rw [execute_element] at hvs
  cases hvs
  exact .cons rfl .nil

/-- Here transitivity of type equality is what is needed. -/
theorem subsumes_contains [PartialEquivBEq τ] :
    Subsumes fun (slot : TypeSet τ) (v : ν) => slot.contains (Value.typeOf v) = true := by
  intro provided accepted v hcompat hv
  exact TypeSet.contains_of_subset (TypeSet.isCompatibleWith_iff.1 hcompat).2 hv

/-- An expression over conforming elements, run on values of its declared input types: the stack never
runs short, every call at every depth is handed arguments of its declared types, and a result has the
derived output types, value by value. -/
theorem Compiled.run_sound [PartialEquivBEq τ] {x : Expression τ ν ε} (hx : Compiled x)
    (he : ∀ e ∈ x.leaves, e.Conforming) (options : ExecutionOptions) (s : Signal)
    {inputs : List ν} (hi : HasTypes x.inputs inputs) :
    (∀ symbol required available,
        (x.run options s inputs).result ≠ .error (.stackUnderflow symbol required available) ∧
        (x.runSingle options s inputs).result ≠ .error (.stackUnderflow symbol required available)) ∧
      (∀ c ∈ (x.run options s inputs).calls ++ (x.runSingle options s inputs).calls,
        HasTypes c.element.inputs c.arguments) ∧
      (∀ vs, (x.run options s inputs).result = .ok vs → HasTypes x.outputs vs) ∧
      ∀ v, (x.runSingle options s inputs).result = .ok v → HasTypes x.outputs [v] := by
  have h := hx.checked.run_ensures subsumes_contains he options s hi
  have h' := hx.checked.runSingle_ensures subsumes_contains he options s hi
  refine ⟨fun symbol required available => ⟨fun hu => ?_, fun hu => ?_⟩, fun c hc => ?_, h.value,
    h'.value⟩
  · exact h.error _ hu symbol required available rfl
  · exact h'.error _ hu symbol required available rfl
  · rcases List.mem_append.1 hc with hc | hc
    · exact h.call c hc
    · exact h'.call c hc

/-- A constant nested in an operation on a value that the expression is given. -/
theorem Compiled.run_sound_nested :
    let x : Expression TypeTag Scalar String :=
      ⟨"x", [.nested Tracing.constant, Tracing.binary "-" 1 .left], [Tracing.text], [Tracing.text]⟩
    Compiled x ∧ HasTypes x.inputs [Scalar.text "v"] ∧
      (x.run ⟨some 2⟩ {} [.text "v"]).result = .ok [.text "-(v,e())"] ∧
      (x.run ⟨some 1⟩ {} [.text "v"]).result = .error (.stackOverflow 2 1) ∧
      ∀ c ∈ (x.run ⟨some 2⟩ {} [.text "v"]).calls, HasTypes c.element.inputs c.arguments := by
  intro x
  have hx : Compiled x := by
    refine Checked.compiled (.intro rfl fun y hy => ?_)
    rcases List.mem_cons.1 hy with h | h
    · cases h
      exact Tracing.compiled_constant.checked
    · cases List.mem_singleton.1 h
  have hi : HasTypes x.inputs [Scalar.text "v"] := .cons rfl .nil
  have he : ∀ e ∈ x.leaves, e.Conforming := by
    show ∀ e ∈ [Tracing.element "e" .value 0 0 .left, Tracing.element "-" .operator 2 1 .left],
      e.Conforming
    refine List.forall_mem_cons.2 ⟨Tracing.conforming _ _ _ _ _, ?_⟩
    exact List.forall_mem_singleton.2 (Tracing.conforming _ _ _ _ _)
  obtain ⟨-, hcalls, -, -⟩ := Compiled.run_sound hx he ⟨some 2⟩ {} hi
  exact ⟨hx, hi, rfl, rfl, fun c hc => hcalls c (List.mem_append_left _ hc)⟩

end ExpressionEngine
