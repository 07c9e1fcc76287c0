import ExpressionEngine.Expression.OperatorTree
import ExpressionEngine.Proofs.Machine.Limit
import ExpressionEngine.Proofs.Machine.Parts
import ExpressionEngine.Proofs.Substitution

/-! What an operator tree needs of the stack. Run in postorder, with elements that give one value each, it
puts one value on whatever the stack holds, and for this takes just the room that is computed from its
shape. Below that the stack overflows. -/

namespace ExpressionEngine

variable {τ ν ε α β : Type}

/-- The call succeeded with one value. -/
def Call.Yields (c : Call τ ν ε) : Prop := ∃ v, c.outcome.result = .ok [v]

instance (c : Call τ ν ε) : Decidable c.Yields :=
  match h : c.outcome.result with
  | .ok [v] => .isTrue ⟨v, h⟩
  | .ok [] => .isFalse fun ⟨_, hv⟩ => nomatch h.symm.trans hv
  | .ok (_ :: _ :: _) => .isFalse fun ⟨_, hv⟩ => nomatch h.symm.trans hv
  | .error _ => .isFalse fun ⟨_, hv⟩ => nomatch h.symm.trans hv

namespace Run

/-- If every call of the run succeeds with one value, the run comes to its end, and its peak is `height`. -/
def Reaches (r : Run τ ν ε α) (height : Nat) (post : α → Prop) : Prop :=
  (∀ c ∈ r.calls, c.Yields) → (∃ a, r.result = .ok a ∧ post a) ∧ r.peak = height

namespace Reaches

theorem finished {post : α → Prop} {a : α} (h : post a) (s : Signal) :
    (Run.finished s a : Run τ ν ε α).Reaches 0 post :=
  fun _ => ⟨⟨a, rfl, h⟩, rfl⟩

theorem mono {r : Run τ ν ε α} {height : Nat} {post post' : α → Prop} (h : r.Reaches height post)
    (hp : ∀ a, post a → post' a) : r.Reaches height post' := by
  intro hcalls
  obtain ⟨⟨a, ha, hpost⟩, hpeak⟩ := h hcalls
  exact ⟨⟨a, ha, hp a hpost⟩, hpeak⟩

theorem bind {r : Run τ ν ε α} {next : α → Signal → Run τ ν ε β} {height height' : Nat}
    {mid : α → Prop} {post : β → Prop} (h : r.Reaches height mid)
    (hn : ∀ a s, mid a → (next a s).Reaches height' post) :
    (r.bind next).Reaches (max height height') post := by
  intro hcalls
  obtain ⟨⟨a, ha, hmid⟩, rfl⟩ := h fun c hc => hcalls c ((Within.bind_left r next).calls hc)
  obtain ⟨⟨b, hb, hpost⟩, rfl⟩ := hn a r.signal hmid fun c hc =>
    hcalls c ((Within.bind_right ha next).calls hc)
  rw [bind_of_ok ha]
  exact ⟨⟨b, hb, hpost⟩, rfl⟩

theorem map {r : Run τ ν ε α} {f : α → β} {height : Nat} {mid : α → Prop} {post : β → Prop}
    (h : r.Reaches height mid) (hf : ∀ a, mid a → post (f a)) : (r.map f).Reaches height post := by
  rw [← Nat.max_zero height]
  apply h.bind
  intro a s ha
  exact .finished (hf a ha) s

end Reaches

end Run

theorem Stack.load_reaches (items : List ν) (s : Signal) (values : List ν) :
    ((⟨none, items⟩ : Stack ν).load s values : Run τ ν ε (Stack ν)).Reaches
      (items.length + values.length) (fun stack => stack = ⟨none, items ++ values⟩) := by
  intro _
  rw [load_of_unlimited]
  exact ⟨⟨_, rfl, rfl⟩, rfl⟩

theorem Element.run_reaches (e : Element τ ν ε) (s : Signal) (arguments : List ν) :
    (e.run s arguments).Reaches 0 (fun vs => ∃ v, vs = [v]) := by
  intro hcalls
  obtain ⟨v, hv⟩ : Call.Yields ⟨e, s, arguments, e.execute s arguments⟩ :=
    hcalls _ List.mem_cons_self
  have hresult : (e.run s arguments).result = .ok [v] :=
    congrArg (Except.mapError ExecutionError.element) hv
  exact ⟨⟨[v], hresult, v, rfl⟩, rfl⟩

/-- One value in the place of the arguments. -/
theorem runProgram_element_reaches {e : Element τ ν ε} {arguments : List ν}
    (h : arguments.length = e.inputs.length) (items : List ν) (s : Signal) :
    (runProgram {} [.element e] ⟨none, items ++ arguments⟩ s).Reaches (items.length + 1)
      (fun stack => ∃ v, stack = ⟨none, items ++ [v]⟩) := by
  rw [runProgram_cons_append h, ← Nat.zero_max (items.length + 1)]
  apply (e.run_reaches s arguments).bind
  rintro _ s ⟨v, rfl⟩
  simp only [runProgram_nil, Run.bind_finished]
  apply (Stack.load_reaches items s [v]).mono
  intro stack hstack
  exact ⟨v, hstack⟩

namespace OperatorTree

mutual

theorem run_postorder (t : OperatorTree τ ν ε) (h : t.HasArities) (items : List ν) (s : Signal) :
    (runProgram {} t.postorder ⟨none, items⟩ s).Reaches (items.length + t.need)
      (fun stack => ∃ v, stack = ⟨none, items ++ [v]⟩) :=
  match t, h with
  | .node e operands, ⟨harity, hrest⟩ => by
    rw [postorder, runProgram_append, need, add_max_highest, Nat.max_comm]
    apply (run_postorderOf operands hrest items s).bind
    rintro _ s ⟨vs, hvs, rfl⟩
    exact runProgram_element_reaches (hvs.trans harity.symm) items s

/-- The operands leave their results, one above the other. -/
theorem run_postorderOf (operands : List (OperatorTree τ ν ε)) (h : HaveArities operands)
    (items : List ν) (s : Signal) :
    (runProgram {} (postorderOf operands) ⟨none, items⟩ s).Reaches
      (highest items.length (needs operands))
      (fun stack => ∃ vs, vs.length = operands.length ∧ stack = ⟨none, items ++ vs⟩) :=
  match operands, h with
  | [], _ => by
    rw [postorderOf, runProgram_nil]
    apply Run.Reaches.finished
    exact ⟨[], rfl, by rw [List.append_nil]⟩
  | t :: rest, ⟨ht, hrest⟩ => by
    rw [postorderOf, runProgram_append, needs, highest_cons]
    apply (run_postorder t ht items s).bind
    rintro _ s ⟨v, rfl⟩
    have hafter := run_postorderOf rest hrest (items ++ [v]) s
    rw [List.length_append, List.length_singleton] at hafter
    apply hafter.mono
    rintro _ ⟨vs, hvs, rfl⟩
    exact ⟨v :: vs, congrArg (· + 1) hvs, by rw [List.append_assoc, List.singleton_append]⟩

end

/-- On a stack of its own. -/
theorem run_of_program {t : OperatorTree τ ν ε} (ht : t.HasArities) {x : Expression τ ν ε}
    (hx : x.program = t.postorder) (s : Signal) :
    (x.run {} s []).Reaches t.need (fun vs => ∃ v, vs = [v]) := by
  rw [Expression.run_eq, hx, runFrom, ← Nat.zero_max t.need]
  apply (Stack.load_reaches [] s []).bind
  rintro _ s rfl
  have htree := run_postorder t ht [] s
  rw [List.length_nil, Nat.zero_add] at htree
  apply htree.map
  rintro _ ⟨v, rfl⟩
  exact ⟨v, rfl⟩

/-- What an operator tree needs is exact. When each element takes as many values as it has operands and
the tree, in postorder, is accepted, a run on no inputs in which every call gives one value ends with one
value. It does so under any limit that is not below the need of the tree; and under one that is, the
stack overflows by one value. -/
theorem need_exact [Ty τ] {b : Builder τ ν ε} (hb : b.Fresh) {t : OperatorTree τ ν ε}
    (ht : t.HasArities) {x : Expression τ ν ε} (hx : (b.pushEach t.postorder).finalize = .ok x)
    {s : Signal} (hcalls : ∀ c ∈ (x.run {} s []).calls, c.Yields) :
    ∃ v, (x.run {} s []).result = .ok [v] ∧ ∀ max,
      (max < t.need → (x.run ⟨some max⟩ s []).result = .error (.stackOverflow (max + 1) max)) ∧
      (t.need ≤ max → (x.run ⟨some max⟩ s []).result = .ok [v]) := by
  have hprogram := Builder.program_of_finalize_pushEach hb hx
  obtain ⟨⟨_, hresult, v, rfl⟩, hpeak⟩ := run_of_program ht hprogram s hcalls
  refine ⟨v, hresult, fun max => ?_⟩
  have hlimits := x.run_limits max s []
  rw [← hpeak, ← hresult]
  exact ⟨hlimits.beyond, fun hroom => (hlimits.within hroom).result.eq⟩

/-- The same operands in two orders. When the inner operator comes last, its own operands are met above the
results of the two before it, and room for three is not enough. -/
theorem need_exact_orders :
    let leaf (symbol : String) : OperatorTree TypeTag Scalar String :=
      .node (Tracing.element symbol .value 0 0 .left) []
    let inner := .node (Tracing.element "g" .operator 2 0 .left) [leaf "b", leaf "c"]
    let outer operands : OperatorTree TypeTag Scalar String :=
      .node (Tracing.element "f" .operator 3 0 .left) operands
    let first := outer [inner, leaf "a", leaf "d"]
    let last := outer [leaf "a", leaf "d", inner]
    let b : Builder TypeTag Scalar String := { name := some "first" }
    let b' : Builder TypeTag Scalar String := { name := some "last" }
    let x : Expression TypeTag Scalar String := ⟨"first", first.postorder, [], [Tracing.text]⟩
    let y : Expression TypeTag Scalar String := ⟨"last", last.postorder, [], [Tracing.text]⟩
    first.need = 3 ∧ last.need = 4 ∧
      (b.pushEach first.postorder).finalize = .ok x ∧
      (x.run ⟨some 2⟩ {} []).result = .error (.stackOverflow 3 2) ∧
      (x.run ⟨some 3⟩ {} []).result = .ok [.text "f(g(b(),c()),a(),d())"] ∧
      (b'.pushEach last.postorder).finalize = .ok y ∧
      (y.run ⟨some 3⟩ {} []).result = .error (.stackOverflow 4 3) ∧
      (y.run ⟨some 4⟩ {} []).result = .ok [.text "f(a(),d(),g(b(),c()))"] := by
  intro leaf inner outer first last b b' x y
  have hfirst : first.HasArities := by
    simp [first, outer, inner, leaf, HasArities, HaveArities, Tracing.element]
  have hlast : last.HasArities := by
    simp [last, outer, inner, leaf, HasArities, HaveArities, Tracing.element]
  have hx : (b.pushEach first.postorder).finalize = .ok x := rfl
  have hy : (b'.pushEach last.postorder).finalize = .ok y := rfl
  have hxcalls : ∀ c ∈ (x.run {} {} []).calls, c.Yields := by decide
  have hycalls : ∀ c ∈ (y.run {} {} []).calls, c.Yields := by decide
  obtain ⟨v, hv, hxlimits⟩ := need_exact ⟨rfl, rfl⟩ hfirst hx hxcalls
  obtain ⟨w, hw, hylimits⟩ := need_exact ⟨rfl, rfl⟩ hlast hy hycalls
  have hxrun : (x.run {} {} []).result = .ok [.text "f(g(b(),c()),a(),d())"] := rfl
  have hyrun : (y.run {} {} []).result = .ok [.text "f(a(),d(),g(b(),c()))"] := rfl
  rw [← hxrun, ← hyrun, hv, hw]
  refine ⟨rfl, rfl, hx, ?_, ?_, hy, ?_, ?_⟩
  · exact (hxlimits 2).1 (by decide)
  · exact (hxlimits 3).2 (by decide)
  · exact (hylimits 3).1 (by decide)
  · exact (hylimits 4).2 (by decide)

end OperatorTree

end ExpressionEngine
