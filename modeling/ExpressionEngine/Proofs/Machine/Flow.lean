import ExpressionEngine.Proofs.Machine.Ensures
import ExpressionEngine.Scalar.Tracing

/-! Values in a run. From without, and as long as it comes to its end, a run at whatever depth of nesting
is a sequence of calls on one stack: a nested expression is handed its arguments on a stack of its own and
hands back what it ends with, and all the while the rest lies below. So nothing gets lost: every value that
a run is given, or that one of its calls returns, is the argument of one later call or is one of the
results. What the elements are declared to return does not matter. -/

namespace ExpressionEngine

variable {τ ν ε α β : Type}

/-- The values that the call gave, if it succeeded. -/
def Call.returned (c : Call τ ν ε) : List ν := c.outcome.result.toOption.getD []

/-! ### Calls on one stack -/

/-- The calls take place on one stack, on which each of them puts what it returns in the place of its
arguments. -/
inductive Flow : List ν → List (Call τ ν ε) → List ν → Prop
  | nil (items : List ν) : Flow items [] items
  | cons {below left : List ν} {c : Call τ ν ε} {later : List (Call τ ν ε)}
      (next : Flow (below ++ c.returned) later left) : Flow (below ++ c.arguments) (c :: later) left

namespace Flow

variable {items items' left : List ν} {calls calls' : List (Call τ ν ε)}

theorem append (h : Flow items calls items') (h' : Flow items' calls' left) :
    Flow items (calls ++ calls') left := by
  induction h with
  | nil items => exact h'
  | cons _ ih => exact .cons (ih h')

theorem frame (below : List ν) (h : Flow items calls left) :
    Flow (below ++ items) calls (below ++ left) := by
  induction h with
  | nil items => exact .nil _
  | @cons own left c later _ ih =>
    rw [← List.append_assoc] at ih ⊢
    exact .cons ih

end Flow

/-- If the run comes to its end, its calls have turned the items into what is left with its result. -/
def Run.Turns (r : Run τ ν ε α) (items : List ν) (left : α → List ν) : Prop :=
  ∀ a, r.result = .ok a → Flow items r.calls (left a)

namespace Run.Turns

theorem finished (s : Signal) (a : α) (left : α → List ν) :
    (Run.finished s a : Run τ ν ε α).Turns (left a) left := by
  intro b hb
  cases hb
  exact .nil _

theorem bind {r : Run τ ν ε α} {next : α → Signal → Run τ ν ε β} {items : List ν}
    {mid : α → List ν} {left : β → List ν} (h : r.Turns items mid)
    (hn : ∀ a s, (next a s).Turns (mid a) left) : (r.bind next).Turns items left := by
  intro b hb
  obtain ⟨a, ha, hb⟩ := result_bind_eq_ok_iff.1 hb
  rw [bind_of_ok ha]
  exact (h a ha).append (hn a r.signal b hb)

end Run.Turns

theorem Stack.load_turns (stack : Stack ν) (s : Signal) (values : List ν) :
    (stack.load s values : Run τ ν ε (Stack ν)).Turns (stack.items ++ values) Stack.items := by
  intro stack' hstack
  unfold load at hstack ⊢
  split
  · next h =>
    rw [h] at hstack
    cases hstack
    rw [eq_of_extend_eq_none h]
    exact .nil _
  · next h =>
    rw [h] at hstack
    cases hstack

theorem Element.run_turns (e : Element τ ν ε) (s : Signal) (arguments : List ν) :
    (e.run s arguments).Turns arguments id := by
  intro vs hvs
  let c : Call τ ν ε := ⟨e, s, arguments, e.execute s arguments⟩
  have hreturned : c.returned = vs := by
    rw [Call.returned, execute_of_run_eq_ok hvs]
    rfl
  have hcall : Flow ([] ++ c.arguments) [c] vs := by
    apply Flow.cons
    rw [hreturned]
    exact .nil vs
  exact hcall

theorem runProgram_turns {options : ExecutionOptions} {program : List (Node τ ν ε)}
    (hn : ∀ n ∈ program, ∀ s (arguments : List ν), (n.run options s arguments).Turns arguments id)
    (stack : Stack ν) (s : Signal) :
    (runProgram options program stack s).Turns stack.items Stack.items := by
  induction program generalizing stack s with
  | nil => exact .finished s stack Stack.items
  | cons n rest ih =>
    obtain ⟨limit, items⟩ := stack
    rcases Stack.lt_or_exists_top n.inputs.length items with h | ⟨below, arguments, rfl, ha⟩
    · intro stack' hstack
      rw [runProgram_cons_of_lt h] at hstack
      cases hstack
    · rw [runProgram_cons_append ha]
      have hnode : (n.run options s arguments).Turns (below ++ arguments) (below ++ ·) :=
        fun vs hvs => (hn n List.mem_cons_self s arguments vs hvs).frame below
      apply hnode.bind
      intro produced s
      apply (Stack.load_turns ⟨limit, below⟩ s produced).bind
      intro stack s
      exact ih (fun m hm => hn m (List.mem_cons_of_mem n hm)) stack s

/-- Nested or not, an expression turns what it is given into what it ends with. -/
theorem Expression.run_turns (options : ExecutionOptions) (x : Expression τ ν ε) (s : Signal)
    (inputs : List ν) : (x.run options s inputs).Turns inputs id := by
  induction x using Expression.nestedInduction generalizing s inputs with
  | step x ih =>
    have hn : ∀ n ∈ x.program, ∀ s (arguments : List ν),
        (n.run options s arguments).Turns arguments id := by
      intro n hmem s arguments
      cases n with
      | element e => exact e.run_turns s arguments
      | nested y => exact ih y hmem s arguments
    rw [run_eq, runFrom]
    apply (Stack.load_turns (Stack.empty options.maxStackSize) s inputs).bind
    intro stack s
    apply (runProgram_turns hn stack s).bind
    intro stack s
    exact .finished s stack.items id

/-! ### Occurrences -/

/-- Occurrences of values, each one with its number: those that are held, and then those of the values that
the calls return, one after another as they come up, the first of which has the number `next`. -/
def occurrences (held : List (ν × Nat)) (next : Nat) (calls : List (Call τ ν ε)) : List (ν × Nat) :=
  held ++ (calls.flatMap Call.returned).zipIdx next

/-- How every occurrence is used: `taken` lists those that each call has for its arguments, and `kept` those
that are left. -/
structure Accounts (held : List (ν × Nat)) (next : Nat) (calls : List (Call τ ν ε)) (left : List ν)
    (taken : List (List (ν × Nat))) (kept : List (ν × Nat)) : Prop where
  arguments : taken.map (List.map Prod.fst) = calls.map Call.arguments
  left : kept.map Prod.fst = left
  /-- every occurrence is taken by one call or is left, and just once -/
  once : (taken.flatten ++ kept).Perm (occurrences held next calls)
  /-- what is left is in the order in which it came up -/
  ordered : kept.Sublist (occurrences held next calls)
  /-- a call takes what was there at the start or was returned by a call before it -/
  earlier : ∀ i args, taken[i]? = some args → args ⊆ occurrences held next (calls.take i)

/-- From the inputs on, all are numbered in the order in which they are first put on a stack. -/
theorem occurrences_inputs (inputs : List ν) (calls : List (Call τ ν ε)) :
    occurrences inputs.zipIdx inputs.length calls =
      (inputs ++ calls.flatMap Call.returned).zipIdx := by
  rw [occurrences, List.zipIdx_append, Nat.zero_add]

/-- What a call has returned is numbered first. -/
theorem occurrences_returned (held : List (ν × Nat)) (next : Nat) (c : Call τ ν ε)
    (later : List (Call τ ν ε)) :
    occurrences (held ++ c.returned.zipIdx next) (next + c.returned.length) later =
      occurrences held next (c :: later) := by
  simp [occurrences, List.zipIdx_append]

theorem sublist_occurrences (below top : List (ν × Nat)) (next : Nat) (calls : List (Call τ ν ε)) :
    (occurrences below next calls).Sublist (occurrences (below ++ top) next calls) :=
  (List.sublist_append_left below top).append_right _

theorem perm_occurrences (below top : List (ν × Nat)) (next : Nat) (calls : List (Call τ ν ε)) :
    (top ++ occurrences below next calls).Perm (occurrences (below ++ top) next calls) := by
  unfold occurrences
  rw [List.append_assoc]
  exact List.perm_append_comm_assoc _ _ _

/-- One call more at the start, which takes what is on top. -/
theorem Accounts.cons {below top : List (ν × Nat)} {next : Nat} {c : Call τ ν ε}
    {later : List (Call τ ν ε)} {left : List ν} {taken : List (List (ν × Nat))}
    {kept : List (ν × Nat)} (htop : top.map Prod.fst = c.arguments)
    (h : Accounts (below ++ c.returned.zipIdx next) (next + c.returned.length) later left taken kept) :
    Accounts (below ++ top) next (c :: later) left (top :: taken) kept := by
  have honce := h.once
  have hordered := h.ordered
  have hearlier := h.earlier
  simp only [occurrences_returned] at honce hordered hearlier
  refine ⟨?_, h.left, ?_, hordered.trans (sublist_occurrences _ _ _ _), ?_⟩
  · rw [List.map_cons, List.map_cons, htop, h.arguments]
  · rw [List.flatten_cons, List.append_assoc]
    exact (honce.append_left top).trans (perm_occurrences _ _ _ _)
  · intro i args hargs
    cases i with
    | zero =>
      obtain rfl : top = args := Option.some.inj hargs
      simp [occurrences]
    | succ i =>
      rw [List.getElem?_cons_succ] at hargs
      rw [List.take_succ_cons]
      exact List.Subset.trans (hearlier i args hargs) (sublist_occurrences _ _ _ _).subset

theorem Flow.exists_accounts {items left : List ν} {calls : List (Call τ ν ε)}
    (h : Flow items calls left) {held : List (ν × Nat)} (hheld : held.map Prod.fst = items)
    (next : Nat) : ∃ taken kept, Accounts held next calls left taken kept := by
  induction h generalizing held next with
  | nil items =>
    refine ⟨[], held, rfl, hheld, ?_, ?_, by simp⟩
    · simp [occurrences]
    · simp [occurrences]
  | @cons below left c later _ ih =>
    obtain ⟨rest, top, rfl, hrest, htop⟩ := List.map_eq_append_iff.1 hheld
    have hheld' : (rest ++ c.returned.zipIdx next).map Prod.fst = below ++ c.returned := by
      rw [List.map_append, hrest, List.zipIdx_map_fst]
    obtain ⟨taken, kept, h⟩ := ih hheld' (next + c.returned.length)
    exact ⟨top :: taken, kept, h.cons htop⟩

/-- Without the numbers: as many of every value as come up are taken or left. -/
theorem Accounts.perm {held : List (ν × Nat)} {next : Nat} {calls : List (Call τ ν ε)}
    {left : List ν} {taken : List (List (ν × Nat))} {kept : List (ν × Nat)}
    (h : Accounts held next calls left taken kept) :
    (held.map Prod.fst ++ calls.flatMap Call.returned).Perm (calls.flatMap Call.arguments ++ left) := by
  have hput : (occurrences held next calls).map Prod.fst =
      held.map Prod.fst ++ calls.flatMap Call.returned := by
    rw [occurrences, List.map_append, List.zipIdx_map_fst]
  have hused : (taken.flatten ++ kept).map Prod.fst = calls.flatMap Call.arguments ++ left := by
    rw [List.map_append, List.map_flatten, h.arguments, h.left, List.flatMap_def]
  rw [← hput, ← hused]
  exact (h.once.map Prod.fst).symm

/-- Values are conserved by execution. In a run that ends with results, whatever the elements are and however
deep the nesting, the inputs and all that its calls return are, as a multiset, the arguments of its calls and
the results. And so for each occurrence: it is an argument of just one call, which comes after it, or else
it is one of the results, and these are in the order in which they were first put on a stack. -/
theorem Expression.run_conserves {options : ExecutionOptions} {x : Expression τ ν ε} {s : Signal}
    {inputs results : List ν} (h : (x.run options s inputs).result = .ok results) :
    let calls := (x.run options s inputs).calls
    (inputs ++ calls.flatMap Call.returned).Perm (calls.flatMap Call.arguments ++ results) ∧
      ∃ taken kept, Accounts inputs.zipIdx inputs.length calls results taken kept := by
  intro calls
  have hinputs : inputs.zipIdx.map Prod.fst = inputs := List.zipIdx_map_fst 0 inputs
  have hflow : Flow inputs calls results := x.run_turns options s inputs results h
  obtain ⟨taken, kept, haccounts⟩ := hflow.exists_accounts hinputs inputs.length
  have hperm := haccounts.perm
  rw [hinputs] at hperm
  exact ⟨hperm, taken, kept, haccounts⟩

/-- A nested element doubles the upper one of two inputs, and another one takes a copy and, against what is
declared for it, gives nothing. The other copy is left, above the input that is surplus. -/
theorem Expression.run_conserves_surplus :
    let double : Element TypeTag Scalar String :=
      { Tracing.element "d" .operator 1 0 .left with
        outputs := [Tracing.text, Tracing.text], execute := Behaviour.execute "d" .duplicate }
    let drop : Element TypeTag Scalar String :=
      { Tracing.element "0" .operator 1 0 .left with execute := Behaviour.execute "0" (.const []) }
    let x : Expression TypeTag Scalar String :=
      ⟨"x", [.nested ⟨"y", [.element double], [Tracing.text], [Tracing.text, Tracing.text]⟩,
        .element drop], [Tracing.text], [Tracing.text, Tracing.text]⟩
    let u := Scalar.text "u"
    let v := Scalar.text "v"
    let calls := (x.run {} {} [u, v]).calls
    (x.run {} {} [u, v]).result = .ok [u, v] ∧
      calls.map Call.arguments = [[v], [v]] ∧ calls.map Call.returned = [[v, v], []] ∧
      ([u, v] ++ calls.flatMap Call.returned).Perm (calls.flatMap Call.arguments ++ [u, v]) ∧
      ∃ (taken : List (List (Scalar × Nat))) (kept : List (Scalar × Nat)),
        taken.map (List.map Prod.fst) = [[v], [v]] ∧ kept.map Prod.fst = [u, v] ∧
        (taken.flatten ++ kept).Perm [(u, 0), (v, 1), (v, 2), (v, 3)] := by
  intro double drop x u v calls
  have hrun : (x.run {} {} [u, v]).result = .ok [u, v] := rfl
  obtain ⟨hperm, taken, kept, haccounts⟩ := Expression.run_conserves hrun
  have hreturned : calls.flatMap Call.returned = [v, v] := rfl
  have honce := haccounts.once
  rw [occurrences_inputs, hreturned] at honce
  exact ⟨hrun, rfl, rfl, hperm, taken, kept, haccounts.arguments, haccounts.left, honce⟩

end ExpressionEngine
