import ExpressionEngine.Machine.Supervised
import ExpressionEngine.Proofs.Machine.Limit
import ExpressionEngine.Proofs.Machine.Parts
import ExpressionEngine.Scalar.Tracing
import Mathlib.Order.Bounds.Defs

/-! The peak of a run. It is the most that the stack of any one activation holds at any moment, nested
activations included, and it is all that a limit on the stacks depends on: a run under a limit below
its peak overflows by one value, and any other limit changes nothing. -/

namespace ExpressionEngine

variable {τ ν ε α : Type}

/-! ### The greatest height -/

theorem Stack.peak_load {stack stack' : Stack ν} {s : Signal} {values : List ν}
    (h : (stack.load s values : Run τ ν ε (Stack ν)).result = .ok stack') :
    (stack.load s values : Run τ ν ε (Stack ν)).peak = stack'.height := by
  unfold load at h ⊢
  split
  · next h' =>
    rw [h'] at h
    cases h
    rfl
  · next h' =>
    rw [h'] at h
    cases h

/-- Whatever stands on the stack at the end was there at the start or has been counted. -/
theorem runProgram_height_le {options : ExecutionOptions} {program : List (Node τ ν ε)}
    {stack stack' : Stack ν} {s : Signal}
    (h : (runProgram options program stack s).result = .ok stack') :
    stack'.height ≤ max stack.height (runProgram options program stack s).peak := by
  induction program generalizing stack s with
  | nil =>
    cases h
    exact Nat.le_max_left _ _
  | cons n rest ih =>
    cases hp : stack.pop? n.inputs.length with
    | none =>
      rw [runProgram_cons_of_underflow hp] at h
      cases h
    | some split =>
      rw [runProgram_cons_of_pop hp] at h ⊢
      obtain ⟨produced, hproduced, h⟩ := Run.result_bind_eq_ok_iff.1 h
      obtain ⟨loaded, hloaded, h⟩ := Run.result_bind_eq_ok_iff.1 h
      have hload := Stack.peak_load hloaded
      have hrest := ih h
      rw [Run.bind_of_ok hproduced, Run.bind_of_ok hloaded]
      dsimp only
      omega

theorem runFrom_height_le {options : ExecutionOptions} {program : List (Node τ ν ε)}
    {s : Signal} {inputs items : List ν}
    (h : (runFrom options program s inputs).result = .ok items) :
    items.length ≤ (runFrom options program s inputs).peak := by
  rw [runFrom] at h ⊢
  obtain ⟨loaded, hloaded, h⟩ := Run.result_bind_eq_ok_iff.1 h
  obtain ⟨stack, hstack, h⟩ := Run.result_bind_eq_ok_iff.1 h
  cases h
  have hload := Stack.peak_load hloaded
  have hheight := runProgram_height_le hstack
  rw [Run.bind_of_ok hloaded, Run.map, Run.bind_of_ok hstack]
  rw [Stack.height] at hheight
  dsimp only
  omega

theorem Expression.Meets.height_le {options : ExecutionOptions} {x : Expression τ ν ε} {s : Signal}
    {inputs : List ν} {m : Moment τ ν ε} (h : x.Meets options s inputs m) :
    m.held.length ≤ (x.run options s inputs).peak := by
  induction h with
  | own split reached =>
    exact Nat.le_trans (runFrom_height_le reached) (past_within split).peak
  | nested split reached taken _ ih =>
    exact Nat.le_trans ih (nested_within split reached taken).peak

theorem runFrom_nil (s : Signal) (inputs : List ν) :
    runFrom {} ([] : List (Node τ ν ε)) s inputs =
      { result := .ok inputs, signal := s, peak := inputs.length } :=
  runFrom_nil_of_room (Stack.extend_of_unlimited rfl inputs) s

/-- At some moment of the run without a limit, a stack holds as much as that. -/
def Expression.Attains (x : Expression τ ν ε) (s : Signal) (inputs : List ν) (height : Nat) : Prop :=
  ∃ m, x.Meets {} s inputs m ∧ height ≤ m.held.length

theorem Expression.Attains.max {x : Expression τ ν ε} {s : Signal} {inputs : List ν} {k l : Nat}
    (hk : x.Attains s inputs k) (hl : x.Attains s inputs l) : x.Attains s inputs (max k l) := by
  rcases Nat.le_total k l with h | h
  · rwa [Nat.max_eq_right h]
  · rwa [Nat.max_eq_left h]

/-- The nodes still to be run reach their peak, if every nested expression does. -/
theorem Expression.attains_peak_of_rest {x : Expression τ ν ε} {s : Signal} {inputs : List ν}
    (hn : ∀ y, .nested y ∈ x.program → ∀ s inputs, y.Attains s inputs (y.run {} s inputs).peak)
    {rest past : List (Node τ ν ε)} {held : List ν} (split : x.program = past ++ rest)
    (reached : (runFrom {} past s inputs).result = .ok held) :
    x.Attains s inputs
      (runProgram {} rest ⟨none, held⟩ (runFrom {} past s inputs).signal).peak := by
  induction rest generalizing past held with
  | nil => exact ⟨_, .own split reached, Nat.zero_le _⟩
  | cons n rest ih =>
    rcases Stack.lt_or_exists_top n.inputs.length held with h | ⟨below, arguments, rfl, ha⟩
    · rw [runProgram_cons_of_lt h]
      exact ⟨_, .own split reached, Nat.zero_le _⟩
    have hnode : x.Attains s inputs
        (n.run {} (runFrom {} past s inputs).signal arguments).peak := by
      cases n with
      | element e => exact ⟨_, .own split reached, Nat.zero_le _⟩
      | nested y =>
        have hmem : .nested y ∈ x.program := split ▸ List.mem_append_right past List.mem_cons_self
        obtain ⟨m, hm, hpeak⟩ := hn y hmem (runFrom {} past s inputs).signal arguments
        exact ⟨m, .nested split reached ha hm, hpeak⟩
    rw [runProgram_cons_append ha]
    cases hr : (n.run {} (runFrom {} past s inputs).signal arguments).result with
    | error e =>
      rw [Run.bind_of_error hr]
      exact hnode
    | ok produced =>
      have split' : x.program = (past ++ [n]) ++ rest := by rw [split, List.append_cons]
      obtain ⟨reached', hsignal⟩ := runFrom_snoc reached ha hr (Stack.extend_of_unlimited rfl produced)
      have hloaded : x.Attains s inputs (below.length + produced.length) :=
        ⟨_, .own split' reached', Nat.le_of_eq List.length_append.symm⟩
      have hafter := ih split' reached'
      rw [hsignal] at hafter
      rw [Run.bind_of_ok hr, Stack.load_of_unlimited, Run.bind_of_ok rfl]
      -- the peak is within the node, or when its values are put on, or later
      exact hnode.max (hloaded.max hafter)

theorem Expression.attains_peak (x : Expression τ ν ε) (s : Signal) (inputs : List ν) :
    x.Attains s inputs (x.run {} s inputs).peak := by
  induction x using Expression.nestedInduction generalizing s inputs with
  | step x ih =>
    have reached : (runFrom {} ([] : List (Node τ ν ε)) s inputs).result = .ok inputs := by
      rw [runFrom_nil]
    have hinputs : x.Attains s inputs inputs.length :=
      ⟨_, .own (List.nil_append _).symm reached, Nat.le_refl _⟩
    have hrest := attains_peak_of_rest ih (List.nil_append _).symm reached
    have hpeak : (x.run {} s inputs).peak =
        max inputs.length (runProgram {} x.program ⟨none, inputs⟩ s).peak := by
      rw [run_eq, ← List.nil_append x.program, runFrom_append, runFrom_nil, Run.bind_of_ok rfl,
        Run.peak_map]
      rfl
    rw [runFrom_nil] at hrest
    rw [hpeak]
    exact hinputs.max hrest

/-- The peak is the most that is held at any moment, at whatever depth. -/
theorem Expression.isGreatest_peak (x : Expression τ ν ε) (s : Signal) (inputs : List ν) :
    IsGreatest {height | ∃ m, x.Meets {} s inputs m ∧ m.held.length = height}
      (x.run {} s inputs).peak := by
  constructor
  · obtain ⟨m, hm, hpeak⟩ := x.attains_peak s inputs
    exact ⟨m, hm, Nat.le_antisymm hm.height_le hpeak⟩
  · rintro _ ⟨m, hm, rfl⟩
    exact hm.height_le

/-! ### No limit, no overflow -/

/-- Not caused by a stack that holds too much. -/
def ExecutionError.NoOverflow (e : ExecutionError ε) : Prop :=
  ∀ size max, e ≠ .stackOverflow size max

/-- Ends in any way but by an overflow. -/
def Run.Unbounded (r : Run τ ν ε α) : Prop :=
  r.Ensures (fun _ => True) ExecutionError.NoOverflow (fun _ => True)

theorem Stack.load_ensures_of_unlimited {callOk : Call τ ν ε → Prop}
    {errorOk : ExecutionError ε → Prop} (items : List ν) (s : Signal) (values : List ν) :
    ((⟨none, items⟩ : Stack ν).load s values).Ensures callOk errorOk
      fun stack => stack = ⟨none, items ++ values⟩ := by
  rw [load_of_unlimited]
  refine ⟨by simp, by simp, fun stack h => ?_⟩
  cases h
  rfl

theorem runProgram_unbounded {program : List (Node τ ν ε)}
    (hn : ∀ n ∈ program, ∀ s (arguments : List ν), (n.run {} s arguments).Unbounded)
    (items : List ν) (s : Signal) : (runProgram {} program ⟨none, items⟩ s).Unbounded := by
  induction program generalizing items s with
  | nil => exact .finished .intro s
  | cons n rest ih =>
    rcases Stack.lt_or_exists_top n.inputs.length items with h | ⟨below, arguments, rfl, ha⟩
    · rw [runProgram_cons_of_lt h]
      refine .failed ?_ s
      intro _ _ h
      cases h
    · rw [runProgram_cons_append ha]
      refine (hn n List.mem_cons_self s arguments).bind fun produced s _ => ?_
      refine (Stack.load_ensures_of_unlimited below s produced).bind fun stack s hstack => ?_
      rw [hstack]
      exact ih (fun m hm => hn m (List.mem_cons_of_mem n hm)) _ s

theorem runFrom_unbounded {program : List (Node τ ν ε)}
    (hn : ∀ n ∈ program, ∀ s (arguments : List ν), (n.run {} s arguments).Unbounded)
    (s : Signal) (inputs : List ν) : (runFrom {} program s inputs).Unbounded := by
  refine (Stack.load_ensures_of_unlimited [] s inputs).bind fun stack s hstack => ?_
  rw [hstack]
  exact (runProgram_unbounded hn _ s).map fun _ _ => .intro

theorem Node.run_element_unbounded (e : Element τ ν ε) (s : Signal) (arguments : List ν) :
    ((Node.element e).run {} s arguments).Unbounded := by
  refine ⟨fun _ _ => .intro, fun err herr => ?_, fun _ _ => .intro⟩
  obtain ⟨x, rfl, -⟩ := Element.execute_of_run_eq_error herr
  intro _ _ h
  cases h

theorem Expression.run_unbounded (x : Expression τ ν ε) (s : Signal) (inputs : List ν) :
    (x.run {} s inputs).Unbounded := by
  induction x using Expression.nestedInduction generalizing s inputs with
  | step x ih =>
    rw [run_eq]
    refine runFrom_unbounded (fun n hmem s arguments => ?_) s inputs
    cases n with
    | element e => exact Node.run_element_unbounded e s arguments
    | nested y => exact ih y hmem s arguments

theorem Node.run_unbounded (n : Node τ ν ε) (s : Signal) (arguments : List ν) :
    (n.run {} s arguments).Unbounded := by
  cases n with
  | element e => exact run_element_unbounded e s arguments
  | nested y => exact y.run_unbounded s arguments

theorem Expression.runSingle_unbounded (x : Expression τ ν ε) (s : Signal) (inputs : List ν) :
    (x.runSingle {} s inputs).Unbounded := by
  refine (x.run_unbounded s inputs).bind fun values s _ => ?_
  split
  · exact .finished .intro s
  · refine .failed ?_ s
    intro _ _ h
    cases h

/-! ### The limit -/

/-- What the peak says of the outcomes under all limits: how a run ends, and what it leaves of the
contexts. -/
structure ExactLimit (peak : Nat)
    (outcome : Option Nat → Except (ExecutionError ε) α × Contexts) : Prop where
  overflow_iff : ∀ max,
    (∃ size limit, (outcome (some max)).1 = .error (.stackOverflow size limit)) ↔ max < peak
  overflow_eq : ∀ max size limit, (outcome (some max)).1 = .error (.stackOverflow size limit) →
    size = max + 1 ∧ limit = max
  within : ∀ max, peak ≤ max → outcome (some max) = outcome none
  raise : ∀ max limit, (∀ m, limit = some m → max ≤ m) →
    (¬ ∃ size found, (outcome (some max)).1 = .error (.stackOverflow size found)) →
    outcome limit = outcome (some max)

theorem ExactLimit.of_limits (runs : Option Nat → Run τ ν ε α)
    (h : ∀ max, (runs (some max)).Limits max (· = ·) (runs none)) (hu : (runs none).Unbounded)
    (cs : Contexts) (c : Context) : ExactLimit (runs none).peak fun limit =>
      ((runs limit).result, cs.settle c (runs limit).signal) := by
  have within : ∀ max, (runs none).peak ≤ max →
      ((runs (some max)).result, cs.settle c (runs (some max)).signal) =
        ((runs none).result, cs.settle c (runs none).signal) := by
    intro max hp
    have ha := (h max).within hp
    rw [ha.result.eq, ha.signal]
  have beyond : ∀ max size limit, (runs (some max)).result = .error (.stackOverflow size limit) →
      max < (runs none).peak := by
    intro max size limit he
    apply Nat.lt_of_not_le
    intro hp
    rw [((h max).within hp).result.eq] at he
    exact hu.error _ he size limit rfl
  refine ⟨fun max => ⟨fun ⟨size, limit, he⟩ => beyond max size limit he, fun hp => ?_⟩,
    fun max size limit he => ?_, within, fun max limit hraise hno => ?_⟩
  · exact ⟨_, _, (h max).beyond hp⟩
  · have hbeyond := (h max).beyond (beyond max size limit he)
    rw [hbeyond] at he
    cases he
    exact ⟨rfl, rfl⟩
  · have hp : (runs none).peak ≤ max := (h max).peak_le hno
    cases limit with
    | none => exact (within max hp).symm
    | some m => exact (within m (Nat.le_trans hp (hraise m rfl))).trans (within max hp).symm

theorem Expression.runSingle_limits (max : Nat) (x : Expression τ ν ε) (s : Signal)
    (inputs : List ν) :
    (x.runSingle ⟨some max⟩ s inputs).Limits max (· = ·) (x.runSingle {} s inputs) := by
  refine (x.run_limits max s inputs).bind fun _ a b s hab => ?_
  subst hab
  refine .of_agrees (.refl _) ?_
  split <;> rfl

theorem Expression.peak_runSingle (options : ExecutionOptions) (x : Expression τ ν ε) (s : Signal)
    (inputs : List ν) : (x.runSingle options s inputs).peak = (x.run options s inputs).peak :=
  (x.runSingle_calls_peak options s inputs).2

/-- The limit is exact and changes nothing else. The peak of a run without a limit is the most that
any activation's stack holds at any moment; under a limit the same run overflows just if the limit is
below that, by one value whatever the depth, and otherwise it ends as without a limit and leaves the
contexts alike. -/
theorem Contexts.limit_exact (cs : Contexts) (c : Context) (x : Expression τ ν ε)
    (inputs : List ν) :
    IsGreatest {height | ∃ m, x.Meets {} (cs.signal c) inputs m ∧ m.held.length = height}
        (x.run {} (cs.signal c) inputs).peak ∧
      ExactLimit (x.run {} (cs.signal c) inputs).peak
        (fun limit => cs.run c ⟨limit⟩ x inputs) ∧
      ExactLimit (x.run {} (cs.signal c) inputs).peak
        (fun limit => cs.runSingle c ⟨limit⟩ x inputs) := by
  refine ⟨x.isGreatest_peak _ inputs, ?_, ?_⟩
  · exact .of_limits (fun limit => x.run ⟨limit⟩ (cs.signal c) inputs)
      (fun max => x.run_limits max _ inputs) (x.run_unbounded _ inputs) cs c
  · have h := ExactLimit.of_limits (fun limit => x.runSingle ⟨limit⟩ (cs.signal c) inputs)
      (fun max => x.runSingle_limits max _ inputs) (x.runSingle_unbounded _ inputs) cs c
    rwa [x.peak_runSingle] at h

/-- A nested expression puts a constant of its own on the value that it is given, so that its stack holds two
values while the one around it always holds one. Without any room nothing is called; with room for one
value the run stops when the constant, which has been called, is put on the nested stack. -/
theorem Contexts.limit_exact_nested :
    let cs : Contexts := {}
    let c : Context := ⟨0, none⟩
    let x : Expression TypeTag Scalar String :=
      ⟨"x", [.nested Tracing.difference], [Tracing.text], [Tracing.text]⟩
    let inputs : List Scalar := [.text "v"]
    let called (limit : Option Nat) : List String :=
      (x.run ⟨limit⟩ (cs.signal c) inputs).calls.map (·.element.symbol)
    (x.run {} (cs.signal c) inputs).peak = 2 ∧
      (∃ m, x.Meets {} (cs.signal c) inputs m ∧ m.held.length = 2) ∧
      (∀ k, ((runFrom {} (x.program.take k) (cs.signal c) inputs).result.map List.length).toOption =
        some 1) ∧
      ((cs.run c ⟨some 0⟩ x inputs).1 = .error (.stackOverflow 1 0) ∧ called (some 0) = []) ∧
      ((cs.run c ⟨some 1⟩ x inputs).1 = .error (.stackOverflow 2 1) ∧ called (some 1) = ["e"]) ∧
      (cs.run c ⟨some 2⟩ x inputs).1 = .ok [.text "-(v,e())"] ∧
      cs.runSingle c ⟨some 2⟩ x inputs = cs.runSingle c {} x inputs := by
  intro cs c x inputs called
  obtain ⟨hgreatest, hrun, hsingle⟩ := Contexts.limit_exact cs c x inputs
  have hpeak : (x.run {} (cs.signal c) inputs).peak = 2 := by decide
  rw [hpeak] at hgreatest hrun hsingle
  have hoverflow : ∀ max < 2,
      (cs.run c ⟨some max⟩ x inputs).1 = .error (.stackOverflow (max + 1) max) := by
    intro max hmax
    obtain ⟨size, limit, h⟩ := (hrun.overflow_iff max).2 hmax
    obtain ⟨rfl, rfl⟩ := hrun.overflow_eq max size limit h
    exact h
  have hseeding : called (some 0) = [] := rfl
  have hnested : called (some 1) = ["e"] := rfl
  have hvalue : (cs.run c {} x inputs).1 = .ok [.text "-(v,e())"] := rfl
  have hwithin := congrArg Prod.fst (hrun.within 2 (Nat.le_refl 2))
  refine ⟨hpeak, hgreatest.1, fun k => ?_, ⟨hoverflow 0 Nat.two_pos, hseeding⟩,
    ⟨hoverflow 1 Nat.one_lt_two, hnested⟩, hwithin.trans hvalue, hsingle.within 2 (Nat.le_refl 2)⟩
  cases k with
  | zero => rfl
  | succ k =>
    rw [List.take_of_length_le (by simp [x])]
    rfl

end ExpressionEngine
