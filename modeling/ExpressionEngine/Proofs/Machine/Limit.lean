import ExpressionEngine.Proofs.Machine.Agreement

/-! The stack limit. A run without a limit shows how high its stacks grow; under a limit that is not
exceeded the run is the same, and under any other it overflows, by one value too many, wherever in the
nesting it is that the limit is reached. -/

namespace ExpressionEngine

variable {τ ν ε α β γ δ : Type}

/-! ### A limited stack -/

namespace Stack

theorem push_of_lt {max : Nat} {items : List α} (h : items.length < max) (a : α) :
    push ⟨some max, items⟩ a = .ok ⟨some max, items ++ [a]⟩ := by
  have hn : ¬ max ≤ items.length := by omega
  simp [push, height, hn]

theorem push_of_full {max : Nat} {items : List α} (h : items.length = max) (a : α) :
    push ⟨some max, items⟩ a = .error ⟨max + 1, max⟩ := by
  simp [push, height, h]

/-- Values that all find room. -/
theorem extend_of_room {max : Nat} {items : List α} {as : List α}
    (h : items.length + as.length ≤ max) :
    extend ⟨some max, items⟩ as = (⟨some max, items ++ as⟩, none) := by
  induction as generalizing items with
  | nil => simp
  | cons a rest ih =>
    rw [List.length_cons] at h
    have hlt : items.length < max := by omega
    have hrest : (items ++ [a]).length + rest.length ≤ max := by
      rw [List.length_append, List.length_singleton]
      omega
    rw [extend, push_of_lt hlt]
    simpa using ih hrest

/-- Values that do not all find room; the stack is filled to its limit. -/
theorem extend_of_no_room {max : Nat} {items : List α} {as : List α} (hi : items.length ≤ max)
    (h : max < items.length + as.length) :
    extend ⟨some max, items⟩ as =
      (⟨some max, items ++ as.take (max - items.length)⟩, some ⟨max + 1, max⟩) := by
  induction as generalizing items with
  | nil =>
    rw [List.length_nil] at h
    omega
  | cons a rest ih =>
    rw [List.length_cons] at h
    by_cases hfull : items.length = max
    · rw [extend, push_of_full hfull]
      simp [hfull]
    · have hlen : (items ++ [a]).length = items.length + 1 := by simp
      have hroom : max - items.length = max - (items ++ [a]).length + 1 := by omega
      rw [extend, push_of_lt (by omega)]
      dsimp only
      rw [ih (by omega) (by omega), hroom, List.take_succ_cons, List.append_assoc,
        List.singleton_append]

theorem load_of_unlimited (items : List ν) (s : Signal) (values : List ν) :
    ((⟨none, items⟩ : Stack ν).load s values : Run τ ν ε (Stack ν)) =
      { result := .ok ⟨none, items ++ values⟩, signal := s,
        peak := items.length + values.length } := by
  rw [load, extend_of_unlimited rfl]
  simp [height]

theorem load_of_room {max : Nat} {items : List ν} {values : List ν}
    (h : items.length + values.length ≤ max) (s : Signal) :
    ((⟨some max, items⟩ : Stack ν).load s values : Run τ ν ε (Stack ν)) =
      { result := .ok ⟨some max, items ++ values⟩, signal := s,
        peak := items.length + values.length } := by
  rw [load, extend_of_room h]
  simp [height]

theorem load_of_no_room {max : Nat} {items : List ν} {values : List ν} (hi : items.length ≤ max)
    (h : max < items.length + values.length) (s : Signal) :
    ((⟨some max, items⟩ : Stack ν).load s values : Run τ ν ε (Stack ν)).result =
      .error (.stackOverflow (max + 1) max) := by
  rw [load, extend_of_no_room hi h]

end Stack

/-! ### Stacks within their limit -/

def Run.Overflows (r : Run τ ν ε α) : Prop :=
  ∃ size max, r.result = .error (.stackOverflow size max)

theorem Run.Overflows.bind {r : Run τ ν ε α} (h : r.Overflows) (next : α → Signal → Run τ ν ε β) :
    (r.bind next).Overflows := by
  obtain ⟨size, max, ho⟩ := h
  rw [bind_of_error ho]
  exact ⟨size, max, rfl⟩

/-- An element's own error is no overflow. -/
theorem Run.FailsByElement.not_overflows {r : Run τ ν ε α} (h : r.FailsByElement) :
    ¬ r.Overflows := by
  rintro ⟨size, max, ho⟩
  obtain ⟨x, hx⟩ := h _ ho
  cases hx

def WithinLimit (limit : Option Nat) (items : List ν) : Prop :=
  ∀ max, limit = some max → items.length ≤ max

theorem WithinLimit.of_length_le {limit : Option Nat} {items items' : List ν}
    (h : WithinLimit limit items) (hl : items'.length ≤ items.length) :
    WithinLimit limit items' :=
  fun max hm => Nat.le_trans hl (h max hm)

namespace Stack

theorem load_eq_of_within {limit : Option Nat} {items values : List ν}
    (h : WithinLimit limit (items ++ values)) (s : Signal) :
    ((⟨limit, items⟩ : Stack ν).load s values : Run τ ν ε (Stack ν)) =
      { result := .ok ⟨limit, items ++ values⟩, signal := s,
        peak := items.length + values.length } := by
  cases limit with
  | none => exact load_of_unlimited items s values
  | some max =>
    refine load_of_room ?_ s
    rw [← List.length_append]
    exact h max rfl

theorem load_overflows_or_within {limit : Option Nat} {items : List ν}
    (h : WithinLimit limit items) (s : Signal) (values : List ν) :
    ((⟨limit, items⟩ : Stack ν).load s values : Run τ ν ε (Stack ν)).Overflows ∨
      WithinLimit limit (items ++ values) := by
  cases limit with
  | none => exact .inr fun _ hm => nomatch hm
  | some max =>
    by_cases hroom : items.length + values.length ≤ max
    · refine .inr fun m hm => ?_
      cases hm
      rwa [List.length_append]
    · exact .inl ⟨max + 1, max, load_of_no_room (h max rfl) (Nat.lt_of_not_le hroom) s⟩

end Stack

/-! ### Limited runs -/

namespace Run

/-- Under the limit `max` the run `r` does what `u` does without one, or it overflows. -/
structure Limits (max : Nat) (rel : α → β → Prop) (r : Run τ ν ε α) (u : Run τ ν ε β) : Prop where
  within : u.peak ≤ max → r.Agrees rel u
  beyond : max < u.peak → r.result = .error (.stackOverflow (max + 1) max)

namespace Limits

variable {limit : Nat} {rel : α → β → Prop} {rel' : γ → δ → Prop}

theorem of_agrees {r : Run τ ν ε α} {u : Run τ ν ε β} (h : r.Agrees rel u) (hp : u.peak = 0) :
    r.Limits limit rel u where
  within _ := h
  beyond hb := by omega

theorem peak_le {r : Run τ ν ε α} {u : Run τ ν ε β} (h : r.Limits limit rel u)
    (hr : ¬ r.Overflows) : u.peak ≤ limit := by
  apply Nat.le_of_not_lt
  intro hlt
  exact hr ⟨_, _, h.beyond hlt⟩

/-- The second of two runs starts only if the first stayed within the limit. -/
theorem bind {r : Run τ ν ε α} {u : Run τ ν ε β} {f : α → Signal → Run τ ν ε γ}
    {g : β → Signal → Run τ ν ε δ} (h : r.Limits limit rel u)
    (hn : u.peak ≤ limit → ∀ a b s, rel a b → (f a s).Limits limit rel' (g b s)) :
    (r.bind f).Limits limit rel' (u.bind g) := by
  by_cases hu : u.peak ≤ limit
  · obtain ⟨result, signal, calls, peak⟩ := r
    obtain ⟨result', signal', calls', peak'⟩ := u
    obtain ⟨rfl, rfl, hresult⟩ := h.within hu
    cases hresult with
    | error e => exact ⟨fun _ => ⟨rfl, rfl, .error e⟩, fun hb => absurd hu (Nat.not_le.2 hb)⟩
    | ok hab =>
      have hnext := hn hu _ _ signal hab
      constructor
      · intro hw
        have ha := hnext.within (Nat.le_trans (Nat.le_max_right _ _) hw)
        exact ⟨ha.signal, congrArg (calls ++ ·) ha.calls, ha.result⟩
      · intro hb
        refine hnext.beyond ?_
        have hmax : limit < max peak' (g _ signal).peak := hb
        have hfirst : peak' ≤ limit := hu
        omega
  · have hr := h.beyond (Nat.lt_of_not_le hu)
    have hpeak : u.peak ≤ (u.bind g).peak := by
      rw [Run.bind]
      split
      · exact Nat.le_refl _
      · exact Nat.le_max_left _ _
    exact ⟨fun hw => absurd (Nat.le_trans hpeak hw) hu, fun _ => by rw [bind_of_error hr]⟩

end Limits

end Run

/-- Values are put on a limited stack and on an unlimited one, and what follows starts only if the
limited one had room for them all. -/
theorem Stack.load_bind_limits {max : Nat} {rel : α → β → Prop} {items : List ν}
    (hi : items.length ≤ max) (s : Signal) (values : List ν)
    {f : Stack ν → Signal → Run τ ν ε α} {g : Stack ν → Signal → Run τ ν ε β}
    (hn : (items ++ values).length ≤ max →
      ∀ s, (f ⟨some max, items ++ values⟩ s).Limits max rel (g ⟨none, items ++ values⟩ s)) :
    (((⟨some max, items⟩ : Stack ν).load s values).bind f).Limits max rel
      (((⟨none, items⟩ : Stack ν).load s values).bind g) := by
  have hload : ((⟨some max, items⟩ : Stack ν).load s values : Run τ ν ε (Stack ν)).Limits max
      (fun a b => a = ⟨some max, items ++ values⟩ ∧ b = ⟨none, items ++ values⟩)
      ((⟨none, items⟩ : Stack ν).load s values) := by
    rw [load_of_unlimited]
    constructor
    · intro hw
      rw [load_of_room hw]
      exact ⟨rfl, rfl, .ok ⟨rfl, rfl⟩⟩
    · intro hb
      exact load_of_no_room hi hb s
  refine hload.bind fun hpeak a b s hab => ?_
  obtain ⟨rfl, rfl⟩ := hab
  refine hn ?_ s
  rw [load_of_unlimited] at hpeak
  rw [List.length_append]
  exact hpeak

/-! ### Programs and expressions -/

/-- The same items, on a stack with the limit and on one without. -/
def SameItems (max : Nat) (stack unlimited : Stack ν) : Prop :=
  stack = ⟨some max, unlimited.items⟩ ∧ unlimited.limit = none

theorem runProgram_limits {max : Nat} {program : List (Node τ ν ε)}
    (hn : ∀ n ∈ program, ∀ s arguments,
      (n.run ⟨some max⟩ s arguments).Limits max (· = ·) (n.run {} s arguments))
    {items : List ν} (hi : items.length ≤ max) (s : Signal) :
    (runProgram ⟨some max⟩ program ⟨some max, items⟩ s).Limits max (SameItems max)
      (runProgram {} program ⟨none, items⟩ s) := by
  induction program generalizing items s with
  | nil => exact .of_agrees (.finished ⟨rfl, rfl⟩ s) rfl
  | cons n rest ih =>
    rcases Stack.lt_or_exists_top n.inputs.length items with h | ⟨below, arguments, rfl, ha⟩
    · rw [runProgram_cons_of_lt h, runProgram_cons_of_lt h]
      exact .of_agrees ⟨rfl, rfl, .error _⟩ rfl
    · have hbelow : below.length ≤ max := by
        rw [List.length_append] at hi
        omega
      rw [runProgram_cons_append ha, runProgram_cons_append ha]
      refine (hn n List.mem_cons_self s arguments).bind fun _ _ produced s h => ?_
      subst h
      refine Stack.load_bind_limits hbelow s _ fun hroom s => ?_
      exact ih (fun m hm => hn m (List.mem_cons_of_mem n hm)) hroom s

theorem Expression.run_limits (max : Nat) (x : Expression τ ν ε) (s : Signal) (inputs : List ν) :
    (x.run ⟨some max⟩ s inputs).Limits max (· = ·) (x.run {} s inputs) := by
  induction x using Expression.nestedInduction generalizing s inputs with
  | step x ih =>
    have hn : ∀ n ∈ x.program, ∀ s (arguments : List ν),
        (n.run ⟨some max⟩ s arguments).Limits max (· = ·) (n.run {} s arguments) := by
      intro n hmem s arguments
      cases n with
      | element e => exact .of_agrees (.refl _) rfl
      | nested y => exact ih y hmem s arguments
    rw [run_eq, run_eq]
    refine Stack.load_bind_limits (Nat.zero_le max) s inputs fun hroom s => ?_
    refine (runProgram_limits hn hroom s).bind fun _ a b s hab => ?_
    refine .of_agrees (.finished ?_ s) rfl
    rw [hab.1]

end ExpressionEngine
