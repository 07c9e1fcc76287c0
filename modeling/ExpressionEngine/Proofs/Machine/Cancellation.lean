import ExpressionEngine.Machine.Supervised
import ExpressionEngine.Proofs.Machine.Signals
import Mathlib.Data.List.Infix
import Mathlib.Logic.Relation

/-! Cancellation. Whatever is done with contexts, one of them is cancelled if and only if a context of
its family was, directly or by an element that a run under it executed; nothing takes this back, and
nothing else is ever changed about a context that was made. The history itself shows which contexts are of
one family: the number by which a family is known is that of the contexts which copying joins. -/

namespace ExpressionEngine

variable {τ ν ε α : Type}

/-! ### What a history shows -/

namespace History

/-- The context numbered `made` was made as a copy of the one numbered `source`. -/
def Copied (now : Instant) (events : List (Event τ ν ε)) (source made : Nat) : Prop :=
  ∃ past, past ++ [.copy source] <+: events ∧ source < made ∧
    made = ((State.start now).replay past).contexts.length

/-- Of one family: copying joins the two, though neither need be a copy of the other. -/
def Kin (now : Instant) (events : List (Event τ ν ε)) : Nat → Nat → Prop :=
  Relation.EqvGen (Copied now events)

/-- What cancels the context numbered `i`: an event of that kind, or a run under the context, if an
element asks for it, on whatever level of nesting it is executed. -/
inductive Event.Cancels (s : State) : Event τ ν ε → Nat → Prop
  | directly {i : Nat} {c : Context} (found : s.contexts[i]? = some c) : Cancels s (.cancel i) i
  | byElement {i : Nat} {c : Context} {options : ExecutionOptions} {x : Expression τ ν ε}
      {inputs : List ν} {call : Call τ ν ε} (found : s.contexts[i]? = some c)
      (executed : call ∈ (x.run options (s.families.signal c) inputs).calls)
      (asked : call.outcome.cancels = true) : Cancels s (.run i options x inputs) i

/-- At some time a context of the family was cancelled. -/
def WasCancelled (now : Instant) (events : List (Event τ ν ε)) (i : Nat) : Prop :=
  ∃ past event j, past ++ [event] <+: events ∧ event.Cancels ((State.start now).replay past) j ∧
    Kin now events i j

end History

/-! ### One event -/

theorem getElem?_concat_eq_some {as : List α} {a b : α} {i : Nat}
    (h : (as ++ [b])[i]? = some a) : as[i]? = some a ∨ i = as.length ∧ a = b := by
  rcases Nat.lt_or_ge i as.length with hi | hi
  · rw [List.getElem?_append_left hi] at h
    exact .inl h
  · rw [List.getElem?_append_right hi, List.getElem?_singleton] at h
    split at h
    · cases h
      exact .inr ⟨by omega, rfl⟩
    · cases h

theorem getElem?_of_isPrefix {as bs : List α} {a : α} {i : Nat} (h : as <+: bs)
    (hi : as[i]? = some a) : bs[i]? = some a := by
  obtain ⟨rest, rfl⟩ := h
  obtain ⟨hlt, -⟩ := List.getElem?_eq_some_iff.1 hi
  rwa [List.getElem?_append_left hlt]

namespace History

open State

theorem Event.Cancels.eq {s : State} {event : Event τ ν ε} {i j : Nat} (hi : event.Cancels s i)
    (hj : event.Cancels s j) : i = j := by
  cases hi <;> cases hj <;> rfl

theorem Event.Cancels.exists_context {s : State} {event : Event τ ν ε} {i : Nat}
    (h : event.Cancels s i) : ∃ c, s.contexts[i]? = some c := by
  cases h with
  | directly found => exact ⟨_, found⟩
  | byElement found _ _ => exact ⟨_, found⟩

/-- All that an event can do. -/
inductive Steps (s : State) : Event τ ν ε → State → Prop
  | made {event : Event τ ν ε} (deadline : Option Instant) (quiet : ∀ i, ¬ event.Cancels s i) :
      Steps s event (s.keep (s.families.make deadline))
  | copied {source : Nat} {c : Context} (found : s.contexts[source]? = some c) :
      Steps s (.copy source) (s.keep (c, s.families))
  | cancelled {event : Event τ ν ε} {i : Nat} {c : Context} (found : s.contexts[i]? = some c)
      (cancels : event.Cancels s i) : Steps s event { s with families := s.families.cancel c }
  | passed {event : Event τ ν ε} (time : Nat) (quiet : ∀ i, ¬ event.Cancels s i) :
      Steps s event { s with families := s.families.elapse time }

theorem Steps.unchanged {s : State} {event : Event τ ν ε} (quiet : ∀ i, ¬ event.Cancels s i) :
    Steps s event s := .passed 0 quiet

theorem steps_step (s : State) (event : Event τ ν ε) : Steps s event (s.step event) := by
  cases event with
  | background => exact .made none nofun
  | withDeadline deadline => exact .made (some deadline) nofun
  | withTimeout timeout => exact .made (some (s.families.now + timeout)) nofun
  | elapse time => exact .passed time nofun
  | copy source =>
    rw [step]
    cases hc : s.contexts[source]? with
    | none => exact .unchanged nofun
    | some c => exact .copied hc
  | cancel target =>
    rw [step]
    cases hc : s.contexts[target]? with
    | some c => exact .cancelled hc (.directly hc)
    | none =>
      refine .unchanged fun i h => ?_
      cases h with
      | directly found => rw [hc] at found; cases found
  | run target options x inputs =>
    rw [step]
    cases hc : s.contexts[target]? with
    | none =>
      refine .unchanged fun i h => ?_
      cases h with
      | byElement found _ _ => rw [hc] at found; cases found
    | some c =>
      dsimp only
      rw [Contexts.families_run]
      split
      · next asked =>
        obtain ⟨call, executed, hcancels⟩ := List.any_eq_true.1 asked
        exact .cancelled hc (.byElement hc executed hcancels)
      · next quiet =>
        refine .unchanged fun i h => ?_
        cases h with
        | byElement found executed asked =>
          rw [hc] at found
          cases found
          exact quiet (List.any_eq_true.2 ⟨_, executed, asked⟩)

namespace Steps

variable {s t : State} {event : Event τ ν ε}

theorem contexts_isPrefix (h : Steps s event t) : s.contexts <+: t.contexts := by
  cases h with
  | made deadline _ => exact List.prefix_append _ _
  | copied _ => exact List.prefix_append _ _
  | cancelled _ _ => exact List.prefix_refl _
  | passed _ _ => exact List.prefix_refl _

/-- Numbers of families are not used twice. -/
theorem family_lt (h : Steps s event t) (hs : ∀ c ∈ s.contexts, c.family < s.families.made) :
    ∀ c ∈ t.contexts, c.family < t.families.made := by
  cases h with
  | made deadline _ =>
    refine List.forall_mem_append.2 ⟨fun c hc => Nat.lt_succ_of_lt (hs c hc), fun c hc => ?_⟩
    rw [List.mem_singleton.1 hc]
    exact Nat.lt_succ_self _
  | copied found =>
    refine List.forall_mem_append.2 ⟨hs, fun c hc => ?_⟩
    rw [List.mem_singleton.1 hc]
    exact hs _ (List.mem_of_getElem? found)
  | cancelled _ _ => exact hs
  | passed _ _ => exact hs

theorem mem_cancelled_iff (h : Steps s event t) {f : Nat} : f ∈ t.families.cancelled ↔
    f ∈ s.families.cancelled ∨
      ∃ i c, event.Cancels s i ∧ s.contexts[i]? = some c ∧ c.family = f := by
  have hquiet (quiet : ∀ i, ¬ event.Cancels s i) :
      ¬ ∃ i c, event.Cancels s i ∧ s.contexts[i]? = some c ∧ c.family = f := by
    rintro ⟨i, c, hi, -, -⟩
    exact quiet i hi
  cases h with
  | made deadline quiet => exact (or_iff_left (hquiet quiet)).symm
  | copied _ => exact (or_iff_left (hquiet nofun)).symm
  | passed time quiet => exact (or_iff_left (hquiet quiet)).symm
  | @cancelled _ i c found cancels =>
    rw [Contexts.mem_cancelled_cancel, or_comm]
    refine or_congr_right ⟨?_, ?_⟩
    · rintro rfl
      exact ⟨i, c, cancels, found, rfl⟩
    · rintro ⟨j, d, hj, hd, rfl⟩
      rw [hj.eq cancels, found] at hd
      cases hd
      rfl

end Steps

/-! ### Whole histories -/

variable {now : Instant} {events past : List (Event τ ν ε)} {i j : Nat} {c d : Context}

theorem replay_append (s : State) (us vs : List (Event τ ν ε)) :
    s.replay (us ++ vs) = (s.replay us).replay vs := List.foldl_append

theorem replay_concat (s : State) (past : List (Event τ ν ε)) (event : Event τ ν ε) :
    s.replay (past ++ [event]) = (s.replay past).step event := replay_append s past [event]

/-- A context that was made stays what it is. -/
theorem contexts_isPrefix_replay (s : State) (h : past <+: events) :
    (s.replay past).contexts <+: (s.replay events).contexts := by
  induction events using List.reverseRecOn with
  | nil =>
    rw [List.prefix_nil.1 h]
  | append_singleton events event ih =>
    rcases List.prefix_concat_iff.1 h with rfl | h
    · exact List.prefix_refl _
    · rw [replay_concat]
      exact (ih h).trans (steps_step _ event).contexts_isPrefix

theorem family_lt_made (now : Instant) (events : List (Event τ ν ε)) :
    ∀ c ∈ ((start now).replay events).contexts,
      c.family < ((start now).replay events).families.made := by
  induction events using List.reverseRecOn with
  | nil => exact fun c hc => nomatch hc
  | append_singleton events event ih =>
    rw [replay_concat]
    exact (steps_step _ event).family_lt ih

/-- A family is cancelled by an event that cancels one of its contexts, and by nothing else. -/
theorem mem_cancelled_replay {f : Nat} :
    f ∈ ((start now).replay events).families.cancelled ↔
      ∃ past event j d, past ++ [event] <+: events ∧ event.Cancels ((start now).replay past) j ∧
        ((start now).replay past).contexts[j]? = some d ∧ d.family = f := by
  induction events using List.reverseRecOn with
  | nil =>
    constructor
    · exact fun h => nomatch h
    · rintro ⟨past, event, j, d, h, -⟩
      simp at h
  | append_singleton events event ih =>
    rw [replay_concat, (steps_step _ event).mem_cancelled_iff, ih]
    simp only [List.prefix_concat_iff, List.append_singleton_inj]
    constructor
    · rintro (⟨past, e, j, d, h, hd⟩ | ⟨j, d, hd⟩)
      · exact ⟨past, e, j, d, .inr h, hd⟩
      · exact ⟨events, event, j, d, .inl ⟨rfl, rfl⟩, hd⟩
    · rintro ⟨past, e, j, d, ⟨rfl, rfl⟩ | h, hd⟩
      · exact .inr ⟨j, d, hd⟩
      · exact .inl ⟨past, e, j, d, h, hd⟩

/-! ### Families -/

theorem Copied.mono (h : past <+: events) (hc : Copied now past i j) : Copied now events i j := by
  obtain ⟨before, hbefore, hlt, hj⟩ := hc
  exact ⟨before, hbefore.trans h, hlt, hj⟩

theorem Kin.mono (h : past <+: events) (hk : Kin now past i j) : Kin now events i j :=
  Relation.EqvGen.mono (fun _ _ hc => hc.mono h) _ _ hk

/-- A copy is of the same family and has the same deadline. -/
theorem Copied.exists_context (h : Copied now events i j) :
    ∃ c, ((start now).replay events).contexts[i]? = some c ∧
      ((start now).replay events).contexts[j]? = some c := by
  obtain ⟨past, hprefix, hlt, rfl⟩ := h
  have hkept := contexts_isPrefix_replay (start now) hprefix
  have hfound := List.getElem?_eq_getElem hlt
  have hcopy : (start now).replay (past ++ [.copy i]) = ((start now).replay past).keep
      (((start now).replay past).contexts[i], ((start now).replay past).families) := by
    rw [replay_concat, step, hfound]
  rw [hcopy] at hkept
  refine ⟨_, getElem?_of_isPrefix ((List.prefix_append _ _).trans hkept) hfound, ?_⟩
  exact getElem?_of_isPrefix hkept List.getElem?_concat_length

theorem Kin.getElem?_eq (h : Kin now events i j) :
    ((start now).replay events).contexts[i]? = ((start now).replay events).contexts[j]? := by
  induction h with
  | rel i j hc =>
    obtain ⟨c, hi, hj⟩ := hc.exists_context
    rw [hi, hj]
  | refl i => rfl
  | symm i j _ ih => exact ih.symm
  | trans i j k _ _ ih ih' => exact ih.trans ih'

/-- All contexts of a family come from one of them. -/
theorem exists_founder (now : Instant) (events : List (Event τ ν ε)) (f : Nat) :
    ∃ k, ∀ i c, ((start now).replay events).contexts[i]? = some c → c.family = f →
      Kin now events i k := by
  induction events using List.reverseRecOn with
  | nil => exact ⟨0, fun i c hi => nomatch hi⟩
  | append_singleton events event ih =>
    obtain ⟨k, hk⟩ := ih
    have hmono : events <+: events ++ [event] := List.prefix_append _ _
    have hold : ∀ i c, ((start now).replay events).contexts[i]? = some c → c.family = f →
        Kin now (events ++ [event]) i k := fun i c hi hf => (hk i c hi hf).mono hmono
    have hlt := family_lt_made now events
    rw [replay_concat]
    generalize hs : (start now).replay events = s at hold hlt
    generalize ht : s.step event = t
    have hstep : Steps s event t := ht ▸ steps_step s event
    cases hstep with
    | cancelled _ _ => exact ⟨k, hold⟩
    | passed _ _ => exact ⟨k, hold⟩
    | made deadline _ =>
      by_cases hf : f = s.families.made
      · -- of a family that was not there before the new context is the only one
        refine ⟨s.contexts.length, fun i c hi hc => ?_⟩
        rcases getElem?_concat_eq_some hi with hi | ⟨rfl, -⟩
        · have := hlt c (List.mem_of_getElem? hi)
          omega
        · exact .refl _
      · refine ⟨k, fun i c hi hc => ?_⟩
        rcases getElem?_concat_eq_some hi with hi | ⟨-, rfl⟩
        · exact hold i c hi hc
        · exact absurd hc.symm hf
    | @copied source d found =>
      refine ⟨k, fun i c hi hc => ?_⟩
      rcases getElem?_concat_eq_some hi with hi | ⟨rfl, rfl⟩
      · exact hold i c hi hc
      · obtain ⟨hsource, -⟩ := List.getElem?_eq_some_iff.1 found
        have hcopied : Copied now (events ++ [.copy source]) source s.contexts.length :=
          ⟨events, List.prefix_refl _, hsource, by rw [hs]⟩
        exact .trans _ _ _ (.symm _ _ (.rel _ _ hcopied)) (hold source c found hc)

/-- Contexts have the same family if and only if copying joins them. -/
theorem kin_iff (hi : ((start now).replay events).contexts[i]? = some c)
    (hj : ((start now).replay events).contexts[j]? = some d) :
    Kin now events i j ↔ c.family = d.family := by
  constructor
  · intro h
    have heq := h.getElem?_eq
    rw [hi, hj] at heq
    cases heq
    rfl
  · intro h
    obtain ⟨k, hk⟩ := exists_founder now events d.family
    exact .trans _ _ _ (hk i c hi h) (.symm _ _ (hk j d hj rfl))

theorem isCancelled_replay_iff (hi : ((start now).replay events).contexts[i]? = some c) :
    ((start now).replay events).families.isCancelled c = true ↔ WasCancelled now events i := by
  rw [Contexts.isCancelled_iff, mem_cancelled_replay]
  constructor
  · rintro ⟨past, event, j, d, hprefix, hcancels, hd, hf⟩
    have hj := getElem?_of_isPrefix (contexts_isPrefix_replay (start now)
      ((List.prefix_append past [event]).trans hprefix)) hd
    exact ⟨past, event, j, hprefix, hcancels, (kin_iff hi hj).2 hf.symm⟩
  · rintro ⟨past, event, j, hprefix, hcancels, hkin⟩
    obtain ⟨d, hd⟩ := hcancels.exists_context
    have hj := getElem?_of_isPrefix (contexts_isPrefix_replay (start now)
      ((List.prefix_append past [event]).trans hprefix)) hd
    exact ⟨past, event, j, d, hprefix, hcancels, hd, ((kin_iff hi hj).1 hkin).symm⟩

/-- Cancellation is shared by a family and never undone. After any history a context is cancelled if
and only if a context of its family was, directly or by an element in a run; a copy has the deadline of
what it was copied from, and no event changes a context that was made, or cancels one whose family it
does not cancel. In the middle of a run it is the same: each call is handed the context as it is at that
moment, cancelled as soon as an element has asked for it. The engine itself reacts to nothing: if no
element reads the signal, all runs come to the same, whatever context they are under. -/
theorem cancellation (now : Instant) (events : List (Event τ ν ε)) :
    let s := (start now).replay events
    (∀ i c, s.contexts[i]? = some c →
        (s.families.isCancelled c = true ↔ WasCancelled now events i)) ∧
      (∀ i j, Copied now events i j → ∃ c d, s.contexts[i]? = some c ∧ s.contexts[j]? = some d ∧
        d.deadline = c.deadline) ∧
      (∀ (event : Event τ ν ε) i c, s.contexts[i]? = some c →
        (s.step event).contexts[i]? = some c ∧
          ((s.step event).families.isCancelled c = true ↔
            s.families.isCancelled c = true ∨ ∃ j, event.Cancels s j ∧ Kin now events i j)) ∧
      (∀ i c options (x : Expression τ ν ε) inputs past call later, s.contexts[i]? = some c →
        (x.run options (s.families.signal c) inputs).calls = past ++ call :: later →
        let moment := s.families.settle c call.signal
        call.signal = moment.signal c ∧
          call.outcome = call.element.execute call.signal call.arguments ∧
          (∀ j d, s.contexts[j]? = some d → (moment.isCancelled d = true ↔
            WasCancelled now events j ∨
              Kin now events j i ∧ ∃ a ∈ past, a.outcome.cancels = true)) ∧
          ((∃ a ∈ past, a.outcome.cancels = true) →
            call.signal.cancelled = true ∧ call.signal.done = true)) ∧
      (∀ (cs : Contexts) c options (x : Expression τ ν ε) inputs,
        (cs.runSingle c options x inputs).2 = (cs.run c options x inputs).2) ∧
      ∀ (x : Expression τ ν ε), (∀ e ∈ x.leaves, e.IgnoresSignal) →
        ∀ (cs cs' : Contexts) c c' options inputs,
          (cs.run c options x inputs).1 = (cs'.run c' options x inputs).1 ∧
            (cs.runSingle c options x inputs).1 = (cs'.runSingle c' options x inputs).1 := by
  intro s
  refine ⟨fun i c hi => isCancelled_replay_iff hi, fun i j h => ?_, fun event i c hi => ?_,
    fun i c options x inputs past call later hi hsplit => ?_, fun cs c options x inputs => ?_,
    fun x hx cs cs' c c' options inputs => ?_⟩
  · obtain ⟨c, hi, hj⟩ := h.exists_context
    exact ⟨c, c, hi, hj, rfl⟩
  · have hstep := steps_step s event
    refine ⟨getElem?_of_isPrefix hstep.contexts_isPrefix hi, ?_⟩
    rw [Contexts.isCancelled_iff, hstep.mem_cancelled_iff, Contexts.isCancelled_iff]
    refine or_congr_right ⟨?_, ?_⟩
    · rintro ⟨j, d, hcancels, hj, hf⟩
      exact ⟨j, hcancels, (kin_iff hi hj).2 hf.symm⟩
    · rintro ⟨j, hcancels, hkin⟩
      obtain ⟨d, hj⟩ := hcancels.exists_context
      exact ⟨j, d, hcancels, hj, ((kin_iff hi hj).1 hkin).symm⟩
  · have hchained := (x.run_traverses options (s.families.signal c) inputs).chained
    rw [hsplit] at hchained
    obtain ⟨hsignal, hexecuted⟩ := hchained.at_split
    have hmoment := Contexts.settle_signal_cancelIf s.families c
      (past.any fun a => a.outcome.cancels)
    rw [← hsignal] at hmoment
    dsimp only
    rw [hmoment, Contexts.signal_ite_cancel]
    refine ⟨hsignal, hexecuted, fun j d hj => ?_, fun hasked => ?_⟩
    · rw [Contexts.isCancelled_ite_cancel, isCancelled_replay_iff hj, kin_iff hj hi,
        List.any_eq_true, and_comm]
    · rw [← List.any_eq_true] at hasked
      simp [hsignal, hasked, Signal.cancelIf_true, Signal.cancel, Signal.done]
  · show cs.settle c _ = cs.settle c _
    rw [x.signal_runSingle]
  · exact ⟨(Expression.run_parallels hx options _ _ inputs).result,
      (Expression.runSingle_parallels hx options _ _ inputs).result⟩

/-- Copies of copies, one of them made after the run that cancels it, in which a nested element asks for
it and all later ones find the work done; of the others one has expired meanwhile, but neither is
cancelled. -/
theorem cancellation_nested :
    let element := Tracing.element "e" .value 0 0 .left
    let ending : Element TypeTag Scalar String :=
      { element with execute := fun s arguments => (element.execute s arguments).cancelling }
    let looking : Element TypeTag Scalar String :=
      { element with execute := Behaviour.execute "e" .done }
    let x : Expression TypeTag Scalar String :=
      ⟨"x", [.element looking, .nested ⟨"y", [.element ending, .element looking], [], []⟩,
        .element looking], [], []⟩
    let before := [.background, .withDeadline 5, .copy 0, .copy 2, .elapse 7]
    let events : List (Event TypeTag Scalar String) := before ++ [.run 3 {} x [], .copy 0, .background]
    let s := (start 0).replay events
    let calls := (x.run {} (((start 0).replay before).families.signal ⟨0, none⟩) []).calls
    (∃ c, s.contexts[4]? = some c ∧ s.families.isCancelled c = true) ∧ WasCancelled 0 events 4 ∧
      ¬ WasCancelled 0 events 1 ∧ ¬ WasCancelled 0 events 5 ∧
      (∃ call, calls.getLast? = some call ∧ call.signal.done = true) ∧
      (s.families.run ⟨0, none⟩ {} Tracing.product [.nil]).1 =
        (s.families.run ⟨1, some 5⟩ {} Tracing.product [.nil]).1 := by
  intro element ending looking x before events s calls
  obtain ⟨hflags, -, -, -, -, hignored⟩ := cancellation 0 events
  obtain ⟨-, -, -, hcalls, -⟩ := cancellation (τ := TypeTag) (ν := Scalar) (ε := String) 0 before
  have hproduct : ∀ e ∈ Tracing.product.leaves, e.IgnoresSignal := by
    simp only [Tracing.product, Tracing.difference, Tracing.constant, Tracing.value, Tracing.binary,
      Expression.leaves, leavesOf, Node.leaves, List.cons_append, List.nil_append, List.append_nil,
      List.forall_mem_cons, Tracing.ignoresSignal]
    simp
  have hsplit : calls = calls.take 3 ++ [⟨looking, ⟨true, none, 7⟩, [], .values [.bool true]⟩] := rfl
  obtain ⟨-, -, -, hdone⟩ := hcalls 3 ⟨0, none⟩ {} x [] _ _ [] rfl hsplit
  have hasked : ∃ a ∈ calls.take 3, a.outcome.cancels = true :=
    ⟨_, List.mem_cons_of_mem _ List.mem_cons_self, rfl⟩
  refine ⟨⟨⟨0, none⟩, rfl, rfl⟩, (hflags 4 ⟨0, none⟩ rfl).1 rfl, ?_, ?_, ⟨_, rfl, (hdone hasked).2⟩,
    (hignored Tracing.product hproduct _ _ _ _ {} [.nil]).1⟩
  · rw [← hflags 1 ⟨1, some 5⟩ rfl]
    exact Bool.false_ne_true
  · rw [← hflags 5 ⟨2, none⟩ rfl]
    exact Bool.false_ne_true

end History

end ExpressionEngine
