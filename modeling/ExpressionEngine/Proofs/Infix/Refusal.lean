import ExpressionEngine.Infix.InPlace
import ExpressionEngine.Proofs.Compiled
import ExpressionEngine.Scalar.Tracing

/-! A request that is refused leaves no trace. It may be left out, and neither the answers to what is
requested later nor the finished expression show the difference; its name has what was taken and
nothing else. -/

namespace ExpressionEngine

namespace Builder

variable {τ ν ε : Type} {b b' : Builder τ ν ε} {r : Request τ ν ε} {e : BuildError}

/-! ### One request -/

/-- All that a request can do: either it is granted, or the builder stays what it was. -/
theorem perform_cases (r : Request τ ν ε) (b : Builder τ ν ε) :
    (∃ b', r.perform b = .ok () b') ∨ ∃ e, r.perform b = .error e b := by
  cases r with
  | setName name => exact .inl ⟨_, rfl⟩
  | append n =>
    rw [Request.perform, InPlace.append_eq]
    cases b.append n with
    | ok b' => exact .inl ⟨b', rfl⟩
    | error e => exact .inr ⟨e, rfl⟩

theorem eq_of_perform_eq_error (h : r.perform b = .error e b') : b' = b := by
  rcases perform_cases r b with ⟨_, hok⟩ | ⟨_, herror⟩
  · rw [hok] at h
    cases h
  · rw [herror] at h
    cases h
    rfl

/-- To give a name is never refused. -/
theorem name?_of_perform_eq_error (h : r.perform b = .error e b') : r.name? = none := by
  cases r with
  | append n => rfl
  | setName name => cases h

/-- What a request that is granted adds to the names. -/
theorem names_of_perform_eq_ok (h : r.perform b = .ok () b') :
    b'.fragments = b.fragments ++ (r.node?.map Node.symbol).toList ∧
      b'.name = r.name?.or b.name ∧ b'.options = b.options := by
  cases r with
  | setName name =>
    cases h
    exact ⟨(List.append_nil _).symm, rfl, rfl⟩
  | append n =>
    rw [Request.perform, InPlace.append_eq, append] at h
    cases hn : b.yard.append n with
    | error e =>
      rw [hn] at h
      cases h
    | ok yard =>
      rw [hn] at h
      cases h
      exact ⟨rfl, rfl, rfl⟩

/-! ### Many requests -/

variable {rest : List (Request τ ν ε)}

theorem serve_cons_of_ok (h : r.perform b = .ok () b') :
    b.serve (r :: rest) = ⟨(b'.serve rest).builder, none :: (b'.serve rest).answers⟩ := by
  rw [serve, h]

theorem serve_cons_of_error (h : r.perform b = .error e b) :
    b.serve (r :: rest) = ⟨(b.serve rest).builder, some e :: (b.serve rest).answers⟩ := by
  rw [serve, h]

theorem granted_cons_of_ok (h : r.perform b = .ok () b') :
    b.granted (r :: rest) = r :: b'.granted rest := by
  rw [granted, serve_cons_of_ok h]
  rfl

theorem granted_cons_of_error (h : r.perform b = .error e b) :
    b.granted (r :: rest) = b.granted rest := by
  rw [granted, serve_cons_of_error h]
  rfl

/-- Every request is answered. -/
theorem length_answers (b : Builder τ ν ε) (rs : List (Request τ ν ε)) :
    (b.serve rs).answers.length = rs.length := by
  induction rs generalizing b with
  | nil => rfl
  | cons r rest ih =>
    rcases perform_cases r b with ⟨b', h⟩ | ⟨e, h⟩
    · rw [serve_cons_of_ok h, List.length_cons, List.length_cons, ih]
    · rw [serve_cons_of_error h, List.length_cons, List.length_cons, ih]

theorem serve_append (b : Builder τ ν ε) (past later : List (Request τ ν ε)) :
    b.serve (past ++ later) = ⟨((b.serve past).builder.serve later).builder,
      (b.serve past).answers ++ ((b.serve past).builder.serve later).answers⟩ := by
  induction past generalizing b with
  | nil => rfl
  | cons r rest ih =>
    rcases perform_cases r b with ⟨b', h⟩ | ⟨e, h⟩
    · rw [List.cons_append, serve_cons_of_ok h, serve_cons_of_ok h, ih]
      rfl
    · rw [List.cons_append, serve_cons_of_error h, serve_cons_of_error h, ih]
      rfl

/-- Alone, the requests that were granted are all granted again, and come to the same builder. -/
theorem serve_granted (b : Builder τ ν ε) (rs : List (Request τ ν ε)) :
    b.serve (b.granted rs) =
      ⟨(b.serve rs).builder, List.replicate (b.granted rs).length none⟩ := by
  induction rs generalizing b with
  | nil => rfl
  | cons r rest ih =>
    rcases perform_cases r b with ⟨b', h⟩ | ⟨e, h⟩
    · rw [granted_cons_of_ok h, serve_cons_of_ok h, serve_cons_of_ok h, ih]
      rfl
    · rw [granted_cons_of_error h, serve_cons_of_error h, ih]

/-- A name that is given later takes the place of this one. -/
theorem getLast?_name?_cons (r : Request τ ν ε) (rest : List (Request τ ν ε)) (name : Option String) :
    ((r :: rest).filterMap Request.name?).getLast?.or name =
      (rest.filterMap Request.name?).getLast?.or (r.name?.or name) := by
  cases r with
  | append n => rfl
  | setName given =>
    show (given :: rest.filterMap Request.name?).getLast?.or name = _
    rw [List.getLast?_cons]
    cases (rest.filterMap Request.name?).getLast? <;> rfl

theorem map_symbol_node?_cons (r : Request τ ν ε) (rest : List (Request τ ν ε)) :
    ((r :: rest).filterMap Request.node?).map Node.symbol =
      (r.node?.map Node.symbol).toList ++ (rest.filterMap Request.node?).map Node.symbol := by
  cases r <;> rfl

/-- The symbols are those of the nodes taken, and the name is the one that was given last. -/
theorem names_serve (b : Builder τ ν ε) (rs : List (Request τ ν ε)) :
    (b.serve rs).builder.fragments =
        b.fragments ++ ((b.granted rs).filterMap Request.node?).map Node.symbol ∧
      (b.serve rs).builder.name = (rs.filterMap Request.name?).getLast?.or b.name ∧
      (b.serve rs).builder.options = b.options := by
  induction rs generalizing b with
  | nil => exact ⟨(List.append_nil _).symm, rfl, rfl⟩
  | cons r rest ih =>
    rw [getLast?_name?_cons]
    rcases perform_cases r b with ⟨b', h⟩ | ⟨e, h⟩
    · obtain ⟨hfragments, hname, hoptions⟩ := ih b'
      obtain ⟨hfragments', hname', hoptions'⟩ := names_of_perform_eq_ok h
      rw [serve_cons_of_ok h, granted_cons_of_ok h, map_symbol_node?_cons, ← List.append_assoc,
        ← hfragments', ← hname', ← hoptions']
      exact ⟨hfragments, hname, hoptions⟩
    · rw [serve_cons_of_error h, granted_cons_of_error h, name?_of_perform_eq_error h]
      exact ih b

variable [Ty τ]

/-- Whatever was requested of a builder, to leave out what it refused makes no difference. A request
that is refused leaves the builder as it was. The others are all granted again, and all that is
requested later has the same answers; the end is the same error or the same expression; and the
expression has the name that was given last, or else the symbols of just the nodes that were taken. -/
theorem serve_without_refused (b : Builder τ ν ε) (past later : List (Request τ ν ε)) :
    (∀ r e b', Request.perform r b = .error e b' → b' = b) ∧
      (∀ answer ∈ (b.serve (b.granted past)).answers, answer = none) ∧
      (∃ answers, answers.length = later.length ∧
        (b.serve (past ++ later)).answers = (b.serve past).answers ++ answers ∧
        (b.serve (b.granted past ++ later)).answers =
          (b.serve (b.granted past)).answers ++ answers) ∧
      (b.serve (past ++ later)).builder.finalize =
        (b.serve (b.granted past ++ later)).builder.finalize ∧
      ∀ x, (b.serve past).builder.finalize = .ok x →
        x.name = ((past.filterMap Request.name?).getLast?.or b.name).getD
          (b.options.nameSeparator.intercalate
            (b.fragments ++ ((b.granted past).filterMap Request.node?).map Node.symbol)) := by
  have hgranted := serve_granted b past
  refine ⟨fun r e b' h => eq_of_perform_eq_error h, ?_, ?_, ?_, fun x hx => ?_⟩
  · rw [hgranted]
    exact fun answer ha => List.eq_of_mem_replicate ha
  · refine ⟨_, length_answers (b.serve past).builder later, ?_, ?_⟩
    · rw [serve_append]
    · rw [serve_append, hgranted]
  · rw [serve_append, serve_append, hgranted]
  · obtain ⟨hfragments, hname, hoptions⟩ := names_serve b past
    obtain ⟨-, -, -, hx⟩ := finalize_eq_ok_iff.1 hx
    rw [← hx, derivedName, hname, hfragments, hoptions]

/-- Closers that are refused before, between and behind all that is taken; the builder joins with dots.
As long as no name is given the name has the delimiters and the nested expression, and of two names
the last one is used. -/
theorem serve_without_refused_closers :
    let b : Builder TypeTag Scalar String := { options := ⟨"."⟩ }
    let closer : Request TypeTag Scalar String := .append Tracing.closer
    let past : List (Request TypeTag Scalar String) :=
      [closer, .append (.nested Tracing.constant), .append (Tracing.binary "+" 1 .left), closer, closer,
        .append Tracing.opener, .append (Tracing.value "a"), closer, closer]
    let later : List (Request TypeTag Scalar String) := [.setName "x", closer, .setName "y"]
    let refused : Option BuildError := some (.unbalancedGroup ")")
    (b.serve past).answers =
        [refused, none, none, refused, refused, none, none, none, refused] ∧
      (b.serve (past ++ later)).builder.finalize =
        (b.serve (b.granted past ++ later)).builder.finalize ∧
      (∃ x, (b.serve past).builder.finalize = .ok x ∧ x.name = "k.+.(.a.)") ∧
      ∃ x, (b.serve (past ++ later)).builder.finalize = .ok x ∧ x.name = "y" := by
  intro b closer past later refused
  obtain ⟨-, -, -, hend, hname⟩ := serve_without_refused b past later
  obtain ⟨-, -, -, -, hlater⟩ := serve_without_refused b (past ++ later) []
  obtain ⟨x, hx⟩ : ∃ x, (b.serve past).builder.finalize = .ok x := ⟨_, rfl⟩
  obtain ⟨y, hy⟩ : ∃ y, (b.serve (past ++ later)).builder.finalize = .ok y := ⟨_, rfl⟩
  exact ⟨rfl, hend, ⟨x, hx, hname x hx⟩, y, hy, hlater y hy⟩

end Builder

end ExpressionEngine
