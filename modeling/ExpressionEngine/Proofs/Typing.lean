import ExpressionEngine.Typing
import Mathlib.Data.List.Forall2

/-! One step of the static check, in full: there are enough slots or not, the topmost ones fit or not,
and what happens then. Slots that fit stand below those that are not looked at. -/

namespace ExpressionEngine

variable {τ ν ε α β γ : Type}

/-- Items related to a list in two parts are in two parts themselves. -/
theorem forall₂_append_right {R : α → β → Prop} {as : List α} {bs bs' : List β}
    (h : List.Forall₂ R as (bs ++ bs')) :
    ∃ cs cs', as = cs ++ cs' ∧ List.Forall₂ R cs bs ∧ List.Forall₂ R cs' bs' :=
  ⟨_, _, (List.take_append_drop bs.length as).symm, List.forall₂_take_append as bs bs' h,
    List.forall₂_drop_append as bs bs' h⟩

theorem forall₂_append_left {R : α → β → Prop} {as as' : List α} {cs : List β}
    (h : List.Forall₂ R (as ++ as') cs) :
    ∃ bs bs', cs = bs ++ bs' ∧ List.Forall₂ R as bs ∧ List.Forall₂ R as' bs' := by
  have hflip : List.Forall₂ (flip R) cs (as ++ as') := .flip h
  obtain ⟨bs, bs', hcs, hbs, hbs'⟩ := forall₂_append_right hflip
  exact ⟨bs, bs', hcs, hbs.flip, hbs'.flip⟩

theorem forall₂_trans {R : α → β → Prop} {S : β → γ → Prop} {T : α → γ → Prop}
    (ht : ∀ a b c, R a b → S b c → T a c) {as : List α} {bs : List β} {cs : List γ}
    (h : List.Forall₂ R as bs) (h' : List.Forall₂ S bs cs) : List.Forall₂ T as cs := by
  induction h generalizing cs with
  | nil =>
    cases h'
    exact .nil
  | cons hab _ ih =>
    cases h' with
    | cons hbc hrest => exact .cons (ht _ _ _ hab hbc) (ih hrest)

variable [Ty τ]

/-- Slot by slot, what is provided is accepted. -/
def Fits (provided accepted : List (TypeSet τ)) : Prop :=
  List.Forall₂ (fun p a => p.isCompatibleWith a = true) provided accepted

instance (provided accepted : List (TypeSet τ)) : Decidable (Fits provided accepted) :=
  inferInstanceAs (Decidable (List.Forall₂ _ _ _))

theorem Fits.length_eq {provided accepted : List (TypeSet τ)} (h : Fits provided accepted) :
    provided.length = accepted.length := List.Forall₂.length_eq h

theorem firstMismatch?_eq_none_iff {provided accepted : List (TypeSet τ)}
    (h : provided.length = accepted.length) :
    firstMismatch? provided accepted = none ↔ Fits provided accepted := by
  rw [firstMismatch?, List.find?_eq_none, Fits, List.forall₂_iff_zip]
  constructor
  · intro hall
    refine ⟨h, fun hmem => ?_⟩
    simpa using hall _ hmem
  · intro ⟨_, hall⟩ slot hmem
    simpa using hall hmem

/-- It is the first, and the slots before it fit. -/
theorem firstMismatch?_eq_some_iff {provided accepted : List (TypeSet τ)} {found wanted : TypeSet τ} :
    firstMismatch? provided accepted = some (found, wanted) ↔
      ∃ j : Nat, provided[j]? = some found ∧ accepted[j]? = some wanted ∧
        found.isCompatibleWith wanted = false ∧
        ∀ i < j, ∀ p a, provided[i]? = some p → accepted[i]? = some a →
          p.isCompatibleWith a = true := by
  rw [firstMismatch?, List.find?_eq_some_iff_getElem]
  constructor
  · rintro ⟨hmiss, j, hj, hslot, hbefore⟩
    obtain ⟨hp, ha⟩ := List.getElem?_zip_eq_some.1 (List.getElem?_eq_some_iff.2 ⟨hj, hslot⟩)
    refine ⟨j, hp, ha, by simpa using hmiss, fun i hi p a hp ha => ?_⟩
    have hpair : (provided.zip accepted)[i]? = some (p, a) :=
      List.getElem?_zip_eq_some.2 ⟨hp, ha⟩
    have hfits := hbefore i hi
    rw [(List.getElem?_eq_some_iff.1 hpair).2] at hfits
    simpa using hfits
  · rintro ⟨j, hp, ha, hmiss, hbefore⟩
    have hpair : (provided.zip accepted)[j]? = some (found, wanted) :=
      List.getElem?_zip_eq_some.2 ⟨hp, ha⟩
    obtain ⟨hj, hslot⟩ := List.getElem?_eq_some_iff.1 hpair
    refine ⟨by simpa using hmiss, j, hj, hslot, fun i hi => ?_⟩
    have hlt : i < (provided.zip accepted).length := Nat.lt_trans hi hj
    obtain ⟨hp', ha'⟩ := List.getElem?_zip_eq_some.1 (List.getElem?_eq_getElem hlt)
    simpa using hbefore i hi _ _ hp' ha'

namespace Node

/-- A step whose operands are there, on top of whatever lies below. -/
theorem typeStep_append (n : Node τ ν ε) (below : List (TypeSet τ)) {provided : List (TypeSet τ)}
    (hl : provided.length = n.inputs.length) : n.typeStep (below ++ provided) =
      match firstMismatch? provided n.inputs with
      | some (found, wanted) => .error (.typeMismatch n.symbol wanted.describe found.describe)
      | none => .ok (below ++ n.outputs) := by
  have hsplit := splitTop?_append below provided
  rw [hl] at hsplit
  cases hm : firstMismatch? provided n.inputs <;> simp [typeStep, hsplit, hm]

theorem typeStep_of_fits (n : Node τ ν ε) (below : List (TypeSet τ)) {provided : List (TypeSet τ)}
    (h : Fits provided n.inputs) : n.typeStep (below ++ provided) = .ok (below ++ n.outputs) := by
  rw [typeStep_append n below h.length_eq, (firstMismatch?_eq_none_iff h.length_eq).2 h]

/-- The report is of a mismatch; the underflow comes first and is out of question here. -/
theorem typeStep_of_not_fits (n : Node τ ν ε) (below : List (TypeSet τ))
    {provided : List (TypeSet τ)} (hl : provided.length = n.inputs.length)
    (h : ¬ Fits provided n.inputs) :
    ∃ required found, n.typeStep (below ++ provided) =
      .error (.typeMismatch n.symbol required found) := by
  rw [typeStep_append n below hl]
  cases hm : firstMismatch? provided n.inputs with
  | none => exact absurd ((firstMismatch?_eq_none_iff hl).1 hm) h
  | some slot => exact ⟨_, _, rfl⟩

theorem typeStep_of_underflow (n : Node τ ν ε) {slots : List (TypeSet τ)}
    (h : slots.length < n.inputs.length) :
    n.typeStep slots = .error (.arityUnderflow n.symbol n.inputs.length slots.length) := by
  rw [typeStep, (splitTop?_eq_none_iff _ _).2 h]

/-- All that can be wrong at a node: it lacks operands, or the lowest operand that does not fit is
reported. -/
theorem typeStep_eq_error_iff {n : Node τ ν ε} {slots : List (TypeSet τ)} {e : BuildError} :
    n.typeStep slots = .error e ↔
      slots.length < n.inputs.length ∧
          e = .arityUnderflow n.symbol n.inputs.length slots.length ∨
        n.inputs.length ≤ slots.length ∧ ∃ j found wanted,
          slots[slots.length - n.inputs.length + j]? = some found ∧ n.inputs[j]? = some wanted ∧
          found.isCompatibleWith wanted = false ∧
          (∀ i < j, ∀ p a, slots[slots.length - n.inputs.length + i]? = some p →
            n.inputs[i]? = some a → p.isCompatibleWith a = true) ∧
          e = .typeMismatch n.symbol wanted.describe found.describe := by
  cases hs : splitTop? n.inputs.length slots with
  | none =>
    have hlt := (splitTop?_eq_none_iff _ _).1 hs
    rw [typeStep_of_underflow n hlt]
    simp only [hlt, Nat.not_le.2 hlt, true_and, false_and, or_false, Except.error.injEq]
    exact eq_comm
  | some split =>
    obtain ⟨below, provided⟩ := split
    obtain ⟨rfl, hl⟩ := splitTop?_eq_some_iff.1 hs
    have hbase : (below ++ provided).length - n.inputs.length = below.length := by simp [hl]
    have htop : ∀ j, (below ++ provided)[below.length + j]? = provided[j]? := by
      intro j
      rw [List.getElem?_append_right (Nat.le_add_right ..), Nat.add_sub_cancel_left]
    have hle : ¬ (below ++ provided).length < n.inputs.length := by simp [hl]
    rw [hbase, or_iff_right fun h => hle h.1, and_iff_right (Nat.le_of_not_lt hle),
      typeStep_append n below hl]
    simp only [htop]
    constructor
    · intro h
      cases hm : firstMismatch? provided n.inputs with
      | none =>
        rw [hm] at h
        cases h
      | some slot =>
        rw [hm] at h
        cases h
        obtain ⟨j, hp, ha, hmiss, hbefore⟩ := firstMismatch?_eq_some_iff.1 hm
        exact ⟨j, _, _, hp, ha, hmiss, hbefore, rfl⟩
    · rintro ⟨j, found, wanted, hp, ha, hmiss, hbefore, rfl⟩
      rw [firstMismatch?_eq_some_iff.2 ⟨j, hp, ha, hmiss, hbefore⟩]

theorem typeStep_eq_ok_iff {n : Node τ ν ε} {slots slots' : List (TypeSet τ)} :
    n.typeStep slots = .ok slots' ↔
      ∃ below provided, slots = below ++ provided ∧ Fits provided n.inputs ∧
        slots' = below ++ n.outputs := by
  constructor
  · intro h
    cases hs : splitTop? n.inputs.length slots with
    | none =>
      rw [typeStep_of_underflow n ((splitTop?_eq_none_iff _ _).1 hs)] at h
      cases h
    | some split =>
      obtain ⟨below, provided⟩ := split
      obtain ⟨rfl, hl⟩ := splitTop?_eq_some_iff.1 hs
      by_cases hf : Fits provided n.inputs
      · rw [typeStep_of_fits n below hf, Except.ok.injEq] at h
        exact ⟨below, provided, rfl, hf, h.symm⟩
      · obtain ⟨required, found, he⟩ := typeStep_of_not_fits n below hl hf
        rw [he] at h
        cases h
  · rintro ⟨below, provided, rfl, hf, rfl⟩
    exact typeStep_of_fits n below hf

end Node

theorem typeCheck_cons_eq_ok_iff {n : Node τ ν ε} {rest : List (Node τ ν ε)}
    {slots outputs : List (TypeSet τ)} : typeCheck slots (n :: rest) = .ok outputs ↔
      ∃ slots', n.typeStep slots = .ok slots' ∧ typeCheck slots' rest = .ok outputs := by
  rw [typeCheck]
  cases n.typeStep slots with
  | error e => simp
  | ok slots' => simp

theorem typeCheck_append_eq_ok_iff {p q : List (Node τ ν ε)} {slots outputs : List (TypeSet τ)} :
    typeCheck slots (p ++ q) = .ok outputs ↔
      ∃ slots', typeCheck slots p = .ok slots' ∧ typeCheck slots' q = .ok outputs := by
  rw [typeCheck_append]
  cases typeCheck slots p with
  | error e => simp [Except.bind]
  | ok slots' => simp [Except.bind]

theorem typeCheck_append_of_ok {slots slots' : List (TypeSet τ)} {p : List (Node τ ν ε)}
    (h : typeCheck slots p = .ok slots') (q : List (Node τ ν ε)) :
    typeCheck slots (p ++ q) = typeCheck slots' q := by
  rw [typeCheck_append, h]
  rfl

theorem typeCheck_append_of_error {slots : List (TypeSet τ)} {p : List (Node τ ν ε)}
    {e : BuildError} (h : typeCheck slots p = .error e) (q : List (Node τ ν ε)) :
    typeCheck slots (p ++ q) = .error e := by
  rw [typeCheck_append, h]
  rfl

/-- It is of arities and of types that the static check speaks, and of nothing else. -/
theorem typeCheck_error_cases {slots : List (TypeSet τ)} {p : List (Node τ ν ε)} {e : BuildError}
    (h : typeCheck slots p = .error e) :
    (∃ element required available, e = .arityUnderflow element required available) ∨
      ∃ element required provided, e = .typeMismatch element required provided := by
  induction p generalizing slots with
  | nil => cases h
  | cons n rest ih =>
    rw [typeCheck] at h
    cases hn : n.typeStep slots with
    | ok slots' =>
      rw [hn] at h
      exact ih h
    | error e' =>
      rw [hn] at h
      cases h
      rcases Node.typeStep_eq_error_iff.1 hn with ⟨-, rfl⟩ | ⟨-, j, found, wanted, -, -, -, -, rfl⟩
      · exact .inl ⟨_, _, _, rfl⟩
      · exact .inr ⟨_, _, _, rfl⟩

/-- What goes through goes through above any other slots, and leaves them as they are. -/
theorem typeCheck_frame (below : List (TypeSet τ)) {p : List (Node τ ν ε)}
    {slots outputs : List (TypeSet τ)} (h : typeCheck slots p = .ok outputs) :
    typeCheck (below ++ slots) p = .ok (below ++ outputs) := by
  induction p generalizing slots with
  | nil =>
    cases h
    rfl
  | cons n rest ih =>
    obtain ⟨slots', hstep, hrest⟩ := typeCheck_cons_eq_ok_iff.1 h
    obtain ⟨kept, provided, rfl, hf, rfl⟩ := Node.typeStep_eq_ok_iff.1 hstep
    have hstep' := n.typeStep_of_fits (below ++ kept) hf
    rw [List.append_assoc, List.append_assoc] at hstep'
    exact typeCheck_cons_eq_ok_iff.2 ⟨_, hstep', ih hrest⟩

theorem typeCheck_singleton (n : Node τ ν ε) (slots : List (TypeSet τ)) :
    typeCheck slots [n] = n.typeStep slots := by
  rw [typeCheck]
  cases n.typeStep slots <;> rfl

end ExpressionEngine
