import Mathlib.Data.List.TakeWhile
import ExpressionEngine.Yard

/-! Numbered yards. A sequence may hold a node more than once. To tell its occurrences apart every node
bears the position at which it stands in the sequence, and takes it along wherever the yard moves it;
without the numbers it is the yard of the sequence. -/

namespace ExpressionEngine

variable {τ ν ε : Type}

/-- Every node with the position at which it was given. -/
structure NumberedYard (τ ν ε : Type) where
  emitted : List (Node τ ν ε × Nat) := []
  pending : List (Node τ ν ε × Nat) := []

namespace NumberedYard

open Yard

/-- The yard without the numbers. -/
def yard (y : NumberedYard τ ν ε) : Yard τ ν ε := ⟨y.emitted.map Prod.fst, y.pending.map Prod.fst⟩

/-- Takes a node if it is not refused. -/
def offer (y : NumberedYard τ ν ε) (e : Node τ ν ε × Nat) : NumberedYard τ ν ε :=
  match e.1.kind with
  | .value => { y with emitted := y.emitted ++ [e] }
  | .groupOpen => { y with pending := e :: y.pending }
  | .groupClose =>
    match y.pending.dropWhile (!isOpener ·.1) with
    | [] => y
    | _ :: outer => ⟨y.emitted ++ y.pending.takeWhile (!isOpener ·.1), outer⟩
  | .operator =>
    ⟨y.emitted ++ y.pending.takeWhile (yieldsTo e.1 ·.1),
      e :: y.pending.dropWhile (yieldsTo e.1 ·.1)⟩

def offerAll (y : NumberedYard τ ν ε) (es : List (Node τ ν ε × Nat)) : NumberedYard τ ν ε :=
  es.foldl offer y

/-- The yard of a sequence, every node numbered by its position. -/
def ofNodes (ns : List (Node τ ν ε)) : NumberedYard τ ν ε := offerAll {} ns.zipIdx

/-- The positions in the order in which the program has their nodes. -/
def order (y : NumberedYard τ ν ε) : List Nat := (y.emitted ++ y.pending).map Prod.snd

theorem offerAll_cons (y : NumberedYard τ ν ε) (e : Node τ ν ε × Nat)
    (es : List (Node τ ν ε × Nat)) : y.offerAll (e :: es) = (y.offer e).offerAll es := rfl

theorem offerAll_append (y : NumberedYard τ ν ε) (es fs : List (Node τ ν ε × Nat)) :
    y.offerAll (es ++ fs) = (y.offerAll es).offerAll fs := List.foldl_append

theorem offerAll_singleton (y : NumberedYard τ ν ε) (e : Node τ ν ε × Nat) :
    y.offerAll [e] = y.offer e := rfl

theorem ofNodes_append (us vs : List (Node τ ν ε)) :
    ofNodes (us ++ vs) = (ofNodes us).offerAll (vs.zipIdx us.length) := by
  rw [ofNodes, List.zipIdx_append, Nat.zero_add, offerAll_append, ofNodes]

/-! ### One step -/

/-- All that a node can do to a yard that it is offered to. -/
inductive Moves (y : NumberedYard τ ν ε) (e : Node τ ν ε × Nat) : NumberedYard τ ν ε → Prop
  | placed (kind : e.1.kind = .value) : Moves y e ⟨y.emitted ++ [e], y.pending⟩
  | opened (kind : e.1.kind = .groupOpen) : Moves y e ⟨y.emitted, e :: y.pending⟩
  | refused (kind : e.1.kind = .groupClose) (noGroup : ∀ w ∈ y.pending, isOpener w.1 = false) :
      Moves y e y
  | closed {inner outer : List (Node τ ν ε × Nat)} {o : Node τ ν ε × Nat}
      (kind : e.1.kind = .groupClose) (pending : y.pending = inner ++ o :: outer)
      (opens : isOpener o.1 = true) (inside : ∀ w ∈ inner, isOpener w.1 = false) :
      Moves y e ⟨y.emitted ++ inner, outer⟩
  | waits {inner outer : List (Node τ ν ε × Nat)} (kind : e.1.kind = .operator)
      (pending : y.pending = inner ++ outer) (released : ∀ w ∈ inner, yieldsTo e.1 w.1 = true)
      (stays : ∀ w ∈ outer.head?, yieldsTo e.1 w.1 = false) :
      Moves y e ⟨y.emitted ++ inner, e :: outer⟩

theorem Moves.offer_eq {y z : NumberedYard τ ν ε} {e : Node τ ν ε × Nat} (h : Moves y e z) :
    y.offer e = z := by
  cases h with
  | placed kind => simp [offer, kind]
  | opened kind => simp [offer, kind]
  | refused kind noGroup =>
    have hd : y.pending.dropWhile (!isOpener ·.1) = [] :=
      List.dropWhile_eq_nil_iff.2 (by simpa using noGroup)
    simp [offer, kind, hd]
  | @closed inner outer o kind pending opens inside =>
    have hi : ∀ w ∈ inner, (!isOpener w.1) = true := by simpa using inside
    have ho : ∀ w ∈ (o :: outer).head?, (!isOpener w.1) = false := by simpa using opens
    obtain ⟨ht, hd⟩ := span_of_split hi ho
    simp [offer, kind, pending, ht, hd]
  | waits kind pending released stays =>
    obtain ⟨ht, hd⟩ := span_of_split released stays
    simp [offer, kind, pending, ht, hd]

theorem moves_offer (y : NumberedYard τ ν ε) (e : Node τ ν ε × Nat) : Moves y e (y.offer e) := by
  suffices ∃ z, Moves y e z by
    obtain ⟨z, hz⟩ := this
    rwa [hz.offer_eq]
  cases hk : e.1.kind with
  | value => exact ⟨_, .placed hk⟩
  | groupOpen => exact ⟨_, .opened hk⟩
  | groupClose =>
    obtain ⟨inner, outer, hp, hi, ho⟩ := exists_split (!isOpener ·.1) y.pending
    have hinside : ∀ w ∈ inner, isOpener w.1 = false := by simpa using hi
    cases outer with
    | nil => exact ⟨_, .refused hk (by simpa [hp] using hinside)⟩
    | cons o outer => exact ⟨_, .closed hk hp (by simpa using ho o rfl) hinside⟩
  | operator =>
    obtain ⟨inner, outer, hp, hi, ho⟩ := exists_split (yieldsTo e.1 ·.1) y.pending
    exact ⟨_, .waits hk hp hi ho⟩

/-! ### Without the numbers -/

theorem forall_pending_yard {y : NumberedYard τ ν ε} {P : Node τ ν ε → Prop} :
    (∀ m ∈ y.yard.pending, P m) ↔ ∀ w ∈ y.pending, P w.1 := List.forall_mem_map

theorem Moves.yard_eq {y z : NumberedYard τ ν ε} {e : Node τ ν ε × Nat} (h : Moves y e z) :
    y.yard.offer e.1 = z.yard := by
  cases h with
  | placed kind =>
    rw [offer_of_ok (append_value _ kind)]
    simp [yard]
  | opened kind =>
    rw [offer_of_ok (append_groupOpen _ kind)]
    simp [yard]
  | refused kind noGroup =>
    exact offer_of_error
      ((append_groupClose_eq_error_iff _ kind).2 ⟨forall_pending_yard.2 noGroup, rfl⟩)
  | @closed inner outer o kind pending opens inside =>
    have hp : y.yard.pending = inner.map Prod.fst ++ o.1 :: outer.map Prod.fst := by
      simp [yard, pending]
    refine offer_of_ok ((append_groupClose_eq_ok_iff kind).2 ⟨_, _, _, hp, opens, ?_, ?_⟩)
    · simpa using inside
    · simp [yard]
  | @waits inner outer kind pending released stays =>
    have hi : ∀ m ∈ inner.map Prod.fst, yieldsTo e.1 m = true := by simpa using released
    have ho : ∀ w ∈ (outer.map Prod.fst).head?, yieldsTo e.1 w = false := by simpa using stays
    obtain ⟨ht, hd⟩ := span_of_split hi ho
    rw [offer_of_ok (append_operator _ kind)]
    simp [yard, pending, ht, hd]

theorem yard_offer (y : NumberedYard τ ν ε) (e : Node τ ν ε × Nat) :
    (y.offer e).yard = y.yard.offer e.1 := (moves_offer y e).yard_eq.symm

theorem yard_offerAll (y : NumberedYard τ ν ε) (es : List (Node τ ν ε × Nat)) :
    (y.offerAll es).yard = y.yard.offerAll (es.map Prod.fst) := by
  induction es generalizing y with
  | nil => rfl
  | cons e rest ih =>
    rw [offerAll_cons, ih, yard_offer]
    rfl

theorem yard_ofNodes (ns : List (Node τ ν ε)) : (ofNodes ns).yard = Yard.offerAll {} ns := by
  rw [ofNodes, yard_offerAll, List.zipIdx_map_fst]
  rfl

end NumberedYard

end ExpressionEngine
