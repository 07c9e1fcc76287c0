import Mathlib.Data.Int.ConditionallyCompleteOrder
import ExpressionEngine.Proofs.Infix.Conservation
import ExpressionEngine.Proofs.Typing

/-! What a yard looks at. Of a node it asks for the kind, and of two operators which one goes first; the
rest of what a node has to show, the scale on which precedences are given included, has no part in
where it is put. Two sequences that agree in this keep two yards in step: at every point the same
positions are in place, in the same order, and the same positions wait. -/

namespace ExpressionEngine

variable {τ τ' ν ν' ε ε' : Type}

/-! ### What counts -/

/-- Nodes that correspond cannot be told apart by what decides on their places. -/
structure PlacedAlike (R : Node τ ν ε → Node τ' ν' ε' → Prop) : Prop where
  kind : ∀ {n m}, R n m → n.kind = m.kind
  bindsBefore : ∀ {n m w v}, R n m → R w v → n.kind = .operator → w.kind = .operator →
    (w.BindsBefore n ↔ v.BindsBefore m)

namespace Node

/-- Two nodes of one kind. Operators agree in associativity too, and `f` takes the precedence of the
first one to that of the second. -/
structure Alike (f : Int → Int) (n : Node τ ν ε) (m : Node τ' ν' ε') : Prop where
  kind : n.kind = m.kind
  associativity : n.kind = .operator → n.associativity = m.associativity
  precedence : n.kind = .operator → m.precedence = f n.precedence

instance (f : Int → Int) (n : Node τ ν ε) (m : Node τ' ν' ε') : Decidable (n.Alike f m) :=
  decidable_of_iff (n.kind = m.kind ∧ (n.kind = .operator → n.associativity = m.associativity) ∧
      (n.kind = .operator → m.precedence = f n.precedence))
    ⟨fun h => ⟨h.1, h.2.1, h.2.2⟩, fun h => ⟨h.kind, h.associativity, h.precedence⟩⟩

end Node

def operatorPrecedences (ns : List (Node τ ν ε)) : Set Int :=
  {k | ∃ n ∈ ns, n.kind = .operator ∧ n.precedence = k}

/-- A strictly increasing change of scale is not noticed. -/
theorem placedAlike_of_strictMonoOn {f : Int → Int} {ns : List (Node τ ν ε)}
    (hf : StrictMonoOn f (operatorPrecedences ns)) :
    PlacedAlike fun (n : Node τ ν ε) (m : Node τ' ν' ε') => n.Alike f m ∧ n ∈ ns where
  kind h := h.1.kind
  bindsBefore := by
    rintro n m w v ⟨hnm, hn⟩ ⟨hwv, hw⟩ hkn hkw
    have hn' : n.precedence ∈ operatorPrecedences ns := ⟨n, hn, hkn, rfl⟩
    have hw' : w.precedence ∈ operatorPrecedences ns := ⟨w, hw, hkw, rfl⟩
    rw [Node.BindsBefore, Node.BindsBefore, hnm.precedence hkn, hwv.precedence hkw,
      ← hwv.associativity hkw, hf.lt_iff_lt hn' hw', hf.injOn.eq_iff hw' hn']

namespace PlacedAlike

variable {R : Node τ ν ε → Node τ' ν' ε' → Prop} {n w : Node τ ν ε} {m v : Node τ' ν' ε'}

theorem isOpener_eq (hR : PlacedAlike R) (h : R n m) : Yard.isOpener n = Yard.isOpener m := by
  rw [Yard.isOpener, Yard.isOpener, hR.kind h]

theorem yieldsTo_eq (hR : PlacedAlike R) (h : R n m) (hw : R w v) (hn : n.kind = .operator)
    (hwaits : w.kind = .groupOpen ∨ w.kind = .operator) :
    Yard.yieldsTo n w = Yard.yieldsTo m v := by
  rw [Yard.yieldsTo, Yard.yieldsTo, ← hR.isOpener_eq hw]
  rcases hwaits with hopen | hoperator
  · simp [Yard.isOpener, hopen]
  · rw [decide_eq_decide.2 (hR.bindsBefore h hw hn hoperator)]

end PlacedAlike

/-! ### Two yards in step -/

theorem forall₂_forall_mem {α β : Type} {R : α → β → Prop} {P : α → Prop} {Q : β → Prop}
    (hPQ : ∀ a b, R a b → P a → Q b) {as : List α} {bs : List β} (h : List.Forall₂ R as bs)
    (ha : ∀ a ∈ as, P a) : ∀ b ∈ bs, Q b := by
  induction h with
  | nil => simp
  | cons hab _ ih =>
    rw [List.forall_mem_cons] at ha ⊢
    exact ⟨hPQ _ _ hab ha.1, ih ha.2⟩

/-- What stands at one position of two lists is related, or nothing stands there in either. -/
theorem getElem?_of_forall₂ {α β : Type} {R : α → β → Prop} {as : List α} {bs : List β}
    (h : List.Forall₂ R as bs) (i : Nat) : as[i]? = none ∧ bs[i]? = none ∨
      ∃ a b, as[i]? = some a ∧ bs[i]? = some b ∧ R a b := by
  by_cases hi : i < as.length
  · have hi' : i < bs.length := h.length_eq ▸ hi
    exact .inr ⟨_, _, List.getElem?_eq_getElem hi, List.getElem?_eq_getElem hi', h.get hi hi'⟩
  · have hi' : ¬ i < bs.length := h.length_eq ▸ hi
    exact .inl ⟨List.getElem?_eq_none (Nat.not_lt.1 hi), List.getElem?_eq_none (Nat.not_lt.1 hi')⟩

namespace NumberedYard

open Yard

/-- The nodes of one position in two sequences. -/
structure Facing (R : Node τ ν ε → Node τ' ν' ε' → Prop) (p : Node τ ν ε × Nat)
    (q : Node τ' ν' ε' × Nat) : Prop where
  position : p.2 = q.2
  related : R p.1 q.1

/-- Such nodes, as they stand in line. -/
structure FacingInLine (R : Node τ ν ε → Node τ' ν' ε' → Prop) (p : Node τ ν ε × Nat)
    (q : Node τ' ν' ε' × Nat) : Prop extends Facing R p q where
  waits : p.1.kind = .groupOpen ∨ p.1.kind = .operator

/-- The same positions are in place, and the same wait, all in the same order. -/
structure InStep (R : Node τ ν ε → Node τ' ν' ε' → Prop) (y : NumberedYard τ ν ε)
    (z : NumberedYard τ' ν' ε') : Prop where
  emitted : y.emitted.map Prod.snd = z.emitted.map Prod.snd
  pending : List.Forall₂ (FacingInLine R) y.pending z.pending

variable {R : Node τ ν ε → Node τ' ν' ε' → Prop} {y w : NumberedYard τ ν ε}
  {z : NumberedYard τ' ν' ε'} {p : Node τ ν ε × Nat} {q : Node τ' ν' ε' × Nat}

theorem map_snd_of_forall₂ {ps : List (Node τ ν ε × Nat)} {qs : List (Node τ' ν' ε' × Nat)}
    (h : List.Forall₂ (FacingInLine R) ps qs) : ps.map Prod.snd = qs.map Prod.snd := by
  induction h with
  | nil => rfl
  | cons hpq _ ih => rw [List.map_cons, List.map_cons, hpq.position, ih]

/-- What leaves the two lines from the top is put in place alike. -/
theorem map_snd_append {inner : List (Node τ ν ε × Nat)} {inner' : List (Node τ' ν' ε' × Nat)}
    (h : InStep R y z) (hi : List.Forall₂ (FacingInLine R) inner inner') :
    (y.emitted ++ inner).map Prod.snd = (z.emitted ++ inner').map Prod.snd := by
  rw [List.map_append, List.map_append, h.emitted, map_snd_of_forall₂ hi]

namespace InStep

theorem empty : InStep R {} {} := ⟨rfl, .nil⟩

theorem order_eq (h : InStep R y z) : y.order = z.order := map_snd_append h h.pending

theorem isOpener_iff (hR : PlacedAlike R) (h : InStep R y z) :
    (∀ p ∈ y.pending, isOpener p.1 = false) ↔ ∀ q ∈ z.pending, isOpener q.1 = false := by
  constructor
  · exact forall₂_forall_mem (fun p q hpq hp => hR.isOpener_eq hpq.related ▸ hp) h.pending
  · exact forall₂_forall_mem (fun q p hpq hq => (hR.isOpener_eq hpq.related).trans hq)
      h.pending.flip

/-- Whatever a node does to the first yard, its counterpart does to the second one. -/
theorem moves (hR : PlacedAlike R) (h : InStep R y z) (hpq : Facing R p q) (hm : Moves y p w) :
    InStep R w (z.offer q) := by
  have hkind := hR.kind hpq.related
  cases hm with
  | placed kind =>
    rw [(Moves.placed (hkind ▸ kind)).offer_eq]
    exact ⟨by simp [h.emitted, hpq.position], h.pending⟩
  | opened kind =>
    rw [(Moves.opened (hkind ▸ kind)).offer_eq]
    exact ⟨h.emitted, .cons ⟨hpq, .inl kind⟩ h.pending⟩
  | refused kind noGroup =>
    rw [(Moves.refused (hkind ▸ kind) ((h.isOpener_iff hR).1 noGroup)).offer_eq]
    exact h
  | @closed inner outer o kind pending opens inside =>
    have hline := h.pending
    rw [pending] at hline
    obtain ⟨inner', rest, hz, hinner, hrest⟩ := forall₂_append_left hline
    obtain ⟨o', outer', ho, houter, rfl⟩ := List.forall₂_cons_left_iff.1 hrest
    have hopens : isOpener o'.1 = true := (hR.isOpener_eq ho.related).symm.trans opens
    have hinside : ∀ v ∈ inner', isOpener v.1 = false :=
      forall₂_forall_mem (fun a b hab ha => hR.isOpener_eq hab.related ▸ ha) hinner inside
    rw [(Moves.closed (hkind ▸ kind) hz hopens hinside).offer_eq]
    exact ⟨map_snd_append h hinner, houter⟩
  | @waits inner outer kind pending released stays =>
    have hyield : ∀ a b, FacingInLine R a b → yieldsTo p.1 a.1 = yieldsTo q.1 b.1 :=
      fun a b hab => hR.yieldsTo_eq hpq.related hab.related kind hab.waits
    -- the second line parts where the first one does
    have hline := h.pending
    rw [pending] at hline
    obtain ⟨inner', outer', hz, hinner, houter⟩ := forall₂_append_left hline
    have hreleased : ∀ v ∈ inner', yieldsTo q.1 v.1 = true :=
      forall₂_forall_mem (fun a b hab ha => hyield a b hab ▸ ha) hinner released
    have hstays : ∀ v ∈ outer'.head?, yieldsTo q.1 v.1 = false := by
      cases houter with
      | nil => simp
      | cons hab _ => simpa [hyield _ _ hab] using stays
    rw [(Moves.waits (hkind ▸ kind) hz hreleased hstays).offer_eq]
    exact ⟨map_snd_append h hinner, .cons ⟨hpq, .inr kind⟩ houter⟩

theorem offerAll_zipIdx (hR : PlacedAlike R) (h : InStep R y z) {ns : List (Node τ ν ε)}
    {ms : List (Node τ' ν' ε')} (hns : List.Forall₂ R ns ms) (k : Nat) :
    InStep R (y.offerAll (ns.zipIdx k)) (z.offerAll (ms.zipIdx k)) := by
  induction hns generalizing y z k with
  | nil => exact h
  | cons hnm _ ih =>
    rw [List.zipIdx_cons, List.zipIdx_cons, offerAll_cons, offerAll_cons]
    exact ih (h.moves hR ⟨rfl, hnm⟩ (moves_offer y _)) (k + 1)

end InStep

/-- At every point of two sequences that correspond the yards are in step. -/
theorem inStep_ofNodes (hR : PlacedAlike R) {ns : List (Node τ ν ε)} {ms : List (Node τ' ν' ε')}
    (h : List.Forall₂ R ns ms) : InStep R (ofNodes ns) (ofNodes ms) :=
  InStep.empty.offerAll_zipIdx hR h 0

end NumberedYard

/-! ### Builders -/

namespace Builder

open NumberedYard

variable {R : Node τ ν ε → Node τ' ν' ε' → Prop} {b : Builder τ ν ε} {b' : Builder τ' ν' ε'}
  {ns : List (Node τ ν ε)} {ms : List (Node τ' ν' ε')}

/-- A position is refused if it closes a group and none is open. -/
theorem exists_mem_refused_iff {i : Nat} : (∃ e, (i, e) ∈ (b.appendEach ns).refused) ↔
    ∃ n, ns[i]? = some n ∧ n.kind = .groupClose ∧
      ∀ m ∈ (b.yard.offerAll (ns.take i)).pending, Yard.isOpener m = false := by
  simp only [mem_refused_iff, Yard.append_eq_error_iff, Yard.openGroups_eq_nil_iff]
  constructor
  · rintro ⟨e, n, hn, hk, hno, -⟩
    exact ⟨n, hn, hk, hno⟩
  · rintro ⟨n, hn, hk, hno⟩
    exact ⟨_, n, hn, hk, hno, rfl⟩

theorem isOpener_iff_of_placedAlike (hb : b.Fresh) (hb' : b'.Fresh) (hR : PlacedAlike R)
    (h : List.Forall₂ R ns ms) :
    (∀ m ∈ (b.yard.offerAll ns).pending, Yard.isOpener m = false) ↔
      ∀ m ∈ (b'.yard.offerAll ms).pending, Yard.isOpener m = false := by
  rw [hb.1, hb'.1, ← yard_ofNodes, ← yard_ofNodes, forall_pending_yard, forall_pending_yard]
  exact (inStep_ofNodes hR h).isOpener_iff hR

theorem refused_iff_of_placedAlike (hb : b.Fresh) (hb' : b'.Fresh) (hR : PlacedAlike R)
    (h : List.Forall₂ R ns ms) {i : Nat} :
    (∃ e, (i, e) ∈ (b.appendEach ns).refused) ↔ ∃ e, (i, e) ∈ (b'.appendEach ms).refused := by
  rw [exists_mem_refused_iff, exists_mem_refused_iff]
  have hopen := isOpener_iff_of_placedAlike hb hb' hR (List.forall₂_take i h)
  rcases getElem?_of_forall₂ h i with ⟨hn, hm⟩ | ⟨n, m, hn, hm, hnm⟩
  · simp [hn, hm]
  · simp only [hn, hm, Option.some.injEq, exists_eq_left', hR.kind hnm, hopen]

/-- The nodes of a whole program, found again by their positions, no two of which are the same. -/
theorem positions_of_drain (hb : b.Fresh) {program : List (Node τ ν ε)}
    (hd : (b.appendEach ns).builder.yard.drain = .ok program) :
    program.map some = (ofNodes ns).order.map (ns[·]?) ∧ (ofNodes ns).order.Nodup := by
  have hyard := yard_ofNodes_eq hb ns
  have hy : (ofNodes ns).yard.Orderly := hyard ▸ orderly_appendEach hb ns
  rw [← hyard] at hd
  obtain ⟨hno, rfl⟩ := Yard.drain_eq_ok_iff.1 hd
  have hheld := held_eq hy (forall_pending_yard.1 hno)
  have hperm : (ofNodes ns).held.Perm (ns.zipIdx.filter (·.1.isPlaced)) := (keeps_of_empty ns 0).held
  have hnodes : (ofNodes ns).yard.nodes = (ofNodes ns).held.map Prod.fst := by
    rw [hheld, List.map_append]
    rfl
  rw [hnodes, order, ← hheld, List.map_map, List.map_map]
  constructor
  · refine List.map_congr_left fun p hp => ?_
    have hmem := (List.mem_filter.1 (hperm.mem_iff.1 hp)).1
    exact (List.mem_zipIdx_iff_getElem?.1 hmem).symm
  · refine (hperm.map Prod.snd).nodup_iff.2 (List.filter_sublist.map Prod.snd |>.nodup ?_)
    rw [List.zipIdx_map_snd]
    exact List.nodup_range'

variable [Ty τ] [Ty τ']

theorem exists_unbalancedGroup_iff : (∃ d, b.finalize = .error (.unbalancedGroup d)) ↔
    ¬ ∀ m ∈ b.yard.pending, Yard.isOpener m = false := by
  simp only [finalize_eq_unbalancedGroup_iff, ← Yard.openGroups_eq_nil_iff]
  cases b.yard.openGroups <;> simp

/-- Where nodes are put depends on nothing but their kinds, the associativities of the operators and
the order of their precedences. Two fresh builders that are fed sequences which agree in these refuse
the same positions; a group is left open in both or in neither; and if it is in neither, the two
programs, which the static checks are then given, have the same positions in the same order. -/
theorem appendEach_alike {f : Int → Int} (hb : b.Fresh) (hb' : b'.Fresh)
    (hf : StrictMonoOn f (operatorPrecedences ns)) (h : List.Forall₂ (Node.Alike f) ns ms) :
    (∀ i, (∃ e, (i, e) ∈ (b.appendEach ns).refused) ↔ ∃ e, (i, e) ∈ (b'.appendEach ms).refused) ∧
      ((∃ d, (b.appendEach ns).builder.finalize = .error (.unbalancedGroup d)) ↔
        ∃ d, (b'.appendEach ms).builder.finalize = .error (.unbalancedGroup d)) ∧
      (ofNodes ns).order = (ofNodes ms).order ∧
      ∀ program, (b.appendEach ns).builder.yard.drain = .ok program →
        ∃ program', (b'.appendEach ms).builder.yard.drain = .ok program' ∧
          (ofNodes ns).order.Nodup ∧ program.map some = (ofNodes ns).order.map (ns[·]?) ∧
          program'.map some = (ofNodes ns).order.map (ms[·]?) ∧
          ((b.appendEach ns).builder.finalize.map fun x => (x.program, x.outputs)) =
            ((typeCheck b.inputs program).map fun outputs => (program, outputs)) ∧
          ((b'.appendEach ms).builder.finalize.map fun x => (x.program, x.outputs)) =
            (typeCheck b'.inputs program').map fun outputs => (program', outputs) := by
  have hR : PlacedAlike fun (n : Node τ ν ε) (m : Node τ' ν' ε') => n.Alike f m ∧ n ∈ ns :=
    placedAlike_of_strictMonoOn hf
  have hns : List.Forall₂ (fun n m => Node.Alike f n m ∧ n ∈ ns) ns ms :=
    ((List.forall₂_and_left _ _).2 ⟨fun _ hn => hn, h⟩).imp fun _ _ hnm => hnm.symm
  have hopen := isOpener_iff_of_placedAlike hb hb' hR hns
  have horder := (inStep_ofNodes hR hns).order_eq
  refine ⟨fun i => refused_iff_of_placedAlike hb hb' hR hns, ?_, horder, fun program hd => ?_⟩
  · rw [exists_unbalancedGroup_iff, exists_unbalancedGroup_iff, appendEach, appendEach,
      yard_appendFrom, yard_appendFrom, hopen]
  · obtain ⟨hprogram, hnodup⟩ := positions_of_drain hb hd
    have hcheck := map_finalize_appendEach hd
    rw [appendEach, yard_appendFrom, Yard.drain_eq_ok_iff] at hd
    have hd' : (b'.appendEach ms).builder.yard.drain =
        .ok (b'.appendEach ms).builder.yard.nodes := by
      rw [Yard.drain_eq_ok_iff, appendEach, yard_appendFrom]
      exact ⟨hopen.1 hd.1, rfl⟩
    exact ⟨_, hd', hnodup, hprogram, horder ▸ (positions_of_drain hb' hd').1, hcheck,
      map_finalize_appendEach hd'⟩

/-- Precedences from one end of the scale to the other; a nested expression where the other sequence has
a value of its own; and delimiters and values that declare precedences between those of the operators,
and associativities. The first closer is refused in both. -/
theorem appendEach_alike_extreme :
    let f : Int → Int := fun k => if k < 0 then -2147483648 else if k = 0 then 7 else 2147483647
    let a := Tracing.value "a"
    let plus (k : Int) := Tracing.binary "+" k .left
    let tilde (k : Int) := Tracing.binary "~" k .right
    let mark (kind : ElementKind) (k : Int) := Node.element (Tracing.element "?" kind 0 k .right)
    let ns := [Tracing.closer, Tracing.opener, a, plus (-1), a, tilde 0, .nested Tracing.constant,
      tilde 0, a, Tracing.closer, plus 3, a]
    let ms := [mark .groupClose 8, mark .groupOpen 2147483647, mark .value 7,
      plus (-2147483648), mark .value 9, tilde 7, mark .value (-1), tilde 7, .nested Tracing.product,
      mark .groupClose (-2147483648), plus 2147483647, mark .value 2147483647]
    let order := [2, 4, 6, 8, 7, 5, 3, 11, 10]
    StrictMonoOn f (operatorPrecedences ns) ∧ List.Forall₂ (Node.Alike f) ns ms ∧
      (∃ e, (0, e) ∈ (appendEach {} ms).refused) ∧ (ofNodes ms).order = order ∧
      ∃ program, (appendEach {} ms).builder.yard.drain = .ok program ∧
        program.map some = order.map (ms[·]?) ∧
        ((appendEach {} ms).builder.finalize.map fun x => (x.program, x.outputs)) =
          (typeCheck [] program).map fun outputs => (program, outputs) := by
  intro f a plus tilde mark ns ms order
  have hscale : ∀ k ∈ operatorPrecedences ns, k = -1 ∨ k = 0 ∨ k = 3 := by
    rintro k ⟨n, hn, hk, rfl⟩
    revert n
    decide
  have hf : StrictMonoOn f (operatorPrecedences ns) := by
    intro j hj k hk hlt
    have hj' := hscale j hj
    have hk' := hscale k hk
    simp only [f]
    split_ifs <;> omega
  have h : List.Forall₂ (Node.Alike f) ns ms := by decide
  have hb : ({} : Builder TypeTag Scalar String).Fresh := ⟨rfl, rfl⟩
  obtain ⟨hrefused, -, horder, hprogram⟩ := appendEach_alike hb hb hf h
  obtain ⟨program, hd, -, -, hpositions, -, hcheck⟩ := hprogram _ rfl
  have hns : (ofNodes ns).order = order := by decide
  exact ⟨hf, h, (hrefused 0).1 ⟨_, .head _⟩, horder ▸ hns, program, hd, hns ▸ hpositions,
    hcheck⟩

end Builder

end ExpressionEngine
