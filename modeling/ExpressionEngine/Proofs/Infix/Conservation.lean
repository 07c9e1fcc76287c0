import ExpressionEngine.Infix.Numbering
import ExpressionEngine.Proofs.Infix.Delimiters
import ExpressionEngine.Proofs.Infix.Waiting

/-! Nothing is lost on the way through the yard. Every value and every operator of a sequence is in
place or waits, once for each time that it was given; what is in place stays where it is; values are in
place in the order in which they came, and no operator gets ahead of a value that came before it. What
a group holds is put in place as one block. The nodes are numbered, so that all this is said of
occurrences and not of nodes that may look alike. -/

namespace ExpressionEngine

variable {τ ν ε : Type}

/-- A value or an operator; delimiters do not go into a program. -/
def Node.isPlaced (n : Node τ ν ε) : Bool := n.kind = .value ∨ n.kind = .operator

namespace Node

theorem isPlaced_of_value {n : Node τ ν ε} (h : n.kind = .value) : n.isPlaced = true := by
  simp [isPlaced, h]

theorem isPlaced_of_operator {n : Node τ ν ε} (h : n.kind = .operator) : n.isPlaced = true := by
  simp [isPlaced, h]

theorem isPlaced_of_groupOpen {n : Node τ ν ε} (h : n.kind = .groupOpen) : n.isPlaced = false := by
  simp [isPlaced, h]

theorem isPlaced_of_groupClose {n : Node τ ν ε} (h : n.kind = .groupClose) :
    n.isPlaced = false := by
  simp [isPlaced, h]

end Node

namespace NumberedYard

open Yard

variable {y z : NumberedYard τ ν ε} {e o c : Node τ ν ε × Nat}
  {emitted inner outer es fs : List (Node τ ν ε × Nat)}

/-- The nodes that go into the program: those in place, and the operators among those that wait. -/
def held (y : NumberedYard τ ν ε) : List (Node τ ν ε × Nat) :=
  y.emitted ++ y.pending.filter (·.1.kind = .operator)

/-- The yard keeps what it was given: it holds every occurrence once, and whatever stands before a
value was given before it. -/
structure Keeps (y : NumberedYard τ ν ε) (es : List (Node τ ν ε × Nat)) : Prop where
  held : y.held.Perm (es.filter (·.1.isPlaced))
  order : y.emitted.Pairwise fun p q => q.1.kind = .value → p.2 < q.2

namespace Keeps

theorem empty : Keeps ({} : NumberedYard τ ν ε) [] := ⟨.nil, .nil⟩

/-- What is in place was given. -/
theorem mem_of_mem_emitted (h : y.Keeps es) {p : Node τ ν ε × Nat} (hp : p ∈ y.emitted) :
    p ∈ es := by
  have hmem := h.held.mem_iff.1 (List.mem_append_left _ hp)
  exact (List.mem_filter.1 hmem).1

theorem skip (h : y.Keeps es) (he : e.1.isPlaced = false) : y.Keeps (es ++ [e]) := by
  refine ⟨?_, h.order⟩
  rw [List.filter_append, List.filter_singleton, he]
  simpa using h.held

/-- Operators that leave the line are put in place behind all that is there. -/
theorem release (h : Keeps ⟨emitted, inner ++ outer⟩ es)
    (hi : ∀ w ∈ inner, w.1.kind = .operator) : Keeps ⟨emitted ++ inner, outer⟩ es := by
  constructor
  · have hinner : inner.filter (·.1.kind = .operator) = inner :=
      List.filter_eq_self.2 (by simpa using hi)
    have hheld := h.held
    rwa [NumberedYard.held, List.filter_append, hinner, ← List.append_assoc] at hheld
  · refine List.pairwise_append.2 ⟨h.order, ?_, ?_⟩
    · refine List.pairwise_of_forall_mem_list fun p _ q hq hk => ?_
      rw [hi q hq] at hk
      cases hk
    · intro p _ q hq hk
      rw [hi q hq] at hk
      cases hk

theorem place (h : y.Keeps es) (he : e.1.kind = .value) (hn : ∀ p ∈ es, p.2 < e.2) :
    Keeps ⟨y.emitted ++ [e], y.pending⟩ (es ++ [e]) := by
  constructor
  · rw [List.filter_append, List.filter_singleton, Node.isPlaced_of_value he]
    have hfront : List.Perm (y.emitted ++ [e] ++ y.pending.filter (·.1.kind = .operator))
        (e :: y.held) := by
      rw [List.append_assoc]
      exact List.perm_middle
    exact (hfront.trans (h.held.cons e)).trans (List.perm_append_singleton e _).symm
  · refine List.pairwise_append.2 ⟨h.order, List.pairwise_singleton _ _, fun p hp q hq _ => ?_⟩
    rw [List.mem_singleton.1 hq]
    exact hn p (h.mem_of_mem_emitted hp)

theorem wait (h : Keeps ⟨emitted, outer⟩ es) (he : e.1.kind = .operator) :
    Keeps ⟨emitted, e :: outer⟩ (es ++ [e]) := by
  refine ⟨?_, h.order⟩
  rw [List.filter_append, List.filter_singleton, Node.isPlaced_of_operator he]
  have hfront : (NumberedYard.held ⟨emitted, e :: outer⟩).Perm
      (e :: NumberedYard.held ⟨emitted, outer⟩) := by
    simp only [NumberedYard.held, List.filter_cons, he]
    exact List.perm_middle
  exact (hfront.trans (h.held.cons e)).trans (List.perm_append_singleton e _).symm

/-- An opener waits without being held. -/
theorem opener_iff (ho : o.1.kind = .groupOpen) :
    Keeps ⟨emitted, o :: outer⟩ es ↔ Keeps ⟨emitted, outer⟩ es := by
  have hheld : NumberedYard.held ⟨emitted, o :: outer⟩ = NumberedYard.held ⟨emitted, outer⟩ := by
    simp [NumberedYard.held, ho]
  constructor
  · rintro ⟨h, horder⟩
    exact ⟨hheld ▸ h, horder⟩
  · rintro ⟨h, horder⟩
    exact ⟨hheld ▸ h, horder⟩

end Keeps

/-- What waits without being an opener is an operator. -/
theorem operator_of_mem (hy : y.yard.Orderly) {w : Node τ ν ε × Nat} (hw : w ∈ y.pending)
    (ho : isOpener w.1 = false) : w.1.kind = .operator :=
  hy.operator_of_mem (List.mem_map_of_mem hw) ho

theorem Keeps.moves (hy : y.yard.Orderly) (h : y.Keeps es) (hn : ∀ p ∈ es, p.2 < e.2)
    (hm : Moves y e z) : z.Keeps (es ++ [e]) := by
  cases hm with
  | placed kind => exact h.place kind hn
  | opened kind =>
    exact (Keeps.opener_iff kind).2 (h.skip (Node.isPlaced_of_groupOpen kind))
  | refused kind _ => exact h.skip (Node.isPlaced_of_groupClose kind)
  | @closed inner outer o kind pending opens inside =>
    have hline : Keeps ⟨y.emitted, inner ++ o :: outer⟩ es := pending ▸ h
    have hi : ∀ w ∈ inner, w.1.kind = .operator := fun w hw =>
      operator_of_mem hy (pending ▸ List.mem_append_left _ hw) (inside w hw)
    have ho : o.1.kind = .groupOpen := by simpa [isOpener] using opens
    exact ((Keeps.opener_iff ho).1 (hline.release hi)).skip (Node.isPlaced_of_groupClose kind)
  | @waits inner outer kind pending released stays =>
    have hline : Keeps ⟨y.emitted, inner ++ outer⟩ es := pending ▸ h
    have hi : ∀ w ∈ inner, w.1.kind = .operator := fun w hw =>
      operator_of_mem hy (pending ▸ List.mem_append_left _ hw)
        (isOpener_of_yieldsTo (released w hw))
    exact (hline.release hi).wait kind

theorem Keeps.offerAll (hy : y.yard.Orderly) (h : y.Keeps es)
    (hn : (es ++ fs).Pairwise fun p q => p.2 < q.2) : (y.offerAll fs).Keeps (es ++ fs) := by
  induction fs generalizing y es with
  | nil => rwa [List.append_nil]
  | cons e rest ih =>
    have hbefore : ∀ p ∈ es, p.2 < e.2 := fun p hp =>
      (List.pairwise_append.1 hn).2.2 p hp e List.mem_cons_self
    have hnext : (y.offer e).yard.Orderly := by
      rw [yard_offer]
      exact hy.offerAll [e.1]
    rw [List.append_cons] at hn ⊢
    exact ih hnext (h.moves hy hbefore (moves_offer y e)) hn

theorem pairwise_zipIdx (ns : List (Node τ ν ε)) (k : Nat) :
    (ns.zipIdx k).Pairwise fun p q => p.2 < q.2 := by
  have h : (List.range' k ns.length).Pairwise (· < ·) := List.pairwise_lt_range'
  rwa [← List.zipIdx_map_snd, List.pairwise_map] at h

theorem keeps_of_empty (ns : List (Node τ ν ε)) (k : Nat) :
    (NumberedYard.offerAll {} (ns.zipIdx k)).Keeps (ns.zipIdx k) :=
  Keeps.empty.offerAll Orderly.empty (pairwise_zipIdx ns k)

/-- Nothing waits that is not in the program in the end, unless it opens a group. -/
theorem held_eq (hy : y.yard.Orderly) (ho : ∀ w ∈ y.pending, isOpener w.1 = false) :
    y.held = y.emitted ++ y.pending := by
  have hpending : y.pending.filter (·.1.kind = .operator) = y.pending :=
    List.filter_eq_self.2 fun w hw => by simpa using operator_of_mem hy hw (ho w hw)
  rw [held, hpending]

/-! ### What is in place stays there -/

theorem Moves.emitted_isPrefix (hm : Moves y e z) : y.emitted <+: z.emitted := by
  cases hm with
  | placed _ => exact List.prefix_append _ _
  | opened _ => exact List.prefix_refl _
  | refused _ _ => exact List.prefix_refl _
  | closed _ _ _ _ => exact List.prefix_append _ _
  | waits _ _ _ _ => exact List.prefix_append _ _

theorem emitted_isPrefix_offerAll (y : NumberedYard τ ν ε) (es : List (Node τ ν ε × Nat)) :
    y.emitted <+: (y.offerAll es).emitted := by
  induction es generalizing y with
  | nil => exact List.prefix_refl _
  | cons e rest ih => exact (moves_offer y e).emitted_isPrefix.trans (ih (y.offer e))

theorem emitted_isPrefix_ofNodes (us vs : List (Node τ ν ε)) :
    (ofNodes us).emitted <+: (ofNodes (us ++ vs)).emitted := by
  rw [ofNodes_append]
  exact emitted_isPrefix_offerAll _ _

/-! ### Groups -/

/-- The numbered yard `inner` inside a group of `outer`, as for yards without numbers. -/
def inGroup (outer : NumberedYard τ ν ε) (o : Node τ ν ε × Nat) (inner : NumberedYard τ ν ε) :
    NumberedYard τ ν ε :=
  ⟨outer.emitted ++ inner.emitted, inner.pending ++ o :: outer.pending⟩

theorem Moves.inGroup {outer inner : NumberedYard τ ν ε} (ho : o.1.kind = .groupOpen)
    (hm : Moves inner e z) (htaken : ∃ w, inner.yard.append e.1 = .ok w) :
    Moves (outer.inGroup o inner) e (outer.inGroup o z) := by
  have hopener : isOpener o.1 = true := by simp [isOpener, ho]
  cases hm with
  | placed kind =>
    simpa [NumberedYard.inGroup] using Moves.placed (y := outer.inGroup o inner) kind
  | opened kind => exact .opened kind
  | refused kind noGroup =>
    -- such a closer would close the group around, and so it must not come
    obtain ⟨w, hw⟩ := htaken
    rw [(append_groupClose_eq_error_iff _ kind).2 ⟨forall_pending_yard.2 noGroup, rfl⟩] at hw
    cases hw
  | @closed released rest p kind pending opens inside =>
    have hline : (outer.inGroup o inner).pending = released ++ p :: (rest ++ o :: outer.pending) := by
      simp [NumberedYard.inGroup, pending]
    simpa [NumberedYard.inGroup] using Moves.closed kind hline opens inside
  | @waits released rest kind pending hreleased stays =>
    have hline : (outer.inGroup o inner).pending = released ++ (rest ++ o :: outer.pending) := by
      simp [NumberedYard.inGroup, pending]
    -- if all of the inner line leaves, the opener below it is what stops the operator
    have hstays : ∀ w ∈ (rest ++ o :: outer.pending).head?, yieldsTo e.1 w.1 = false := by
      cases rest with
      | nil => simp [yieldsTo, hopener]
      | cons w rest => simpa using stays
    simpa [NumberedYard.inGroup] using Moves.waits kind hline hreleased hstays

theorem offerAll_inGroup {outer inner : NumberedYard τ ν ε} (ho : o.1.kind = .groupOpen)
    (htaken : ∃ w, inner.yard.appendAll (es.map Prod.fst) = .ok w) :
    (outer.inGroup o inner).offerAll es = outer.inGroup o (inner.offerAll es) := by
  induction es generalizing inner with
  | nil => rfl
  | cons e rest ih =>
    obtain ⟨w, hw⟩ := htaken
    obtain ⟨next, hn, hrest⟩ := appendAll_cons_eq_ok_iff.1 hw
    have hnext : (inner.offer e).yard = next := by rw [yard_offer, offer_of_ok hn]
    rw [offerAll_cons, ((moves_offer inner e).inGroup ho ⟨next, hn⟩).offer_eq,
      ih ⟨w, hnext ▸ hrest⟩, offerAll_cons]

/-- A balanced group leaves the line as it was, and all that it held is put in place at once. -/
theorem offerAll_group (y : NumberedYard τ ν ε) (ho : o.1.kind = .groupOpen)
    (hc : c.1.kind = .groupClose) (hb : Balanced (es.map Prod.fst)) :
    y.offerAll (o :: (es ++ [c])) =
      ⟨y.emitted ++ (NumberedYard.offerAll {} es).held, y.pending⟩ := by
  obtain ⟨hrefused, hclosed⟩ :=
    (Builder.taken_closed_iff_balanced (b := {}) ⟨rfl, rfl⟩ (es.map Prod.fst)).2 hb
  have htaken := Builder.appendAll_of_refused_eq_nil hrefused
  have hinside : (y.inGroup o {}).offerAll es = y.inGroup o (NumberedYard.offerAll {} es) :=
    offerAll_inGroup ho ⟨_, htaken⟩
  have hyard := yard_offerAll ({} : NumberedYard τ ν ε) es
  have horderly : (NumberedYard.offerAll {} es).yard.Orderly := hyard ▸ Orderly.empty.offerAll _
  have hno : ∀ w ∈ (NumberedYard.offerAll {} es).pending, isOpener w.1 = false := by
    have hopen : (NumberedYard.offerAll {} es).yard.openGroups = [] := hyard ▸ hclosed
    exact forall_pending_yard.1 (openGroups_eq_nil_iff.1 hopen)
  have hopened : y.offer o = y.inGroup o {} := by
    rw [(Moves.opened ho).offer_eq]
    simp [inGroup]
  have hopener : isOpener o.1 = true := by simp [isOpener, ho]
  rw [offerAll_cons, offerAll_append, hopened, hinside, offerAll_singleton,
    (Moves.closed hc rfl hopener hno).offer_eq, held_eq horderly hno]
  simp [inGroup]

/-- All that a sequence has between an opener and its closer stands together in the end. -/
theorem exists_block {us ms vs : List (Node τ ν ε)} {opener closer : Node τ ν ε}
    (ho : opener.kind = .groupOpen) (hc : closer.kind = .groupClose) (hb : Balanced ms) :
    ∃ before block after,
      (ofNodes (us ++ opener :: (ms ++ closer :: vs))).emitted = before ++ block ++ after ∧
        block.Perm ((ms.zipIdx (us.length + 1)).filter (·.1.isPlaced)) := by
  have hbalanced : Balanced ((ms.zipIdx (us.length + 1)).map Prod.fst) := by
    rwa [List.zipIdx_map_fst]
  have hgroup := offerAll_group (o := (opener, us.length))
    (c := (closer, us.length + 1 + ms.length)) (ofNodes us) ho hc hbalanced
  have hrun : ofNodes (us ++ opener :: (ms ++ closer :: vs)) =
      NumberedYard.offerAll ⟨(ofNodes us).emitted ++
        (NumberedYard.offerAll {} (ms.zipIdx (us.length + 1))).held, (ofNodes us).pending⟩
        (vs.zipIdx (us.length + 1 + ms.length + 1)) := by
    rw [← hgroup, ← offerAll_append, ofNodes_append, List.zipIdx_cons, List.zipIdx_append,
      List.zipIdx_cons]
    simp
  obtain ⟨after, hafter⟩ := hrun ▸ emitted_isPrefix_offerAll _ _
  exact ⟨_, _, after, hafter.symm, (keeps_of_empty ms _).held⟩

end NumberedYard

namespace Yard

/-- Only closers are ever refused. -/
theorem filter_isPlaced_accepted (y : Yard τ ν ε) (ns : List (Node τ ν ε)) :
    (y.accepted ns).filter Node.isPlaced = ns.filter Node.isPlaced := by
  induction ns generalizing y with
  | nil => rfl
  | cons n rest ih =>
    rw [accepted]
    cases hn : y.append n with
    | ok z => simp [List.filter_cons, ih z]
    | error e =>
      have hk := (append_eq_error_iff.1 hn).1
      simp [Node.isPlaced_of_groupClose hk, ih y]

/-- What is taken is all there is, if it closes fewer groups than are open and were opened by it. -/
theorem accepted_eq_of_room {y : Yard τ ν ε} {ns : List (Node τ ν ε)}
    (h : ∀ us, us <+: y.accepted ns → closers us < openers us + y.openGroups.length) :
    y.accepted ns = ns := by
  induction ns generalizing y with
  | nil => rfl
  | cons n rest ih =>
    rw [accepted] at h ⊢
    cases hn : y.append n with
    | error e =>
      have hnone := h [] List.nil_prefix
      rw [(append_eq_error_iff.1 hn).2.1] at hnone
      exact absurd hnone (Nat.lt_irrefl 0)
    | ok z =>
      rw [hn] at h
      have hstep := length_openGroups_of_append hn
      refine congrArg (n :: ·) (ih fun us hus => ?_)
      have hlt := h (n :: us) (List.cons_prefix_cons.2 ⟨rfl, hus⟩)
      rw [openers_cons, closers_cons] at hlt
      omega

/-- While a group is open, no closer is refused that would not close it. -/
theorem accepted_eq_of_balanced {y : Yard τ ν ε} {ns : List (Node τ ν ε)} (hopen : y.openGroups ≠ [])
    (h : Balanced (y.accepted ns)) : y.accepted ns = ns := by
  refine accepted_eq_of_room ?_
  rintro us ⟨vs, hvs⟩
  have hle := Balanced.closers_le (hvs ▸ h)
  have hpos := List.length_pos_iff.2 hopen
  omega

theorem openGroups_offerAll_append_opener (y : Yard τ ν ε) (us : List (Node τ ν ε))
    {o : Node τ ν ε} (ho : o.kind = .groupOpen) : (y.offerAll (us ++ [o])).openGroups ≠ [] := by
  rw [offerAll, List.foldl_append, List.foldl_cons, List.foldl_nil,
    offer_of_ok (append_groupOpen _ ho)]
  simp [openGroups, isOpener, ho]

end Yard

namespace NumberedYard

/-- The same of nodes that bear no numbers. -/
theorem map_fst_held (y : NumberedYard τ ν ε) : y.held.map Prod.fst =
    y.yard.emitted ++ y.yard.pending.filter (·.kind = .operator) := by
  rw [held, List.map_append, yard, List.filter_map]
  rfl

theorem map_fst_filter_zipIdx (ns : List (Node τ ν ε)) (k : Nat) :
    ((ns.zipIdx k).filter (·.1.isPlaced)).map Prod.fst = ns.filter Node.isPlaced := by
  conv_rhs => rw [← List.zipIdx_map_fst k ns, List.filter_map]
  rfl

end NumberedYard

namespace Builder

open NumberedYard

variable {b : Builder τ ν ε}

theorem yard_ofNodes_eq (hb : b.Fresh) (ns : List (Node τ ν ε)) :
    (ofNodes ns).yard = (b.appendEach ns).builder.yard := by
  rw [yard_ofNodes, appendEach, yard_appendFrom, hb.1]

/-- Each value and operator that was taken is in place or waits, as often as it was taken. -/
theorem held_appendEach_perm (hb : b.Fresh) (ns : List (Node τ ν ε)) :
    ((b.appendEach ns).builder.yard.emitted ++
        (b.appendEach ns).builder.yard.pending.filter (·.kind = .operator)).Perm
      ((b.yard.accepted ns).filter Node.isPlaced) := by
  have hheld := (keeps_of_empty ns 0).held.map Prod.fst
  rwa [← ofNodes, map_fst_held, map_fst_filter_zipIdx, yard_ofNodes_eq hb,
    ← Yard.filter_isPlaced_accepted b.yard ns] at hheld

/-- Also of what waits nothing is ahead of a value that came before it. -/
theorem pairwise_ofNodes (hb : b.Fresh) (ns : List (Node τ ν ε)) :
    ((ofNodes ns).emitted ++ (ofNodes ns).pending).Pairwise
      fun p q => q.1.kind = .value → p.2 < q.2 := by
  have hpending : ∀ q ∈ (ofNodes ns).pending, q.1.kind ≠ .value := by
    intro q hq hk
    have hy : (ofNodes ns).yard.Orderly := yard_ofNodes_eq hb ns ▸ orderly_appendEach hb ns
    rcases hy.pending q.1 (List.mem_map_of_mem hq) with h | h <;> rw [hk] at h <;> cases h
  refine List.pairwise_append.2 ⟨(keeps_of_empty ns 0).order, ?_, ?_⟩
  · exact List.pairwise_of_forall_mem_list fun p _ q hq hk => absurd hk (hpending q hq)
  · exact fun p _ q hq hk => absurd hk (hpending q hq)

variable [Ty τ]

/-- A finished program holds what its builder took, less the delimiters. -/
theorem program_of_finalize (hb : b.Fresh) {ns : List (Node τ ν ε)} {x : Expression τ ν ε}
    (hx : (b.appendEach ns).builder.finalize = .ok x) :
    (b.appendEach ns).builder.yard.emitted <+: x.program ∧
      x.program.Perm ((b.yard.accepted ns).filter Node.isPlaced) ∧
      ∀ m ∈ x.program, m.kind = .value ∨ m.kind = .operator := by
  have hy := orderly_appendEach hb ns
  obtain ⟨hdrain, -⟩ := finalize_eq_ok_iff.1 hx
  obtain ⟨hno, hprogram⟩ := Yard.drain_eq_ok_iff.1 hdrain
  have hwaits : ∀ m ∈ (b.appendEach ns).builder.yard.pending, m.kind = .operator :=
    fun m hm => hy.operator_of_mem hm (hno m hm)
  rw [← hprogram, Yard.nodes]
  refine ⟨List.prefix_append _ _, ?_, fun m hm => ?_⟩
  · have hperm := held_appendEach_perm hb ns
    rwa [List.filter_eq_self.2 (by simpa using hwaits)] at hperm
  · rcases List.mem_append.1 hm with hm | hm
    · exact hy.emitted m hm
    · exact .inr (hwaits m hm)

/-- Nothing is lost, duplicated or moved out of place. At every point of a sequence each of its values
and operators is held once, and these are just those that were taken; what is in place stays there, up
to the program itself; whatever stands before a value was given before it, be it a value or an
operator; what was taken between an opener and its closer stands together; and a finished program
consists of the nodes that were taken and are no delimiters. -/
theorem appendEach_conserves (hb : b.Fresh) (ns : List (Node τ ν ε)) :
    (ofNodes ns).yard = (b.appendEach ns).builder.yard ∧
      (ofNodes ns).held.Perm (ns.zipIdx.filter (·.1.isPlaced)) ∧
      ((b.appendEach ns).builder.yard.emitted ++
          (b.appendEach ns).builder.yard.pending.filter (·.kind = .operator)).Perm
        ((b.yard.accepted ns).filter Node.isPlaced) ∧
      (∀ ms, (ofNodes ns).emitted <+: (ofNodes (ns ++ ms)).emitted ∧
        ∀ x, (b.appendEach (ns ++ ms)).builder.finalize = .ok x →
          (b.appendEach ns).builder.yard.emitted <+: x.program) ∧
      ((ofNodes ns).emitted ++ (ofNodes ns).pending).Pairwise
        (fun p q => q.1.kind = .value → p.2 < q.2) ∧
      (∀ us opener ms closer vs, ns = us ++ opener :: (ms ++ closer :: vs) →
        opener.kind = .groupOpen → closer.kind = .groupClose →
        Balanced ((b.yard.offerAll (us ++ [opener])).accepted ms) →
        ∃ before block after, (ofNodes ns).emitted = before ++ block ++ after ∧
          block.Perm ((ms.zipIdx (us.length + 1)).filter (·.1.isPlaced))) ∧
      ∀ x, (b.appendEach ns).builder.finalize = .ok x →
        x.size = ((b.yard.accepted ns).filter Node.isPlaced).length ∧
          ∀ m ∈ x.program, m.kind = .value ∨ m.kind = .operator := by
  refine ⟨yard_ofNodes_eq hb ns, (keeps_of_empty ns 0).held, held_appendEach_perm hb ns,
    fun ms => ⟨emitted_isPrefix_ofNodes ns ms, fun x hx => ?_⟩, pairwise_ofNodes hb ns, ?_,
    fun x hx => ?_⟩
  · have hlater := (emitted_isPrefix_ofNodes ns ms).map Prod.fst
    change (ofNodes ns).yard.emitted <+: (ofNodes (ns ++ ms)).yard.emitted at hlater
    rw [yard_ofNodes_eq hb, yard_ofNodes_eq hb] at hlater
    exact hlater.trans (program_of_finalize hb hx).1
  · rintro us opener ms closer vs rfl ho hc hbalanced
    have hopen := Yard.openGroups_offerAll_append_opener b.yard us ho
    rw [Yard.accepted_eq_of_balanced hopen hbalanced] at hbalanced
    exact exists_block ho hc hbalanced
  · obtain ⟨-, hperm, hkinds⟩ := program_of_finalize hb hx
    exact ⟨hperm.length_eq, hkinds⟩

/-- A closer that is refused, a group with an operator that has to leave it, and the same nodes again
and again. -/
theorem appendEach_conserves_repeated :
    let a := Tracing.value "a"
    let minus := Tracing.binary "-" 1 .left
    let times := Tracing.binary "*" 2 .left
    let us := [Tracing.closer, a, minus]
    let ms := [a, times, a]
    let ns := us ++ Tracing.opener :: (ms ++ Tracing.closer :: [minus, a])
    let b : Builder TypeTag Scalar String := {}
    (b.appendEach ns).refused = [(0, .unbalancedGroup ")")] ∧
      (ofNodes ns).order = [1, 4, 6, 5, 2, 9, 8] ∧
      (ofNodes ns).held.Perm (ns.zipIdx.filter (·.1.isPlaced)) ∧
      (∃ before block after, (ofNodes ns).emitted = before ++ block ++ after ∧
        block.Perm [(a, 4), (times, 5), (a, 6)]) ∧
      ∃ x, (b.appendEach ns).builder.finalize = .ok x ∧ x.size = 7 ∧
        ∀ m ∈ x.program, m.kind = .value ∨ m.kind = .operator := by
  intro a minus times us ms ns b
  have hbalanced : Balanced ((b.yard.offerAll (us ++ [Tracing.opener])).accepted ms) := ⟨0, rfl⟩
  obtain ⟨x, hx⟩ : ∃ x, (b.appendEach ns).builder.finalize = .ok x := ⟨_, rfl⟩
  obtain ⟨-, hheld, -, -, -, hblock, hsealed⟩ := appendEach_conserves (b := b) ⟨rfl, rfl⟩ ns
  obtain ⟨hsize, hkinds⟩ := hsealed x hx
  exact ⟨rfl, by decide, hheld, hblock us Tracing.opener ms Tracing.closer _ rfl rfl rfl hbalanced,
    x, hx, hsize, hkinds⟩

end Builder

end ExpressionEngine
