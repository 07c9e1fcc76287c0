import ExpressionEngine.Proofs.Infix.Placement

/-! Groups are read on their own. The opener of a group bars the way to everything that waited before
it, so what a group holds is read as by an empty yard, and nothing that waits outside moves until the
group is closed. Closing it puts the whole of it in place behind what was there before. -/

namespace ExpressionEngine

variable {τ ν ε : Type}

/-- What stands first and fails the test ends the search, whatever comes after it. -/
theorem span_append_of_neg {α : Type} {p : α → Bool} {o : α} (ho : p o = false)
    (inner outer : List α) :
    (inner ++ o :: outer).takeWhile p = inner.takeWhile p ∧
      (inner ++ o :: outer).dropWhile p = inner.dropWhile p ++ o :: outer := by
  induction inner with
  | nil => simp [ho]
  | cons m rest ih =>
    cases hm : p m with
    | false => simp [hm]
    | true => simpa [hm] using ih

namespace Yard

/-- The yard `inner` inside an open group of `outer`: in place behind what is in place there, and
waiting above the group's opener. Another node may bar the way in its place. -/
def inGroup (outer : Yard τ ν ε) (opener : Node τ ν ε) (inner : Yard τ ν ε) : Yard τ ν ε :=
  ⟨outer.emitted ++ inner.emitted, inner.pending ++ opener :: outer.pending⟩

variable {outer inner inner' : Yard τ ν ε} {opener closer : Node τ ν ε}

theorem append_opener (y : Yard τ ν ε) (ho : opener.kind = .groupOpen) :
    y.append opener = .ok (y.inGroup opener {}) := by
  rw [append_groupOpen y ho, inGroup, List.append_nil, List.nil_append]

/-- Above a bar a node does what it does in a yard of its own. A group that is open above the bar
keeps an operator from it anyway; if there is none, the bar must not yield. -/
theorem append_inGroup_of_bars {bar n : Node τ ν ε}
    (hbar : n.kind = .operator → (∀ m ∈ inner.pending, isOpener m = false) → yieldsTo n bar = false)
    (h : inner.append n = .ok inner') :
    (outer.inGroup bar inner).append n = .ok (outer.inGroup bar inner') := by
  cases hk : n.kind with
  | value =>
    rw [append_value _ hk] at h ⊢
    cases h
    simp [inGroup]
  | groupOpen =>
    rw [append_groupOpen _ hk] at h ⊢
    cases h
    simp [inGroup]
  | groupClose =>
    obtain ⟨released, o, rest, hp, hro, hrel, rfl⟩ := (append_groupClose_eq_ok_iff hk).1 h
    refine (append_groupClose_eq_ok_iff hk).2
      ⟨released, o, rest ++ bar :: outer.pending, ?_, hro, hrel, ?_⟩
    · simp [inGroup, hp]
    · simp [inGroup]
  | operator =>
    rw [append_operator _ hk] at h ⊢
    cases h
    by_cases hopen : ∃ o ∈ inner.pending, isOpener o = true
    · -- the search ends at an opener, with the bar and without it
      obtain ⟨o, ho, hopens⟩ := hopen
      obtain ⟨above, below, hp⟩ := List.append_of_mem ho
      have hstop : yieldsTo n o = false := by simp [yieldsTo, hopens]
      obtain ⟨ht, hd⟩ := span_append_of_neg hstop above below
      obtain ⟨ht', hd'⟩ := span_append_of_neg hstop above (below ++ bar :: outer.pending)
      simp [inGroup, hp, ht, hd, ht', hd']
    · have hclosed : ∀ m ∈ inner.pending, isOpener m = false := by simpa using hopen
      obtain ⟨ht, hd⟩ := span_append_of_neg (hbar hk hclosed) inner.pending outer.pending
      simp [inGroup, ht, hd]

theorem appendAll_cons_eq_ok_iff {y z : Yard τ ν ε} {n : Node τ ν ε} {ns : List (Node τ ν ε)} :
    y.appendAll (n :: ns) = .ok z ↔ ∃ w, y.append n = .ok w ∧ w.appendAll ns = .ok z := by
  cases hn : y.append n with
  | error e =>
    rw [appendAll, List.foldlM_cons, hn]
    simp [bind, Except.bind]
  | ok w =>
    rw [appendAll_cons_of_ok hn]
    simp

theorem offerAll_of_appendAll {y z : Yard τ ν ε} {ns : List (Node τ ν ε)}
    (h : y.appendAll ns = .ok z) : y.offerAll ns = z := by
  induction ns generalizing y with
  | nil =>
    cases h
    rfl
  | cons n rest ih =>
    obtain ⟨w, hn, hrest⟩ := appendAll_cons_eq_ok_iff.1 h
    rw [offerAll, List.foldl_cons, ← offerAll, offer_of_ok hn]
    exact ih hrest

/-- A run above a bar that never yields when it could be reached. -/
theorem appendAll_inGroup_of_bars {bar : Node τ ν ε} {ns : List (Node τ ν ε)}
    (hbar : ∀ us n vs y, ns = us ++ n :: vs → inner.appendAll us = .ok y → n.kind = .operator →
      (∀ m ∈ y.pending, isOpener m = false) → yieldsTo n bar = false)
    (h : inner.appendAll ns = .ok inner') :
    (outer.inGroup bar inner).appendAll ns = .ok (outer.inGroup bar inner') := by
  induction ns generalizing inner with
  | nil =>
    cases h
    rfl
  | cons n rest ih =>
    obtain ⟨next, hn, hrest⟩ := appendAll_cons_eq_ok_iff.1 h
    rw [appendAll_cons_of_ok (append_inGroup_of_bars (hbar [] n rest inner rfl rfl) hn)]
    apply ih _ hrest
    intro us m vs y hus hy
    apply hbar (n :: us) m vs y
    · rw [hus, List.cons_append]
    · rw [appendAll_cons_of_ok hn, hy]

/-- Inside a group a sequence does what it does in a yard of its own. -/
theorem appendAll_inGroup (ho : opener.kind = .groupOpen) {ns : List (Node τ ν ε)}
    (h : inner.appendAll ns = .ok inner') :
    (outer.inGroup opener inner).appendAll ns = .ok (outer.inGroup opener inner') :=
  appendAll_inGroup_of_bars (fun _ n _ _ _ _ _ _ => yieldsTo_groupOpen ho n) h

/-- What still waits in the group is drained when the group is closed. -/
theorem append_closer (ho : opener.kind = .groupOpen) (hc : closer.kind = .groupClose)
    {group : List (Node τ ν ε)} (hd : inner.drain = .ok group) :
    (outer.inGroup opener inner).append closer = .ok ⟨outer.emitted ++ group, outer.pending⟩ := by
  obtain ⟨hopen, rfl⟩ := drain_eq_ok_iff.1 hd
  rw [inGroup, append_groupClose hc (by simp [isOpener, ho]) hopen, nodes, List.append_assoc]

theorem appendAll_opener_of_ok (ho : opener.kind = .groupOpen) {ns : List (Node τ ν ε)}
    (h : appendAll {} ns = .ok inner) (y : Yard τ ν ε) :
    y.appendAll (opener :: ns) = .ok (y.inGroup opener inner) := by
  rw [appendAll_cons_of_ok (append_opener y ho)]
  exact appendAll_inGroup ho h

theorem appendAll_group (ho : opener.kind = .groupOpen) (hc : closer.kind = .groupClose)
    {ns group : List (Node τ ν ε)} (h : appendAll {} ns = .ok inner) (hd : inner.drain = .ok group)
    (y : Yard τ ν ε) :
    y.appendAll (opener :: (ns ++ [closer])) = .ok ⟨y.emitted ++ group, y.pending⟩ := by
  rw [← List.cons_append, appendAll_append_of_ok (appendAll_opener_of_ok ho h y),
    appendAll_cons_of_ok (append_closer ho hc hd), appendAll_nil]

end Yard

namespace Builder

/-- Without a refusal the yard has taken it all. -/
theorem appendAll_of_refused_eq_nil {b : Builder τ ν ε} {ns : List (Node τ ν ε)}
    (h : (b.appendEach ns).refused = []) :
    b.yard.appendAll ns = .ok (b.appendEach ns).builder.yard := by
  suffices ∀ position, (b.appendFrom position ns).refused = [] →
      b.yard.appendAll ns = .ok (b.appendFrom position ns).builder.yard from this 0 h
  clear h
  induction ns generalizing b with
  | nil =>
    intro position _
    rfl
  | cons n rest ih =>
    intro position h
    cases hn : b.yard.append n with
    | error e => simp [appendFrom, append, hn] at h
    | ok y =>
      simp only [appendFrom, append, hn] at h ⊢
      rw [Yard.appendAll_cons_of_ok hn]
      exact ih (position + 1) h

/-- The beginning of a sequence that is taken is taken. -/
theorem refused_eq_nil_of_isPrefix {b : Builder τ ν ε} {us ns : List (Node τ ν ε)} (hu : us <+: ns)
    (h : (b.appendEach ns).refused = []) : (b.appendEach us).refused = [] := by
  obtain ⟨vs, rfl⟩ := hu
  have hall := appendAll_of_refused_eq_nil h
  cases hus : b.yard.appendAll us with
  | error e =>
    rw [Yard.appendAll, List.foldlM_append, ← Yard.appendAll, hus] at hall
    cases hall
  | ok y => rw [appendEach_of_appendAll hus]

/-- A group is compiled independently of its surroundings. Whatever a builder holds, a sequence that a
fresh one takes without leaving a group open is taken between delimiters as well: what waited before
waits as before, and what the fresh builder would drain is put in place as it is. Meanwhile nothing
outside is moved; at every point the group is read as it is alone. -/
theorem appendEach_group {b b₀ : Builder τ ν ε} (hb₀ : b₀.Fresh) {opener closer : Node τ ν ε}
    (ho : opener.kind = .groupOpen) (hc : closer.kind = .groupClose) {xs group : List (Node τ ν ε)}
    (hx : (b₀.appendEach xs).refused = [])
    (hg : (b₀.appendEach xs).builder.yard.drain = .ok group) :
    b.appendEach (opener :: (xs ++ [closer])) =
        ⟨{ b with yard := ⟨b.yard.emitted ++ group, b.yard.pending⟩,
                  fragments := b.fragments ++ (opener :: (xs ++ [closer])).map Node.symbol }, []⟩ ∧
      (∀ n ∈ group, n ∈ xs) ∧
      ∀ us, us <+: xs → (b.appendEach (opener :: us)).refused = [] ∧
        (b.appendEach (opener :: us)).builder.yard =
          b.yard.inGroup opener (b₀.appendEach us).builder.yard := by
  refine ⟨?_, fun n hn => ?_, fun us hu => ?_⟩
  · have hall := appendAll_of_refused_eq_nil hx
    rw [hb₀.1] at hall
    exact appendEach_of_appendAll (Yard.appendAll_group ho hc hall hg b.yard)
  · obtain ⟨-, rfl⟩ := Yard.drain_eq_ok_iff.1 hg
    exact mem_of_appendEach hb₀ hn
  · have hall := appendAll_of_refused_eq_nil (refused_eq_nil_of_isPrefix hu hx)
    rw [hb₀.1] at hall
    rw [appendEach_of_appendAll (Yard.appendAll_opener_of_ok ho hall b.yard)]
    exact ⟨rfl, rfl⟩

/-- In a group that is itself inside one, below operators that bind tighter and looser: a sequence with
a group of its own and prefix operators at both ends, the last one without an operand. -/
theorem appendEach_group_malformed :
    let b := (appendEach {} [Tracing.value "a", Tracing.binary "*" 2 .left, Tracing.opener,
      Tracing.unary "!" 5]).builder
    let xs := [Tracing.unary "not" 0, Tracing.value "b", Tracing.binary "~" 1 .right, Tracing.opener,
      Tracing.value "c", Tracing.binary "-" 1 .left, Tracing.closer, Tracing.binary "-" 1 .left,
      Tracing.unary "!" 5]
    let closed := b.appendEach (Tracing.opener :: (xs ++ [Tracing.closer]))
    (appendEach {} xs).refused = [] ∧
      (appendEach {} xs).builder.yard.pending.map Node.symbol = ["!", "-", "~", "not"] ∧
      closed.refused = [] ∧
      closed.builder.yard.pending.map Node.symbol = ["!", "(", "*"] ∧
      closed.builder.yard.emitted.map Node.symbol = ["a", "b", "c", "-", "!", "-", "~", "not"] ∧
      (b.appendEach (Tracing.opener :: xs)).builder.yard.pending.map Node.symbol =
        ["!", "-", "~", "not", "(", "!", "(", "*"] := by
  intro b xs closed
  have ho : Tracing.opener.kind = .groupOpen := rfl
  have hc : Tracing.closer.kind = .groupClose := rfl
  have hx : (appendEach {} xs).refused = [] := rfl
  have hg : (appendEach {} xs).builder.yard.drain = .ok [Tracing.value "b", Tracing.value "c",
      Tracing.binary "-" 1 .left, Tracing.unary "!" 5, Tracing.binary "-" 1 .left,
      Tracing.binary "~" 1 .right, Tracing.unary "not" 0] := rfl
  obtain ⟨hclosed, -, hinside⟩ := appendEach_group (b := b) ⟨rfl, rfl⟩ ho hc hx hg
  refine ⟨hx, rfl, ?_, ?_, ?_, ?_⟩
  · exact congrArg Feed.refused hclosed
  · exact congrArg (fun feed => feed.builder.yard.pending.map Node.symbol) hclosed
  · exact congrArg (fun feed => feed.builder.yard.emitted.map Node.symbol) hclosed
  · rw [(hinside xs (List.prefix_refl xs)).2]
    rfl

end Builder

end ExpressionEngine
