import ExpressionEngine.Proofs.Infix.Delimiters
import ExpressionEngine.Proofs.Infix.Waiting

/-! Splitting at a loosest operator. An operator that every operator before it goes before, and that
goes before none behind it, takes what is on its two sides as its operands, however these are made up.
Groups do not count, since what is in them is not seen from outside. When such an operator arrives,
all that waits is released; from then on it bars the way as an opener does, until the yard is
drained. -/

namespace ExpressionEngine

variable {τ ν ε : Type}

/-- Somewhere in the sequence `m` stands where every group that was opened is closed again. -/
def Outside (ns : List (Node τ ν ε)) (m : Node τ ν ε) : Prop :=
  ∃ us vs, ns = us ++ m :: vs ∧ Balanced us

namespace Outside

variable {ns : List (Node τ ν ε)} {m : Node τ ν ε}

theorem append (h : Outside ns m) (vs : List (Node τ ν ε)) : Outside (ns ++ vs) m := by
  obtain ⟨us, ws, rfl, hb⟩ := h
  exact ⟨us, ws ++ vs, by simp, hb⟩

theorem of_split {us vs : List (Node τ ν ε)} (hn : ns = us ++ m :: vs) (hb : Balanced us) :
    Outside ns m := ⟨us, vs, hn, hb⟩

theorem concat (h : Balanced ns) (m : Node τ ν ε) : Outside (ns ++ [m]) m := .of_split rfl h

/-- To be outside, as many groups must have been closed as were opened. -/
theorem index (h : Outside ns m) :
    ∃ i, ∃ hi : i < ns.length, openers (ns.take i) = closers (ns.take i) ∧ ns[i] = m := by
  obtain ⟨us, vs, rfl, hb⟩ := h
  refine ⟨us.length, by simp, ?_, by simp⟩
  rw [List.take_left]
  exact hb.openers_eq

end Outside

namespace Yard

theorem appendAll_concat_eq_ok_iff {y z : Yard τ ν ε} {ns : List (Node τ ν ε)} {n : Node τ ν ε} :
    y.appendAll (ns ++ [n]) = .ok z ↔ ∃ w, y.appendAll ns = .ok w ∧ w.append n = .ok z := by
  rw [appendAll, List.foldlM_append, ← appendAll]
  cases y.appendAll ns with
  | error e => simp [bind, Except.bind]
  | ok w =>
    show [n].foldlM append w = .ok z ↔ _
    simp

variable {y : Yard τ ν ε} {ns : List (Node τ ν ε)}

theorem balanced_of_appendAll (h : appendAll {} ns = .ok y)
    (ho : ∀ m ∈ y.pending, isOpener m = false) : Balanced ns := by
  have hstart : Parted [] (openGroups ({} : Yard τ ν ε)) := .closed .nil
  have hparted := parted_offerAll hstart ns
  rw [offerAll_of_appendAll h, accepted_of_appendAll h, openGroups_eq_nil_iff.2 ho] at hparted
  exact hparted.balanced

/-- An operator that waits with no group open below it came when no group was open. -/
theorem outside_of_isSuffix (h : appendAll {} ns = .ok y) {m : Node τ ν ε}
    {earlier : List (Node τ ν ε)} (hm : m :: earlier <:+ y.pending) (hk : m.kind = .operator)
    (he : ∀ w ∈ earlier, isOpener w = false) : Outside ns m := by
  induction ns using List.reverseRecOn generalizing y with
  | nil =>
    cases h
    cases List.suffix_nil.1 hm
  | append_singleton ns n ih =>
    obtain ⟨w, hw, hn⟩ := appendAll_concat_eq_ok_iff.1 h
    by_cases hwaited : m :: earlier <:+ w.pending
    · exact (ih hw hwaited).append [n]
    · -- so it is the node that has come just now
      cases hkn : n.kind with
      | value =>
        rw [append_value w hkn] at hn
        cases hn
        exact absurd hm hwaited
      | groupOpen =>
        rw [append_groupOpen w hkn] at hn
        cases hn
        cases (List.suffix_cons_iff.1 hm).resolve_right hwaited
        rw [hkn] at hk
        cases hk
      | groupClose =>
        obtain ⟨inner, o, outer, hp, -, -, rfl⟩ := (append_groupClose_eq_ok_iff hkn).1 hn
        have houter : outer <:+ w.pending :=
          hp ▸ (List.suffix_cons o outer).trans (List.suffix_append inner _)
        exact absurd (hm.trans houter) hwaited
      | operator =>
        rw [append_operator w hkn] at hn
        cases hn
        have hleft := List.dropWhile_suffix (l := w.pending) (yieldsTo n)
        cases (List.suffix_cons_iff.1 hm).resolve_right fun h => hwaited (h.trans hleft)
        apply Outside.concat
        apply balanced_of_appendAll hw
        intro v hv
        rw [← List.takeWhile_append_dropWhile (p := yieldsTo m) (l := w.pending)] at hv
        rcases List.mem_append.1 hv with hv | hv
        · exact isOpener_of_yieldsTo (eq_true_of_mem_takeWhile hv)
        · exact he v hv

theorem outside_of_mem_pending (h : appendAll {} ns = .ok y)
    (ho : ∀ m ∈ y.pending, isOpener m = false) {m : Node τ ν ε} (hm : m ∈ y.pending)
    (hk : m.kind = .operator) : Outside ns m := by
  obtain ⟨later, earlier, hp⟩ := List.append_of_mem hm
  have hsuffix : m :: earlier <:+ y.pending := ⟨later, hp.symm⟩
  exact outside_of_isSuffix h hsuffix hk fun w hw => ho w (hsuffix.subset (List.mem_cons_of_mem m hw))

/-- An operator that is not passed from outside the groups bars the way like an opener. -/
theorem appendAll_above {outer : Yard τ ν ε} {o : Node τ ν ε}
    (hright : ∀ m, Outside ns m → m.kind = .operator → ¬ o.BindsBefore m)
    (h : appendAll {} ns = .ok y) : (outer.inGroup o {}).appendAll ns = .ok (outer.inGroup o y) := by
  apply appendAll_inGroup_of_bars _ h
  intro us n vs z hns hz hk hopen
  have hout : Outside ns n := .of_split hns (balanced_of_appendAll hz hopen)
  simp [yieldsTo, hright n hout hk]

/-- When a loosest operator comes, all that waits is released. -/
theorem append_loosest {o : Node τ ν ε} (ho : o.kind = .operator) (h : appendAll {} ns = .ok y)
    (hopen : ∀ m ∈ y.pending, isOpener m = false)
    (hleft : ∀ m, Outside ns m → m.kind = .operator → m.BindsBefore o) :
    y.append o = .ok ⟨y.nodes, [o]⟩ := by
  have hy : y.Orderly := offerAll_of_appendAll h ▸ Orderly.empty.offerAll ns
  have hgoes : ∀ m ∈ y.pending, m.kind = .operator ∧ m.BindsBefore o := by
    intro m hm
    have hk := hy.operator_of_mem hm (hopen m hm)
    exact ⟨hk, hleft m (outside_of_mem_pending h hopen hm hk) hk⟩
  have hstep : append ⟨y.emitted, y.pending ++ []⟩ o = .ok ⟨y.emitted ++ y.pending, [o]⟩ :=
    append_operator_of_shields ho hgoes (shields_nil [o])
  rwa [List.append_nil] at hstep

theorem appendAll_split {xs ys : List (Node τ ν ε)} {o : Node τ ν ε} {y z : Yard τ ν ε}
    (ho : o.kind = .operator) (hx : appendAll {} xs = .ok y)
    (hopen : ∀ m ∈ y.pending, isOpener m = false)
    (hleft : ∀ m, Outside xs m → m.kind = .operator → m.BindsBefore o)
    (hy : appendAll {} ys = .ok z)
    (hright : ∀ m, Outside ys m → m.kind = .operator → ¬ o.BindsBefore m) :
    appendAll {} (xs ++ o :: ys) = .ok ⟨y.nodes ++ z.emitted, z.pending ++ [o]⟩ := by
  rw [appendAll_append_of_ok hx, appendAll_cons_of_ok (append_loosest ho hx hopen hleft)]
  have habove : (inGroup ⟨y.nodes, []⟩ o {}).appendAll ys = .ok (inGroup ⟨y.nodes, []⟩ o z) :=
    appendAll_above hright hy
  simpa [inGroup] using habove

end Yard

namespace Builder

/-- Splitting at a loosest operator. Two sequences that a fresh builder takes without leaving a group
open, joined by an operator that every operator of the first goes before and that goes before none of
the second, as far as they stand outside all groups: it is all taken, and it drains to what the first
drains to, then what the second does, then the operator. -/
theorem appendEach_split {b : Builder τ ν ε} (hb : b.Fresh) {o : Node τ ν ε} (ho : o.kind = .operator)
    {xs ys left right : List (Node τ ν ε)}
    (hx : (b.appendEach xs).refused = []) (hdx : (b.appendEach xs).builder.yard.drain = .ok left)
    (hy : (b.appendEach ys).refused = []) (hdy : (b.appendEach ys).builder.yard.drain = .ok right)
    (hleft : ∀ m, Outside xs m → m.kind = .operator → m.BindsBefore o)
    (hright : ∀ m, Outside ys m → m.kind = .operator → ¬ o.BindsBefore m) :
    (b.appendEach (xs ++ o :: ys)).refused = [] ∧
      (b.appendEach (xs ++ o :: ys)).builder.yard.drain = .ok (left ++ right ++ [o]) := by
  obtain ⟨hopenx, rfl⟩ := Yard.drain_eq_ok_iff.1 hdx
  obtain ⟨hopeny, rfl⟩ := Yard.drain_eq_ok_iff.1 hdy
  have hallx := appendAll_of_refused_eq_nil hx
  have hally := appendAll_of_refused_eq_nil hy
  rw [hb.1] at hallx hally
  have hall := Yard.appendAll_split ho hallx hopenx hleft hally hright
  rw [← hb.1] at hall
  rw [appendEach_of_appendAll hall]
  refine ⟨rfl, Yard.drain_eq_ok_iff.2 ⟨?_, by simp [Yard.nodes]⟩⟩
  intro m hm
  rcases List.mem_append.1 hm with hm | hm
  · exact hopeny m hm
  · rw [List.mem_singleton.1 hm]
    exact Yard.isOpener_of_operator ho

/-- On the left a prefix operator, a group with a looser operator inside, an operator of the same
precedence and one that lacks its operands; on the right an empty group and another looser operator
between delimiters. -/
theorem appendEach_split_malformed :
    let o := Tracing.binary "-" 1 .left
    let xs := [Tracing.unary "!" 5, Tracing.opener, Tracing.value "a", Tracing.binary "~" 0 .right,
      Tracing.closer, Tracing.value "b", Tracing.binary "-" 1 .left, Tracing.binary "*" 2 .left]
    let ys := [Tracing.unary "!" 5, Tracing.value "c", Tracing.opener, Tracing.closer,
      Tracing.binary "*" 2 .left, Tracing.opener, Tracing.unary "not" 0, Tracing.value "d",
      Tracing.closer]
    let feed := appendEach {} (xs ++ o :: ys)
    (∀ m, Outside xs m → m.kind = .operator → m.BindsBefore o) ∧
      (∀ m, Outside ys m → m.kind = .operator → ¬ o.BindsBefore m) ∧
      feed.refused = [] ∧
      feed.builder.yard.drain.map (List.map Node.symbol) =
        .ok (["a", "~", "b", "!", "*", "-"] ++ ["c", "!", "d", "not", "*"] ++ ["-"]) := by
  intro o xs ys feed
  have hleft : ∀ m, Outside xs m → m.kind = .operator → m.BindsBefore o := by
    intro m hm
    obtain ⟨i, hi, hcount, rfl⟩ := hm.index
    clear hm
    revert i
    decide
  have hright : ∀ m, Outside ys m → m.kind = .operator → ¬ o.BindsBefore m := by
    intro m hm
    obtain ⟨i, hi, hcount, rfl⟩ := hm.index
    clear hm
    revert i
    decide
  have hdx : (appendEach {} xs).builder.yard.drain = .ok [Tracing.value "a",
      Tracing.binary "~" 0 .right, Tracing.value "b", Tracing.unary "!" 5, Tracing.binary "*" 2 .left,
      Tracing.binary "-" 1 .left] := rfl
  have hdy : (appendEach {} ys).builder.yard.drain = .ok [Tracing.value "c", Tracing.unary "!" 5,
      Tracing.value "d", Tracing.unary "not" 0, Tracing.binary "*" 2 .left] := rfl
  obtain ⟨hrefused, hdrain⟩ :=
    appendEach_split (b := {}) ⟨rfl, rfl⟩ rfl rfl hdx rfl hdy hleft hright
  refine ⟨hleft, hright, hrefused, ?_⟩
  rw [hdrain]
  rfl

end Builder

end ExpressionEngine
