import ExpressionEngine.Proofs.Infix.Groups
import ExpressionEngine.Proofs.Typing
import Mathlib.Combinatorics.Enumerative.DyckWord

/-! Delimiters. Operators come and go on top of the groups that are open, but the groups that wait in a
yard are just those that the sequence opened and did not close: they part what was taken into balanced
pieces. So it is the delimiters alone that decide what is refused, which group is reported in the end,
and that nothing is if they form a Dyck word. -/

namespace ExpressionEngine

variable {τ ν ε : Type}

/-! ### Sequences of delimiters -/

/-- A delimiter goes one step up or down. -/
def Node.delimiter? (n : Node τ ν ε) : Option DyckStep :=
  match n.kind with
  | .groupOpen => some .U
  | .groupClose => some .D
  | .value | .operator => none

theorem Node.delimiter?_of_groupOpen {n : Node τ ν ε} (h : n.kind = .groupOpen) :
    n.delimiter? = some .U := by
  simp [delimiter?, h]

theorem Node.delimiter?_of_groupClose {n : Node τ ν ε} (h : n.kind = .groupClose) :
    n.delimiter? = some .D := by
  simp [delimiter?, h]

/-- The delimiters of a sequence, in order. -/
def delimiters (ns : List (Node τ ν ε)) : List DyckStep := ns.filterMap Node.delimiter?

def openers (ns : List (Node τ ν ε)) : Nat := (delimiters ns).count .U

def closers (ns : List (Node τ ν ε)) : Nat := (delimiters ns).count .D

/-- Every opener has its closer behind it, whatever the two look like. -/
def Balanced (ns : List (Node τ ν ε)) : Prop := ∃ w : DyckWord, w.toList = delimiters ns

theorem delimiters_append (us vs : List (Node τ ν ε)) :
    delimiters (us ++ vs) = delimiters us ++ delimiters vs := List.filterMap_append

theorem openers_append (us vs : List (Node τ ν ε)) :
    openers (us ++ vs) = openers us + openers vs := by
  rw [openers, delimiters_append, List.count_append]
  rfl

theorem closers_append (us vs : List (Node τ ν ε)) :
    closers (us ++ vs) = closers us + closers vs := by
  rw [closers, delimiters_append, List.count_append]
  rfl

theorem openers_cons (n : Node τ ν ε) (ns : List (Node τ ν ε)) :
    openers (n :: ns) = openers [n] + openers ns := openers_append [n] ns

theorem closers_cons (n : Node τ ν ε) (ns : List (Node τ ν ε)) :
    closers (n :: ns) = closers [n] + closers ns := closers_append [n] ns

section Singleton

variable {n : Node τ ν ε}

theorem count_of_groupOpen (h : n.kind = .groupOpen) : openers [n] = 1 ∧ closers [n] = 0 := by
  simp [openers, closers, delimiters, Node.delimiter?_of_groupOpen h]

theorem count_of_groupClose (h : n.kind = .groupClose) : openers [n] = 0 ∧ closers [n] = 1 := by
  simp [openers, closers, delimiters, Node.delimiter?_of_groupClose h]

theorem count_of_delimiter?_eq_none (h : n.delimiter? = none) :
    openers [n] = 0 ∧ closers [n] = 0 := by
  simp [openers, closers, delimiters, h]

end Singleton

namespace Balanced

variable {us vs : List (Node τ ν ε)}

theorem nil : Balanced ([] : List (Node τ ν ε)) := ⟨0, rfl⟩

theorem append (hu : Balanced us) (hv : Balanced vs) : Balanced (us ++ vs) := by
  obtain ⟨w, hw⟩ := hu
  obtain ⟨w', hw'⟩ := hv
  refine ⟨w + w', ?_⟩
  rw [delimiters_append, ← hw, ← hw']
  rfl

theorem singleton {n : Node τ ν ε} (h : n.delimiter? = none) : Balanced [n] := by
  have hd : delimiters [n] = [] := by simp [delimiters, h]
  exact ⟨0, hd.symm⟩

theorem enclose {o c : Node τ ν ε} (ho : o.kind = .groupOpen) (hu : Balanced us)
    (hc : c.kind = .groupClose) : Balanced (o :: (us ++ [c])) := by
  obtain ⟨w, hw⟩ := hu
  refine ⟨w.nest, ?_⟩
  show [DyckStep.U] ++ w.toList ++ [DyckStep.D] = _
  rw [hw]
  simp [delimiters, Node.delimiter?_of_groupOpen ho, Node.delimiter?_of_groupClose hc]

theorem openers_eq (h : Balanced us) : openers us = closers us := by
  obtain ⟨w, hw⟩ := h
  rw [openers, closers, ← hw]
  exact w.count_U_eq_count_D

/-- At no point have there been more closers than openers. -/
theorem closers_le (h : Balanced (us ++ vs)) : closers us ≤ openers us := by
  obtain ⟨w, hw⟩ := h
  have hle := w.count_D_le_count_U (delimiters us).length
  rw [hw, delimiters_append, List.take_left] at hle
  exact hle

end Balanced

/-! ### Matching -/

/-- Behind a balanced beginning comes the node that closes the group in which all this stands. -/
def HasCloser (vs : List (Node τ ν ε)) : Prop :=
  ∃ inside c rest, vs = inside ++ c :: rest ∧ Balanced inside ∧ c.kind = .groupClose

/-- The group that `o` opens is never closed, and every later one is. -/
def LatestUnclosed (o : Node τ ν ε) (ns : List (Node τ ν ε)) : Prop :=
  ∃ us vs, ns = us ++ o :: vs ∧ o.kind = .groupOpen ∧ ¬ HasCloser vs ∧
    ∀ vs₁ p vs₂, vs = vs₁ ++ p :: vs₂ → p.kind = .groupOpen → HasCloser vs₂

theorem HasCloser.balanced_append {us vs : List (Node τ ν ε)} (hu : Balanced us)
    (hv : HasCloser vs) : HasCloser (us ++ vs) := by
  obtain ⟨inside, c, rest, rfl, hb, hc⟩ := hv
  exact ⟨us ++ inside, c, rest, (List.append_assoc us inside _).symm, hu.append hb, hc⟩

/-- A surplus of closers closes the group around. An opener uses up the first closer that is found
behind it, and what follows still has a surplus. -/
theorem hasCloser_of_lt {vs : List (Node τ ν ε)} (h : openers vs < closers vs) : HasCloser vs := by
  induction hl : vs.length using Nat.strong_induction_on generalizing vs with
  | _ k ih =>
    cases vs with
    | nil => exact absurd h (Nat.lt_irrefl 0)
    | cons n rest =>
      rw [List.length_cons] at hl
      rw [openers_cons, closers_cons] at h
      cases hn : n.kind with
      | groupClose => exact ⟨[], n, rest, rfl, .nil, hn⟩
      | groupOpen =>
        obtain ⟨hu, hd⟩ := count_of_groupOpen hn
        obtain ⟨inside, c, later, rfl, hb, hc⟩ := ih rest.length (by omega) (by omega) rfl
        obtain ⟨hcu, hcd⟩ := count_of_groupClose hc
        have hinside := hb.openers_eq
        rw [openers_append, closers_append, openers_cons c, closers_cons c] at h
        rw [List.length_append, List.length_cons] at hl
        have hlater : HasCloser later := ih later.length (by omega) (by omega) rfl
        have hgroup := Balanced.enclose hn hb hc
        simpa using hlater.balanced_append hgroup
      | value | operator =>
        have hnone : n.delimiter? = none := by simp [Node.delimiter?, hn]
        obtain ⟨hu, hd⟩ := count_of_delimiter?_eq_none hnone
        have hrest : HasCloser rest := ih rest.length (by omega) (by omega) rfl
        exact hrest.balanced_append (.singleton hnone)

theorem Balanced.not_hasCloser {vs : List (Node τ ν ε)} (h : Balanced vs) : ¬ HasCloser vs := by
  rintro ⟨inside, c, rest, rfl, hb, hc⟩
  rw [List.append_cons] at h
  have hle := h.closers_le
  obtain ⟨hcu, hcd⟩ := count_of_groupClose hc
  have hinside := hb.openers_eq
  rw [openers_append, closers_append] at hle
  omega

theorem Balanced.hasCloser {us vs : List (Node τ ν ε)} {p : Node τ ν ε}
    (h : Balanced (us ++ p :: vs)) (hp : p.kind = .groupOpen) : HasCloser vs := by
  have hle := h.closers_le
  have heq := h.openers_eq
  obtain ⟨hu, hd⟩ := count_of_groupOpen hp
  rw [openers_append, closers_append, openers_cons, closers_cons] at heq
  exact hasCloser_of_lt (by omega)

/-- The open groups, the latest first, part the sequence into balanced pieces. -/
inductive Parted : List (Node τ ν ε) → List (Node τ ν ε) → Prop
  | closed {ns : List (Node τ ν ε)} (balanced : Balanced ns) : Parted ns []
  | opened {us inside opens : List (Node τ ν ε)} {o : Node τ ν ε} (before : Parted us opens)
      (kind : o.kind = .groupOpen) (balanced : Balanced inside) :
      Parted (us ++ o :: inside) (o :: opens)

namespace Parted

variable {ns vs opens : List (Node τ ν ε)} {o c : Node τ ν ε}

theorem append (h : Parted ns opens) (hv : Balanced vs) : Parted (ns ++ vs) opens := by
  cases h with
  | closed balanced => exact .closed (balanced.append hv)
  | opened before kind balanced =>
    rw [List.append_assoc, List.cons_append]
    exact .opened before kind (balanced.append hv)

/-- The closer completes the latest group, which becomes part of the piece before it. -/
theorem close (h : Parted ns (o :: opens)) (hc : c.kind = .groupClose) :
    Parted (ns ++ [c]) opens := by
  cases h with
  | opened before kind balanced =>
    rw [List.append_assoc, List.cons_append]
    exact before.append (balanced.enclose kind hc)

theorem openers_eq (h : Parted ns opens) : openers ns = closers ns + opens.length := by
  induction h with
  | closed balanced => exact balanced.openers_eq
  | opened _ kind balanced ih =>
    obtain ⟨hu, hd⟩ := count_of_groupOpen kind
    have hinside := balanced.openers_eq
    rw [openers_append, closers_append, openers_cons, closers_cons, List.length_cons]
    omega

theorem eq_nil_iff (h : Parted ns opens) : opens = [] ↔ closers ns = openers ns := by
  rw [h.openers_eq, ← List.length_eq_zero_iff]
  omega

theorem lt_iff (h : Parted ns opens) : closers ns < openers ns ↔ ∃ o, opens.head? = some o := by
  rw [h.openers_eq]
  cases opens <;> simp

theorem balanced (h : Parted ns []) : Balanced ns := by
  cases h with
  | closed balanced => exact balanced

/-- The latest open group is the one that is not matched, and there is no other such. -/
theorem head?_eq_some_iff (h : Parted ns opens) : opens.head? = some o ↔ LatestUnclosed o ns := by
  cases h with
  | closed balanced =>
    constructor
    · intro ho
      cases ho
    · rintro ⟨us, vs, rfl, ho, hnone, -⟩
      exact absurd (balanced.hasCloser ho) hnone
  | @opened us inside opens p before kind balanced =>
    rw [List.head?_cons, Option.some.injEq]
    constructor
    · rintro rfl
      refine ⟨us, inside, rfl, kind, balanced.not_hasCloser, ?_⟩
      rintro vs₁ q vs₂ rfl hq
      exact balanced.hasCloser hq
    · rintro ⟨us', vs, heq, ho, hnone, hlater⟩
      -- one of the two openers would have to stand behind the other one
      rcases List.append_eq_append_iff.1 heq with ⟨ws, -, h⟩ | ⟨ws, -, h⟩
      · rcases ws with - | ⟨w, ws⟩
        · exact (List.cons.inj h).1
        · obtain ⟨rfl, rfl⟩ := List.cons.inj h
          exact absurd (balanced.hasCloser ho) hnone
      · rcases ws with - | ⟨w, ws⟩
        · exact (List.cons.inj h).1.symm
        · obtain ⟨rfl, rfl⟩ := List.cons.inj h
          exact absurd (hlater ws p inside rfl kind) balanced.not_hasCloser

end Parted

/-! ### The groups that wait in a yard -/

namespace Yard

/-- What the yard takes of a sequence: every node that is not refused when its turn comes. -/
def accepted (y : Yard τ ν ε) : List (Node τ ν ε) → List (Node τ ν ε)
  | [] => []
  | n :: rest =>
    match y.append n with
    | .ok z => n :: z.accepted rest
    | .error _ => y.accepted rest

/-- The openers among what waits, the latest first. -/
def openGroups (y : Yard τ ν ε) : List (Node τ ν ε) := y.pending.filter isOpener

variable {y z : Yard τ ν ε} {n : Node τ ν ε}

theorem openGroups_eq_nil_iff : y.openGroups = [] ↔ ∀ m ∈ y.pending, isOpener m = false := by
  simp [openGroups]

/-- Only delimiters change what is open: an opener is added, and a closer takes the latest away. -/
theorem openGroups_of_append (h : y.append n = .ok z) :
    (n.kind = .groupOpen ∧ z.openGroups = n :: y.openGroups) ∨
      (n.kind = .groupClose ∧ ∃ o, y.openGroups = o :: z.openGroups) ∨
      (n.delimiter? = none ∧ z.openGroups = y.openGroups) := by
  cases hk : n.kind with
  | value =>
    rw [append_value y hk] at h
    cases h
    exact .inr (.inr ⟨by simp [Node.delimiter?, hk], rfl⟩)
  | groupOpen =>
    rw [append_groupOpen y hk] at h
    cases h
    exact .inl ⟨rfl, by simp [openGroups, isOpener, hk]⟩
  | groupClose =>
    obtain ⟨inner, o, outer, hp, ho, hi, rfl⟩ := (append_groupClose_eq_ok_iff hk).1 h
    have hinner : inner.filter isOpener = [] := by simpa using hi
    exact .inr (.inl ⟨rfl, o, by simp [openGroups, hp, hinner, ho]⟩)
  | operator =>
    rw [append_operator y hk] at h
    cases h
    have hreleased : (y.pending.takeWhile (yieldsTo n)).filter isOpener = [] := by
      rw [List.filter_eq_nil_iff]
      intro m hm
      have hyield := eq_true_of_mem_takeWhile hm
      simp only [yieldsTo, Bool.and_eq_true, Bool.not_eq_true'] at hyield
      simp [hyield.1]
    refine .inr (.inr ⟨by simp [Node.delimiter?, hk], ?_⟩)
    have hsplit := congrArg (List.filter isOpener)
      (List.takeWhile_append_dropWhile (p := yieldsTo n) (l := y.pending))
    rw [List.filter_append, hreleased, List.nil_append] at hsplit
    simp [openGroups, isOpener_of_operator hk, hsplit]

/-- An opener adds one group to those that are open, and a closer takes one away. -/
theorem length_openGroups_of_append (h : y.append n = .ok z) :
    z.openGroups.length + closers [n] = y.openGroups.length + openers [n] := by
  rcases openGroups_of_append h with ⟨hk, ho⟩ | ⟨hk, o, ho⟩ | ⟨hnone, ho⟩
  · rw [ho, (count_of_groupOpen hk).1, (count_of_groupOpen hk).2, List.length_cons]
  · rw [ho, (count_of_groupClose hk).1, (count_of_groupClose hk).2, List.length_cons]
  · rw [ho, (count_of_delimiter?_eq_none hnone).1, (count_of_delimiter?_eq_none hnone).2]

theorem append_eq_error_iff {e : BuildError} : y.append n = .error e ↔
    n.kind = .groupClose ∧ y.openGroups = [] ∧ .unbalancedGroup n.symbol = e := by
  cases hk : n.kind with
  | groupClose => simp [append_groupClose_eq_error_iff y hk, openGroups_eq_nil_iff]
  | value => simp [append_value y hk]
  | groupOpen => simp [append_groupOpen y hk]
  | operator => simp [append_operator y hk]

theorem parted_append {ns : List (Node τ ν ε)} (hp : Parted ns y.openGroups)
    (h : y.append n = .ok z) : Parted (ns ++ [n]) z.openGroups := by
  rcases openGroups_of_append h with ⟨hk, ho⟩ | ⟨hk, o, ho⟩ | ⟨hnone, ho⟩
  · rw [ho]
    exact .opened hp hk .nil
  · rw [ho] at hp
    exact hp.close hk
  · rw [ho]
    exact hp.append (.singleton hnone)

theorem parted_offerAll {us : List (Node τ ν ε)} (hp : Parted us y.openGroups)
    (ns : List (Node τ ν ε)) : Parted (us ++ y.accepted ns) (y.offerAll ns).openGroups := by
  induction ns generalizing y us with
  | nil => rwa [accepted, List.append_nil]
  | cons n rest ih =>
    rw [offerAll, List.foldl_cons, ← offerAll]
    cases h : y.append n with
    | error e =>
      rw [offer_of_error h, accepted, h]
      exact ih hp
    | ok z =>
      rw [offer_of_ok h, accepted, h]
      have hrest := ih (parted_append hp h)
      rwa [List.append_assoc, List.singleton_append] at hrest

theorem accepted_of_appendAll {ns : List (Node τ ν ε)} (h : y.appendAll ns = .ok z) :
    y.accepted ns = ns := by
  induction ns generalizing y with
  | nil => rfl
  | cons n rest ih =>
    obtain ⟨w, hn, hrest⟩ := appendAll_cons_eq_ok_iff.1 h
    simp [accepted, hn, ih hrest]

/-- Nothing is refused as long as no more groups are closed than are open. -/
theorem exists_appendAll {ns : List (Node τ ν ε)}
    (h : ∀ us, us <+: ns → closers us ≤ openers us + y.openGroups.length) :
    ∃ z, y.appendAll ns = .ok z := by
  induction ns generalizing y with
  | nil => exact ⟨y, rfl⟩
  | cons n rest ih =>
    cases hn : y.append n with
    | error e =>
      obtain ⟨hk, hopen, -⟩ := append_eq_error_iff.1 hn
      obtain ⟨hu, hd⟩ := count_of_groupClose hk
      have hle := h [n] (List.prefix_append [n] rest)
      rw [hu, hd, hopen] at hle
      exact absurd hle (Nat.not_succ_le_zero 0)
    | ok z =>
      have hstep := length_openGroups_of_append hn
      obtain ⟨w, hw⟩ := ih (y := z) fun us hus => by
        have hle := h (n :: us) (List.cons_prefix_cons.2 ⟨rfl, hus⟩)
        rw [openers_cons, closers_cons] at hle
        omega
      exact ⟨w, by rw [appendAll_cons_of_ok hn, hw]⟩

theorem drain_eq_error_iff {e : BuildError} : y.drain = .error e ↔
    ∃ o, y.openGroups.head? = some o ∧ .unbalancedGroup o.symbol = e := by
  rw [openGroups, List.head?_filter, drain]
  cases y.pending.find? isOpener <;> simp

end Yard

/-! ### Builders -/

theorem typeCheck_ne_unbalancedGroup [Ty τ] (slots : List (TypeSet τ)) (program : List (Node τ ν ε))
    (d : String) : typeCheck slots program ≠ .error (.unbalancedGroup d) := by
  intro h
  rcases typeCheck_error_cases h with ⟨_, _, _, he⟩ | ⟨_, _, _, he⟩ <;> cases he

namespace Builder

theorem exists_refused_cons (position : Nat) (b : Builder τ ν ε) (n : Node τ ν ε)
    (rest : List (Node τ ν ε)) : ∃ b' : Builder τ ν ε, b'.yard = b.yard.offer n ∧
      ∀ j e, (j, e) ∈ (b.appendFrom position (n :: rest)).refused ↔
        (j = position ∧ b.yard.append n = .error e) ∨
          (j, e) ∈ (b'.appendFrom (position + 1) rest).refused := by
  cases hn : b.yard.append n with
  | ok y =>
    refine ⟨{ b with yard := y, fragments := b.fragments ++ [n.symbol] },
      (Yard.offer_of_ok hn).symm, fun j e => ?_⟩
    simp [appendFrom, append, hn]
  | error e' =>
    refine ⟨b, (Yard.offer_of_error hn).symm, fun j e => ?_⟩
    simp [appendFrom, append, hn, eq_comm]

/-- A node is refused at its position by the yard that took what it could of all before. -/
theorem mem_refused_iff {b : Builder τ ν ε} {ns : List (Node τ ν ε)} {i : Nat} {e : BuildError} :
    (i, e) ∈ (b.appendEach ns).refused ↔
      ∃ n, ns[i]? = some n ∧ (b.yard.offerAll (ns.take i)).append n = .error e := by
  suffices ∀ position j, (j, e) ∈ (b.appendFrom position ns).refused ↔
      ∃ i n, j = position + i ∧ ns[i]? = some n ∧
        (b.yard.offerAll (ns.take i)).append n = .error e by
    rw [appendEach, this]
    simp
  clear i
  induction ns generalizing b with
  | nil => simp [appendFrom]
  | cons n rest ih =>
    intro position j
    obtain ⟨b', hyard, hmem⟩ := exists_refused_cons position b n rest
    rw [hmem, ih, hyard]
    constructor
    · rintro (⟨rfl, he⟩ | ⟨i, m, rfl, hm, he⟩)
      · exact ⟨0, n, rfl, rfl, he⟩
      · exact ⟨i + 1, m, by omega, hm, he⟩
    · rintro ⟨i, m, rfl, hm, he⟩
      cases i with
      | zero =>
        cases hm
        exact .inl ⟨rfl, he⟩
      | succ i => exact .inr ⟨i, m, by omega, hm, he⟩

theorem parted_appendEach {b : Builder τ ν ε} (hb : b.Fresh) (ns : List (Node τ ν ε)) :
    Parted (b.yard.accepted ns) (b.yard.offerAll ns).openGroups := by
  have hempty : b.yard.openGroups = [] := by rw [hb.1]; rfl
  have h : Parted [] b.yard.openGroups := by
    rw [hempty]
    exact .closed .nil
  exact Yard.parted_offerAll h ns

/-- A fresh builder takes all of a balanced sequence. -/
theorem refused_eq_nil_of_balanced {b : Builder τ ν ε} {ns : List (Node τ ν ε)} (h : Balanced ns) :
    (b.appendEach ns).refused = [] := by
  have hroom : ∀ us, us <+: ns → closers us ≤ openers us + b.yard.openGroups.length := by
    rintro us ⟨vs, rfl⟩
    exact Nat.le_add_right_of_le h.closers_le
  obtain ⟨y, hy⟩ := Yard.exists_appendAll hroom
  rw [appendEach_of_appendAll hy]

/-- All is taken and no group is left open if and only if the delimiters match. -/
theorem taken_closed_iff_balanced {b : Builder τ ν ε} (hb : b.Fresh) (ns : List (Node τ ν ε)) :
    (b.appendEach ns).refused = [] ∧ (b.yard.offerAll ns).openGroups = [] ↔ Balanced ns := by
  have hparted := parted_appendEach hb ns
  constructor
  · rintro ⟨hrefused, hclosed⟩
    rw [Yard.accepted_of_appendAll (appendAll_of_refused_eq_nil hrefused), hclosed] at hparted
    exact hparted.balanced
  · intro hbalanced
    have hrefused : (b.appendEach ns).refused = [] := refused_eq_nil_of_balanced hbalanced
    rw [Yard.accepted_of_appendAll (appendAll_of_refused_eq_nil hrefused)] at hparted
    exact ⟨hrefused, hparted.eq_nil_iff.2 hbalanced.openers_eq.symm⟩

variable [Ty τ]

/-- A group that is open is reported before anything is said of arities and types. -/
theorem finalize_eq_unbalancedGroup_iff {b : Builder τ ν ε} {d : String} :
    b.finalize = .error (.unbalancedGroup d) ↔
      ∃ o, b.yard.openGroups.head? = some o ∧ o.symbol = d := by
  cases hd : b.yard.drain with
  | error e =>
    obtain ⟨o, ho, rfl⟩ := Yard.drain_eq_error_iff.1 hd
    simp [finalize, hd, ho]
  | ok program =>
    have hopen : b.yard.openGroups = [] :=
      Yard.openGroups_eq_nil_iff.2 (Yard.drain_eq_ok_iff.1 hd).1
    rw [finalize_of_drain hd, hopen]
    cases hc : typeCheck b.inputs program with
    | ok outputs => simp [Except.map]
    | error e =>
      have hne := typeCheck_ne_unbalancedGroup b.inputs program d
      rw [hc] at hne
      simpa [Except.map] using hne

/-- Delimiters are refused and reported just where they do not match. A node is refused if it closes a
group while, of the delimiters taken before it, as many close a group as open one. In the end a group
is reported if more were opened than closed, before anything else that may be wrong, and it is the
latest without a match. There is no error of either kind if and only if the delimiters form a Dyck
word. -/
theorem appendEach_delimiters {b : Builder τ ν ε} (hb : b.Fresh) (ns : List (Node τ ν ε)) :
    (∀ i e, (i, e) ∈ (b.appendEach ns).refused ↔
        ∃ n, ns[i]? = some n ∧ n.kind = .groupClose ∧
          closers (b.yard.accepted (ns.take i)) = openers (b.yard.accepted (ns.take i)) ∧
          .unbalancedGroup n.symbol = e) ∧
      ((∃ d, (b.appendEach ns).builder.finalize = .error (.unbalancedGroup d)) ↔
        closers (b.yard.accepted ns) < openers (b.yard.accepted ns)) ∧
      (∀ d, (b.appendEach ns).builder.finalize = .error (.unbalancedGroup d) ↔
        ∃ o, LatestUnclosed o (b.yard.accepted ns) ∧ o.symbol = d) ∧
      ((b.appendEach ns).refused = [] ∧
          (∀ d, (b.appendEach ns).builder.finalize ≠ .error (.unbalancedGroup d)) ↔
        Balanced ns) := by
  have hparted := parted_appendEach hb ns
  have hyard : (b.appendEach ns).builder.yard = b.yard.offerAll ns := yard_appendFrom 0 b ns
  have hreported : ∀ d, (b.appendEach ns).builder.finalize = .error (.unbalancedGroup d) ↔
      ∃ o, (b.yard.offerAll ns).openGroups.head? = some o ∧ o.symbol = d := by
    intro d
    rw [finalize_eq_unbalancedGroup_iff, hyard]
  refine ⟨fun i e => ?_, ?_, fun d => ?_, ?_⟩
  · rw [mem_refused_iff]
    simp only [Yard.append_eq_error_iff, (parted_appendEach hb (ns.take i)).eq_nil_iff]
  · rw [hparted.lt_iff]
    constructor
    · rintro ⟨d, hd⟩
      obtain ⟨o, ho, -⟩ := (hreported d).1 hd
      exact ⟨o, ho⟩
    · rintro ⟨o, ho⟩
      exact ⟨o.symbol, (hreported _).2 ⟨o, ho, rfl⟩⟩
  · simp only [hreported, hparted.head?_eq_some_iff]
  · rw [← taken_closed_iff_balanced hb]
    refine and_congr_right fun _ => ?_
    simp only [ne_eq, hreported]
    cases (b.yard.offerAll ns).openGroups <;> simp

/-- The first node closes nothing, the last one closes a bracket, and the operator in between lacks an
operand; what is reported is the parenthesis. -/
theorem appendEach_delimiters_crossed :
    let bracket : Node TypeTag Scalar String :=
      .element (Tracing.element "[" .groupOpen 0 0 .left)
    let ns := [Tracing.closer, Tracing.opener, bracket, Tracing.value "a", Tracing.closer,
      Tracing.binary "*" 2 .left]
    let feed := appendEach {} ns
    feed.refused = [(0, .unbalancedGroup ")")] ∧
      typeCheck [] (feed.builder.yard.nodes.filter (!Yard.isOpener ·)) =
        .error (.arityUnderflow "*" 2 1) ∧
      feed.builder.finalize = .error (.unbalancedGroup "(") ∧
      (∃ o, LatestUnclosed o (Yard.accepted {} ns) ∧ o.symbol = "(") ∧
      closers (Yard.accepted {} ns) < openers (Yard.accepted {} ns) ∧ ¬ Balanced ns := by
  intro bracket ns feed
  have hsealed : feed.builder.finalize = .error (.unbalancedGroup "(") := rfl
  obtain ⟨hrefused, hcount, hlatest, hbalanced⟩ := appendEach_delimiters (b := {}) ⟨rfl, rfl⟩ ns
  refine ⟨rfl, rfl, hsealed, (hlatest "(").1 hsealed, hcount.1 ⟨"(", hsealed⟩, fun h => ?_⟩
  have hfirst : (0, .unbalancedGroup ")") ∈ feed.refused :=
    (hrefused 0 _).2 ⟨Tracing.closer, rfl, rfl, rfl, rfl⟩
  rw [(hbalanced.2 h).1] at hfirst
  cases hfirst

end Builder

end ExpressionEngine
