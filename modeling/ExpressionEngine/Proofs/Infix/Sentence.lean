import ExpressionEngine.Proofs.Infix.Reading
import ExpressionEngine.Proofs.Infix.Typing

/-! Binary sentences: operands with an operator between each two, where an operand is a value or a
sentence in delimiters. Every sentence can be read in exactly one way that respects precedence and
associativity, and it is this one that a builder finds. The tree grows at its right edge: an operator
that arrives takes over the lowest part of the edge that goes before it. -/

namespace ExpressionEngine

variable {τ ν ε : Type}

mutual

/-- A value, or a sentence in delimiters. -/
inductive Operand : List (Node τ ν ε) → Prop
  | value {n : Node τ ν ε} (kind : n.kind = .value) : Operand [n]
  | group {opener closer : Node τ ν ε} {ts : List (Node τ ν ε)} (opens : opener.kind = .groupOpen)
      (inner : Sentence ts) (closes : closer.kind = .groupClose) :
      Operand (opener :: (ts ++ [closer]))

/-- Operands with an operator between each two. -/
inductive Sentence : List (Node τ ν ε) → Prop
  | single {ts : List (Node τ ν ε)} (operand : Operand ts) : Sentence ts
  | chain {ts us : List (Node τ ν ε)} {o : Node τ ν ε} (before : Sentence ts)
      (kind : o.kind = .operator) (operand : Operand us) : Sentence (ts ++ o :: us)

end

namespace InfixTree

/-- The tree with one operator and one operand more at its end. -/
def graft : InfixTree τ ν ε → Node τ ν ε → InfixTree τ ν ε → InfixTree τ ν ε
  | .binary p left right, o, operand =>
    if p.BindsBefore o then .binary o (.binary p left right) operand
    else .binary p left (right.graft o operand)
  | t, o, operand => .binary o t operand

variable {o : Node τ ν ε} {operand : InfixTree τ ν ε}

theorem tokens_graft (t : InfixTree τ ν ε) :
    (t.graft o operand).tokens = t.tokens ++ o :: operand.tokens := by
  induction t with
  | leaf n => rfl
  | group opener inner closer _ => rfl
  | unary p inner _ => rfl
  | binary p left right _ ihr =>
    rw [graft]
    split_ifs
    · rfl
    · rw [tokens, ihr, tokens, List.append_assoc, List.cons_append]

theorem isBinary_graft {t : InfixTree τ ν ε} (hb : t.IsBinary) (ho : operand.IsBinary) :
    (t.graft o operand).IsBinary := by
  induction t with
  | leaf n => exact ⟨hb, ho⟩
  | group opener inner closer _ => exact ⟨hb, ho⟩
  | unary p inner _ => exact hb.elim
  | binary p left right _ ihr =>
    rw [graft]
    split_ifs
    · exact ⟨hb, ho⟩
    · exact ⟨hb.1, ihr hb.2⟩

theorem wellFormed_graft {t : InfixTree τ ν ε} (hk : o.kind = .operator) (hw : t.WellFormed)
    (ho : operand.WellFormed) : (t.graft o operand).WellFormed := by
  induction t with
  | leaf n => exact ⟨hk, hw, ho⟩
  | group opener inner closer _ => exact ⟨hk, hw, ho⟩
  | unary p inner _ => exact ⟨hk, hw, ho⟩
  | binary p left right _ ihr =>
    rw [graft]
    split_ifs
    · exact ⟨hk, hw, ho⟩
    · exact ⟨hw.1, hw.2.1, ihr hw.2.2⟩

/-- To the left a tree opens up at most by the operator that it takes in. -/
theorem mem_leftEdge_graft {t : InfixTree τ ν ε} {p : Node τ ν ε}
    (hp : p ∈ (t.graft o operand).leftEdge) : p = o ∨ p ∈ t.leftEdge := by
  cases t with
  | binary q left right =>
    rw [graft] at hp
    split_ifs at hp
    · exact List.mem_cons.1 hp
    · exact .inr hp
  | _ => exact List.mem_cons.1 hp

theorem precedenceCorrect_graft {t : InfixTree τ ν ε} (hb : t.IsBinary) (hp : t.PrecedenceCorrect)
    (ho : operand.PrecedenceCorrect) (hedge : operand.leftEdge = []) :
    (t.graft o operand).PrecedenceCorrect := by
  have hright : ∀ p ∈ operand.leftEdge, ¬ o.BindsBefore p := by simp [hedge]
  induction t with
  | leaf n => exact ⟨by simp [rightEdge], hright, hp, ho⟩
  | group opener inner closer _ => exact ⟨by simp [rightEdge], hright, hp, ho⟩
  | unary p inner _ => exact hb.elim
  | binary p left right _ ihr =>
    rw [graft]
    split_ifs with hpo
    · exact ⟨bindsBefore_of_mem_rightEdge hp hpo, hright, hp, ho⟩
    · obtain ⟨hleft, hpright, hpl, hpr⟩ := hp
      refine ⟨hleft, fun q hq => ?_, hpl, ihr hb.2 hpr⟩
      rcases mem_leftEdge_graft hq with rfl | hq
      · exact hpo
      · exact hpright q hq

theorem Parses.graft {t : InfixTree τ ν ε} {ts us : List (Node τ ν ε)} (hk : o.kind = .operator)
    (ht : t.Parses ts) (hu : operand.Parses us) (hedge : operand.leftEdge = []) :
    (t.graft o operand).Parses (ts ++ o :: us) where
  isBinary := isBinary_graft ht.isBinary hu.isBinary
  wellFormed := wellFormed_graft hk ht.wellFormed hu.wellFormed
  precedenceCorrect :=
    precedenceCorrect_graft ht.isBinary ht.precedenceCorrect hu.precedenceCorrect hedge
  tokens_eq := by rw [tokens_graft, ht.tokens_eq, hu.tokens_eq]

end InfixTree

mutual

theorem Operand.exists_parses {ts : List (Node τ ν ε)} :
    Operand ts → ∃ t : InfixTree τ ν ε, t.Parses ts ∧ t.leftEdge = []
  | .value hk => ⟨.leaf _, ⟨trivial, hk, trivial, rfl⟩, rfl⟩
  | .group ho hs hc => by
    obtain ⟨inner, hb, hw, hp, rfl⟩ := hs.exists_parses
    exact ⟨.group _ inner _, ⟨hb, ⟨ho, hw, hc⟩, hp, rfl⟩, rfl⟩

theorem Sentence.exists_parses {ts : List (Node τ ν ε)} :
    Sentence ts → ∃ t : InfixTree τ ν ε, t.Parses ts
  | .single ha => by
    obtain ⟨t, ht, -⟩ := ha.exists_parses
    exact ⟨t, ht⟩
  | .chain hs hk ha => by
    obtain ⟨t, ht⟩ := hs.exists_parses
    obtain ⟨operand, hu, hedge⟩ := ha.exists_parses
    exact ⟨t.graft _ operand, ht.graft hk hu hedge⟩

end

theorem Sentence.existsUnique_parses {ts : List (Node τ ν ε)} (hs : Sentence ts) :
    ∃! t : InfixTree τ ν ε, t.Parses ts := by
  obtain ⟨t, ht⟩ := hs.exists_parses
  exact ⟨t, ht, fun u hu => hu.unique ht⟩

/-! ### Arities -/

/-- A value takes nothing and a binary operator takes two; either gives one. -/
def Node.HasBinaryArity (n : Node τ ν ε) : Prop :=
  (n.kind = .value → n.inputs.length = 0 ∧ n.outputs.length = 1) ∧
    (n.kind = .operator → n.inputs.length = 2 ∧ n.outputs.length = 1)

instance (n : Node τ ν ε) : Decidable n.HasBinaryArity :=
  inferInstanceAs (Decidable ((n.kind = .value → n.inputs.length = 0 ∧ n.outputs.length = 1) ∧
    (n.kind = .operator → n.inputs.length = 2 ∧ n.outputs.length = 1)))

theorem InfixTree.hasArities_of_tokens {t : InfixTree τ ν ε} (hb : t.IsBinary) (hw : t.WellFormed)
    (hn : ∀ n ∈ t.tokens, n.HasBinaryArity) : t.HasArities := by
  induction t with
  | leaf n => exact (hn n (by simp [tokens])).1 hw
  | group opener inner closer ih =>
    exact ih hb hw.2.1 fun n hmem => hn n (by simp [tokens, hmem])
  | unary o operand _ => exact hb.elim
  | binary o left right ihl ihr =>
    refine ⟨(hn o (by simp [tokens])).2 hw.1, ihl hb.1 hw.2.1 fun n hmem => ?_,
      ihr hb.2 hw.2.2 fun n hmem => ?_⟩
    · exact hn n (by simp [tokens, hmem])
    · exact hn n (by simp [tokens, hmem])

variable [Ty τ]

/-- A fresh builder takes every sentence, closes every group and puts the nodes in the order of the
one tree that the sentence stands for, which is the order they are checked in. With binary arities only
a mismatch of types is left to be reported, and one output comes on top of the declared inputs. -/
theorem Builder.appendEach_sentence {b : Builder τ ν ε} (hb : b.Fresh) {ts : List (Node τ ν ε)}
    (hs : Sentence ts) :
    (b.appendEach ts).refused = [] ∧
      (∀ m ∈ (b.appendEach ts).builder.yard.pending, Yard.isOpener m = false) ∧
      (∃! t : InfixTree τ ν ε, t.Parses ts) ∧
      (∀ t : InfixTree τ ν ε, t.Parses ts →
        (b.appendEach ts).builder.yard.drain = .ok t.postorder ∧
          (b.appendEach ts).builder.finalize =
            (typeCheck b.inputs t.postorder).map fun outputs =>
              ⟨b.name.getD (b.options.nameSeparator.intercalate (ts.map Node.symbol)), t.postorder,
                b.inputs, outputs⟩) ∧
      ((∀ n ∈ ts, n.HasBinaryArity) →
        (∀ e, (b.appendEach ts).builder.finalize = .error e →
          ∃ element required provided, e = .typeMismatch element required provided) ∧
        ∀ x, (b.appendEach ts).builder.finalize = .ok x →
          x.outputs.length = b.inputs.length + 1) := by
  obtain ⟨t, ⟨hbin, hw, hp, rfl⟩, huniq⟩ := hs.existsUnique_parses
  have hdrain := drain_appendEach_tokens hb hw hp
  refine ⟨by rw [appendEach_tokens hb hw hp], (Yard.drain_eq_ok_iff.1 hdrain).1,
    ⟨t, ⟨hbin, hw, hp, rfl⟩, huniq⟩, ?_, ?_⟩
  · intro u hu
    rw [huniq u hu]
    exact ⟨hdrain, finalize_tokens hb hw hp⟩
  · intro hn
    have ha := InfixTree.hasArities_of_tokens hbin hw hn
    rw [finalize_tokens hb hw hp]
    by_cases ht : t.WellTyped
    · rw [InfixTree.typeCheck_postorder_of_wellTyped ha ht]
      constructor
      · intro e he
        cases he
      · intro x hx
        cases hx
        simp [InfixTree.length_outputs ha]
    · obtain ⟨element, required, provided, he⟩ :=
        InfixTree.typeCheck_postorder_of_not_wellTyped ha ht b.inputs
      rw [he]
      constructor
      · intro e h
        cases h
        exact ⟨element, required, provided, rfl⟩
      · intro x hx
        cases hx

/-- Two operators of one precedence that differ in associativity, a group and a nested expression. All take
and give texts, so that one text is what comes out. -/
theorem Builder.appendEach_sentence_grouped :
    ∃ ts : List (Node TypeTag Scalar String), Sentence ts ∧ (∀ n ∈ ts, n.HasBinaryArity) ∧
      ts.map Node.symbol = ["a", "-", "b", "~", "(", "c", "~", "d", "-", "k", ")"] ∧
      (∃! t : InfixTree TypeTag Scalar String, t.Parses ts) ∧
      ((appendEach {} ts).builder.yard.drain.map (·.map Node.symbol)).toOption =
        some ["a", "b", "-", "c", "d", "k", "-", "~", "~"] ∧
      ∃ x, (appendEach {} ts).builder.finalize = .ok x ∧
        x.outputs = [Tracing.text] ∧ x.outputs.length = 1 := by
  let minus := Tracing.binary "-" 1 .left
  let tilde := Tracing.binary "~" 1 .right
  let ts := [Tracing.value "a", minus, Tracing.value "b", tilde, Tracing.opener, Tracing.value "c",
    tilde, Tracing.value "d", minus, .nested Tracing.constant, Tracing.closer]
  have hinner : Sentence [Tracing.value "c", tilde, Tracing.value "d", minus,
      .nested Tracing.constant] :=
    .chain (.chain (.single (.value rfl)) rfl (.value rfl)) rfl (.value rfl)
  have hs : Sentence ts :=
    .chain (.chain (.single (.value rfl)) rfl (.value rfl)) rfl (.group rfl hinner rfl)
  have harity : ∀ n ∈ ts, n.HasBinaryArity := by decide
  obtain ⟨-, -, hunique, -, hfinalize⟩ := appendEach_sentence (b := {}) ⟨rfl, rfl⟩ hs
  obtain ⟨x, hx, houtputs⟩ : ∃ x, (appendEach {} ts).builder.finalize = .ok x ∧
      x.outputs = [Tracing.text] := ⟨_, rfl, rfl⟩
  exact ⟨ts, hs, harity, rfl, hunique, rfl, x, hx, houtputs, (hfinalize harity).2 x hx⟩

end ExpressionEngine
