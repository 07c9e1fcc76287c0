import ExpressionEngine.Proofs.Infix.Placement

/-! Reading a tree back from its tokens. A reader goes along with the yard: where the yard puts an
operator in place, the reader gives it the two trees it completed last, and where the yard closes a
group, it puts the delimiters around the last one. On the tokens of a precedence-correct binary tree
it ends with that tree, so no two such trees are written alike. -/

namespace ExpressionEngine

variable {τ ν ε : Type}

open Yard

namespace InfixTree

/-- Without prefix operators. -/
def IsBinary : InfixTree τ ν ε → Prop
  | .leaf _ => True
  | .group _ inner _ => inner.IsBinary
  | .unary _ _ => False
  | .binary _ left right => left.IsBinary ∧ right.IsBinary

/-- A way to read the tokens, with every operator between the operands that are its due. -/
structure Parses (t : InfixTree τ ν ε) (ts : List (Node τ ν ε)) : Prop where
  isBinary : t.IsBinary
  wellFormed : t.WellFormed
  precedenceCorrect : t.PrecedenceCorrect
  tokens_eq : t.tokens = ts

end InfixTree

/-- The trees completed so far, and the operators and open groups that wait; the latest first. -/
structure Reader (τ ν ε : Type) where
  operands : List (InfixTree τ ν ε) := []
  pending : List (Node τ ν ε) := []

namespace Reader

/-- Gives an operator the two trees completed last. -/
def join : List (InfixTree τ ν ε) → Node τ ν ε → List (InfixTree τ ν ε)
  | right :: left :: rest, o => .binary o left right :: rest
  | operands, _ => operands

def joinAll (operands : List (InfixTree τ ν ε)) (os : List (Node τ ν ε)) : List (InfixTree τ ν ε) :=
  os.foldl join operands

/-- Puts the delimiters around the tree completed last. -/
def enclose (opener closer : Node τ ν ε) : List (InfixTree τ ν ε) → List (InfixTree τ ν ε)
  | inner :: rest => .group opener inner closer :: rest
  | [] => []

def read (r : Reader τ ν ε) (n : Node τ ν ε) : Reader τ ν ε :=
  match n.kind with
  | .value => { r with operands := .leaf n :: r.operands }
  | .groupOpen => { r with pending := n :: r.pending }
  | .groupClose =>
    match r.pending.dropWhile (!isOpener ·) with
    | [] => r
    | o :: outer =>
      ⟨enclose o n (joinAll r.operands (r.pending.takeWhile (!isOpener ·))), outer⟩
  | .operator =>
    ⟨joinAll r.operands (r.pending.takeWhile (yieldsTo n)), n :: r.pending.dropWhile (yieldsTo n)⟩

def readAll (r : Reader τ ν ε) (ns : List (Node τ ν ε)) : Reader τ ν ε := ns.foldl read r

/-- The trees left at the end, once nothing waits any more. -/
def finish (r : Reader τ ν ε) : List (InfixTree τ ν ε) := joinAll r.operands r.pending

theorem joinAll_append (operands : List (InfixTree τ ν ε)) (os ps : List (Node τ ν ε)) :
    joinAll operands (os ++ ps) = joinAll (joinAll operands os) ps := List.foldl_append

theorem readAll_cons (r : Reader τ ν ε) (n : Node τ ν ε) (ns : List (Node τ ν ε)) :
    r.readAll (n :: ns) = (r.read n).readAll ns := rfl

theorem readAll_append (r : Reader τ ν ε) (ns ms : List (Node τ ν ε)) :
    r.readAll (ns ++ ms) = (r.readAll ns).readAll ms := List.foldl_append

theorem read_groupClose {operands : List (InfixTree τ ν ε)} {inner outer : List (Node τ ν ε)}
    {n o : Node τ ν ε} (h : n.kind = .groupClose) (hi : ∀ m ∈ inner, m.kind = .operator)
    (ho : o.kind = .groupOpen) :
    read ⟨operands, inner ++ o :: outer⟩ n = ⟨enclose o n (joinAll operands inner), outer⟩ := by
  obtain ⟨ht, hd⟩ := span_not_opener hi ho outer
  simp only [read, h, ht, hd]

theorem read_operator {operands : List (InfixTree τ ν ε)} {inner outer : List (Node τ ν ε)}
    {n : Node τ ν ε} (h : n.kind = .operator)
    (hi : ∀ m ∈ inner, m.kind = .operator ∧ m.BindsBefore n) (ho : Shields outer [n]) :
    read ⟨operands, inner ++ outer⟩ n = ⟨joinAll operands inner, n :: outer⟩ := by
  obtain ⟨ht, hd⟩ := span_yieldsTo hi ho
  simp only [read, h, ht, hd]

/-- The tokens of a tree leave its right edge waiting and the operands that complete the tree. -/
theorem readAll_tokens {t : InfixTree τ ν ε} (hb : t.IsBinary) (hw : t.WellFormed)
    (hp : t.PrecedenceCorrect) (operands : List (InfixTree τ ν ε)) {pending : List (Node τ ν ε)}
    (hs : Shields pending t.leftEdge) :
    ∃ operands', readAll ⟨operands, pending⟩ t.tokens = ⟨operands', t.rightEdge.reverse ++ pending⟩ ∧
      joinAll operands' t.rightEdge.reverse = t :: operands := by
  induction t generalizing operands pending with
  | leaf n =>
    refine ⟨.leaf n :: operands, ?_, rfl⟩
    have hk : n.kind = .value := hw
    simp [InfixTree.tokens, InfixTree.rightEdge, readAll, read, hk]
  | group opener inner closer ih =>
    obtain ⟨ho, hwi, hc⟩ := hw
    obtain ⟨inners, hread, hjoin⟩ := ih hb hwi hp operands (shields_groupOpen ho pending _)
    have hopen : read ⟨operands, pending⟩ opener = ⟨operands, opener :: pending⟩ := by
      simp [read, ho]
    have hedge := InfixTree.kind_of_mem_reverse_rightEdge hwi
    refine ⟨.group opener inner closer :: operands, ?_, rfl⟩
    rw [InfixTree.tokens, readAll_cons, hopen, readAll_append, hread, readAll_cons,
      read_groupClose hc hedge ho, hjoin]
    rfl
  | unary o operand _ => exact hb.elim
  | binary o left right ihl ihr =>
    obtain ⟨hbl, hbr⟩ := hb
    obtain ⟨hk, hwl, hwr⟩ := hw
    obtain ⟨hleft, hright, hpl, hpr⟩ := hp
    obtain ⟨hso, hsl⟩ := shields_cons.1 hs
    have hedge := InfixTree.releases_rightEdge hwl hleft
    obtain ⟨lefts, hreadl, hjoinl⟩ := ihl hbl hwl hpl operands hsl
    obtain ⟨rights, hreadr, hjoinr⟩ :=
      ihr hbr hwr hpr (left :: operands) (shields_operator hright pending)
    refine ⟨rights, ?_, ?_⟩
    · rw [InfixTree.tokens, readAll_append, hreadl, readAll_cons, read_operator hk hedge hso, hjoinl,
        hreadr]
      simp [InfixTree.rightEdge]
    · rw [InfixTree.rightEdge, List.reverse_cons, joinAll_append, hjoinr]
      rfl

theorem finish_readAll {t : InfixTree τ ν ε} {ts : List (Node τ ν ε)} (h : t.Parses ts) :
    (readAll {} ts).finish = [t] := by
  obtain ⟨hb, hw, hp, rfl⟩ := h
  obtain ⟨operands, hread, hjoin⟩ := readAll_tokens hb hw hp [] (shields_nil t.leftEdge)
  rw [hread, finish, List.append_nil, hjoin]

end Reader

/-- There is at most one way to read a sequence. -/
theorem InfixTree.Parses.unique {t u : InfixTree τ ν ε} {ts : List (Node τ ν ε)}
    (ht : t.Parses ts) (hu : u.Parses ts) : t = u :=
  List.singleton_inj.1 ((Reader.finish_readAll ht).symm.trans (Reader.finish_readAll hu))

end ExpressionEngine
