import ExpressionEngine.Expression.Inline
import ExpressionEngine.Expression.Reader
import ExpressionEngine.Scalar.Tracing
import ExpressionEngine.Span

/-! Dumps are made of dumps, and can be read back. One level of depth is one bar before every line, so the dump
of a nested expression stands in the dump around it with a bar before its lines; and as nothing else that
stands in a dump begins with a bar, or looks like a heading, it shows where each block begins and ends. -/

namespace ExpressionEngine

open Text Outline

variable {τ ν ε : Type}

/-! ### Depth -/

theorem margin_zero : margin 0 = "" := rfl

theorem margin_succ (depth : Nat) : margin (depth + 1) = "|   " ++ margin depth := by
  rw [margin, List.replicate_succ, String.join_cons, ← margin]

mutual

theorem Outline.entries_succ (depth : Nat) :
    ∀ o : Outline, o.entries (depth + 1) = (o.entries depth).map ("|   " ++ ·)
  | .leaf _ => by simp [entries, margin_succ, String.append_assoc]
  | .block _ items => by
    simp [entries, margin_succ, String.append_assoc, entriesOf_succ (depth + 1) items]

theorem entriesOf_succ (depth : Nat) : ∀ items : List Outline,
    entriesOf (depth + 1) items = (entriesOf depth items).map ("|   " ++ ·)
  | [] => rfl
  | o :: rest => by
    rw [entriesOf, entriesOf, o.entries_succ depth, entriesOf_succ depth rest, List.map_append]

end

theorem entriesOf_eq_flatMap (depth : Nat) (items : List Outline) :
    entriesOf depth items = items.flatMap (Outline.entries depth) := by
  induction items with
  | nil => rfl
  | cons o rest ih => rw [entriesOf, ih, List.flatMap_cons]

/-- The lines of the dump of a node, were it to stand alone. -/
def Node.dumpLines (n : Node τ ν ε) : List String := n.outline.entries 0

theorem Node.dumpLines_element (e : Element τ ν ε) : (Node.element e).dumpLines = [e.symbol] := by
  rw [dumpLines, outline, entries, margin_zero, String.empty_append]

theorem Node.dumpLines_nested (x : Expression τ ν ε) : (Node.nested x).dumpLines =
    heading x.name :: (x.program.flatMap Node.dumpLines).map ("|   " ++ ·) := by
  obtain ⟨name, program, inputs, outputs⟩ := x
  rw [dumpLines, outline, Expression.outline, entries, margin_zero, String.empty_append, entriesOf_succ,
    entriesOf_eq_flatMap, outlineOf_eq_map, List.flatMap_map]
  rfl

theorem Expression.dump_eq (x : Expression τ ν ε) : x.dump = ofLines (Node.nested x).dumpLines := rfl

/-! ### Lines -/

/-- Every name and every symbol is shown on one line. -/
structure Expression.SingleLine (x : Expression τ ν ε) : Prop where
  name : '\n' ∉ x.name.toList
  nodes : ∀ n ∈ x.nodes, '\n' ∉ n.symbol.toList

/-- The text with a bar before every line. -/
def barAll (text : String) : String := ofLines ((lines text).map ("|   " ++ ·))

/-- What stands for a node in the dump of the expression that it is a node of. -/
def Node.dumpInside : Node τ ν ε → String
  | .element e => "|   " ++ e.symbol ++ "\n"
  | .nested x => barAll x.dump

namespace Expression.SingleLine

variable {x y : Expression τ ν ε}

theorem nested (h : x.SingleLine) (hy : .nested y ∈ x.program) : y.SingleLine where
  name := h.nodes _ (mem_nodes_of_descent hy (Node.mem_descent_self _))
  nodes n hn := h.nodes n (mem_nodes_of_descent hy (List.mem_cons_of_mem _ hn))

theorem symbol (h : x.SingleLine) {n : Node τ ν ε} (hn : n ∈ x.program) : '\n' ∉ n.symbol.toList :=
  h.nodes n (mem_nodes_of_descent hn n.mem_descent_self)

theorem not_mem_of_mem_dumpLines (h : x.SingleLine) :
    ∀ line ∈ (Node.nested x).dumpLines, '\n' ∉ line.toList := by
  induction x using Expression.nestedInduction with
  | step x ih =>
    rw [Node.dumpLines_nested]
    refine List.forall_mem_cons.2 ⟨?_, fun line hline => ?_⟩
    · simpa [heading] using h.name
    · obtain ⟨inner, hinner, rfl⟩ := List.mem_map.1 hline
      obtain ⟨n, hn, hinner⟩ := List.mem_flatMap.1 hinner
      have hfeed : '\n' ∉ inner.toList := by
        cases n with
        | element e =>
          rw [Node.dumpLines_element, List.mem_singleton] at hinner
          rw [hinner]
          exact h.symbol hn
        | nested y => exact ih y hn (h.nested hn) inner hinner
      simpa using hfeed

theorem lines_dump (h : x.SingleLine) : lines x.dump = (Node.nested x).dumpLines :=
  lines_ofLines h.not_mem_of_mem_dumpLines

theorem ofLines_map_dumpLines (h : x.SingleLine) {n : Node τ ν ε} (hn : n ∈ x.program) :
    ofLines (n.dumpLines.map ("|   " ++ ·)) = n.dumpInside := by
  cases n with
  | element e =>
    rw [Node.dumpLines_element, Node.dumpInside, List.map_singleton, ofLines_cons]
    exact String.append_empty
  | nested y => rw [Node.dumpInside, barAll, (h.nested hn).lines_dump]

/-- The heading, and then what stands for each node. -/
theorem dump_eq_join (h : x.SingleLine) : x.dump =
    heading x.name ++ "\n" ++ String.join (x.program.map Node.dumpInside) := by
  have hparts : x.program.map Node.dumpInside =
      x.program.map fun n => ofLines (n.dumpLines.map ("|   " ++ ·)) :=
    List.map_congr_left fun n hn => (h.ofLines_map_dumpLines hn).symm
  rw [dump_eq, Node.dumpLines_nested, ofLines_cons, hparts]
  congr 1
  induction x.program with
  | nil => rfl
  | cons n rest ih =>
    rw [List.flatMap_cons, List.map_append, ofLines_append, ih, List.map_cons, String.join_cons]

end Expression.SingleLine

/-! ### Reading back -/

theorem isBarred_bar (line : String) : isBarred ("|   " ++ line) = true := by
  rw [isBarred, barred?_eq_some_iff.2 rfl]
  rfl

theorem isBarred_eq_false {line : String} (h : ∀ rest, line ≠ "|   " ++ rest) :
    isBarred line = false := by
  rw [isBarred, barred?_eq_none_iff.2 h]
  rfl

theorem heading_ne_bar (name rest : String) : heading name ≠ "|   " ++ rest := by
  intro h
  have hchars := congrArg String.toList h
  simp [heading] at hchars

theorem filterMap_barred?_map (ls : List String) : (ls.map ("|   " ++ ·)).filterMap barred? = ls := by
  have hsome : (barred? ∘ ("|   " ++ ·)) = some := funext fun line => barred?_eq_some_iff.2 rfl
  rw [List.filterMap_map, hsome, List.filterMap_some]

theorem readItems_leaf {line : String} (h : ∀ name, line ≠ heading name) (rest : List String) :
    readItems (line :: rest) = .leaf line :: readItems rest := by
  rw [readItems, heading?_eq_none_iff.2 h]

/-- The block ends where the bars end. -/
theorem readItems_block (name : String) (inside : List String) {rest : List String}
    (hrest : ∀ line ∈ rest.head?, isBarred line = false) :
    readItems (heading name :: (inside.map ("|   " ++ ·) ++ rest)) =
      .block name (readItems inside) :: readItems rest := by
  have hinside : ∀ line ∈ inside.map ("|   " ++ ·), isBarred line = true :=
    List.forall_mem_map.2 fun line _ => isBarred_bar line
  obtain ⟨htake, hdrop⟩ := span_of_split hinside hrest
  rw [readItems, heading?_eq_some_iff.2 rfl]
  dsimp only
  rw [htake, hdrop, filterMap_barred?_map]

/-- The lines of the node are read as the node, whatever stands behind them without a bar. -/
structure Node.ReadsBack (n : Node τ ν ε) : Prop where
  begins : ∃ line more, n.dumpLines = line :: more ∧ isBarred line = false
  reads : ∀ rest, (∀ line ∈ rest.head?, isBarred line = false) →
    readItems (n.dumpLines ++ rest) = n.outline :: readItems rest

theorem readItems_flatMap {program : List (Node τ ν ε)} (h : ∀ n ∈ program, n.ReadsBack) :
    readItems (program.flatMap Node.dumpLines) = outlineOf program := by
  induction program with
  | nil => rw [List.flatMap_nil, readItems, outlineOf]
  | cons n rest ih =>
    have hrest : ∀ line ∈ (rest.flatMap Node.dumpLines).head?, isBarred line = false := by
      cases rest with
      | nil => simp
      | cons m rest =>
        obtain ⟨line, more, hlines, hline⟩ := (h m (by simp)).begins
        simpa [hlines] using hline
    rw [List.flatMap_cons, (h n List.mem_cons_self).reads _ hrest, outlineOf,
      ih fun m hm => h m (List.mem_cons_of_mem n hm)]

namespace Expression

/-- No symbol of an element can be taken for anything else. -/
def PlainSymbols (x : Expression τ ν ε) : Prop := ∀ e ∈ x.leaves, PlainSymbol e.symbol

instance (x : Expression τ ν ε) : Decidable x.PlainSymbols :=
  inferInstanceAs (Decidable (∀ e ∈ x.leaves, PlainSymbol e.symbol))

variable {x y : Expression τ ν ε}

theorem PlainSymbols.nested (h : x.PlainSymbols) (hy : .nested y ∈ x.program) : y.PlainSymbols :=
  fun e he => h e (mem_leaves_of_nested hy he)

theorem PlainSymbols.readsBack (h : x.PlainSymbols) : (Node.nested x).ReadsBack := by
  induction x using Expression.nestedInduction with
  | step x ih =>
    have hprogram : ∀ n ∈ x.program, n.ReadsBack := by
      intro n hn
      cases n with
      | element e =>
        have he : PlainSymbol e.symbol := h e (mem_leaves_of_element hn)
        refine ⟨⟨e.symbol, [], Node.dumpLines_element e, isBarred_eq_false he.ne_bar⟩, fun rest _ => ?_⟩
        rw [Node.dumpLines_element]
        exact readItems_leaf he.ne_heading rest
      | nested y => exact ih y hn (h.nested hn)
    refine ⟨⟨_, _, Node.dumpLines_nested x, isBarred_eq_false (heading_ne_bar x.name)⟩, ?_⟩
    intro rest hrest
    rw [Node.dumpLines_nested, List.cons_append, readItems_block _ _ hrest, readItems_flatMap hprogram]
    cases x
    rfl

theorem readDump_dump (hx : x.SingleLine) (h : x.PlainSymbols) : readDump x.dump = [x.outline] := by
  have hread := h.readsBack.reads [] (by simp)
  rw [List.append_nil] at hread
  rw [readDump, hx.lines_dump, hread, readItems]
  rfl

theorem outline_eq_iff :
    x.outline = y.outline ↔ x.name = y.name ∧ outlineOf x.program = outlineOf y.program := by
  cases x
  cases y
  simp [outline]

theorem length_lines_dump (hx : x.SingleLine) : (lines x.dump).length = 1 + x.nodes.length := by
  rw [hx.lines_dump, Node.dumpLines, Outline.length_entries, Node.outline, size_outline]

theorem dump_eq_iff (hx : x.SingleLine) (h : x.PlainSymbols) (hy : y.SingleLine)
    (hplain : y.PlainSymbols) : x.dump = y.dump ↔ x.outline = y.outline := by
  constructor
  · intro hdump
    have hread := readDump_dump hx h
    rw [hdump, readDump_dump hy hplain] at hread
    exact (List.cons.inj hread).1.symm
  · intro houtline
    rw [dump, dump, houtline]

/-- A dump is made of dumps: it has the heading with the name, and then for every node its symbol or its own
dump, with one bar more before each line. Its lines are ended by one line feed each, and there is one for the
expression and one for every node at any depth. Unless symbols look like something else, the dump is read
as the expression's outline, so that expressions with one dump have the same name and the same tree. -/
theorem dump_readable (hx : x.SingleLine) :
    x.dump = heading x.name ++ "\n" ++ String.join (x.program.map Node.dumpInside) ∧
      (x.dump = ofLines (lines x.dump) ∧ ∀ line ∈ lines x.dump, '\n' ∉ line.toList) ∧
      (lines x.dump).length = 1 + x.nodes.length ∧
      (x.PlainSymbols → readDump x.dump = [x.outline] ∧
        ∀ y : Expression τ ν ε, y.SingleLine → y.PlainSymbols →
          (x.dump = y.dump ↔ x.name = y.name ∧ outlineOf x.program = outlineOf y.program)) := by
  have hlines := hx.lines_dump
  refine ⟨hx.dump_eq_join, ⟨?_, ?_⟩, length_lines_dump hx, fun h => ⟨readDump_dump hx h, ?_⟩⟩
  · rw [hlines, dump_eq]
  · rw [hlines]
    exact hx.not_mem_of_mem_dumpLines
  · intro y hy hplain
    rw [dump_eq_iff hx h hy hplain, outline_eq_iff]

/-- Symbols may be empty, and may begin almost like a bar or a heading; a name may even look like one. An
expression without nodes shows nothing but its own heading. -/
theorem dump_readable_nested :
    let empty : Expression TypeTag Scalar String := ⟨"", [], [], []⟩
    let inner : Expression TypeTag Scalar String :=
      ⟨"[k]:", [.nested empty, Tracing.value "|  +"], [], []⟩
    let x : Expression TypeTag Scalar String :=
      ⟨"p", [Tracing.value "", .nested inner, Tracing.value "[k"], [], []⟩
    x.SingleLine ∧ x.PlainSymbols ∧
      x.dump = "[p]:\n|   \n|   [[k]:]:\n|   |   []:\n|   |   |  +\n|   [k\n" ∧
      (lines x.dump).length = 6 ∧ readDump x.dump = [x.outline] ∧ x.dump ≠ inner.dump := by
  intro empty inner x
  have hx : x.SingleLine := ⟨by decide, by decide⟩
  have hinner : inner.SingleLine := ⟨by decide, by decide⟩
  have hplain : x.PlainSymbols := by decide
  obtain ⟨-, -, hlength, hread⟩ := dump_readable hx
  refine ⟨hx, hplain, by decide, hlength, (hread hplain).1, fun hdump => ?_⟩
  have hname := (((hread hplain).2 inner hinner (by decide)).1 hdump).1
  exact absurd hname (by decide)

end Expression

end ExpressionEngine
