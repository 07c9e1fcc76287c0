import Mathlib.Data.List.Basic
import ExpressionEngine.Expression.Dump
import ExpressionEngine.Text.Pieces

/-! Dumps as they are read. A heading begins a block, which goes on for as long as its lines have a bar before
them; without the bars it is read like the whole. -/

namespace ExpressionEngine

open Text

namespace Outline

/-- The line without the bar that stands before it, if one does. -/
def barred? (line : String) : Option String :=
  (line.toList.dropPrefix? "|   ".toList).map String.ofList

/-- The name in a heading. -/
def heading? (line : String) : Option String :=
  (line.toList.dropPrefix? "[".toList).bind fun rest =>
    (rest.dropSuffix? "]:".toList).map String.ofList

def isBarred (line : String) : Bool := (barred? line).isSome

/-- The items that stand side by side in some lines. -/
def readItems : List String → List Outline
  | [] => []
  | line :: rest =>
    match heading? line with
    | none => .leaf line :: readItems rest
    | some name =>
      .block name (readItems ((rest.takeWhile isBarred).filterMap barred?)) ::
        readItems (rest.dropWhile isBarred)
termination_by lines => lines.length
decreasing_by
  all_goals simp only [List.length_cons]
  · omega
  · have hfilter := List.length_filterMap_le barred? (rest.takeWhile isBarred)
    have htake := (List.takeWhile_sublist isBarred (l := rest)).length_le
    omega
  · have hdrop := (List.dropWhile_sublist isBarred (l := rest)).length_le
    omega

/-- All that a dump shows. -/
def readDump (text : String) : List Outline := readItems (lines text)

theorem barred?_eq_some_iff {line rest : String} : barred? line = some rest ↔ line = "|   " ++ rest := by
  simp only [barred?, Option.map_eq_some_iff, List.dropPrefix?_eq_some_iff, beq_iff_eq]
  constructor
  · rintro ⟨cs, ⟨p, h, rfl⟩, rfl⟩
    rw [← String.toList_inj, h]
    simp
  · rintro rfl
    exact ⟨rest.toList, ⟨_, String.toList_append, rfl⟩, String.ofList_toList⟩

theorem heading?_eq_some_iff {line name : String} : heading? line = some name ↔ line = heading name := by
  simp only [heading?, Option.bind_eq_some_iff, Option.map_eq_some_iff, List.dropPrefix?_eq_some_iff,
    List.dropSuffix?_eq_some_iff, beq_iff_eq]
  constructor
  · rintro ⟨cs, ⟨p, h, rfl⟩, ds, ⟨q, rfl, rfl⟩, rfl⟩
    rw [← String.toList_inj, h, heading]
    simp
  · rintro rfl
    refine ⟨name.toList ++ "]:".toList, ⟨_, ?_, rfl⟩, name.toList, ⟨_, rfl, rfl⟩,
      String.ofList_toList⟩
    simp [heading]

theorem barred?_eq_none_iff {line : String} : barred? line = none ↔ ∀ rest, line ≠ "|   " ++ rest := by
  rw [Option.eq_none_iff_forall_not_mem]
  exact forall_congr' fun _ => not_congr barred?_eq_some_iff

theorem heading?_eq_none_iff {line : String} : heading? line = none ↔ ∀ name, line ≠ heading name := by
  rw [Option.eq_none_iff_forall_not_mem]
  exact forall_congr' fun _ => not_congr heading?_eq_some_iff

end Outline

/-- A symbol that cannot be taken for a heading or for a line with a bar. -/
structure PlainSymbol (symbol : String) : Prop where
  ne_bar : ∀ rest, symbol ≠ "|   " ++ rest
  ne_heading : ∀ name, symbol ≠ heading name

theorem plainSymbol_iff (symbol : String) : PlainSymbol symbol ↔
    Outline.barred? symbol = none ∧ Outline.heading? symbol = none := by
  rw [Outline.barred?_eq_none_iff, Outline.heading?_eq_none_iff]
  exact ⟨fun h => ⟨h.ne_bar, h.ne_heading⟩, fun ⟨hbar, hheading⟩ => ⟨hbar, hheading⟩⟩

instance (symbol : String) : Decidable (PlainSymbol symbol) :=
  decidable_of_iff' _ (plainSymbol_iff symbol)

end ExpressionEngine
