import ExpressionEngine.Text.Quoted

/-! Debug forms: what a value is made of, as a tree with two layouts. The compact layout is one
line; the pretty layout gives every entry a line of its own, four spaces further in, and ends each
entry with a comma. -/

namespace ExpressionEngine.Text

inductive DebugForm where
  | atom (text : String)
  | field (name : String) (value : DebugForm)
  | sequence (items : List DebugForm)
  | tuple (name : String) (items : List DebugForm)
  | record (name : String) (fields : List DebugForm)

/-- Puts four spaces before every line of the text, also before an empty one. -/
def indentChars : Bool → List Char → List Char
  | _, [] => []
  | true, c :: cs => ' ' :: ' ' :: ' ' :: ' ' :: c :: indentChars (c == '\n') cs
  | false, c :: cs => c :: indentChars (c == '\n') cs

def indent (s : String) : String := String.ofList (indentChars true s.toList)

/-- One entry of a pretty layout. -/
def entry (s : String) : String := indent (s ++ ",\n")

namespace DebugForm

def quoted (s : String) : DebugForm := .atom (quote s)

def nat (n : Nat) : DebugForm := .atom (toString n)

mutual

/-- The layout on one line. -/
def compact : DebugForm → String
  | .atom text => text
  | .field name value => name ++ ": " ++ value.compact
  | .sequence items => "[" ++ ", ".intercalate (compactAll items) ++ "]"
  | .tuple name items => name ++ "(" ++ ", ".intercalate (compactAll items) ++ ")"
  | .record name fields => name ++ " \x7b " ++ ", ".intercalate (compactAll fields) ++ " \x7d"

def compactAll : List DebugForm → List String
  | [] => []
  | form :: rest => form.compact :: compactAll rest

end

mutual

/-- The layout with a line for every entry. An empty sequence stays on its line. -/
def pretty : DebugForm → String
  | .atom text => text
  | .field name value => name ++ ": " ++ value.pretty
  | .sequence [] => "[]"
  | .sequence items => "[\n" ++ prettyEntries items ++ "]"
  | .tuple name items => name ++ "(\n" ++ prettyEntries items ++ ")"
  | .record name fields => name ++ " \x7b\n" ++ prettyEntries fields ++ "\x7d"

def prettyEntries : List DebugForm → String
  | [] => ""
  | form :: rest => entry form.pretty ++ prettyEntries rest

end

end DebugForm

example : (DebugForm.tuple "Expression" [.quoted "1 + 2"]).pretty =
    "Expression(\n    \"1 + 2\",\n)" := by decide +kernel

end ExpressionEngine.Text
