import ExpressionEngine.Text.CharClass

/-! Quoted text, as error messages and debug forms show it: the text between double quotes, with
every character that could not be read off the page written as an escape. -/

namespace ExpressionEngine.Text

/-- The letter of a two-character escape, for the characters that have one. -/
def escapeLetter? : Char → Option Char
  | '\t' => some 't'
  | '\r' => some 'r'
  | '\n' => some 'n'
  | '"' => some '"'
  | '\\' => some '\\'
  | c => if c.toNat = 0 then some '0' else none

/-- The code point in lower-case hexadecimal, without padding. -/
def hexDigits (c : Char) : List Char := Nat.toDigits 16 c.toNat

/-- The character would merge into the one before it; an extending letter does not. -/
def isJoining (c : Char) : Bool := isGraphemeExtend c && !isExtendingLetter c

/-- A visible ASCII character stands for itself; the tables decide on the others. -/
def needsCodePoint (c : Char) : Bool :=
  if 0x20 ≤ c.toNat && c.toNat < 0x7f then false
  else isJoining c || isDefaultIgnorable c || isUnprintable c

def quoteChar (c : Char) : List Char :=
  match escapeLetter? c with
  | some letter => ['\\', letter]
  | none => if needsCodePoint c then "\\u\x7b".toList ++ hexDigits c ++ "\x7d".toList else [c]

/-- The text between double quotes, unreadable characters escaped. -/
def quote (s : String) : String :=
  String.ofList ('"' :: (s.toList.flatMap quoteChar ++ ['"']))

example : quote "a\"b\\\n" = "\"a\\\"b\\\\\\n\"" := by decide +kernel

example : quote "'é\u0301\u007f" = "\"'é\\u\x7b301\x7d\\u\x7b7f\x7d\"" := by decide +kernel

example : quote "\u1160\uff9e" = "\"\\u\x7b1160\x7d\uff9e\"" := by decide +kernel

end ExpressionEngine.Text
