import ExpressionEngine.Fault.BuildError

/-! Diagnostics, and their reports as shown on a terminal. The code stands on a line of its own above
an empty line; the message follows an icon, and its further lines a bar; the help comes last. Every
line of a text keeps its indentation and loses the blanks at its end. -/

namespace ExpressionEngine

/-! ### What is shown of a fault -/

inductive Severity where
  | error | warning | advice
  deriving DecidableEq

/-- A code is a text, or something that fails to be written down. -/
inductive DiagnosticCode where
  | text (s : String)
  | unwritable
  deriving DecidableEq

structure Diagnostic where
  message : String
  code : Option DiagnosticCode := none
  help : Option String := none
  severity : Option Severity := none
  deriving DecidableEq

def BuildError.diagnostic (e : BuildError) : Diagnostic where
  message := e.message
  code := some (.text e.code)
  help := e.help

/-! ### How it is shown -/

/-- How a report is set off: the icons, and whether they are coloured. -/
structure Theme where
  icon : Severity → String := fun
    | .error => "×"
    | .warning => "⚠"
    | .advice => "☞"
  bar : String := "│"
  coloured : Bool := true

namespace Theme

/-- Red for errors, yellow for warnings, cyan for advice. -/
def colour : Severity → String
  | .error => "31"
  | .warning => "33"
  | .advice => "36"

/-- The text between the escapes that switch a colour on and off. -/
def paint (theme : Theme) (severity : Severity) (s : String) : String :=
  if theme.coloured then "\x1b[" ++ colour severity ++ "m" ++ s ++ "\x1b[0m" else s

end Theme

namespace Report

/-- Cuts at every line feed; a text without one is a single line. -/
def splitLines : List Char → List (List Char)
  | [] => [[]]
  | c :: cs =>
    if c = '\n' then [] :: splitLines cs
    else match splitLines cs with
      | [] => [[c]]
      | line :: rest => (c :: line) :: rest

def trimEnd (line : List Char) : List Char := (line.reverse.dropWhile (· = ' ')).reverse

/-- The text's lines, the first behind `first` and the others behind `rest`, each ended. -/
def indented (first rest s : String) : String :=
  let ended indentation line := indentation ++ String.ofList (trimEnd line) ++ "\n"
  match splitLines s.toList with
  | [] => ""
  | line :: more => ended first line ++ String.join (more.map (ended rest))

def codeLines (theme : Theme) (severity : Severity) : Option DiagnosticCode → Option String
  | none => some ""
  | some (.text s) => some (theme.paint severity s ++ "\n\n")
  | some .unwritable => none

def messageLines (theme : Theme) (severity : Severity) (message : String) : String :=
  indented ("  " ++ theme.paint severity (theme.icon severity) ++ " ")
    ("  " ++ theme.paint severity theme.bar ++ " ") message

def helpLines (theme : Theme) : Option String → String
  | none => ""
  | some help => indented (theme.paint .advice "  help: ") "        " help

end Report

namespace Diagnostic

open Report

/-- The laid out report; none if the code cannot be written. A severity left open is an error. -/
def report? (theme : Theme) (d : Diagnostic) : Option String :=
  let severity := d.severity.getD .error
  (codeLines theme severity d.code).map
    (· ++ messageLines theme severity d.message ++ helpLines theme d.help)

/-- The report, or the bare message where there is none. -/
def render (theme : Theme) (d : Diagnostic) : String := (d.report? theme).getD d.message

example : ({ message := "two \n\nlines", help := some "h" } : Diagnostic).render { coloured := false } =
    "  × two\n  │ \n  │ lines\n  help: h\n" := by decide +kernel

example : ({ message := "m", code := some .unwritable } : Diagnostic).render {} = "m" := by
  decide +kernel

end Diagnostic

end ExpressionEngine
