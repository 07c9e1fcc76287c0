import ExpressionEngine.Infix.Tree
import ExpressionEngine.Scalar.Behaviour

/-! Tracing nodes. A tracing node takes and gives texts, and what it gives is the text of its own
call, so that the value of an expression over such nodes shows how its operators are bracketed. -/

namespace ExpressionEngine

namespace Tracing

def text : TypeSet TypeTag := .single (.named "text")

def element (symbol : String) (kind : ElementKind) (arity : Nat) (precedence : Int)
    (associativity : Associativity) : Element TypeTag Scalar String where
  symbol := symbol
  kind := kind
  precedence := precedence
  associativity := associativity
  inputs := List.replicate arity text
  outputs := [text]
  execute := Behaviour.execute symbol (.call 1)

theorem execute_element (symbol : String) (kind : ElementKind) (arity : Nat) (precedence : Int)
    (associativity : Associativity) (s : Signal) (arguments : List Scalar) :
    (element symbol kind arity precedence associativity).execute s arguments =
      .values [.text (Behaviour.callText symbol arguments)] := rfl

def value (symbol : String) : Node TypeTag Scalar String :=
  .element (element symbol .value 0 0 .left)

/-- A prefix operator. -/
def unary (symbol : String) (precedence : Int) : Node TypeTag Scalar String :=
  .element (element symbol .operator 1 precedence .right)

def binary (symbol : String) (precedence : Int) (associativity : Associativity) :
    Node TypeTag Scalar String :=
  .element (element symbol .operator 2 precedence associativity)

def opener : Node TypeTag Scalar String := .element (element "(" .groupOpen 0 0 .left)

def closer : Node TypeTag Scalar String := .element (element ")" .groupClose 0 0 .left)

/-- A constant of its own, made to be nested. -/
def constant : Expression TypeTag Scalar String := ⟨"k", [value "e"], [], [text]⟩

/-- Takes a value off the stack of what it is nested in, and subtracts the constant. -/
def difference : Expression TypeTag Scalar String :=
  ⟨"d", [.nested constant, binary "-" 1 .left], [text], [text]⟩

/-- Nesting of depth two: for a given `v`, the product `v * (a - k)`. -/
def product : Expression TypeTag Scalar String :=
  ⟨"p", [value "a", .nested difference, binary "*" 2 .left], [text], [text]⟩

/-- Text, or nothing at all. -/
def optional : TypeSet TypeTag := .ofList [.named "text", .named "nil"]

/-- Takes and gives what is declared for it. -/
def declaring (symbol : String) (inputs outputs : List (TypeSet TypeTag)) :
    Node TypeTag Scalar String :=
  .element { element symbol .value 0 0 .left with inputs, outputs }

/-- Hands on the value it is given, and makes nothing of it. -/
def relay : Expression TypeTag Scalar String := ⟨"r", [], [optional], [optional]⟩

/-- Above a value of its own input, a text goes through two relays, one nested in the other. -/
def relayed : Expression TypeTag Scalar String :=
  ⟨"s", [value "a", .nested ⟨"t", [.nested relay], [optional], [optional]⟩], [text],
    [text, optional]⟩

/-- Two operators of one precedence that differ in associativity, one that binds tighter, a prefix
operator below them and one above, a group and a nested expression: `not a - ! b ~ ( c * d - k )`. -/
def mixed : InfixTree TypeTag Scalar String :=
  .unary (unary "not" 0)
    (.binary (binary "~" 1 .right)
      (.binary (binary "-" 1 .left) (.leaf (value "a")) (.unary (unary "!" 5) (.leaf (value "b"))))
      (.group opener
        (.binary (binary "-" 1 .left)
          (.binary (binary "*" 2 .left) (.leaf (value "c")) (.leaf (value "d")))
          (.leaf (.nested constant)))
        closer))

end Tracing

end ExpressionEngine
