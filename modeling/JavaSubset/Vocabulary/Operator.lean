/-!
# Operators

Three families: `BinaryOp` joins two operands and belongs to a `Tier`, `Step` adds or takes one
from a variable, `AssignOp` stores a value. `Operator` is their sum, what a token can spell;
`UnaryOp` is what stands before or after a single operand in a tree.

A higher `precedence` binds tighter. All operators of a tier bind equally, so `&&` and `||` mix
from left to right.
-/

namespace JavaSubset

/-! ## Families -/

/-- The levels of binary operators, from the loosest. -/
inductive Tier where
  | logical | relational | additive | multiplicative
  deriving DecidableEq

inductive BinaryOp where
  | or | and | eq | notEq | lt | ltEq | gt | gtEq | add | sub | mul | div | mod
  deriving DecidableEq

inductive Step where
  | increment | decrement
  deriving DecidableEq

inductive AssignOp where
  | assign | addAssign | subAssign | mulAssign | divAssign | modAssign
  deriving DecidableEq

inductive UnaryOp where
  | plus
  | neg
  | pre (step : Step)
  | post (step : Step)
  deriving DecidableEq

def Tier.precedence : Tier → Nat
  | logical => 20
  | relational => 30
  | additive => 40
  | multiplicative => 50

namespace BinaryOp

def tier : BinaryOp → Tier
  | or | and => .logical
  | eq | notEq | lt | ltEq | gt | gtEq => .relational
  | add | sub => .additive
  | mul | div | mod => .multiplicative

def spelling : BinaryOp → String
  | or => "||"
  | and => "&&"
  | eq => "=="
  | notEq => "!="
  | lt => "<"
  | ltEq => "<="
  | gt => ">"
  | gtEq => ">="
  | add => "+"
  | sub => "-"
  | mul => "*"
  | div => "/"
  | mod => "%"

/-- The name of the operation, as tree listings show it. -/
def name : BinaryOp → String
  | or => "Or"
  | and => "And"
  | eq => "Eq"
  | notEq => "NotEq"
  | lt => "Lt"
  | ltEq => "LtEq"
  | gt => "Gt"
  | gtEq => "GtEq"
  | add => "Add"
  | sub => "Sub"
  | mul => "Mul"
  | div => "Div"
  | mod => "Mod"

end BinaryOp

def Step.spelling : Step → String
  | increment => "++"
  | decrement => "--"

def Step.name : Step → String
  | increment => "Increment"
  | decrement => "Decrement"

namespace AssignOp

def spelling : AssignOp → String
  | assign => "="
  | addAssign => "+="
  | subAssign => "-="
  | mulAssign => "*="
  | divAssign => "/="
  | modAssign => "%="

/-- The name of the operation, as tree listings show it. -/
def name : AssignOp → String
  | assign => "Assign"
  | addAssign => "AddAssign"
  | subAssign => "SubAssign"
  | mulAssign => "MulAssign"
  | divAssign => "DivAssign"
  | modAssign => "ModAssign"

end AssignOp

namespace UnaryOp

def symbol : UnaryOp → String
  | plus => "+"
  | neg => "-"
  | pre step | post step => step.spelling

/-- The name of the operation, as tree listings show it. -/
def name : UnaryOp → String
  | plus => "Plus"
  | neg => "Neg"
  | pre step => "Pre" ++ step.name
  | post step => "Post" ++ step.name

end UnaryOp

/-! ## The vocabulary -/

inductive Operator where
  | binary (op : BinaryOp)
  | step (op : Step)
  | assign (op : AssignOp)
  deriving DecidableEq

/-- Where the vocabulary places an operator: between operands, or in front of one. -/
inductive Fixity where
  | between
  | front
  deriving DecidableEq

def Fixity.name : Fixity → String
  | between => "Infix"
  | front => "Prefix"

namespace Operator

def spelling : Operator → String
  | binary op => op.spelling
  | step op => op.spelling
  | assign op => op.spelling

/-- The name of the symbol, whatever it does. -/
def name : Operator → String
  | binary .add => "Plus"
  | binary .sub => "Minus"
  | binary .mul => "Star"
  | binary .div => "Slash"
  | binary .mod => "Percent"
  | binary .eq => "EqEq"
  | binary .and => "AndAnd"
  | binary .or => "OrOr"
  | binary op => op.name
  | step .increment => "PlusPlus"
  | step .decrement => "MinusMinus"
  | assign .assign => "Assign"
  | assign .addAssign => "PlusEq"
  | assign .subAssign => "MinusEq"
  | assign .mulAssign => "StarEq"
  | assign .divAssign => "SlashEq"
  | assign .modAssign => "PercentEq"

def precedence : Operator → Nat
  | binary op => op.tier.precedence
  | step _ => 60
  | assign _ => 10

def fixity : Operator → Fixity
  | step _ => .front
  | binary _ | assign _ => .between

def binary? : Operator → Option BinaryOp
  | binary op => some op
  | _ => none

def assign? : Operator → Option AssignOp
  | assign op => some op
  | _ => none

def isAssignment (op : Operator) : Bool := op.assign?.isSome

def all : List Operator :=
  [binary .add, binary .sub, binary .mul, binary .div, binary .mod, step .increment,
    step .decrement, binary .eq, binary .notEq, binary .lt, binary .ltEq, binary .gt,
    binary .gtEq, binary .and, binary .or, assign .assign, assign .addAssign, assign .subAssign,
    assign .mulAssign, assign .divAssign, assign .modAssign]

def ofSpelling? (text : String) : Option Operator := all.find? (·.spelling = text)

end Operator

end JavaSubset
