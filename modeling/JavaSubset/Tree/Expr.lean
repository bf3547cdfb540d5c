import JavaSubset.Vocabulary.Operator

/-!
# Expressions

Every node carries a note of type `ι` as its first field: its location as parsing makes it, or
nothing (`Unit`) once places no longer matter. `Expr.map` changes the notes and keeps the shape.
Parentheses leave no node of their own.
-/

namespace JavaSubset

inductive Literal where
  /-- The digits as written. -/
  | number (digits : String)
  /-- The contents, with escapes resolved. -/
  | string (value : String)
  deriving DecidableEq

inductive Expr (ι : Type) where
  | binary (note : ι) (left : Expr ι) (op : BinaryOp) (right : Expr ι)
  | unary (note : ι) (op : UnaryOp) (operand : Expr ι)
  | literal (note : ι) (value : Literal)
  | ident (note : ι) (name : String)
  | this (note : ι)
  | field (note : ι) (target : Expr ι) (name : String)
  /-- A call of a method by its bare name. -/
  | call (note : ι) (name : String) (args : List (Expr ι))
  /-- A call of a method of `target`. -/
  | invoke (note : ι) (target : Expr ι) (name : String) (args : List (Expr ι))
  | superCall (note : ι) (name : String) (args : List (Expr ι))
  | new (note : ι) (className : String) (args : List (Expr ι))
  | assign (note : ι) (target : Expr ι) (op : AssignOp) (value : Expr ι)

namespace Expr

variable {ι κ : Type}

def note : Expr ι → ι
  | binary n .. | unary n .. | literal n .. | ident n .. | this n | field n .. | call n ..
  | invoke n .. | superCall n .. | new n .. | assign n .. => n

/-- The same node with another note; its children keep theirs. -/
def withNote (n : ι) : Expr ι → Expr ι
  | binary _ left op right => binary n left op right
  | unary _ op operand => unary n op operand
  | literal _ value => literal n value
  | ident _ name => ident n name
  | this _ => this n
  | field _ target name => field n target name
  | call _ name args => call n name args
  | invoke _ target name args => invoke n target name args
  | superCall _ name args => superCall n name args
  | new _ className args => new n className args
  | assign _ target op value => assign n target op value

/-- Variables and fields can be assigned to. -/
def isAssignable : Expr ι → Bool
  | ident .. | field .. => true
  | _ => false

mutual

/-- The same expression with `f` applied to every note. -/
def map (f : ι → κ) : Expr ι → Expr κ
  | binary n left op right => binary (f n) (left.map f) op (right.map f)
  | unary n op operand => unary (f n) op (operand.map f)
  | literal n value => literal (f n) value
  | ident n name => ident (f n) name
  | this n => this (f n)
  | field n target name => field (f n) (target.map f) name
  | call n name args => call (f n) name (mapList f args)
  | invoke n target name args => invoke (f n) (target.map f) name (mapList f args)
  | superCall n name args => superCall (f n) name (mapList f args)
  | new n className args => new (f n) className (mapList f args)
  | assign n target op value => assign (f n) (target.map f) op (value.map f)

def mapList (f : ι → κ) : List (Expr ι) → List (Expr κ)
  | [] => []
  | e :: more => e.map f :: mapList f more

end

theorem mapList_eq_map (f : ι → κ) (es : List (Expr ι)) : mapList f es = es.map (map f) := by
  induction es with
  | nil => rfl
  | cons e more ih => simp [mapList, ih]

end Expr

end JavaSubset
