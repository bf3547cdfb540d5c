/-!
# Outlines

An `Outline` is a tree to be shown over several lines: what belongs to a node stands below it, one
item a line, four spaces further in and with a comma behind it.
-/

namespace JavaSubset

inductive Outline where
  | atom (text : String)
  /-- Named fields in braces. -/
  | record (name : String) (fields : List (String × Outline))
  /-- Items in parentheses. -/
  | tuple (name : String) (items : List Outline)
  | list (items : List Outline)
  | set (items : List Outline)

namespace Outline

def indent (level : Nat) : String := String.ofList (List.replicate (4 * level) ' ')

/-- Lines between an opening and a closing bracket; nothing stands between the brackets if there
are no lines. -/
def bracket (level : Nat) (opening closing : String) (lines : List String) : String :=
  if lines.isEmpty then opening ++ closing
  else
    let shown := lines.map fun line => indent (level + 1) ++ line ++ ",\n"
    opening ++ "\n" ++ String.join shown ++ indent level ++ closing

mutual

/-- The text of an outline whose first line is already indented to `level`. -/
def render (level : Nat) : Outline → String
  | atom text => text
  | record name fields => bracket level (name ++ " \x7b") "\x7d" (renderFields (level + 1) fields)
  | tuple name items => bracket level (name ++ "(") ")" (renderItems (level + 1) items)
  | list items => bracket level "[" "]" (renderItems (level + 1) items)
  | set items => bracket level "\x7b" "\x7d" (renderItems (level + 1) items)

def renderFields (level : Nat) : List (String × Outline) → List String
  | [] => []
  | (name, value) :: more => (name ++ ": " ++ render level value) :: renderFields level more

def renderItems (level : Nat) : List Outline → List String
  | [] => []
  | item :: more => render level item :: renderItems level more

end

def option : Option Outline → Outline
  | none => atom "None"
  | some value => tuple "Some" [value]

def number (n : Nat) : Outline := atom (toString n)

end Outline

end JavaSubset
