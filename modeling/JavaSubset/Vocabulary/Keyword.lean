/-!
# Keywords

The reserved words of the language, one type for each group of words the grammar treats alike:

* `DeclarationWord` : the words that head a top-level declaration;
* `Modifier` : the words in front of a class or a member (`Modifier.onClass`, `Modifier.onMember`);
* `PrimitiveType` : the names of types;
* `ControlWord` : the words of statements;
* `ExpressionWord` : the words inside expressions;
* `ReservedWord` : words without a meaning in this subset, which no identifier may take.

`Keyword` is their sum. Each group has a `spelling` and a list `all` in the order of the
vocabulary; `Keyword.ofSpelling?` finds a word by its exact spelling.
-/

namespace JavaSubset

/-! ## Groups of words -/

inductive DeclarationWord where
  | packageKw | importKw | classKw
  deriving DecidableEq

inductive Modifier where
  | publicMod | protectedMod | privateMod | staticMod | abstractMod | finalMod
  deriving DecidableEq

inductive PrimitiveType where
  | byte | short | int | long | char | float | double | boolean | void
  deriving DecidableEq

inductive ControlWord where
  | ifKw | elseKw | whileKw | doKw | breakKw | continueKw | returnKw | tryKw | catchKw | finallyKw
  deriving DecidableEq

inductive ExpressionWord where
  | superKw | thisKw | newKw | instanceofKw
  deriving DecidableEq

inductive ReservedWord where
  | constKw | defaultKw | extendsKw | implementsKw | interfaceKw | nativeKw | synchronizedKw
  | throwKw | throwsKw | transientKw | volatileKw | switchKw | caseKw | gotoKw
  deriving DecidableEq

namespace DeclarationWord

def spelling : DeclarationWord → String
  | packageKw => "package"
  | importKw => "import"
  | classKw => "class"

def all : List DeclarationWord := [packageKw, importKw, classKw]

end DeclarationWord

namespace Modifier

def spelling : Modifier → String
  | publicMod => "public"
  | protectedMod => "protected"
  | privateMod => "private"
  | staticMod => "static"
  | abstractMod => "abstract"
  | finalMod => "final"

/-- Every modifier, in the order in which modifier lists are shown. -/
def all : List Modifier := [publicMod, protectedMod, privateMod, staticMod, abstractMod, finalMod]

/-- The spelling with a capital first letter. -/
def name (m : Modifier) : String := m.spelling.capitalize

def ofSpelling? (text : String) : Option Modifier := all.find? (·.spelling = text)

/-- A class is public, abstract or final. -/
def onClass : Modifier → Bool
  | publicMod | abstractMod | finalMod => true
  | protectedMod | privateMod | staticMod => false

/-- A member takes every modifier but `abstract`: each method has a body. -/
def onMember : Modifier → Bool
  | abstractMod => false
  | _ => true

end Modifier

namespace PrimitiveType

def spelling : PrimitiveType → String
  | byte => "byte"
  | short => "short"
  | int => "int"
  | long => "long"
  | char => "char"
  | float => "float"
  | double => "double"
  | boolean => "boolean"
  | void => "void"

def all : List PrimitiveType := [byte, short, int, long, char, float, double, boolean, void]

/-- The spelling with a capital first letter. -/
def name (t : PrimitiveType) : String := t.spelling.capitalize

end PrimitiveType

namespace ControlWord

def spelling : ControlWord → String
  | ifKw => "if"
  | elseKw => "else"
  | whileKw => "while"
  | doKw => "do"
  | breakKw => "break"
  | continueKw => "continue"
  | returnKw => "return"
  | tryKw => "try"
  | catchKw => "catch"
  | finallyKw => "finally"

def all : List ControlWord :=
  [ifKw, elseKw, whileKw, doKw, breakKw, continueKw, returnKw, tryKw, catchKw, finallyKw]

end ControlWord

namespace ExpressionWord

def spelling : ExpressionWord → String
  | superKw => "super"
  | thisKw => "this"
  | newKw => "new"
  | instanceofKw => "instanceof"

def all : List ExpressionWord := [superKw, thisKw, newKw, instanceofKw]

end ExpressionWord

namespace ReservedWord

def spelling : ReservedWord → String
  | constKw => "const"
  | defaultKw => "default"
  | extendsKw => "extends"
  | implementsKw => "implements"
  | interfaceKw => "interface"
  | nativeKw => "native"
  | synchronizedKw => "synchronized"
  | throwKw => "throw"
  | throwsKw => "throws"
  | transientKw => "transient"
  | volatileKw => "volatile"
  | switchKw => "switch"
  | caseKw => "case"
  | gotoKw => "goto"

def all : List ReservedWord :=
  [constKw, defaultKw, extendsKw, implementsKw, interfaceKw, nativeKw, synchronizedKw,
    throwKw, throwsKw, transientKw, volatileKw, switchKw, caseKw, gotoKw]

end ReservedWord

/-! ## The vocabulary -/

inductive Keyword where
  | declaration (word : DeclarationWord)
  | modifier (modifier : Modifier)
  | primitive (type : PrimitiveType)
  | control (word : ControlWord)
  | expression (word : ExpressionWord)
  | reserved (word : ReservedWord)
  deriving DecidableEq

namespace Keyword

def spelling : Keyword → String
  | declaration w => w.spelling
  | modifier m => m.spelling
  | primitive t => t.spelling
  | control w => w.spelling
  | expression w => w.spelling
  | reserved w => w.spelling

/-- The spelling with a capital first letter. -/
def name (k : Keyword) : String := k.spelling.capitalize

/-- The name of the group a keyword belongs to. -/
def category : Keyword → String
  | declaration _ => "Declaration"
  | modifier _ => "Modifier"
  | primitive _ => "PrimitiveType"
  | control _ => "ControlFlow"
  | expression _ => "Expression"
  | reserved _ => "Reserved"

def all : List Keyword :=
  DeclarationWord.all.map declaration ++ Modifier.all.map modifier ++
    PrimitiveType.all.map primitive ++ ControlWord.all.map control ++
    ExpressionWord.all.map expression ++ ReservedWord.all.map reserved

/-- The keyword with exactly this spelling; upper and lower case differ. -/
def ofSpelling? (text : String) : Option Keyword := all.find? (·.spelling = text)

def primitiveType? : Keyword → Option PrimitiveType
  | primitive t => some t
  | _ => none

def modifier? : Keyword → Option Modifier
  | modifier m => some m
  | _ => none

end Keyword

end JavaSubset
