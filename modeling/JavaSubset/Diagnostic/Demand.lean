import JavaSubset.Token

/-!
# What a production asks for

`Expected` is what would have been accepted, `Demand` pairs it with the sentence that is shown
when something else is found. Every demand of the grammar stands here, in the order of the
grammar: the header of the source, the class, its members, statements, expressions.
-/

namespace JavaSubset

inductive Expected where
  | token (kind : Token.Kind)
  | identifier
  | type
  | expression
  | statement
  | member
  | handler
  | endOfInput
  deriving DecidableEq

namespace Expected

def describe : Expected → String
  | token kind => kind.describe
  | identifier => "identifier"
  | type => "type"
  | expression => "expression"
  | statement => "statement"
  | member => "field or method declaration"
  | handler => "'catch' or 'finally'"
  | endOfInput => "end of input"

/-- The expectations that one token settles: that very kind, or an identifier. -/
def admits : Expected → Token.Kind → Bool
  | token kind, found => kind = found
  | identifier, found => found = .identifier
  | _, _ => false

end Expected

structure Demand where
  expected : Expected
  message : String
  deriving DecidableEq

namespace Demand

/-! ## Shapes -/

def mark (p : Punctuation) (message : String) : Demand := ⟨.token (.punctuation p), message⟩

def identifier (message : String) : Demand := ⟨.identifier, message⟩

def classWord (message : String) : Demand :=
  ⟨.token (.keyword (.declaration .classKw)), message⟩

/-! ## The header -/

def packageName : Demand := identifier "Expect package name."
def importName : Demand := identifier "Expect import name."
def nameAfterDot : Demand := identifier "Expect identifier after '.'."
def packageEnd : Demand := mark .semicolon "Expect ';' after package declaration."
def importEnd : Demand := mark .semicolon "Expect ';' after import declaration."

/-! ## The class -/

def classDeclaration : Demand := classWord "Expect class declaration."
def classAfterModifiers : Demand := classWord "Expect 'class' after class modifiers."
def classModifier : Demand := classWord "Modifier not allowed on a class."
def className : Demand := identifier "Expect class name."
def classBody : Demand := mark .lbrace "Expect '\x7b' before class body."
def classEnd : Demand := mark .rbrace "Expect '\x7d' after class body."
def sourceEnd : Demand := ⟨.endOfInput, "Expect end of input after class declaration."⟩

/-! ## Members -/

def member : Demand := ⟨.member, "Expect field or method declaration."⟩
def memberType : Demand := ⟨.type, "Expect type after modifiers."⟩
def memberName : Demand := identifier "Expect member name."
def type : Demand := ⟨.type, "Expect type."⟩
def parameterName : Demand := identifier "Expect parameter name."
def parametersEnd : Demand := mark .rparen "Expect ')' after parameters."
def methodBody : Demand := mark .lbrace "Expect '\x7b' before method body."
def fieldName : Demand := identifier "Expect field name."
def fieldEnd : Demand := mark .semicolon "Expect ';' after field declaration."

/-! ## Statements -/

def statement : Demand := ⟨.statement, "Expect statement."⟩
def block : Demand := mark .lbrace "Expect '\x7b'."
def blockEnd : Demand := mark .rbrace "Expect '\x7d' after block."
def variableName : Demand := identifier "Expect variable name."
def variablesEnd : Demand := mark .semicolon "Expect ';' after variable declaration."

/-- The condition of the statement that `word` opens. -/
def condition (word : ControlWord) : Demand :=
  mark .lparen ("Expect '(' after '" ++ word.spelling ++ "'.")

def conditionEnd (word : ControlWord) : Demand :=
  mark .rparen ("Expect ')' after " ++ word.spelling ++ " condition.")

def whileAfterBody : Demand :=
  ⟨.token (.keyword (.control .whileKw)), "Expect 'while' after do body."⟩

def doEnd : Demand := mark .semicolon "Expect ';' after do-while condition."
def breakEnd : Demand := mark .semicolon "Expect ';' after 'break'."
def continueEnd : Demand := mark .semicolon "Expect ';' after 'continue'."
def returnEnd : Demand := mark .semicolon "Expect ';' after return value."
def tryBody : Demand := mark .lbrace "Expect '\x7b' after 'try'."
def handler : Demand := ⟨.handler, "Expect 'catch' or 'finally' after try block."⟩
def catchParameter : Demand := mark .lparen "Expect '(' after 'catch'."
def exceptionType : Demand := identifier "Expect exception type."
def exceptionName : Demand := identifier "Expect exception parameter name."
def catchParameterEnd : Demand := mark .rparen "Expect ')' after catch parameter."
def catchBody : Demand := mark .lbrace "Expect '\x7b' before catch body."
def finallyBody : Demand := mark .lbrace "Expect '\x7b' after 'finally'."
def assignmentTarget : Demand := identifier "Invalid assignment target."
def expressionEnd : Demand := mark .semicolon "Expect ';' after expression."

/-! ## Expressions -/

def expression : Demand := ⟨.expression, "Expect expression."⟩
def groupEnd : Demand := mark .rparen "Expect ')' after expression."
def propertyName : Demand := identifier "Expect property name after '.'."
def methodArguments : Demand := mark .lparen "Expect '(' after method name."
def dotAfterSuper : Demand := mark .dot "Expect '.' after 'super'."
def superMethodName : Demand := identifier "Expect superclass method name."
def superArguments : Demand := mark .lparen "Expect '(' after superclass method name."
def newClassName : Demand := identifier "Expect class name after 'new'."
def newArguments : Demand := mark .lparen "Expect '(' after class name."
def argumentsEnd : Demand := mark .rparen "Expect ')' after arguments."

end Demand

end JavaSubset
