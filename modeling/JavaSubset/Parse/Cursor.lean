import JavaSubset.Token

/-!
# Reading tokens

A `Cursor` is a place in a list of tokens: those still ahead, the one just read and the end of
the source, which stands for every token after the last. Illegal text is dropped before parsing
starts (`Cursor.ofTokens`), so each token ahead counts.
-/

namespace JavaSubset

structure Cursor where
  eof : Token
  /-- The token just read; the end of the source if none has been read. -/
  last : Token
  rest : List Token
  eof_kind : eof.kind = .eof

namespace Cursor

/-- The end of a list of tokens: its last token if that is an end, else a new one behind it. -/
def endOf (tokens : List Token) : Token :=
  match tokens.getLast? with
  | none => .endOfInput 1 0
  | some t => if t.kind = .eof then t else .endOfInput t.loc.line t.loc.span.stop

theorem endOf_kind (tokens : List Token) : (endOf tokens).kind = .eof := by
  unfold endOf
  split
  · rfl
  · split
    · assumption
    · rfl

def ofTokens (tokens : List Token) : Cursor where
  eof := endOf tokens
  last := endOf tokens
  rest := tokens.filter (·.kind.isKept)
  eof_kind := endOf_kind tokens

def atEnd (c : Cursor) : Bool := c.rest.isEmpty

/-- The next token. -/
def peek (c : Cursor) : Token := c.rest.headD c.eof

/-- The token after the next. -/
def peekNext (c : Cursor) : Token := c.rest.tail.headD c.eof

/-- Reads one token; at the end nothing happens. -/
def advance (c : Cursor) : Cursor :=
  match c.rest with
  | [] => c
  | t :: rest => { c with last := t, rest }

/-- Reads `n` tokens. -/
def skip (c : Cursor) : Nat → Cursor
  | 0 => c
  | n + 1 => c.advance.skip n

/-- Reads all tokens. -/
def toEnd (c : Cursor) : Cursor := c.skip c.rest.length

/-- Reads up to the first token with property `p`. -/
def skipTo (c : Cursor) (p : Token → Bool) : Cursor := c.skip (c.rest.findIdx p)

/-- Where a node ends that starts with the token `start` and ends with the one just read. -/
def locationFrom (c : Cursor) (start : Token) : Location :=
  let offset := start.loc.span.start
  ⟨⟨offset, max c.last.loc.span.stop offset⟩, start.loc.line⟩

end Cursor

end JavaSubset
