import JavaSubset.Diagnostic
import JavaSubset.Token.Piece

/-!
# Lexing

`lex` cuts a source into pieces, gives each its place and keeps what matters of it: words and
illegal text become tokens, illegal text and unclosed comments become diagnostics. The last token
is the end of the source.
-/

namespace JavaSubset

structure Lexed where
  tokens : List Token
  diagnostics : List Diagnostic
  deriving DecidableEq

def Lexed.hasErrors (lexed : Lexed) : Bool := !lexed.diagnostics.isEmpty

namespace Piece

/-- The token a piece at `p` makes; blanks and comments make none. -/
def token? (p : Position) (piece : Piece) : Option Token :=
  let token kind literal := ⟨kind, String.ofList piece.text, literal, p.covering piece.text⟩
  match piece with
  | word kind _ literal => some (token kind literal)
  | stray _ | openString _ => some (token .illegal none)
  | blank _ | lineComment _ | blockComment _ | openComment _ => none

def problem? : Piece → Option Problem
  | openComment _ => some .unterminatedComment
  | openString _ => some .unterminatedString
  | stray c => some (.illegalCharacter c)
  | blank _ | lineComment _ | blockComment _ | word _ _ _ => none

/-- The diagnostic for a piece at `p`, if something is wrong with it. -/
def diagnostic? (p : Position) (piece : Piece) : Option Diagnostic :=
  piece.problem?.map (⟨·, p.covering piece.text⟩)

/-- The lines that end in a piece. Line feeds are counted between words and in block comments. -/
def lineFeeds : Piece → Nat
  | blank c => if c = '\n' then 1 else 0
  | blockComment body | openComment body => body.count '\n'
  | lineComment _ | word _ _ _ | stray _ | openString _ => 0

/-- Where a piece at `p` ends. -/
def stop (p : Position) (piece : Piece) : Position :=
  ⟨p.offset + utf8Length piece.text, p.line + piece.lineFeeds⟩

/-- Pieces with their positions, the first one at `p` and each one where the one before ends. -/
def place : Position → List Piece → List (Position × Piece)
  | _, [] => []
  | p, piece :: more => (p, piece) :: place (stop p piece) more

end Piece

/-- The tokens of a source and what is wrong with its spelling. -/
def lex (source : String) : Lexed :=
  let found := pieces source.toList
  let placed := Piece.place .start found
  let stop := found.foldl Piece.stop .start
  { tokens := placed.filterMap (fun x => x.2.token? x.1) ++
      [Token.endOfInput stop.line stop.offset]
    diagnostics := placed.filterMap (fun x => x.2.diagnostic? x.1) }

end JavaSubset
