/-!
# Places in a source text

* `Span` : a stretch of the text, as UTF-8 byte offsets;
* `Location` : a span with the number of the line it starts on;
* `Position` : a point of the text.

Offsets count bytes and lines count from one.
-/

namespace JavaSubset

/-- The bytes from `start` up to, not including, `stop`. -/
structure Span where
  start : Nat
  stop : Nat
  deriving DecidableEq

namespace Span

/-- The least span around two. -/
def merge (a b : Span) : Span := ⟨min a.start b.start, max a.stop b.stop⟩

/-- A span that stops before it starts has length zero. -/
def length (s : Span) : Nat := s.stop - s.start

def isEmpty (s : Span) : Bool := s.stop ≤ s.start

end Span

structure Location where
  span : Span
  line : Nat
  deriving DecidableEq

/-- From one location to a later one: both spans, on the line of the first. -/
def Location.merge (a b : Location) : Location := ⟨a.span.merge b.span, a.line⟩

structure Position where
  offset : Nat
  line : Nat
  deriving DecidableEq

/-- The number of bytes a text takes in UTF-8. -/
def utf8Length : List Char → Nat
  | [] => 0
  | c :: rest => c.utf8Size + utf8Length rest

namespace Position

/-- The first byte of the first line. -/
def start : Position := ⟨0, 1⟩

/-- The location of a text that starts at `p`. -/
def covering (p : Position) (text : List Char) : Location :=
  ⟨⟨p.offset, p.offset + utf8Length text⟩, p.line⟩

end Position

end JavaSubset
