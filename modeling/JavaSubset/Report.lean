import JavaSubset.Lexed
import JavaSubset.Parse.Program

/-!
# Checking a source

`check` lexes and parses a source. Lexical diagnostics come first, each group in the order of the
source.
-/

namespace JavaSubset

structure Report where
  tokens : List Token
  program : Program Location
  diagnostics : List Diagnostic

def Report.hadError (r : Report) : Bool := !r.diagnostics.isEmpty

def Report.lines (r : Report) : List String := r.diagnostics.map Diagnostic.report

def check (source : String) : Report :=
  let lexed := lex source
  let parsed := parse lexed.tokens
  ⟨lexed.tokens, parsed.program, lexed.diagnostics ++ parsed.diagnostics⟩

end JavaSubset
