import JavaSubset.Proofs.Pieces
import JavaSubset.Proofs.Placing

/-!
# Lexing line by line

A line break ends every piece but an open comment just as the end of the source does
(`Piece.Stands.append_newline`). So a source in which no comment is left open and a second one below
it are cut as each of them alone (`pieces_append_newline`), and what is found in the second one is
only found further down (`Location.shift`).
-/

namespace JavaSubset

variable {rest after : List Char}

/-! ## Pieces in front of a line break -/

theorem head?_append_newline {P : Char → Prop} (h : ∀ d ∈ after.head?, P d) (hline : P '\n') :
    ∀ d ∈ (after ++ '\n' :: rest).head?, P d := by
  cases after with
  | nil => simpa using hline
  | cons e after => simpa using h

namespace Piece

/-- A comment that is never closed. -/
def isOpenComment : Piece → Bool
  | openComment _ => true
  | _ => false

theorem Stands.append_newline {piece : Piece} (h : Stands piece after)
    (hclosed : piece.isOpenComment = false) : Stands piece (after ++ '\n' :: rest) := by
  cases h with
  | blank blank => exact .blank blank
  | lineComment inside stop => exact .lineComment inside (head?_append_newline stop rfl)
  | blockComment inside => exact .blockComment inside
  | openComment => cases hclosed
  | name start inside stop => exact .name start inside (head?_append_newline stop rfl)
  | whole some_digit inside stop point =>
    refine .whole some_digit inside (head?_append_newline stop rfl) fun d tail heq => ?_
    match after, heq with
    | [_], heq =>
      -- a point at the end, so the line break is what follows it
      cases heq
      rfl
    | _ :: e :: after, heq =>
      cases heq
      exact point d after rfl
  | fraction some_digit inside some_decimal behind stop =>
    exact .fraction some_digit inside some_decimal behind (head?_append_newline stop rfl)
  | string inside => exact .string inside
  | openString inside dangling stop =>
    exact .openString inside dangling (head?_append_newline stop rfl)
  | pair spelled => exact .pair spelled
  | single spelled stop comment =>
    exact .single spelled (head?_append_newline stop (ofSymbol?_of_isBlank rfl))
      (head?_append_newline comment fun _ => by decide)
  | stray mark unknown stop =>
    exact .stray mark unknown (head?_append_newline stop (ofSymbol?_of_isBlank rfl))

theorem Standing.append_newline {ps more : List Piece} (h : Standing ps)
    (hclosed : ∀ piece ∈ ps, piece.isOpenComment = false) (hmore : Standing more) :
    Standing (ps ++ blank '\n' :: more) := by
  induction ps with
  | nil => exact ⟨.blank rfl, hmore⟩
  | cons piece ps ih =>
    obtain ⟨hpiece, hps⟩ := h
    obtain ⟨hfirst, hrest⟩ := List.forall_mem_cons.mp hclosed
    have htext : (ps ++ blank '\n' :: more).flatMap text =
        ps.flatMap text ++ '\n' :: more.flatMap text := List.flatMap_append
    refine ⟨?_, ih hps hrest⟩
    exact htext ▸ hpiece.append_newline hfirst

end Piece

theorem pieces_append_newline {a b : List Char}
    (h : ∀ piece ∈ pieces a, piece.isOpenComment = false) :
    pieces (a ++ '\n' :: b) = pieces a ++ .blank '\n' :: pieces b := by
  have hstanding := (pieces_standing a).append_newline h (pieces_standing b)
  have htext : (pieces a ++ .blank '\n' :: pieces b).flatMap Piece.text = a ++ '\n' :: b := by
    rw [List.flatMap_append, List.flatMap_cons, pieces_text, pieces_text]
    rfl
  rw [← htext]
  exact hstanding.pieces_eq

/-! ## Further down -/

/-- The same place in a text with this many bytes and lines more in front of it. -/
def Location.shift (bytes lines : Nat) (loc : Location) : Location :=
  ⟨⟨loc.span.start + bytes, loc.span.stop + bytes⟩, loc.line + lines⟩

def Token.shift (bytes lines : Nat) (t : Token) : Token := { t with loc := t.loc.shift bytes lines }

def Diagnostic.shift (bytes lines : Nat) (d : Diagnostic) : Diagnostic :=
  { d with loc := d.loc.shift bytes lines }

def Position.shift (bytes lines : Nat) (p : Position) : Position :=
  ⟨p.offset + bytes, p.line + lines⟩

section Shift

variable {bytes lines : Nat} {p : Position}

theorem Position.after_shift (text : List Char) :
    (p.shift bytes lines).after text = (p.after text).shift bytes lines := by
  simp only [after, shift, Nat.add_right_comm]

theorem Position.covering_shift (text : List Char) :
    (p.shift bytes lines).covering text = (p.covering text).shift bytes lines := by
  simp only [covering, shift, Location.shift, Nat.add_right_comm]

namespace Piece

theorem token?_shift (piece : Piece) :
    piece.token? (p.shift bytes lines) = (piece.token? p).map (.shift bytes lines) := by
  cases piece <;> simp [token?, Position.covering_shift, Token.shift]

theorem diagnostic?_shift (piece : Piece) :
    piece.diagnostic? (p.shift bytes lines) = (piece.diagnostic? p).map (.shift bytes lines) := by
  unfold diagnostic?
  rw [Position.covering_shift, Option.map_map]
  rfl

theorem tokensAt_shift (ps : List Piece) :
    tokensAt (p.shift bytes lines) ps = (tokensAt p ps).map (.shift bytes lines) := by
  induction ps generalizing p with
  | nil => rfl
  | cons piece ps ih =>
    rw [tokensAt_cons, tokensAt_cons, token?_shift, Position.after_shift, ih, List.map_append,
      Option.toList_map]

theorem diagnosticsAt_shift (ps : List Piece) :
    diagnosticsAt (p.shift bytes lines) ps = (diagnosticsAt p ps).map (.shift bytes lines) := by
  induction ps generalizing p with
  | nil => rfl
  | cons piece ps ih =>
    rw [diagnosticsAt_cons, diagnosticsAt_cons, diagnostic?_shift, Position.after_shift, ih,
      List.map_append, Option.toList_map]

end Piece

end Shift

/-! ## Two sources, one below the other -/

/-- A comment that is left open is reported. -/
theorem isOpenComment_of_lex {source : String}
    (h : ∀ d ∈ (lex source).diagnostics, d.problem ≠ .unterminatedComment) :
    ∀ piece ∈ pieces source.toList, piece.isOpenComment = false := by
  intro piece hpiece
  cases piece with
  | openComment body =>
    obtain ⟨before, behind, hsplit⟩ := List.append_of_mem hpiece
    have hreported : ∃ loc, ⟨.unterminatedComment, loc⟩ ∈ (lex source).diagnostics := by
      rw [lex_diagnostics, hsplit, Piece.diagnosticsAt_append, Piece.diagnosticsAt_cons]
      exact ⟨_, List.mem_append_right _ List.mem_cons_self⟩
    obtain ⟨loc, hloc⟩ := hreported
    exact absurd rfl (h _ hloc)
  | _ => rfl

theorem start_after_newline (source : String) :
    (Position.start.after source.toList).after ['\n'] =
      Position.start.shift (source.utf8ByteSize + 1) (source.toList.count '\n' + 1) := by
  rw [← Position.after_append, Position.after, utf8Length_append, utf8Length_toList,
    List.count_append]
  rfl

theorem endOfInput_below (above below : String) :
    Token.endOfInput (1 + (above ++ "\n" ++ below).toList.count '\n')
        (above ++ "\n" ++ below).utf8ByteSize =
      (Token.endOfInput (1 + below.toList.count '\n') below.utf8ByteSize).shift
        (above.utf8ByteSize + 1) (above.toList.count '\n' + 1) := by
  have hlines : (above ++ "\n" ++ below).toList.count '\n' =
      below.toList.count '\n' + (above.toList.count '\n' + 1) := by
    rw [String.toList_append, String.toList_append, List.count_append, List.count_append]
    exact Nat.add_comm _ _
  have hbytes : (above ++ "\n" ++ below).utf8ByteSize =
      below.utf8ByteSize + (above.utf8ByteSize + 1) := by
    rw [String.utf8ByteSize_append, String.utf8ByteSize_append]
    exact Nat.add_comm _ _
  rw [hlines, hbytes, ← Nat.add_assoc]
  rfl

/-- **Lexing is compositional at line breaks.** Below a source that leaves no comment open another
one is lexed as if it stood alone. -/
theorem lex_append_newline (above below : String)
    (h : ∀ d ∈ (lex above).diagnostics, d.problem ≠ .unterminatedComment) :
    let bytes := above.utf8ByteSize + 1
    let lines := above.toList.count '\n' + 1
    (lex (above ++ "\n" ++ below)).tokens =
        (lex above).tokens.dropLast ++ (lex below).tokens.map (.shift bytes lines) ∧
      (lex (above ++ "\n" ++ below)).diagnostics =
        (lex above).diagnostics ++ (lex below).diagnostics.map (.shift bytes lines) := by
  intro bytes lines
  have hpieces : pieces (above ++ "\n" ++ below).toList =
      pieces above.toList ++ .blank '\n' :: pieces below.toList := by
    rw [← pieces_append_newline (isOpenComment_of_lex h)]
    simp
  have hbelow : (Position.start.after above.toList).after (Piece.blank '\n').text =
      Position.start.shift bytes lines := start_after_newline above
  constructor
  · rw [lex_tokens, hpieces, Piece.tokensAt_append, Piece.tokensAt_cons, pieces_text, hbelow,
      Piece.tokensAt_shift, endOfInput_below, lex_tokens above, List.dropLast_concat,
      lex_tokens below, List.map_append, List.append_assoc]
    rfl
  · rw [lex_diagnostics, hpieces, Piece.diagnosticsAt_append, Piece.diagnosticsAt_cons, pieces_text,
      hbelow, Piece.diagnosticsAt_shift, lex_diagnostics above, lex_diagnostics below]
    rfl

/-- A string that a backslash leaves open above a point, a closed comment and a stray character. -/
theorem lex_append_newline_open_string :
    let above := "int a = 1; /* é */ x = \"b\\"
    let below := ".5 /* c\n*/ # \"d"
    (∀ d ∈ (lex above).diagnostics, d.problem ≠ .unterminatedComment) ∧
      (lex (above ++ "\n" ++ below)).tokens =
        (lex above).tokens.dropLast ++ (lex below).tokens.map (.shift 28 1) ∧
      (lex (above ++ "\n" ++ below)).diagnostics =
        (lex above).diagnostics ++ (lex below).diagnostics.map (.shift 28 1) := by
  intro above below
  have h : ∀ d ∈ (lex above).diagnostics, d.problem ≠ .unterminatedComment := by decide +kernel
  have hbytes : above.utf8ByteSize + 1 = 28 := by decide +kernel
  have hlines : above.toList.count '\n' + 1 = 1 := by decide +kernel
  exact ⟨h, by simpa only [hbytes, hlines] using lex_append_newline above below h⟩

end JavaSubset
