import JavaSubset.Lexed
import JavaSubset.Proofs.Pieces

/-!
# Pieces in their places

`Position.after p text` is where a text that starts at `p` ends, with every line feed in it counted.
Lexing counts them only between words and in block comments, and that is all there are
(`Piece.Stands.count_newline`); so a piece of a source stands where the text in front of it ends
(`Piece.Standing.place_eq`).

What a list of pieces gives when its first one stands at a position: `Piece.tokensAt` and
`Piece.diagnosticsAt`. Both are taken apart piece by piece and at any point between two pieces;
`lex` is what the pieces of the source give at its start.
-/

namespace JavaSubset

/-! ## Bytes -/

@[simp] theorem utf8Length_append (a b : List Char) :
    utf8Length (a ++ b) = utf8Length a + utf8Length b := by
  induction a with
  | nil => rw [List.nil_append, utf8Length, Nat.zero_add]
  | cons c a ih => rw [List.cons_append, utf8Length, utf8Length, ih, Nat.add_assoc]

theorem utf8Length_pos {text : List Char} (h : text ≠ []) : 0 < utf8Length text := by
  obtain ⟨c, rest, rfl⟩ := List.exists_cons_of_ne_nil h
  have hc := c.utf8Size_pos
  rw [utf8Length]
  omega

theorem utf8Length_eq (text : List Char) :
    utf8Length text = (String.ofList text).utf8ByteSize := by
  induction text with
  | nil => rfl
  | cons c rest ih =>
    have hsplit : String.ofList (c :: rest) = String.singleton c ++ String.ofList rest := by
      rw [String.singleton_eq_ofList, ← String.ofList_append, List.singleton_append]
    rw [hsplit, String.utf8ByteSize_append, String.utf8ByteSize_singleton, utf8Length, ih]

@[simp] theorem utf8Length_toList (s : String) : utf8Length s.toList = s.utf8ByteSize := by
  rw [utf8Length_eq, String.ofList_toList]

namespace Position

/-- Where a text that starts at `p` ends. -/
def after (p : Position) (text : List Char) : Position :=
  ⟨p.offset + utf8Length text, p.line + text.count '\n'⟩

theorem after_append (p : Position) (a b : List Char) : p.after (a ++ b) = (p.after a).after b := by
  simp only [after, utf8Length_append, List.count_append, Nat.add_assoc]

end Position

/-! ## Line feeds -/

theorem newline_not_mem_of_all {accepts : Char → Bool} {text : List Char}
    (h : accepts '\n' = false) (hall : ∀ c ∈ text, accepts c = true) : '\n' ∉ text := by
  intro hmem
  rw [hall _ hmem] at h
  cases h

theorem IsMark.ne_newline {c : Char} (h : IsMark c) : c ≠ '\n' := by
  rintro rfl
  exact absurd h.blank (by decide)

theorem newline_not_mem_symbol {text : List Char} {kind : Token.Kind}
    (h : Token.Kind.ofSymbol? (String.ofList text) = some kind) : '\n' ∉ text :=
  fun hmem => (isMark_of_mem_symbols _ (mem_symbols h) _ hmem).ne_newline rfl

namespace Piece

variable {p : Position} {piece : Piece} {ps more : List Piece} {after : List Char} {t : Token}

/-- Of all pieces only blanks and block comments reach over the end of a line. -/
theorem Stands.newline_not_mem (h : piece.Stands after) (ht : piece.token? p = some t) :
    '\n' ∉ piece.text := by
  cases h with
  | blank | lineComment | blockComment | openComment => cases ht
  | @name c parts _ start inside =>
    have hparts : ∀ d ∈ c :: parts, isNamePart d = true :=
      List.forall_mem_cons.mpr ⟨isNamePart_of_isNameStart start, inside⟩
    exact newline_not_mem_of_all (by decide) hparts
  | whole _ inside => exact newline_not_mem_of_all (by decide) inside
  | @fraction digits decimals _ _ inside _ behind =>
    have hdigits : '\n' ∉ digits := newline_not_mem_of_all (by decide) inside
    have hdecimals : '\n' ∉ decimals := newline_not_mem_of_all (by decide) behind
    simp [text, hdigits, hdecimals]
  | @string items _ inside =>
    have htexts := StringItem.newline_not_mem_texts inside (.inl rfl)
    rw [List.append_nil] at htexts
    simp [text, htexts]
  | @openString items loose _ inside dangling =>
    rw [text, List.mem_cons, not_or]
    exact ⟨by decide, StringItem.newline_not_mem_texts inside dangling⟩
  | pair spelled | single spelled => exact newline_not_mem_symbol spelled
  | stray mark => simpa [text] using mark.ne_newline.symm

/-- **Only blanks and block comments move the line.** All line feeds of a piece are counted. -/
theorem Stands.count_newline (h : piece.Stands after) :
    piece.text.count '\n' = piece.lineFeeds := by
  cases piece with
  | blank c => simp [text, lineFeeds, List.count_singleton]
  | blockComment body => simp [text, lineFeeds]
  | openComment body => simp [text, lineFeeds]
  | lineComment body =>
    cases h with
    | lineComment inside => simp [text, lineFeeds, List.count_eq_zero.mpr inside]
  | word kind text literal =>
    exact List.count_eq_zero.mpr (h.newline_not_mem (p := .start) rfl)
  | stray c => exact List.count_eq_zero.mpr (h.newline_not_mem (p := .start) rfl)
  | openString body => exact List.count_eq_zero.mpr (h.newline_not_mem (p := .start) rfl)

theorem Stands.stop_eq (h : piece.Stands after) (p : Position) :
    stop p piece = p.after piece.text := by
  rw [stop, Position.after, h.count_newline]

/-! ## Placed pieces -/

/-- Pieces with their positions, each one where the text in front of it ends. -/
def placed : Position → List Piece → List (Position × Piece)
  | _, [] => []
  | p, piece :: more => (p, piece) :: placed (p.after piece.text) more

theorem Standing.place_eq (h : Standing ps) (p : Position) : place p ps = placed p ps := by
  induction ps generalizing p with
  | nil => rfl
  | cons piece more ih =>
    obtain ⟨hpiece, hmore⟩ := h
    rw [place, placed, hpiece.stop_eq, ih hmore]

/-- Behind all pieces the whole text has been read. -/
theorem Standing.foldl_stop (h : Standing ps) (p : Position) :
    ps.foldl stop p = p.after (ps.flatMap text) := by
  induction ps generalizing p with
  | nil => rfl
  | cons piece more ih =>
    obtain ⟨hpiece, hmore⟩ := h
    rw [List.foldl_cons, ih hmore, hpiece.stop_eq, List.flatMap_cons, Position.after_append]

def tokensAt (p : Position) (ps : List Piece) : List Token :=
  (placed p ps).filterMap (fun x => x.2.token? x.1)

def diagnosticsAt (p : Position) (ps : List Piece) : List Diagnostic :=
  (placed p ps).filterMap (fun x => x.2.diagnostic? x.1)

theorem placed_append :
    placed p (ps ++ more) = placed p ps ++ placed (p.after (ps.flatMap text)) more := by
  induction ps generalizing p with
  | nil => rfl
  | cons piece ps ih =>
    rw [List.cons_append, placed, ih, List.flatMap_cons, Position.after_append]
    rfl

theorem tokensAt_cons :
    tokensAt p (piece :: ps) = (piece.token? p).toList ++ tokensAt (p.after piece.text) ps := by
  unfold tokensAt
  rw [placed]
  cases h : piece.token? p <;> simp [h]

theorem tokensAt_append :
    tokensAt p (ps ++ more) = tokensAt p ps ++ tokensAt (p.after (ps.flatMap text)) more := by
  rw [tokensAt, placed_append, List.filterMap_append, tokensAt, tokensAt]

theorem diagnosticsAt_cons : diagnosticsAt p (piece :: ps) =
    (piece.diagnostic? p).toList ++ diagnosticsAt (p.after piece.text) ps := by
  unfold diagnosticsAt
  rw [placed]
  cases h : piece.diagnostic? p <;> simp [h]

theorem diagnosticsAt_append : diagnosticsAt p (ps ++ more) =
    diagnosticsAt p ps ++ diagnosticsAt (p.after (ps.flatMap text)) more := by
  rw [diagnosticsAt, placed_append, List.filterMap_append, diagnosticsAt, diagnosticsAt]

end Piece

/-! ## A whole source -/

theorem lex_tokens (source : String) :
    (lex source).tokens = Piece.tokensAt .start (pieces source.toList) ++
      [.endOfInput (1 + source.toList.count '\n') source.utf8ByteSize] := by
  have hstanding := pieces_standing source.toList
  have hbytes : (Position.start.after source.toList).offset = source.utf8ByteSize := by
    rw [Position.after, utf8Length_toList]
    exact Nat.zero_add _
  have hstop := hstanding.foldl_stop .start
  rw [pieces_text] at hstop
  unfold lex
  simp only [hstanding.place_eq, hstop, hbytes]
  rfl

theorem lex_diagnostics (source : String) :
    (lex source).diagnostics = Piece.diagnosticsAt .start (pieces source.toList) := by
  unfold lex
  simp only [(pieces_standing source.toList).place_eq]
  rfl

end JavaSubset
