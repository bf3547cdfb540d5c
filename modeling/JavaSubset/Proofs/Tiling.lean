import JavaSubset.Proofs.Placing

/-!
# Tokens and the text between them

* `Trivia after gap` : the text `gap`, with `after` behind it, is made of blanks and comments;
* `Tiled offset text tokens` : from `offset` on the text is trivia and tokens in turn, up to the
  end of the source, with every token placed where it stands;
* `Tiles source tokens` : what this says of each token and each gap of a whole source.

The tokens of a source tile it (`lex_tiles`).
-/

namespace JavaSubset

/-! ## Trivia -/

/-- Blanks and comments, with the text `after` behind them. -/
inductive Trivia (after : List Char) : List Char → Prop where
  | nil : Trivia after []
  | blank {c : Char} {gap : List Char} (blank : isBlank c = true) (more : Trivia after gap) :
      Trivia after (c :: gap)
  /-- A comment behind `//` goes up to the end of its line. -/
  | lineComment {body gap : List Char} (inside : '\n' ∉ body) (stop : EndsLine (gap ++ after))
      (more : Trivia after gap) : Trivia after ('/' :: '/' :: (body ++ gap))
  /-- A comment behind `/*` goes up to the first `*/`. -/
  | blockComment {body gap : List Char} (inside : ¬ ['*', '/'] <:+: body ++ ['*'])
      (more : Trivia after gap) : Trivia after ('/' :: '*' :: (body ++ '*' :: '/' :: gap))
  /-- Without one it goes up to the end of the source. -/
  | openComment {body : List Char} (inside : ¬ ['*', '/'] <:+: body) (last : after = []) :
      Trivia after ('/' :: '*' :: body)

variable {after gap : List Char} {p : Position} {offset : Nat} {t : Token}
  {tokens : List Token}

namespace Piece

variable {piece : Piece}

/-- A piece that makes no token is trivia. -/
theorem Stands.trivia (h : Stands piece (gap ++ after)) (hnone : piece.token? p = none)
    (hgap : Trivia after gap) : Trivia after (piece.text ++ gap) := by
  generalize hrest : gap ++ after = rest at h
  cases h with
  | blank blank => exact .blank blank hgap
  | lineComment inside stop => exact .lineComment inside (hrest ▸ stop) hgap
  | @blockComment body _ inside =>
    have htext : (Piece.blockComment body).text ++ gap =
        '/' :: '*' :: (body ++ '*' :: '/' :: gap) := by simp [text]
    rw [htext]
    exact .blockComment inside hgap
  | openComment inside =>
    obtain ⟨rfl, rfl⟩ := List.append_eq_nil_iff.mp hrest
    rw [List.append_nil]
    exact .openComment inside rfl
  | name | whole | fraction | string | openString | pair | single | stray => cases hnone

theorem nameKind_isKept (text : List Char) : (nameKind text).isKept = true := by
  unfold nameKind
  split <;> rfl

theorem nameKind_spelling {word : Keyword} {text : List Char}
    (h : nameKind text = .keyword word) : String.ofList text = word.spelling := by
  unfold nameKind at h
  split at h
  · next found hfound =>
    cases h
    have hspell : word.spelling = String.ofList text := by simpa using List.find?_some hfound
    exact hspell.symm
  · cases h

theorem symbol_isKept {text : String} {kind : Token.Kind}
    (h : Token.Kind.ofSymbol? text = some kind) : kind.isKept = true := by
  rcases ofSymbol?_cases h with ⟨op, -, -, rfl⟩ | ⟨mark, -, -, rfl⟩ <;> rfl

theorem Stands.word_isKept {kind : Token.Kind} {text after : List Char} {literal : Option String}
    (h : Stands (word kind text literal) after) : kind.isKept = true := by
  cases h with
  | name => exact nameKind_isKept _
  | whole | fraction | string => rfl
  | pair spelled => exact symbol_isKept spelled
  | single spelled => exact symbol_isKept spelled

theorem Stands.text_ne_nil (h : Stands piece after) : piece.text ≠ [] := by
  cases h with
  | whole some_digit => exact some_digit
  | _ => simp [text]

/-- The token of a piece covers it and is not the end of the source. -/
theorem Stands.token (h : Stands piece after) (hsome : piece.token? p = some t) :
    t.text = String.ofList piece.text ∧ t.loc = p.covering piece.text ∧ t.kind ≠ .eof := by
  cases piece with
  | word kind text literal =>
    cases hsome
    refine ⟨rfl, rfl, ?_⟩
    rintro rfl
    cases h.word_isKept
  | stray c =>
    cases hsome
    exact ⟨rfl, rfl, by simp⟩
  | openString body =>
    cases hsome
    exact ⟨rfl, rfl, by simp⟩
  | blank | lineComment | blockComment | openComment => cases hsome

/-! ## The word of a token -/

/-- The word that makes a token. -/
def ofToken (t : Token) : Piece := word t.kind t.text.toList t.literal

theorem exists_stands_ofToken {ps : List Piece} {p : Position} {t : Token} (h : Standing ps)
    (ht : t ∈ tokensAt p ps) (hkept : t.kind.isKept = true) :
    ∃ after, Stands (ofToken t) after := by
  induction ps generalizing p with
  | nil => cases ht
  | cons piece more ih =>
    obtain ⟨hpiece, hmore⟩ := h
    rw [tokensAt_cons, List.mem_append, Option.mem_toList] at ht
    rcases ht with htoken | ht
    · cases piece with
      | word kind text literal =>
        cases htoken
        refine ⟨more.flatMap Piece.text, ?_⟩
        rw [ofToken, String.toList_ofList]
        exact hpiece
      | stray | openString =>
        cases htoken
        cases hkept
      | blank | lineComment | blockComment | openComment => cases htoken
    · exact ih hmore ht

end Piece

theorem exists_stands_of_lex {source : String} {t : Token}
    (ht : t ∈ (lex source).tokens.filter (·.kind.isKept)) :
    ∃ after, Piece.Stands (.ofToken t) after := by
  obtain ⟨ht, hkept⟩ := List.mem_filter.mp ht
  rw [lex_tokens, List.mem_append, List.mem_singleton] at ht
  rcases ht with ht | rfl
  · exact Piece.exists_stands_ofToken (pieces_standing _) ht hkept
  · cases hkept

/-! ## Where each piece stands -/

theorem Piece.Standing.of_mem_placed {ps : List Piece} {p q : Position} {piece : Piece}
    (h : Standing ps) (hmem : (q, piece) ∈ placed p ps) :
    ∃ before after, ps.flatMap text = before ++ (piece.text ++ after) ∧ q = p.after before ∧
      Stands piece after := by
  induction ps generalizing p with
  | nil => cases hmem
  | cons first more ih =>
    obtain ⟨hfirst, hmore⟩ := h
    rw [List.flatMap_cons]
    rcases List.mem_cons.mp hmem with heq | hmem
    · cases heq
      exact ⟨[], more.flatMap text, rfl, rfl, hfirst⟩
    · obtain ⟨before, after, htext, rfl, hstands⟩ := ih hmore hmem
      refine ⟨first.text ++ before, after, ?_, (Position.after_append ..).symm, hstands⟩
      rw [htext, List.append_assoc]

/-- Every piece of a source stands in front of what follows it there. -/
theorem stands_of_mem_placed {source : String} {q : Position} {piece : Piece}
    (h : (q, piece) ∈ Piece.placed .start (pieces source.toList)) :
    ∃ before after, source.toList = before ++ (piece.text ++ after) ∧
      q = Position.start.after before ∧ piece.Stands after := by
  have hstands := (pieces_standing source.toList).of_mem_placed h
  rwa [pieces_text] at hstands

/-! ## Trivia and tokens in turn -/

inductive Tiled : Nat → List Char → List Token → Prop where
  | last {offset : Nat} {gap : List Char} {eof : Token} (trivia : Trivia [] gap)
      (kind : eof.kind = .eof) (empty : eof.text = "")
      (span : eof.loc.span = ⟨offset + utf8Length gap, offset + utf8Length gap⟩) :
      Tiled offset gap [eof]
  | word {offset : Nat} {gap rest : List Char} {t : Token} {tokens : List Token}
      (trivia : Trivia (t.text.toList ++ rest) gap) (kind : t.kind ≠ .eof)
      (some_text : t.text.toList ≠ [])
      (span : t.loc.span = ⟨offset + utf8Length gap, offset + utf8Length (gap ++ t.text.toList)⟩)
      (more : Tiled t.loc.span.stop rest tokens) :
      Tiled offset (gap ++ (t.text.toList ++ rest)) (t :: tokens)

/-- More trivia in front. -/
theorem Tiled.behind {lead text : List Char} (h : Tiled (offset + utf8Length lead) text tokens)
    (trivia : ∀ {gap after}, text = gap ++ after → Trivia after gap → Trivia after (lead ++ gap)) :
    Tiled offset (lead ++ text) tokens := by
  cases h with
  | last htrivia kind empty span =>
    refine .last (trivia (List.append_nil _).symm htrivia) kind empty ?_
    rw [span, utf8Length_append, Nat.add_assoc]
  | word htrivia kind some_text span more =>
    rw [← List.append_assoc]
    refine .word (trivia rfl htrivia) kind some_text ?_ more
    rw [span, List.append_assoc, utf8Length_append lead, utf8Length_append lead, Nat.add_assoc,
      Nat.add_assoc]

/-- The tokens of pieces, with the end of the source behind them. -/
theorem Piece.Standing.tiled {ps : List Piece} (h : Standing ps) (p : Position) (line : Nat) :
    Tiled p.offset (ps.flatMap text)
      (tokensAt p ps ++ [.endOfInput line (p.offset + utf8Length (ps.flatMap text))]) := by
  induction ps generalizing p with
  | nil => exact .last .nil rfl rfl rfl
  | cons piece more ih =>
    obtain ⟨hpiece, hmore⟩ := h
    have hrest := ih hmore (p.after piece.text)
    have hstop : p.offset + utf8Length ((piece :: more).flatMap text) =
        (p.after piece.text).offset + utf8Length (more.flatMap text) := by
      rw [List.flatMap_cons, utf8Length_append, Position.after, Nat.add_assoc]
    rw [hstop, List.flatMap_cons, tokensAt_cons]
    cases htoken : piece.token? p with
    | none =>
      -- the piece joins the gap in front of the next token
      refine hrest.behind fun hsplit hgap => ?_
      rw [hsplit] at hpiece
      exact hpiece.trivia htoken hgap
    | some t =>
      obtain ⟨htext, hloc, hkind⟩ := hpiece.token htoken
      have hlist : t.text.toList = piece.text := by rw [htext, String.toList_ofList]
      rw [← hlist]
      refine @Tiled.word _ [] _ _ _ .nil hkind (hlist ▸ hpiece.text_ne_nil) ?_ ?_
      · rw [hloc, List.nil_append, hlist]
        rfl
      · rw [hloc, hlist]
        exact hrest

theorem lex_tiled (source : String) : Tiled 0 source.toList (lex source).tokens := by
  have h := (pieces_standing source.toList).tiled .start (1 + source.toList.count '\n')
  rwa [pieces_text, Position.start, Nat.zero_add, utf8Length_toList, ← Position.start,
    ← lex_tokens] at h

/-! ## Every token and every gap -/

namespace Tiled

variable {text : List Char}

theorem slices (h : Tiled offset text tokens) (ht : t ∈ tokens) :
    ∃ before after, text = before ++ t.text.toList ++ after ∧
      t.loc.span = ⟨offset + utf8Length before, offset + utf8Length (before ++ t.text.toList)⟩ := by
  induction h with
  | @last offset gap eof trivia kind empty span =>
    obtain rfl := List.mem_singleton.mp ht
    refine ⟨gap, [], by simp [empty], ?_⟩
    rw [span, empty, String.toList_empty, List.append_nil]
  | @word offset gap rest u more trivia kind some_text span _ ih =>
    rcases List.mem_cons.mp ht with rfl | ht
    · exact ⟨gap, rest, by rw [List.append_assoc], span⟩
    · obtain ⟨before, after, rfl, hspan⟩ := ih ht
      refine ⟨gap ++ u.text.toList ++ before, after, by simp only [List.append_assoc], ?_⟩
      rw [hspan, span]
      simp only [utf8Length_append, Nat.add_assoc]

theorem start_le_stop (h : Tiled offset text tokens) (ht : t ∈ tokens) :
    offset ≤ t.loc.span.start ∧ t.loc.span.start ≤ t.loc.span.stop := by
  obtain ⟨before, after, -, hspan⟩ := h.slices ht
  rw [hspan, utf8Length_append]
  exact ⟨Nat.le_add_right _ _, Nat.add_le_add_left (Nat.le_add_right _ _) _⟩

theorem ordered (h : Tiled offset text tokens) :
    tokens.Pairwise (fun a b => a.loc.span.stop ≤ b.loc.span.start) := by
  induction h with
  | last => exact List.pairwise_singleton _ _
  | word _ _ _ _ more ih => exact List.pairwise_cons.mpr ⟨fun u hu => (more.start_le_stop hu).1, ih⟩

theorem start_lt_stop {gap : List Char} (some_text : t.text.toList ≠ [])
    (span : t.loc.span = ⟨offset + utf8Length gap, offset + utf8Length (gap ++ t.text.toList)⟩) :
    t.loc.span.start < t.loc.span.stop := by
  have := utf8Length_pos some_text
  rw [span, utf8Length_append]
  exact Nat.add_lt_add_left (by omega) _

theorem rising (h : Tiled offset text tokens) :
    tokens.Pairwise fun t u => t.loc.span.start < u.loc.span.start := by
  induction h with
  | last => exact List.pairwise_singleton _ _
  | word _ _ some_text span more ih =>
    have hlt := start_lt_stop some_text span
    refine List.pairwise_cons.mpr ⟨fun u hu => ?_, ih⟩
    exact Nat.lt_of_lt_of_le hlt (more.start_le_stop hu).1

/-- The last token is the end of the source, and no other one. -/
theorem ends (h : Tiled offset text tokens) :
    ∃ words eof, tokens = words ++ [eof] ∧ eof.kind = .eof ∧ eof.text = "" ∧
      eof.loc.span = ⟨offset + utf8Length text, offset + utf8Length text⟩ ∧
      ∀ t ∈ words, t.kind ≠ .eof ∧ t.loc.span.start < t.loc.span.stop := by
  induction h with
  | @last offset gap eof trivia kind empty span => exact ⟨[], eof, rfl, kind, empty, span, by simp⟩
  | @word offset gap rest u more trivia kind some_text span _ ih =>
    obtain ⟨words, eof, rfl, hkind, hempty, hspan, hwords⟩ := ih
    have hu : u.kind ≠ .eof ∧ u.loc.span.start < u.loc.span.stop :=
      ⟨kind, start_lt_stop some_text span⟩
    refine ⟨u :: words, eof, rfl, hkind, hempty, ?_, List.forall_mem_cons.mpr ⟨hu, hwords⟩⟩
    rw [hspan, span]
    simp only [utf8Length_append, Nat.add_assoc]

end Tiled

/-! ## A whole source -/

/-- Where the last of some tokens stops; `offset` if there are none. -/
def stopOf (offset : Nat) (tokens : List Token) : Nat :=
  (tokens.getLast?.map (·.loc.span.stop)).getD offset

theorem stopOf_cons : stopOf offset (t :: tokens) = stopOf t.loc.span.stop tokens := by
  cases tokens with
  | nil => rfl
  | cons u tokens =>
    rw [stopOf, stopOf, List.getLast?_cons_cons, List.getLast?_cons]
    rfl

theorem Tiled.gaps {text : List Char} {before behind : List Token} (h : Tiled offset text tokens)
    (hsplit : tokens = before ++ t :: behind) :
    ∃ head gap after, text = head ++ gap ++ after ∧ Trivia after gap ∧
      (behind ≠ [] → after ≠ []) ∧ stopOf offset before = offset + utf8Length head ∧
      t.loc.span.start = offset + utf8Length (head ++ gap) := by
  induction h generalizing before with
  | @last offset gap eof trivia kind empty span =>
    cases before with
    | nil =>
      cases hsplit
      exact ⟨[], gap, [], by simp, trivia, absurd rfl, rfl, by rw [span]; rfl⟩
    | cons u before => simp at hsplit
  | @word offset gap rest u more trivia kind some_text span _ ih =>
    cases before with
    | nil =>
      cases hsplit
      exact ⟨[], gap, t.text.toList ++ rest, by simp, trivia, fun _ => by simp [some_text], rfl,
        by rw [span]; rfl⟩
    | cons v before =>
      cases hsplit
      obtain ⟨head, gap', after, rfl, htrivia, hafter, hstop, hstart⟩ := ih rfl
      refine ⟨gap ++ u.text.toList ++ head, gap', after, by simp only [List.append_assoc], htrivia,
        hafter, ?_, ?_⟩
      · rw [stopOf_cons, hstop, span]
        simp only [utf8Length_append, Nat.add_assoc]
      · rw [hstart, span]
        simp only [utf8Length_append, Nat.add_assoc]

/-- The bytes of the span are those of `text`, and `after` follows them. -/
def Span.Cuts (span : Span) (source text after : String) : Prop :=
  ∃ before, source = before ++ text ++ after ∧
    span = ⟨before.utf8ByteSize, (before ++ text).utf8ByteSize⟩

theorem Span.cuts_of_toList {source : String} {before text after : List Char}
    (h : source.toList = before ++ text ++ after) :
    Cuts ⟨utf8Length before, utf8Length (before ++ text)⟩ source (String.ofList text)
      (String.ofList after) := by
  refine ⟨String.ofList before, ?_, ?_⟩
  · rw [← String.ofList_append, ← String.ofList_append, ← h, String.ofList_toList]
  · rw [← String.ofList_append, utf8Length_eq, utf8Length_eq]

/-- A text in the source is cut out by the span of its place. -/
theorem cuts_covering {source : String} {before text after : List Char}
    (h : source.toList = before ++ (text ++ after)) :
    ((Position.start.after before).covering text).span.Cuts source (String.ofList text)
      (String.ofList after) := by
  have hcuts := Span.cuts_of_toList (h.trans (List.append_assoc ..).symm)
  simpa only [Position.covering, Position.after, Position.start, Nat.zero_add, utf8Length_append]
    using hcuts

theorem lex_slices {source : String} (ht : t ∈ (lex source).tokens) :
    ∃ after, t.loc.span.Cuts source t.text after := by
  obtain ⟨before, after, htext, hspan⟩ := (lex_tiled source).slices ht
  have hcuts := Span.cuts_of_toList htext
  rw [Nat.zero_add, Nat.zero_add] at hspan
  rw [← hspan, String.ofList_toList] at hcuts
  exact ⟨_, hcuts⟩

/-- A token is the end of the source, or made by a piece in front of what follows it there. -/
theorem lex_token_cases {source : String} (ht : t ∈ (lex source).tokens) :
    (∃ line offset, t = .endOfInput line offset) ∨
      ∃ (p : Position) (piece : Piece) (after : List Char), piece.token? p = some t ∧
        piece.Stands after ∧ t.loc.span.Cuts source t.text (String.ofList after) := by
  rw [lex_tokens, List.mem_append, List.mem_singleton] at ht
  rcases ht with ht | rfl
  · obtain ⟨⟨p, piece⟩, hmem, htoken⟩ := List.mem_filterMap.mp ht
    obtain ⟨before, after, htext, rfl, hstands⟩ := stands_of_mem_placed hmem
    obtain ⟨htext', hloc, -⟩ := hstands.token htoken
    refine .inr ⟨_, piece, after, htoken, hstands, ?_⟩
    rw [htext', hloc]
    exact cuts_covering htext
  · exact .inl ⟨_, _, rfl⟩

/-- The tokens of a source and the text between them. -/
structure Tiles (source : String) (tokens : List Token) : Prop where
  /-- The end of the source is the last token, empty and at the end, and no other token is. -/
  ends : ∃ words eof, tokens = words ++ [eof] ∧ eof.kind = .eof ∧ eof.text = "" ∧
    eof.loc.span = ⟨source.utf8ByteSize, source.utf8ByteSize⟩ ∧
    ∀ t ∈ words, t.kind ≠ .eof ∧ t.loc.span.start < t.loc.span.stop
  slices : ∀ t ∈ tokens, ∃ after, t.loc.span.Cuts source t.text after
  ordered : tokens.Pairwise (fun a b => a.loc.span.stop ≤ b.loc.span.start)
  /-- From where one token stops, or the start of the source, to where the next one starts there
  is nothing but trivia. Only the last gap reaches the end, where a comment may stay open. -/
  gaps : ∀ before t behind, tokens = before ++ t :: behind →
    ∃ gap after, Span.Cuts ⟨stopOf 0 before, t.loc.span.start⟩ source gap after ∧
      Trivia after.toList gap.toList ∧ (behind ≠ [] → after ≠ "")

/-- **Tokens tile the source.** They and the trivia between them are all of it. -/
theorem lex_tiles (source : String) : Tiles source (lex source).tokens := by
  have h := lex_tiled source
  refine ⟨?_, fun t ht => lex_slices ht, h.ordered, fun before t behind hsplit => ?_⟩
  · simpa using h.ends
  · obtain ⟨head, gap, after, htext, htrivia, hafter, hstop, hstart⟩ := h.gaps hsplit
    rw [Nat.zero_add] at hstop hstart
    refine ⟨String.ofList gap, String.ofList after, ?_, by simpa using htrivia,
      by simpa using hafter⟩
    rw [hstop, hstart]
    exact Span.cuts_of_toList htext

end JavaSubset
