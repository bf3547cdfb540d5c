import JavaSubset.Proofs.Bodies
import JavaSubset.Proofs.Order
import JavaSubset.Proofs.Tiling
import Mathlib.Data.List.Forall2

/-!
# Where the diagnostics of a source stand

The diagnostics that are kept stand at different tokens:

* `Along.anchors` : if no two tokens share a span, `withoutCascades` leaves at most one diagnostic
  for each of them, in the order of the tokens;
* `Parser.Orderly.along` : what a parser raises lies along all tokens ahead of it, up to the end of
  the source;
* `parse_lex_inOrder` : both together, for the tokens of a source.
-/

namespace JavaSubset

open Cursor Diagnostic

/-! ## One diagnostic for each token -/

section Along

variable {t : Token} {ts us : List Token} {d : Diagnostic} {ds : List Diagnostic} {span : Span}

theorem Diagnostic.Anchored.span_ne (h : d.Anchored t)
    (hspans : ((t :: ts).map (·.loc.span)).Nodup) : ∀ u ∈ ts, u.loc.span ≠ d.loc.span := by
  intro u hu heq
  rw [h.place] at heq
  exact (List.nodup_cons.mp hspans).1 (List.mem_map.mpr ⟨u, hu, heq⟩)

theorem cons_sublist_of_span_ne (h : us.Sublist (t :: ts))
    (hne : ∀ u ∈ us, u.loc.span ≠ t.loc.span) : (t :: us).Sublist (t :: ts) := by
  rcases List.sublist_cons_iff.mp h with h | ⟨vs, rfl, -⟩
  · exact h.cons_cons t
  · exact absurd rfl (hne t List.mem_cons_self)

/-- Having kept a diagnostic at `span`, one keeps no other one there. Only the first token may have
this span. -/
theorem Along.anchors_behind (h : Along ts ds) (hspans : (ts.map (·.loc.span)).Nodup)
    (hspan : ∀ u ∈ ts.tail, u.loc.span ≠ span) :
    ∃ us, us.Sublist ts ∧ List.Forall₂ Anchored (withoutRepeats span ds) us ∧
      ∀ u ∈ us, u.loc.span ≠ span := by
  induction h generalizing span with
  | nil => exact ⟨[], List.nil_sublist _, .nil, by simp⟩
  | @skip t ts ds more ih =>
    have htail : ∀ u ∈ ts.tail, u.loc.span ≠ span := fun u hu => hspan u (List.mem_of_mem_tail hu)
    obtain ⟨us, hsub, hanchors, hne⟩ := ih hspans.of_cons htail
    exact ⟨us, hsub.cons t, hanchors, hne⟩
  | @here t ts d ds anchored more ih =>
    by_cases hd : d.loc.span = span
    · -- the token may have been reported already, and then its other diagnostics are left out
      rw [withoutRepeats, if_pos hd]
      exact ih hspans hspan
    · obtain ⟨us, hsub, hanchors, hne⟩ := ih hspans (anchored.span_ne hspans)
      have hcons := cons_sublist_of_span_ne hsub (anchored.place ▸ hne)
      rw [withoutRepeats, if_neg hd]
      refine ⟨t :: us, hcons, .cons anchored hanchors, List.forall_mem_cons.mpr ⟨?_, ?_⟩⟩
      · rwa [← anchored.place]
      · exact fun u hu => hspan u ((List.cons_sublist_cons.mp hcons).subset hu)

theorem Along.anchors (h : Along ts ds) (hspans : (ts.map (·.loc.span)).Nodup) :
    ∃ us, us.Sublist ts ∧ List.Forall₂ Anchored (withoutCascades ds) us := by
  induction h with
  | nil => exact ⟨[], List.nil_sublist _, .nil⟩
  | @skip t ts ds more ih =>
    obtain ⟨us, hsub, hanchors⟩ := ih hspans.of_cons
    exact ⟨us, hsub.cons t, hanchors⟩
  | @here t ts d ds anchored more ih =>
    obtain ⟨us, hsub, hanchors, hne⟩ := more.anchors_behind hspans (anchored.span_ne hspans)
    exact ⟨t :: us, cons_sublist_of_span_ne hsub (anchored.place ▸ hne), .cons anchored hanchors⟩

end Along

/-! ## Along all tokens -/

/-- Going on from where the parser stops one meets the tokens that are left. -/
theorem Parser.Orderly.along {α : Type} {p : Parser α} {c : Cursor} {quiet : Bool}
    (h : Orderly quiet [] p c) : Along (c.rest ++ [c.eof]) (p c).raised := by
  obtain ⟨us, hreads, halong, -⟩ := h
  have hrest := reads_skip (Nat.le_refl (p c).cursor.rest.length)
  rw [List.take_length] at hrest
  have hpeek : ((p c).cursor.skip (p c).cursor.rest.length).peek = c.eof := by
    rw [peek_of_nil (by rw [skip_rest, List.drop_length]), skip_eof, hreads.eof_eq]
  have hall := halong.reads hrest .nil
  rwa [List.nil_append, List.append_nil, ← hreads.rest_eq, hpeek] at hall

/-- All tokens but illegal text are ahead, the end of the source last. -/
theorem Tiled.rest_ofTokens {offset : Nat} {text : List Char} {tokens : List Token}
    (h : Tiled offset text tokens) :
    (ofTokens tokens).rest ++ [(ofTokens tokens).eof] = tokens.filter (·.kind ≠ .illegal) := by
  obtain ⟨words, eof, rfl, hkind, -, -, hwords⟩ := h.ends
  have hend : endOf (words ++ [eof]) = eof := by simp [endOf, hkind]
  have hkept : words.filter (·.kind.isKept) = words.filter (·.kind ≠ .illegal) := by
    refine List.filter_congr fun t ht => ?_
    have hne := (hwords t ht).1
    cases hk : t.kind <;> simp_all [Token.Kind.isKept]
  simp only [ofTokens, hend, List.filter_append, hkept]
  simp [hkind, Token.Kind.isKept]

/-! ## How keywords are spelled -/

theorem Piece.Stands.keyword_spelling {kind : Token.Kind} {word : Keyword}
    {text after : List Char} {literal : Option String} (h : Stands (.word kind text literal) after)
    (hkind : kind = .keyword word) : String.ofList text = word.spelling := by
  cases h with
  | name => exact nameKind_spelling hkind
  | whole | fraction | string => cases hkind
  | pair spelled | single spelled =>
    rcases ofSymbol?_cases spelled with ⟨op, -, -, rfl⟩ | ⟨mark, -, -, rfl⟩ <;> cases hkind

theorem keyword_spelling_of_lex {source : String} {t : Token} {word : Keyword}
    (ht : t ∈ (lex source).tokens) (hkind : t.kind = .keyword word) : t.text = word.spelling := by
  have hkept : t.kind.isKept = true := by rw [hkind]; rfl
  obtain ⟨after, hstands⟩ := exists_stands_of_lex (List.mem_filter.mpr ⟨ht, hkept⟩)
  rw [← hstands.keyword_spelling hkind, String.ofList_toList]

/-! ## A whole source -/

/-- The diagnostic stands at the token and says what it is. A modifier that is repeated is the one
the token spells. -/
structure Diagnostic.Names (d : Diagnostic) (t : Token) : Prop extends d.Anchored t where
  spells : ∀ modifier, d.problem = .repeatedModifier modifier → t.text = modifier.spelling

theorem Diagnostic.Anchored.names {source : String} {d : Diagnostic} {t : Token}
    (h : d.Anchored t) (ht : t ∈ (lex source).tokens) : d.Names t := by
  refine ⟨h, fun modifier hproblem => ?_⟩
  have hshows := h.shows
  rw [hproblem] at hshows
  exact keyword_spelling_of_lex ht hshows

/-- Diagnostics in source order, each at a token of its own. -/
structure InOrder (source : String) (tokens : List Token) (ds : List Diagnostic) : Prop where
  rising : ds.Pairwise fun d e => d.loc.span.start < e.loc.span.start
  anchors : ∃ anchors, anchors.Sublist (tokens.filter (·.kind ≠ .illegal)) ∧
    List.Forall₂ Names ds anchors
  slices : ∀ d ∈ ds, ∃ text after, d.loc.span.Cuts source text after
  distinct : (ds.map (·.loc.span)).Nodup

theorem nodup_spans_of_rising {α : Type} {f : α → Location} {l : List α}
    (h : l.Pairwise fun a b => (f a).span.start < (f b).span.start) :
    (l.map fun a => (f a).span).Nodup := by
  refine List.pairwise_map.mpr (h.imp fun hlt heq => ?_)
  rw [heq] at hlt
  exact Nat.lt_irrefl _ hlt

theorem map_loc_of_anchored {ds : List Diagnostic} {ts : List Token}
    (h : List.Forall₂ Anchored ds ts) : ds.map (·.loc) = ts.map (·.loc) := by
  induction h with
  | nil => rfl
  | cons anchored _ ih => rw [List.map_cons, List.map_cons, anchored.place, ih]

theorem inOrder_of_anchored {source : String} {ds : List Diagnostic} {ts : List Token}
    (hsub : ts.Sublist ((lex source).tokens.filter (·.kind ≠ .illegal)))
    (hanchors : List.Forall₂ Anchored ds ts) : InOrder source (lex source).tokens ds := by
  have hmem : ∀ t ∈ ts, t ∈ (lex source).tokens :=
    fun t ht => List.mem_of_mem_filter (hsub.subset ht)
  have hlocs := map_loc_of_anchored hanchors
  have hrising : ds.Pairwise fun d e => d.loc.span.start < e.loc.span.start := by
    have hts := (lex_tiled source).rising.sublist (hsub.trans List.filter_sublist)
    have hmap : (ts.map (·.loc)).Pairwise fun a b => a.span.start < b.span.start :=
      List.pairwise_map.mpr hts
    rwa [← hlocs, List.pairwise_map] at hmap
  refine ⟨hrising, ⟨ts, hsub, ?_⟩, fun d hd => ?_, nodup_spans_of_rising hrising⟩
  · have hboth : List.Forall₂ (fun t d => t ∈ (lex source).tokens ∧ Anchored d t) ts ds :=
      (List.forall₂_and_left _ _).mpr ⟨hmem, hanchors.flip⟩
    exact hboth.flip.imp fun d t h => h.2.names h.1
  · have hd' : d.loc ∈ ts.map (·.loc) := hlocs ▸ List.mem_map_of_mem hd
    obtain ⟨t, ht, hloc⟩ := List.mem_map.mp hd'
    rw [← hloc]
    exact ⟨t.text, lex_slices (hmem t ht)⟩

/-- **Diagnostics are in order.** What is wrong with the tokens of a source is told from front to
back, once for each token at most. -/
theorem parse_lex_inOrder (source : String) :
    InOrder source (lex source).tokens (parse (lex source).tokens).diagnostics := by
  have halong := (Parser.program_orderly (c := ofTokens (lex source).tokens) maxNesting).along
  rw [(lex_tiled source).rest_ofTokens] at halong
  have hspans := nodup_spans_of_rising
    ((lex_tiled source).rising.sublist (List.filter_sublist (p := (·.kind ≠ .illegal))))
  obtain ⟨ts, hsub, hanchors⟩ := halong.anchors hspans
  rw [← parse_diagnostics] at hanchors
  exact inOrder_of_anchored hsub hanchors

end JavaSubset
