import JavaSubset.Proofs.Sessions
import JavaSubset.Proofs.Spans

/-!
# The line of a location

`lineAt source offset` counts the line feeds among the first `offset` bytes of the source. Whatever
has a location starts on the line that this gives for the start of its span (`Location.OnLine`):
pieces do, since lexing counts every line feed in front of them (`Piece.Standing.place_eq`), and all
other locations start where a token does (`check_onLine`).
-/

namespace JavaSubset

open Cursor

variable {source : String} {t : Token} {d : Diagnostic}

/-- The number of the line that the byte at this offset is on. -/
def lineAt (source : String) (offset : Nat) : Nat :=
  1 + (source.toByteArray.data.toList.take offset).count 10

/-- The location is on the line where its span starts. -/
def Location.OnLine (source : String) (loc : Location) : Prop :=
  loc.line = lineAt source loc.span.start

/-! ## Line feeds in bytes -/

theorem bytes_eq_encode (source : String) : source.toByteArray.data.toList = encode source.toList := by
  conv => lhs; rw [← source.ofList_toList, String.toByteArray_ofList]
  rw [List.utf8Encode]
  simp [encode]

theorem encode_append (a b : List Char) : encode (a ++ b) = encode a ++ encode b :=
  List.flatMap_append

theorem length_encode (text : List Char) : (encode text).length = utf8Length text := by
  induction text with
  | nil => rfl
  | cons c text ih =>
    rw [encode, List.flatMap_cons, List.length_append, String.length_utf8EncodeChar, ← encode, ih,
      utf8Length]

theorem count_encode (text : List Char) : (encode text).count 10 = text.count '\n' := by
  induction text with
  | nil => rfl
  | cons c text ih =>
    rw [encode, List.flatMap_cons, List.count_append, ← encode, ih]
    by_cases hc : c = '\n'
    · rw [hc, List.count_cons_self, Nat.add_comm]
      rfl
    · have hnone : 10 ∉ String.utf8EncodeChar c :=
        fun h => hc (eq_of_mem_utf8EncodeChar (d := '\n') (by decide) h)
      rw [List.count_eq_zero_of_not_mem hnone, List.count_cons_of_ne hc, Nat.zero_add]

theorem lineAt_mono {m n : Nat} (h : m ≤ n) : lineAt source m ≤ lineAt source n :=
  Nat.add_le_add_left ((List.take_sublist_take_left h).count_le 10) 1

/-! ## Pieces and tokens -/

/-- A text that starts behind `before`. -/
theorem onLine_covering {before text after : List Char} (h : source.toList = before ++ after) :
    ((Position.start.after before).covering text).OnLine source := by
  have hstart : (Position.start.after before).offset = (encode before).length := by
    rw [length_encode]
    exact Nat.zero_add _
  have hbytes : source.toByteArray.data.toList = encode before ++ encode after := by
    rw [bytes_eq_encode, h, encode_append]
  change 1 + before.count '\n' = lineAt source (Position.start.after before).offset
  rw [lineAt, hbytes, hstart, List.take_left, count_encode]

theorem Token.onLine (ht : t ∈ (lex source).tokens) : t.loc.OnLine source := by
  rw [lex_tokens, List.mem_append, List.mem_singleton] at ht
  rcases ht with ht | rfl
  · obtain ⟨⟨p, piece⟩, hmem, htoken⟩ := List.mem_filterMap.mp ht
    obtain ⟨before, after, htext, rfl, hstands⟩ := stands_of_mem_placed hmem
    obtain ⟨-, hloc, -⟩ := hstands.token htoken
    rw [hloc]
    exact onLine_covering htext
  · have hstop : (Position.start.after source.toList).offset = source.utf8ByteSize := by
      rw [← utf8Length_toList]
      exact Nat.zero_add _
    have hend := @onLine_covering source source.toList [] [] (List.append_nil _).symm
    change 1 + source.toList.count '\n' = lineAt source source.utf8ByteSize
    rw [← hstop]
    exact hend

/-! ## Diagnostics -/

theorem Diagnostic.onLine_lexical (hd : d ∈ (lex source).diagnostics) : d.loc.OnLine source := by
  rw [lex_diagnostics] at hd
  obtain ⟨⟨p, piece⟩, hmem, hdiagnostic⟩ := List.mem_filterMap.mp hd
  obtain ⟨before, after, htext, rfl, -⟩ := stands_of_mem_placed hmem
  obtain ⟨problem, -, rfl⟩ := Option.map_eq_some_iff.mp hdiagnostic
  exact onLine_covering htext

theorem Along.exists_anchor {ts : List Token} {ds : List Diagnostic} (h : Along ts ds)
    (hd : d ∈ ds) : ∃ t ∈ ts, d.Anchored t := by
  induction h with
  | nil => cases hd
  | skip _ ih =>
    obtain ⟨t, ht, hanchored⟩ := ih hd
    exact ⟨t, List.mem_cons_of_mem _ ht, hanchored⟩
  | here anchored _ ih =>
    rcases List.mem_cons.mp hd with rfl | hd
    · exact ⟨_, List.mem_cons_self, anchored⟩
    · exact ih hd

theorem Diagnostic.onLine_syntactic (hd : d ∈ (parse (lex source).tokens).diagnostics) :
    d.loc.OnLine source := by
  have halong := (Parser.program_orderly (c := ofTokens (lex source).tokens) maxNesting).along
  rw [(lex_tiled source).rest_ofTokens] at halong
  rw [parse_diagnostics] at hd
  obtain ⟨t, ht, hanchored⟩ := halong.exists_anchor ((withoutCascades_sublist _).subset hd)
  rw [hanchored.place]
  exact Token.onLine (List.mem_of_mem_filter ht)

/-! ## Nodes -/

/-- A node starts where its first token does, on the same line. -/
theorem Lies.onLine {us : List Token} {loc : Location} (h : Lies us loc)
    (hus : ∀ t ∈ us, t.loc.OnLine source) : loc.OnLine source := by
  obtain ⟨t, ht, hstart, hline⟩ := h.start
  rw [Location.OnLine, hstart, hline]
  exact hus t (List.mem_of_mem_head? ht)

/-! ## A whole source -/

/-- **Lines agree with spans.** Every token of a source, every diagnostic and every node of its
program, with or without errors, is on the line where its span starts. Along the tokens the line
never goes back. -/
theorem check_onLine (source : String) :
    (∀ t ∈ (lex source).tokens, t.loc.OnLine source) ∧
      (∀ d ∈ (check source).diagnostics, d.loc.OnLine source) ∧
      (check source).program.Every (fun n => n.note.OnLine source) ∧
      (lex source).tokens.Pairwise fun t u => t.loc.line ≤ u.loc.line := by
  refine ⟨fun t ht => Token.onLine ht, fun d hd => ?_, fun decl hdecl => ?_, ?_⟩
  · rcases List.mem_append.mp hd with hd | hd
    · exact Diagnostic.onLine_lexical hd
    · exact Diagnostic.onLine_syntactic hd
  · refine (parse_over (lex_tiled source).laid decl hdecl).imp fun n ⟨us, hsub, hover⟩ => ?_
    exact hover.lies.onLine fun t ht => Token.onLine ((hsub.trans List.filter_sublist).subset ht)
  · refine (lex_tiled source).rising.imp_of_mem fun ht hu hlt => ?_
    rw [Token.onLine ht, Token.onLine hu]
    exact lineAt_mono (Nat.le_of_lt hlt)

end JavaSubset
