import JavaSubset.Report
import JavaSubset.Proofs.Anchors
import JavaSubset.Proofs.Productions
import JavaSubset.Proofs.Respacing

/-!
# Layout does not matter

Sources whose tokens say the same are checked with the same result, but for where things stand:

* `Token.Beside ts us` : the places of tokens at the same index of two lists. Where spans differ
  within each list, equal spans on one side are equal on the other (`Beside.span_eq_iff`), and so
  the same diagnostics are kept (`withoutCascades_twin`);
* `parse_twin` : the trees and diagnostics of two lists of tokens;
* `check_eq_of_words` : those of two sources.
-/

namespace JavaSubset

open Cursor Diagnostic

/-! ## Places that belong together -/

section Beside

variable {ts us : List Token} {l l' m m' : Location} {i j : Nat}

/-- The places of the tokens at one index. -/
def Token.Beside (ts us : List Token) (l m : Location) : Prop :=
  ∃ (i : Nat) (t u : Token), ts[i]? = some t ∧ us[i]? = some u ∧ t.loc = l ∧ u.loc = m

/-- Where no span comes twice, the span tells the index. -/
theorem index_of_span {t t' : Token} (hspans : (ts.map (·.loc.span)).Nodup)
    (ht : ts[i]? = some t) (ht' : ts[j]? = some t') :
    t.loc.span = t'.loc.span ↔ i = j := by
  constructor
  · intro heq
    have hspan : (ts.map (·.loc.span))[i]? = (ts.map (·.loc.span))[j]? := by
      rw [List.getElem?_map, List.getElem?_map, ht, ht']
      exact congrArg some heq
    exact (List.getElem?_inj (by simpa using (List.getElem?_eq_some_iff.mp ht).1) hspans).mp hspan
  · rintro rfl
    rw [Option.some.inj (ht.symm.trans ht')]

theorem Token.Beside.span_eq_iff (hts : (ts.map (·.loc.span)).Nodup)
    (hus : (us.map (·.loc.span)).Nodup) (h : Beside ts us l m) (h' : Beside ts us l' m') :
    l.span = l'.span ↔ m.span = m'.span := by
  obtain ⟨i, t, u, ht, hu, rfl, rfl⟩ := h
  obtain ⟨j, t', u', ht', hu', rfl, rfl⟩ := h'
  rw [index_of_span hts ht ht', index_of_span hus hu hu']

theorem twins_of_content (h : ts.map Token.content = us.map Token.content) :
    List.Forall₂ (Token.Twin (Token.Beside ts us)) ts us := by
  have hlength : ts.length = us.length := by simpa using congrArg List.length h
  refine List.forall₂_iff_get.mpr ⟨hlength, fun i hi hi' => ?_⟩
  have hcontent : (ts.get ⟨i, hi⟩).content = (us.get ⟨i, hi'⟩).content := by
    simpa [hi, hi'] using congrArg (·[i]?) h
  refine ⟨congrArg (·.1) hcontent, congrArg (·.2.1) hcontent, congrArg (·.2.2) hcontent, ?_⟩
  exact ⟨i, _, _, List.getElem?_eq_getElem hi, List.getElem?_eq_getElem hi', rfl, rfl⟩

end Beside

/-! ## The same diagnostics are kept -/

section Cascades

variable {place : Location → Location → Prop} {ds es : List Diagnostic} {s s' : Span}

theorem withoutRepeats_twin
    (hplace : ∀ {l m l' m'}, place l m → place l' m' → (l.span = l'.span ↔ m.span = m'.span))
    {l m : Location} (h : List.Forall₂ (Diagnostic.Twin place) ds es) (hlast : place l m) :
    List.Forall₂ (Diagnostic.Twin place) (withoutRepeats l.span ds) (withoutRepeats m.span es) := by
  induction h generalizing l m with
  | nil => exact .nil
  | @cons d e _ _ twin _ ih =>
    have hspan := hplace twin.place hlast
    by_cases hd : d.loc.span = l.span
    · rw [withoutRepeats, withoutRepeats, if_pos hd, if_pos (hspan.mp hd)]
      exact ih hlast
    · rw [withoutRepeats, withoutRepeats, if_neg hd, if_neg (mt hspan.mpr hd)]
      exact .cons twin (ih twin.place)

theorem withoutCascades_twin
    (hplace : ∀ {l m l' m'}, place l m → place l' m' → (l.span = l'.span ↔ m.span = m'.span))
    (h : List.Forall₂ (Diagnostic.Twin place) ds es) :
    List.Forall₂ (Diagnostic.Twin place) (withoutCascades ds) (withoutCascades es) := by
  cases h with
  | nil => exact .nil
  | cons twin more => exact .cons twin (withoutRepeats_twin hplace more twin.place)

end Cascades

/-! ## Two lists of tokens -/

section Parse

variable {place : Location → Location → Prop} {tokens tokens' : List Token}

theorem Reply.Twin.raised {α β : Type} {R : α → β → Prop} {r : Reply α} {s : Reply β}
    (h : r.Twin place R s) : List.Forall₂ (Diagnostic.Twin place) r.raised s.raised := by
  cases h with
  | ok _ reports _ => exact reports
  | error problem reports _ => exact List.rel_append reports (.cons problem .nil)

theorem parse_twin
    (hplace : ∀ {l m l' m'}, place l m → place l' m' → (l.span = l'.span ↔ m.span = m'.span))
    (h : (ofTokens tokens).Twin place (ofTokens tokens')) :
    Agree Program.erase (parse tokens).program (parse tokens').program ∧
      List.Forall₂ (Diagnostic.Twin place) (parse tokens).diagnostics
        (parse tokens').diagnostics := by
  have hreply := Parser.program_lockstep maxNesting _ _ h
  refine ⟨?_, ?_⟩
  · unfold parse
    generalize Parser.program maxNesting (ofTokens tokens) = r at hreply
    generalize Parser.program maxNesting (ofTokens tokens') = s at hreply
    cases hreply with
    | ok value => exact value
    | error => rfl
  · rw [parse_diagnostics, parse_diagnostics]
    exact withoutCascades_twin hplace hreply.raised

end Parse

/-! ## Two sources -/

/-- What the tokens of a source say, illegal text left out. -/
def Report.words (r : Report) : List (Token.Kind × String × Option String) :=
  (r.tokens.filter (·.kind ≠ .illegal)).map Token.content

/-- What is wrong with the grammar of a source. -/
def Report.grammatical (r : Report) : List Problem :=
  (r.diagnostics.filter (!·.problem.isLexical)).map (·.problem)

theorem lex_isLexical {source : String} {d : Diagnostic} (h : d ∈ (lex source).diagnostics) :
    d.problem.isLexical = true := by
  obtain ⟨⟨p, piece⟩, -, hd⟩ := List.mem_filterMap.mp h
  obtain ⟨problem, hproblem, rfl⟩ := Option.map_eq_some_iff.mp hd
  cases piece <;> cases hproblem <;> rfl

theorem Along.not_lexical {ts : List Token} {ds : List Diagnostic} (h : Along ts ds) :
    ∀ d ∈ ds, d.problem.isLexical = false := by
  induction h with
  | nil => simp
  | skip _ ih => exact ih
  | @here t _ d _ anchored _ ih =>
    refine List.forall_mem_cons.mpr ⟨?_, ih⟩
    have hshows := anchored.shows
    cases hproblem : d.problem <;> simp_all [Problem.Shows, Problem.isLexical]

theorem parse_not_lexical (tokens : List Token) :
    ∀ d ∈ (parse tokens).diagnostics, d.problem.isLexical = false := by
  intro d hd
  rw [parse_diagnostics] at hd
  exact (Parser.program_orderly maxNesting).along.not_lexical d
    ((withoutCascades_sublist _).subset hd)

theorem check_grammatical (source : String) :
    (check source).grammatical = (parse (lex source).tokens).diagnostics.map (·.problem) := by
  have hlex : (lex source).diagnostics.filter (!·.problem.isLexical) = [] :=
    List.filter_eq_nil_iff.mpr fun d hd => by simp [lex_isLexical hd]
  have hparse : (parse (lex source).tokens).diagnostics.filter (!·.problem.isLexical) =
      (parse (lex source).tokens).diagnostics :=
    List.filter_eq_self.mpr fun d hd => by simp [parse_not_lexical _ d hd]
  simp only [Report.grammatical, check, List.filter_append, hlex, hparse, List.nil_append]

theorem forall₂_of_snoc {α β : Type} {R : α → β → Prop} {as : List α} {bs : List β} {a : α} {b : β}
    (h : List.Forall₂ R (as ++ [a]) (bs ++ [b])) : List.Forall₂ R as bs ∧ R a b := by
  have hreverse := List.forall₂_reverse_iff.mpr h
  rw [List.reverse_append, List.reverse_append] at hreverse
  cases hreverse with
  | cons last more => exact ⟨List.forall₂_reverse_iff.mp more, last⟩

theorem ofTokens_twin {place : Location → Location → Prop} {source source' : String}
    (h : List.Forall₂ (Token.Twin place) ((lex source).tokens.filter (·.kind ≠ .illegal))
      ((lex source').tokens.filter (·.kind ≠ .illegal))) :
    (ofTokens (lex source).tokens).Twin place (ofTokens (lex source').tokens) := by
  rw [← (lex_tiled source).rest_ofTokens, ← (lex_tiled source').rest_ofTokens] at h
  obtain ⟨hrest, heof⟩ := forall₂_of_snoc h
  exact ⟨heof, hrest⟩

/-- **Layout does not matter.** Sources whose tokens say the same, whatever blanks, comments, line
breaks and illegal text stand between them, give the same program and have the same grammatical
problems, but for where they stand. -/
theorem check_eq_of_words {source source' : String}
    (h : (check source).words = (check source').words) :
    (check source).program.erase = (check source').program.erase ∧
      (check source).grammatical = (check source').grammatical := by
  have hspans : ∀ text,
      (((lex text).tokens.filter (·.kind ≠ .illegal)).map (·.loc.span)).Nodup := fun text =>
    nodup_spans_of_rising ((lex_tiled text).rising.sublist List.filter_sublist)
  obtain ⟨hprogram, hdiagnostics⟩ := parse_twin
    (fun hplace hplace' => hplace.span_eq_iff (hspans source) (hspans source') hplace')
    (ofTokens_twin (twins_of_content h))
  refine ⟨hprogram, ?_⟩
  rw [check_grammatical, check_grammatical]
  exact map_eq_of_agree (hdiagnostics.imp fun _ _ twin => twin.problem)

/-- A class on one line, and over several with a comment and an illegal character; it lacks a
name and a semicolon. -/
theorem check_eq_of_words_spread :
    let source := "class \x7b int x = 1 \x7d"
    let spread := "class // no name\n\x7b\n\tint x # = /* one */ 1\n\x7d\n"
    (check source).words = (check spread).words ∧
      (check source).program.erase = (check spread).program.erase ∧
      (check source).grammatical = (check spread).grammatical ∧
      (check spread).grammatical ≠ [] := by
  intro source spread
  have hwords : (check source).words = (check spread).words := by decide +kernel
  obtain ⟨hprogram, hproblems⟩ := check_eq_of_words hwords
  exact ⟨hwords, hprogram, hproblems, by decide +kernel⟩

end JavaSubset
