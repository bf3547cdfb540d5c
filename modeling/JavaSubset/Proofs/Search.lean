import JavaSubset.Proofs.Runs
import JavaSubset.Parse.Program

/-!
# Up to the body of the class

The header of a source walks, a class and the search for it place their diagnostics as walks do
(`classDecl_places`, `locateClass_places`). A parse with a class has come to its declaration, and
from there to its body, with all diagnostics placed on the way (`ComesTo`, `program_found`,
`classDecl_found`).
-/

namespace JavaSubset.Parser

open Cursor

variable {α β : Type} {p : Parser α} {c c' : Cursor} {seen : List Token} {limit : Nat}

/-! ## The header -/

theorem qualifiedName_walks {nested eats : Bool} {demand : Demand}
    (h : demand.expected = .identifier) : Walks nested eats seen (qualifiedName demand) c := by
  refine .name_bind (.identifier h) (Walks.many fun _ _ => ?_).map_bind
  exact .accept_bind rfl (fun _ => .name_bind (.identifier rfl) (.pure _)) (.pure _)

theorem clause_walks {eats : Bool} {nameDemand endDemand : Demand} {word : Keyword}
    (hkind : c.peek.kind = .keyword word) (hname : nameDemand.expected = .identifier)
    (hend : endDemand.expected = .token (.punctuation .semicolon)) :
    Walks true eats seen (clause nameDemand endDemand) c := by
  refine .advance_bind (by rw [hkind]; rfl) (.andThen (qualifiedName_walks hname) fun _ _ _ => ?_)
  exact (Walks.expect (.token hend rfl)).last

/-- A clause of the header is given up at its first error. -/
theorem recover_clause_walks {eats : Bool} {nameDemand endDemand : Demand} {word : Keyword}
    (hkind : c.peek.kind = .keyword word) (hname : nameDemand.expected = .identifier)
    (hend : endDemand.expected = .token (.punctuation .semicolon)) :
    Walks true eats seen (recover .topLevel (clause nameDemand endDemand)) c := by
  refine .recover .topLevel rfl (clause_walks hkind hname hend) ?_ (by rw [hkind]; simp)
  intro hrest
  rw [peek_of_nil hrest, c.eof_kind] at hkind
  cases hkind

theorem package?_walks : Walks true false seen package? c := by
  refine .sees_bind ?_
  split
  · next hkind => exact recover_clause_walks (of_decide_eq_true hkind) rfl rfl
  · exact .pure _

theorem imports_walks : Walks true false seen imports c := by
  refine (Walks.many fun _ c => .sees_bind ?_).map_bind
  split
  · next hkind => exact (recover_clause_walks (of_decide_eq_true hkind) rfl rfl).last
  · exact .pure _

/-! ## Places in a class -/

theorem advance_places : Places seen advance c := places_skip 1 rfl

theorem accept_places {kind : Token.Kind} : Places seen (accept kind) c := by
  refine places_bind (places_skip 0 rfl) fun _ _ => ?_
  split
  · exact places_bind advance_places fun _ _ => places_skip 0 rfl
  · exact places_skip 0 rfl

theorem complain_places {demand : Demand} (h : demand.expected ≠ .endOfInput) :
    Places seen (complain demand) c :=
  places_still rfl (marked_singleton (Diagnostic.marks_unexpected h) (by simp))

theorem name_places {demand : Demand} (h : demand.expected ≠ .endOfInput) :
    Places seen (name demand) c :=
  places_bind (expect_places h) fun _ _ => places_skip 0 rfl

theorem classBody_places : Places seen (classBody limit) c := by
  refine places_bind (expect_places (by decide)) fun _ _ => ?_
  refine places_bind (bodyOf_walks fun _ _ => member_walks limit).places fun _ _ => ?_
  refine places_bind accept_places fun _ _ => ?_
  split
  · exact places_skip 0 rfl
  · exact places_bind (complain_places (by decide)) fun _ _ => places_skip 0 rfl

theorem classModifiers_places : Places seen (modifiers classModifier) c := by
  have hwalks : Walks true false seen (modifiers classModifier) c :=
    modifiers_walks fun _ _ _ => classModifier_walks
  exact hwalks.places

theorem classDecl_places : Places seen (classDecl limit) c := by
  refine places_bind (places_skip 0 rfl) fun _ _ => places_bind ?_ fun _ _ => ?_
  · refine places_bind classModifiers_places fun _ _ => ?_
    refine places_bind (expect_places (by decide)) fun _ _ => ?_
    refine places_bind (name_places (by decide)) fun _ _ => ?_
    exact places_bind classBody_places fun _ _ => places_skip 0 rfl
  · exact places_bind (places_skip 0 rfl) fun _ _ => places_skip 0 rfl

theorem locateClass_places {again : Bool} : Places seen (locateClass again) c := by
  refine places_bind (places_skip 0 rfl) fun _ _ => ?_
  split
  · refine places_bind (places_skip 0 rfl) fun _ _ => ?_
    split
    · exact places_skip 0 rfl
    · refine places_bind (complain_places (by decide)) fun _ _ => ?_
      exact places_bind (places_skip _ rfl) fun _ _ => places_skip 0 rfl
  · split
    · exact places_bind (places_skip _ rfl) fun _ _ => places_skip 0 rfl
    · refine places_bind (places_skip 0 rfl) fun hpeek _ => places_bind ?_ fun _ _ => ?_
      · cases hpeek
        exact places_still rfl (marked_singleton ⟨rfl, rfl⟩ (by simp))
      · exact places_bind (places_skip _ rfl) fun _ _ => places_skip 0 rfl

/-! ## The class that is found -/

/-- From `c` on the parser `p` comes to run `q` at `d`, behind the diagnostics `before`. -/
structure ComesTo (p : Parser α) (c : Cursor) (before : List Diagnostic) (q : Parser β)
    (d : Cursor) : Prop where
  runs : Runs p c q d
  places : ∃ us, Reads c us d ∧ Marked (us ++ [d.peek]) before

section ComesTo

variable {γ : Type} {q : Parser β} {r : Parser γ} {d e : Cursor} {before later : List Diagnostic}

theorem ComesTo.self : ComesTo p c [] p c :=
  ⟨.self, [], .nil c, marked_nil⟩

theorem ComesTo.trans (h : ComesTo p c before q d) (h' : ComesTo q d later r e) :
    ComesTo p c (before ++ later) r e := by
  obtain ⟨us, hreads, hmarked⟩ := h.places
  obtain ⟨vs, hreads', hmarked'⟩ := h'.places
  refine ⟨h.runs.trans h'.runs, us ++ vs, hreads.trans hreads', ?_⟩
  refine Marked.append ?_ (hmarked'.mono ?_)
  · rw [← List.nil_append us] at hmarked
    exact hmarked.trans hreads'
  · rw [List.append_assoc]
    exact List.subset_append_right _ _

theorem ComesTo.next {f : α → Parser β} {a : α} {reports : List Diagnostic} {c₁ : Cursor}
    (done : p c = ⟨.ok a, reports, c₁⟩) (places : Places [] p c)
    (h : ComesTo (f a) c₁ later r e) : ComesTo (p >>= f) c (reports ++ later) r e := by
  have hstep : ComesTo (p >>= f) c reports (f a) c₁ := by
    obtain ⟨us, hreads, hmarked⟩ := places
    rw [done] at hreads hmarked
    exact ⟨.next done .self, us, hreads, hmarked⟩
  exact hstep.trans h

theorem ComesTo.first {f : α → Parser γ} (h : ComesTo p c before q d) :
    ComesTo (p >>= f) c before q d :=
  ⟨.first h.runs, h.places⟩

theorem ComesTo.recover (h : ComesTo p c before q d) (point : SyncPoint) :
    ComesTo (recover point p) c before q d :=
  ⟨.recover point h.runs, h.places⟩

end ComesTo

/-- A class declaration comes to its body. -/
theorem classDecl_found {decl : ClassDecl Location} {reports : List Diagnostic}
    (h : classDecl limit c = ⟨.ok decl, reports, c'⟩) :
    ∃ before own d, ComesTo (classDecl limit) c before (classBody limit) d ∧
      classBody limit d = ⟨.ok decl.members, own, c'⟩ ∧ reports = before ++ own := by
  obtain ⟨start, r₁, c₁, own₁, hstart, h₁, rfl⟩ := bind_eq_ok h
  obtain ⟨node, r₂, c₂, own₂, hnode, hloc, rfl⟩ := bind_eq_ok h₁
  cases hloc
  obtain ⟨set, r₃, c₃, own₃, hset, h₃, rfl⟩ := bind_eq_ok hnode
  obtain ⟨t, r₄, c₄, own₄, hclass, h₄, rfl⟩ := bind_eq_ok h₃
  obtain ⟨x, r₅, c₅, own₅, hname, h₅, rfl⟩ := bind_eq_ok h₄
  obtain ⟨members, r₆, c₆, own₆, hbody, hpure, rfl⟩ := bind_eq_ok h₅
  cases hpure
  refine ⟨r₁ ++ (r₃ ++ (r₄ ++ (r₅ ++ []))), r₆, c₅, ?_, hbody, by simp [Pure.pure, Reply.ok]⟩
  refine .next hstart (places_skip 0 rfl) (.first ?_)
  refine .next hset classModifiers_places (.next hclass (expect_places (by decide)) ?_)
  exact .next hname (name_places (by decide)) (.first .self)

theorem attemptFrom_places {again : Bool} : Places seen (attemptFrom limit again) c := by
  refine places_bind locateClass_places fun _ _ => ?_
  split
  · refine places_bind (recover_places classDecl_places) fun _ _ => ?_
    split <;> exact places_skip 0 rfl
  · exact places_skip 0 rfl

/-- One attempt: no class is ahead, or a declaration is found or given up. -/
theorem attemptFrom_cases {again : Bool} {next : Option (Unit × ClassSearch)}
    {reports : List Diagnostic} (h : attemptFrom limit again c = ⟨.ok next, reports, c'⟩) :
    next = none ∨ next = some ((), .again) ∨ ∃ decl before own d, next = some ((), .found decl) ∧
      ComesTo (attemptFrom limit again) c before (classDecl limit) d ∧
      classDecl limit d = ⟨.ok decl, own, c'⟩ ∧ reports = before ++ own := by
  obtain ⟨found, r₁, c₁, own₁, hlocate, h₁, rfl⟩ := bind_eq_ok h
  cases found with
  | false =>
    cases h₁
    exact .inl rfl
  | true =>
    obtain ⟨o, r₂, c₂, own₂, hrecover, h₂, rfl⟩ := bind_eq_ok h₁
    cases o with
    | none =>
      cases h₂
      exact .inr (.inl rfl)
    | some decl =>
      cases h₂
      have hclass : classDecl limit c₁ = ⟨.ok decl, r₂, c'⟩ := by
        unfold recover at hrecover
        rcases hdecl : classDecl limit c₁ with ⟨⟨d⟩ | ⟨decl'⟩, own, c₃⟩
        · simp [hdecl] at hrecover
        · simpa [hdecl] using hrecover
      refine .inr (.inr ⟨decl, r₁ ++ [], r₂, c₁, rfl, ?_, hclass, by simp⟩)
      refine .next hlocate locateClass_places ?_
      exact .first (ComesTo.self.recover .topLevel)

/-- The search for the class comes to the declaration it ends with. -/
theorem attempts_found {search : ClassSearch} {decl : ClassDecl Location} {rounds : List Unit}
    {reports : List Diagnostic} (hsearch : search.result? = none)
    (h : iterate (attempt limit) search c = ⟨.ok (rounds, .found decl), reports, c'⟩) :
    ∃ before own d, ComesTo (iterate (attempt limit) search) c before (classDecl limit) d ∧
      classDecl limit d = ⟨.ok decl, own, c'⟩ ∧ reports = before ++ own := by
  induction hn : c.rest.length using Nat.strongRecOn generalizing search c rounds reports with
  | ind n ih =>
    obtain ⟨again, hattempt⟩ : ∃ again, attempt limit search = attemptFrom limit again := by
      cases search with
      | first => exact ⟨false, rfl⟩
      | again => exact ⟨true, rfl⟩
      | found decl => cases hsearch
    rcases iterate_eq_ok h with ⟨-, -, rfl⟩ | ⟨b, s₁, r₁, c₁, bs', hstep, rfl, hrest⟩
    · cases hsearch
    · have hfrom := hstep
      rw [hattempt] at hfrom
      rcases attemptFrom_cases hfrom with
        hnone | hagain | ⟨decl', before, own, d, hfound, hcomes, hclass, rfl⟩
      · cases hnone
      · cases hagain
        obtain ⟨hlt, own', hmore, rfl⟩ | ⟨-, hend, -, -⟩ := hrest
        · obtain ⟨before, own, d, hcomes, hclass, rfl⟩ := ih _ (hn ▸ hlt) rfl hmore rfl
          refine ⟨r₁ ++ before, own, d, ?_, hclass, by simp⟩
          have hround : ComesTo (iterate (attempt limit) search) c r₁
              (iterate (attempt limit) .again) c₁ := by
            have hplaces : Places [] (attemptFrom limit again) c := attemptFrom_places
            rw [Places, hfrom] at hplaces
            obtain ⟨us, hreads, hmarked⟩ := hplaces
            exact ⟨.rounds hstep hlt .self, us, hreads, hmarked⟩
          exact hround.trans hcomes
        · cases hend
      · cases hfound
        have hcomes' : ComesTo (iterate (attempt limit) search) c before (classDecl limit) d :=
          ⟨.round (by rw [hattempt]; exact hcomes.runs), hcomes.places⟩
        obtain ⟨hlt, own', hmore, rfl⟩ | ⟨-, hend, rfl, rfl⟩ := hrest
        · rw [iterate] at hmore
          cases hmore
          exact ⟨before, own, d, hcomes', hclass, by simp⟩
        · cases hend
          exact ⟨before, own, d, hcomes', hclass, rfl⟩

theorem classDeclaration_found {decl : ClassDecl Location} {reports : List Diagnostic}
    (h : classDeclaration limit c = ⟨.ok (some decl), reports, c'⟩) :
    ∃ before own d, ComesTo (classDeclaration limit) c before (classDecl limit) d ∧
      classDecl limit d = ⟨.ok decl, own, c'⟩ ∧ reports = before ++ own := by
  unfold classDeclaration at h
  rcases hloop : iterate (attempt limit) .first c with ⟨⟨d⟩ | ⟨rounds, search⟩, reports', c₁⟩
  · simp [hloop, Reply.map, Except.map] at h
  · simp only [hloop, Reply.map, Except.map, Reply.mk.injEq, Except.ok.injEq] at h
    obtain ⟨hresult, rfl, rfl⟩ := h
    cases search with
    | first => cases hresult
    | again => cases hresult
    | found decl' =>
      cases hresult
      obtain ⟨before, own, d, hcomes, hclass, hreports⟩ := attempts_found rfl hloop
      exact ⟨before, own, d, ⟨.map _ hcomes.runs, hcomes.places⟩, hclass, hreports⟩

/-- Behind the class nothing is read without a report. -/
theorem program_found {prog : Program Location} {decl : ClassDecl Location}
    {reports : List Diagnostic} (h : program limit c = ⟨.ok prog, reports, c'⟩)
    (hdecl : prog.classDecl = some decl) :
    ∃ before own d e, ComesTo (program limit) c before (classDecl limit) d ∧
      classDecl limit d = ⟨.ok decl, own, e⟩ ∧
      reports = before ++ own ++ if e.rest = [] then [] else [.unexpected .sourceEnd e.peek] := by
  obtain ⟨package, r₁, c₁, own₁, hpackage, h₁, rfl⟩ := bind_eq_ok h
  obtain ⟨imports, r₂, c₂, own₂, himports, h₂, rfl⟩ := bind_eq_ok h₁
  obtain ⟨found, r₃, c₃, own₃, hfound, h₃, rfl⟩ := bind_eq_ok h₂
  have hend : found = some decl ∧
      own₃ = if c₃.rest = [] then [] else [.unexpected .sourceEnd c₃.peek] := by
    obtain ⟨stop, r₄, c₄, own₄, hstop, h₄, rfl⟩ := bind_eq_ok h₃
    cases hstop
    by_cases hrest : c₃.rest = []
    · rw [atEnd_iff.mpr hrest] at h₄
      cases h₄
      exact ⟨hdecl, by rw [if_pos hrest]; rfl⟩
    · have hgo : c₃.atEnd = false := by simpa [Cursor.atEnd] using hrest
      rw [hgo] at h₄
      cases h₄
      exact ⟨hdecl, by rw [if_neg hrest]; rfl⟩
  obtain ⟨rfl, rfl⟩ := hend
  obtain ⟨before, own, d, hcomes, hclass, rfl⟩ := classDeclaration_found hfound
  refine ⟨r₁ ++ (r₂ ++ before), own, d, c₃, ?_, hclass, by simp⟩
  exact .next hpackage package?_walks.places (.next himports imports_walks.places hcomes.first)

end JavaSubset.Parser
