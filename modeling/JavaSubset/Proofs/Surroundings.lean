import JavaSubset.Proofs.Completeness
import JavaSubset.Proofs.Members
import JavaSubset.Proofs.Termination
import Mathlib.Data.List.Forall2

/-!
# What surrounds the class

A class declaration that is accepted is accepted wherever its tokens stand: neither what was read
before it nor what follows its closing brace plays a part (`classDecl_elsewhere`).

* `parse_trailing` : more tokens behind a source that parses leave its program as it is;
* `ImportSegment` : a clause that starts and ends as an import does. It is read as a whole, whatever
  stands in between (`recover_segment`);
* `parse_imports` : so those that are well formed are imported, and the others are reported.
-/

namespace JavaSubset

open Cursor Grammar

namespace Parser

variable {c c' d d' : Cursor} {us : List Token} {limit : Nat}

/-! ## The class -/

theorem classBody_elsewhere {members : List (Member Location)}
    (h : Accepts (classBody limit) c members c') :
    ∃ us, Reads c (c.peek :: us) c' ∧
      ∀ ⦃d d'⦄, Reads d (c.peek :: us) d' → Accepts (classBody limit) d members d' := by
  have hopen := classBody_opens h
  obtain ⟨as, reports, c₁, hitems, ⟨hclosed, hbody⟩ | ⟨-, -, hraised⟩⟩ :=
    (Body.members limit).cases hopen
  · cases h.symm.trans hbody
    obtain ⟨us, hreads, hbalanced, hclose⟩ := hclosed
    have hdeep : Holds true (us ++ [c₁.peek]) := by
      change depth (us ++ [c₁.peek]) < 0
      rw [depth_append, hbalanced.even, depth_cons, hclose]
      decide
    have hwalks : Walks true false [] (bodyOf .member (member limit)) c.advance :=
      bodyOf_walks fun _ _ => member_walks limit
    refine ⟨us ++ [c₁.peek], hreads.trans (reads_kind hclose rfl), fun d d' hd => ?_⟩
    obtain ⟨hpeek, hd⟩ := hd.of_cons
    obtain ⟨d₁, hd, hlast⟩ := hd.split
    obtain ⟨hpeek₁, hend⟩ := hlast.of_cons
    have hitems' : Accepts (bodyOf .member (member limit)) d.advance members d₁ :=
      hwalks.elsewhere hitems hreads.of_cons.2 hd (ahead_of_reads (reads_kind hclose rfl) hlast)
        hdeep
    refine accepts_expect_kind rfl (hpeek ▸ hopen) (hitems'.bind ?_)
    simp [hpeek₁, hclose, hend.of_nil]
  · rw [h] at hraised
    simp at hraised

theorem classDecl_elsewhere {decl : ClassDecl Location} (h : Accepts (classDecl limit) c decl c')
    (hc : Reads c us c') (hd : Reads d us d') : Accepts (classDecl limit) d decl d' := by
  rw [classDecl, accepts_located] at h
  obtain ⟨node, h, rfl⟩ := h
  rw [accepts_bind] at h
  obtain ⟨set, c₁, hset, h⟩ := h
  rw [accepts_expect_bind, accepts_name_bind, accepts_bind] at h
  obtain ⟨hword, hname, members, c₂, hbody, h⟩ := h
  obtain ⟨rfl, rfl⟩ := accepts_pure.mp h
  have hword := kind_of_admits rfl hword
  have hname := identifier_of_admits rfl hname
  have hopen := classBody_opens hbody
  obtain ⟨ms, hms, -⟩ := modifiers_sound classModifier_step hset
  obtain ⟨ws, hws, hreplay⟩ := classBody_elsewhere hbody
  have hrest := (reads_kind hword rfl).trans ((reads_kind hname rfl).trans hws)
  obtain rfl := hc.unique (hms.trans hrest)
  obtain ⟨d₁, hd₁, hd₂⟩ := hd.split
  obtain ⟨hpeek₁, hd₃⟩ := hd₂.of_cons
  obtain ⟨hpeek₂, hd₄⟩ := hd₃.of_cons
  have hwalks : Walks false false [] (modifiers classModifier) c :=
    modifiers_walks fun _ _ _ => classModifier_walks
  have hset' : Accepts (modifiers classModifier) d set d₁ := by
    refine hwalks.elsewhere hset hms hd₁ (ahead_of_reads hrest hd₂) ⟨c₁.advance.advance.peek, ?_, ?_⟩
    · simp
    · rw [hopen]
      rfl
  have hlast : d'.last = c₂.last := last_eq_of_reads hd hc (by simp)
  have hpeek : d.peek = c.peek := (ahead_of_reads hc hd).peek_eq (by simp)
  refine accepts_located.mpr ⟨_, hset'.bind (accepts_expect_kind rfl (hpeek₁ ▸ hword)
    (accepts_name_identifier rfl (hpeek₂ ▸ hname) ((hreplay hd₄).bind
      (accepts_pure.mpr ⟨rfl, rfl⟩)))), ?_⟩
  simp only [Cursor.locationFrom, hlast, hpeek, hpeek₂]

theorem classDeclaration_elsewhere {decl : ClassDecl Location}
    (given : ClassDeclaration limit us decl.erase) (h : Accepts (classDecl limit) c decl c')
    (hc : Reads c us c') (hd : Reads d us d') :
    Accepts (classDeclaration limit) d (some decl) d' :=
  classDeclaration_of_classDecl given hd (classDecl_elsewhere h hc hd)

end Parser

open JavaSubset.Parser

/-- A parse from its parts. What follows the class is reported at its first token. -/
theorem parse_of_parts {tokens : List Token} {package : Option String} {names : List String}
    {found : Option (ClassDecl Location)} {reports : List Diagnostic} {c₁ c₂ c' : Cursor}
    (hpackage : Accepts package? (.ofTokens tokens) package c₁)
    (himports : imports c₁ = ⟨.ok names, reports, c₂⟩)
    (hclass : Accepts (classDeclaration maxNesting) c₂ found c') :
    parse tokens = ⟨⟨package, names, found⟩, Diagnostic.withoutCascades
      (reports ++ (c'.rest.head?.map (.unexpected .sourceEnd)).toList)⟩ := by
  obtain ⟨c₃, hend, -⟩ := program_end package names found c'
  have hprogram : program maxNesting (.ofTokens tokens) =
      ⟨.ok ⟨package, names, found⟩, reports ++
        (c'.rest.head?.map (.unexpected .sourceEnd)).toList, c₃⟩ := by
    rw [program, bind_of_ok hpackage, bind_of_ok himports, bind_of_ok hclass, hend]
    rfl
  rw [parse, hprogram]

/-! ## Trailing input -/

/-- **Trailing input never changes the tree.** Tokens behind a source that parses without a
diagnostic leave its program as it is, with its locations, and are reported once, at the first of
them. -/
theorem parse_trailing (tokens : List Token) (t : Token) (extra : List Token)
    (hclean : (parse tokens).diagnostics = []) (hkept : ∀ u ∈ t :: extra, u.kind.isKept = true) :
    parse (tokens.filter (·.kind.isKept) ++ t :: extra) =
      ⟨(parse tokens).program, [.unexpected .sourceEnd t]⟩ := by
  obtain ⟨c, haccepts⟩ := parse_diagnostics_eq_nil hclean
  obtain ⟨us, vs, ws, c₁, c₂, decl, hus, hvs, hws, hend, header, clauses, given, hdecl, hclass⟩ :=
    program_accepts haccepts
  have hfilter : tokens.filter (·.kind.isKept) = us ++ (vs ++ ws) := by
    have hall := (hus.trans (hvs.trans hws)).rest_eq
    rwa [hend, List.append_nil] at hall
  have hrest : (Cursor.ofTokens (tokens.filter (·.kind.isKept) ++ t :: extra)).rest =
      us ++ (vs ++ ws) ++ t :: extra := by
    rw [Cursor.ofTokens, List.filter_append, List.filter_filter, List.filter_eq_self.mpr hkept]
    simp [hfilter]
  obtain ⟨d, hread, hextra⟩ := exists_reads_append hrest
  obtain ⟨d₁, hread₁, hread⟩ := hread.split
  obtain ⟨d₂, hread₂, hread₃⟩ := hread.split
  obtain ⟨hpackage, himports⟩ := header_complete header clauses hread₁ hread₂
    (peek_of_leads (startsClass_of_classDeclaration given) hread₃)
  have hfound := classDeclaration_elsewhere given hdecl hws hread₃
  rw [parse_of_parts hpackage himports hfound, hextra, ← hclass]
  rfl

theorem parse_trailing_else :
    let tokens := (lex "class A \x7b void m() \x7b if (a) b(); \x7d \x7d").tokens
    let token (kind : Token.Kind) (n : Nat) : Token := ⟨kind, "", none, ⟨⟨n, n + 1⟩, 2⟩⟩
    let other := token (.keyword (.control .elseKw)) 40
    let extra := [token (.punctuation .lbrace) 41, token .identifier 42]
    (parse tokens).diagnostics = [] ∧
      parse (tokens.filter (·.kind.isKept) ++ other :: extra) =
        ⟨(parse tokens).program, [.unexpected .sourceEnd other]⟩ := by
  intro tokens token other extra
  have hclean : (parse tokens).diagnostics = [] := by decide +kernel
  exact ⟨hclean, parse_trailing tokens other extra hclean (by decide)⟩

/-! ## Import clauses -/

/-- What may stand in an import clause that is not well formed: nothing that ends it or starts what
comes next. -/
def Token.Kind.fillsImport : Token.Kind → Bool
  | .punctuation .semicolon | .punctuation .lbrace | .punctuation .rbrace => false
  | .keyword (.declaration .importKw) | .keyword (.declaration .classKw) => false
  | .keyword (.modifier _) => false
  | .illegal | .eof => false
  | _ => true

/-- The word `import`, some tokens and a semicolon. -/
structure ImportSegment where
  word : Token
  middle : List Token
  stop : Token
  word_kind : word.kind = .keyword (.declaration .importKw)
  middle_kinds : ∀ t ∈ middle, t.kind.fillsImport = true
  stop_kind : stop.kind = .punctuation .semicolon

/-- The names in a list of names with dots between them. -/
def dottedNames? : List Token → Option (List String)
  | [] => none
  | [x] => if x.kind = .identifier then some [x.text] else none
  | x :: d :: rest =>
    if x.kind = .identifier ∧ d.kind = .punctuation .dot then
      (dottedNames? rest).map (x.text :: ·)
    else none

namespace ImportSegment

def tokens (s : ImportSegment) : List Token := s.word :: s.middle ++ [s.stop]

/-- The dotted name that is imported, if the segment is well formed. -/
def name? (s : ImportSegment) : Option String := (dottedNames? s.middle).map ".".intercalate

/-- Something else than a dotted name is imported. -/
def isBroken (s : ImportSegment) : Bool := s.name?.isNone

/-- A token of the segment is reported as unexpected. -/
def Blamed (s : ImportSegment) (d : Diagnostic) : Prop :=
  ∃ t ∈ s.tokens, ∃ demand, d = .unexpected demand t

end ImportSegment

theorem dottedNames?_of_repeated {x : Token} {us : List Token} {more : List String}
    (first : x.kind = .identifier) (rest : Repeated (After .dot Identifier) us more) :
    dottedNames? (x :: us) = some (x.text :: more) := by
  induction rest generalizing x with
  | nil => rw [dottedNames?, if_pos first]
  | cons next _ ih =>
    obtain ⟨separator, ⟨name⟩⟩ := next
    rw [List.cons_append, List.singleton_append, dottedNames?, if_pos ⟨first, separator⟩, ih name]
    rfl

theorem repeated_of_dottedNames? {us : List Token} {names : List String}
    (h : dottedNames? us = some names) : ∃ x vs more, us = x :: vs ∧ names = x.text :: more ∧
      x.kind = .identifier ∧ Repeated (After .dot Identifier) vs more := by
  fun_induction dottedNames? us generalizing names with
  | case1 => cases h
  | case2 x hx =>
    cases h
    exact ⟨x, [], [], rfl, rfl, hx, .nil⟩
  | case3 => cases h
  | case4 x d rest hboth ih =>
    obtain ⟨more, hmore, rfl⟩ := Option.map_eq_some_iff.mp h
    obtain ⟨y, vs, more, rfl, rfl, name, rest⟩ := ih hmore
    exact ⟨x, d :: y :: vs, _, rfl, rfl, hboth.1, .cons (.mk hboth.2 (.mk name)) rest⟩
  | case5 => cases h

theorem ImportSegment.name?_eq_some {s : ImportSegment} {name : String} :
    s.name? = some name ↔ QualifiedName s.middle name := by
  rw [name?, Option.map_eq_some_iff]
  constructor
  · rintro ⟨names, hnames, rfl⟩
    obtain ⟨x, vs, more, hmiddle, rfl, first, rest⟩ := repeated_of_dottedNames? hnames
    rw [hmiddle]
    exact .mk first rest
  · intro h
    generalize s.middle = us at h
    obtain ⟨first, rest⟩ := h
    exact ⟨_, dottedNames?_of_repeated first rest, rfl⟩

/-! ## Clauses that are given up -/

namespace Parser

variable {α β σ : Type} {p : Parser α} {f : α → Parser β} {c c' c₁ : Cursor}

/-- The parser accepts, or gives up at a token it does not expect with nothing else to report. -/
def Strict (p : Parser α) (c : Cursor) : Prop :=
  (∃ a c', Accepts p c a c') ∨ ∃ demand c', p c = .error (.unexpected demand c'.peek) c'

theorem Strict.accepted {a : α} (h : Accepts p c a c') : Strict p c := .inl ⟨a, c', h⟩

theorem Strict.bind (h : Strict p c) (rest : ∀ {a c₁}, Accepts p c a c₁ → Strict (f a) c₁) :
    Strict (p >>= f) c := by
  obtain ⟨a, c₁, hfirst⟩ | ⟨demand, c₁, hfails⟩ := h
  · obtain ⟨b, c', hrest⟩ | ⟨demand, c', hfails⟩ := rest hfirst
    · exact .inl ⟨b, c', hfirst.bind hrest⟩
    · refine .inr ⟨demand, c', ?_⟩
      rw [bind_of_ok hfirst, hfails]
      rfl
  · exact .inr ⟨demand, c₁, bind_of_error hfails⟩

theorem Strict.name (demand : Demand) : Strict (name demand) c := by
  by_cases h : demand.expected.admits c.peek.kind = true
  · exact .accepted ((accepts_expect.mpr ⟨h, rfl, rfl⟩).bind (accepts_pure.mpr ⟨rfl, rfl⟩))
  · exact .inr ⟨demand, c, bind_of_error (expect_of_not_admits h)⟩

theorem Strict.iterate {step : σ → Parser (Option (β × σ))} {s : σ}
    (h : ∀ s c, Strict (step s) c) : Strict (iterate step s) c := by
  induction hn : c.rest.length using Nat.strongRecOn generalizing s c with
  | ind n ih =>
    obtain ⟨_ | ⟨b, s'⟩, c₁, hstep⟩ | ⟨demand, c₁, hfails⟩ := h s c
    · exact .accepted (accepts_iterate_stop hstep)
    · by_cases hlt : c₁.rest.length < c.rest.length
      · obtain ⟨⟨bs, s''⟩, c', hrest⟩ | ⟨demand, c', hfails⟩ := ih _ (hn ▸ hlt) rfl (s := s')
        · exact .accepted (accepts_iterate_cons hstep hlt hrest)
        · refine .inr ⟨demand, c', ?_⟩
          rw [iterate_next hstep hlt, hfails]
          rfl
      · exact .accepted (iterate_stuck hstep hlt)
    · exact .inr ⟨demand, c₁, iterate_error hfails⟩

theorem Strict.many {step : Parser (Option α)} (h : ∀ c, Strict step c) : Strict (many step) c := by
  have hloop : Strict (Parser.iterate (round step) ()) c :=
    .iterate fun _ _ => (h _).bind fun _ => .accepted (accepts_pure.mpr ⟨rfl, rfl⟩)
  obtain ⟨⟨as, _⟩, c', hrounds⟩ | ⟨demand, c', hfails⟩ := hloop
  · exact .accepted (accepts_many_iff.mpr hrounds)
  · refine .inr ⟨demand, c', ?_⟩
    change (Parser.iterate (round step) () c).map Prod.fst = _
    rw [hfails]
    rfl

theorem Strict.accept (kind : Token.Kind) : Strict (accept kind) c := by
  by_cases h : c.peek.kind = kind
  · exact .accepted (accept_of_kind h)
  · exact .accepted (accept_of_ne h)

theorem qualifiedName_strict (demand : Demand) : Strict (qualifiedName demand) c := by
  refine (Strict.name demand).bind fun _ => .bind (.many fun c => ?_) fun _ =>
    .accepted (accepts_pure.mpr ⟨rfl, rfl⟩)
  refine (Strict.accept _).bind fun _ => ?_
  split
  · exact (Strict.name _).bind fun _ => .accepted (accepts_pure.mpr ⟨rfl, rfl⟩)
  · exact .accepted (accepts_pure.mpr ⟨rfl, rfl⟩)

/-! ## One segment -/

/-- A token in an import clause is read or skipped as any other. -/
structure Filler (kind : Token.Kind) : Prop where
  plain : kind.isPlain false = true
  stays : SyncPoint.topLevel.resumesAt kind = false
  kept : kind.isKept = true

theorem filler_of_fillsImport {kind : Token.Kind} (h : kind.fillsImport = true) : Filler kind := by
  revert h
  fun_cases Token.Kind.fillsImport kind with
  | case9 =>
    intro
    refine ⟨?_, ?_, ?_⟩
    · unfold Token.Kind.isPlain
      split <;> simp_all
    · unfold SyncPoint.resumesAt
      split <;> simp_all [Token.Kind.startsClass]
    · unfold Token.Kind.isKept
      split <;> simp_all
  | _ => simp

theorem skip_topLevel {us rest : List Token} {t : Token}
    (hus : ∀ u ∈ us, u.kind.fillsImport = true) (ht : t.kind = .punctuation .semicolon) :
    SyncPoint.topLevel.skip 0 (us ++ t :: rest) = us.length + 1 := by
  induction us with
  | nil => simp [SyncPoint.skip, ht, SyncPoint.resumesAt, Token.Kind.startsClass]
  | cons u us ih =>
    obtain ⟨hu, hmore⟩ := List.forall_mem_cons.mp hus
    obtain ⟨hplain, hstays, -⟩ := filler_of_fillsImport hu
    have hother : ∀ {mark}, (Token.Kind.punctuation mark).isPlain false = false →
        u.kind ≠ .punctuation mark := by
      intro mark hmark hkind
      rw [hkind, hmark] at hplain
      cases hplain
    rw [List.cons_append, SyncPoint.skip, if_neg (by simp [hstays]), if_neg (hother rfl),
      if_neg (hother rfl), if_neg (hother rfl), ih hmore, List.length_cons]

/-- What is read of a segment without its semicolon is a part of it. -/
theorem ImportSegment.inside {s : ImportSegment} {us : List Token}
    (hread : Reads c (s.middle ++ [s.stop]) c') (hus : Reads c us c₁)
    (hflat : ∀ t ∈ us, t.kind.isPlain false = true) :
    ∃ vs, s.middle = us ++ vs ∧ Reads c₁ (vs ++ [s.stop]) c' := by
  have hpart : ∃ vs, s.middle = us ++ vs := by
    have hsame : us ++ c₁.rest = s.middle ++ s.stop :: c'.rest := by
      rw [← hus.rest_eq, hread.rest_eq, List.append_assoc, List.singleton_append]
    obtain ⟨vs, hmiddle, -⟩ | ⟨vs, rfl, hstop⟩ := List.append_eq_append_iff.mp hsame
    · exact ⟨vs, hmiddle⟩
    · cases vs with
      | nil => exact ⟨[], by simp⟩
      | cons t vs =>
        have ht := hflat s.stop (by simp [(List.cons.inj hstop).1])
        rw [s.stop_kind] at ht
        cases ht
  obtain ⟨vs, hmiddle⟩ := hpart
  rw [hmiddle, List.append_assoc] at hread
  obtain ⟨c₂, hus', hvs⟩ := hread.split
  rw [hus'.eq_skip, ← hus.eq_skip] at hvs
  exact ⟨vs, hmiddle, hvs⟩

/-- A segment without a name is given up at one of its tokens. -/
theorem importDecl_fails (s : ImportSegment) (hread : Reads c s.tokens c') (h : s.name? = none) :
    ∃ demand us vs c₁, s.middle = us ++ vs ∧ Reads c.advance us c₁ ∧
      Reads c₁ (vs ++ [s.stop]) c' ∧ importDecl c = .error (.unexpected demand c₁.peek) c₁ := by
  have hrest := hread.of_cons.2
  have hwalks : Walks false false [] (qualifiedName .importName) c.advance :=
    qualifiedName_walks rfl
  obtain ⟨us, htravels, -⟩ := hwalks.goes
  have hinside := ImportSegment.inside hrest htravels.reads (htravels.flat rfl)
  obtain ⟨vs, hmiddle, hvs⟩ := hinside
  have hadvance : advance c = ⟨.ok c.peek, [], c.advance⟩ := rfl
  obtain ⟨name, c₁, hname⟩ | ⟨demand, c₁, hfails⟩ :=
    qualifiedName_strict (c := c.advance) .importName
  · rw [hname] at htravels hvs
    refine ⟨.importEnd, us, vs, c₁, hmiddle, htravels.reads, hvs, ?_⟩
    obtain ⟨us', hus', hgiven⟩ := qualifiedName_sound rfl hname
    obtain rfl := htravels.reads.unique hus'
    have hother : ¬ Demand.importEnd.expected.admits c₁.peek.kind = true := by
      cases vs with
      | nil =>
        -- then the whole segment is a name
        rw [List.append_nil] at hmiddle
        rw [ImportSegment.name?_eq_some.mpr (hmiddle ▸ hgiven)] at h
        cases h
      | cons t vs =>
        intro hadmits
        have hkind := kind_of_admits rfl hadmits
        rw [hvs.of_cons.1] at hkind
        have hfills := s.middle_kinds t (by simp [hmiddle])
        rw [hkind] at hfills
        cases hfills
    rw [importDecl, clause, bind_of_ok hadvance, bind_of_ok hname,
      bind_of_error (expect_of_not_admits hother)]
    rfl
  · rw [hfails] at htravels hvs
    refine ⟨demand, us, vs, c₁, hmiddle, htravels.reads, hvs, ?_⟩
    rw [importDecl, clause, bind_of_ok hadvance, bind_of_error hfails]
    rfl

/-- A segment is read as a whole, whatever is in it. -/
theorem recover_segment (s : ImportSegment) (hread : Reads c s.tokens c') :
    ∃ reports, recover .topLevel importDecl c = ⟨.ok s.name?, reports, c'⟩ ∧
      List.Forall₂ ImportSegment.Blamed ([s].filter ImportSegment.isBroken) reports := by
  cases hname : s.name? with
  | some name =>
    have hclause : Clause .importKw s.tokens name :=
      .mk s.word_kind (ImportSegment.name?_eq_some.mp hname) s.stop_kind
    obtain ⟨_, haccepts, rfl⟩ : ∃ name', Accepts importDecl c name' c' ∧ id name' = name :=
      clause_complete rfl rfl hclause hread trivial
    refine ⟨[], accepts_recover.mpr ⟨_, haccepts, rfl⟩, ?_⟩
    rw [List.filter_cons_of_neg (by simp [ImportSegment.isBroken, hname])]
    exact .nil
  | none =>
    obtain ⟨demand, us, vs, c₁, hmiddle, hus, hvs, hfails⟩ := importDecl_fails s hread hname
    have hsync : c₁.synchronize .topLevel = c' := by
      have hskip : SyncPoint.topLevel.skip 0 c₁.rest = (vs ++ [s.stop]).length := by
        rw [hvs.rest_eq, List.append_assoc, List.singleton_append, skip_topLevel _ s.stop_kind,
          List.length_append, List.length_singleton]
        exact fun t ht => s.middle_kinds t (by simp [hmiddle, ht])
      rw [Cursor.synchronize, hskip, ← hvs.eq_skip]
    have hall : Reads c s.tokens (c₁.synchronize .topLevel) := hsync ▸ hread
    have hblamed : s.Blamed (.unexpected demand c₁.peek) := by
      refine ⟨c₁.peek, ?_, demand, rfl⟩
      have hnext := hvs.peek_mem (by simp)
      rw [ImportSegment.tokens, hmiddle, List.cons_append, List.append_assoc]
      exact List.mem_cons_of_mem _ (List.mem_append_right us hnext)
    refine ⟨[.unexpected demand c₁.peek], (recover_error .topLevel hfails hall).trans ?_, ?_⟩
    · rw [if_neg (by simp [ImportSegment.tokens]), hsync]
      rfl
    · rw [List.filter_cons_of_pos (by simp [ImportSegment.isBroken, hname])]
      exact .cons hblamed .nil

/-! ## All segments -/

theorem imports_stop (h : c.peek.kind ≠ .keyword (.declaration .importKw)) :
    imports c = ⟨.ok [], [], c⟩ := by
  have hnext : nextImport c = ⟨.ok none, [], c⟩ := by
    change (if decide (c.peek.kind = .keyword (.declaration .importKw)) = true then _ else
      (pure none : Parser (Option (Option String)))) c = _
    rw [if_neg (by simpa using h)]
    rfl
  rw [imports, bind_pure]
  exact congrArg (Reply.map (List.filterMap id)) (many_stop hnext)

theorem imports_cons {o : Option String} {reports : List Diagnostic}
    (h : c.peek.kind = .keyword (.declaration .importKw))
    (hitem : recover .topLevel importDecl c = ⟨.ok o, reports, c'⟩)
    (hlt : c'.rest.length < c.rest.length) :
    imports c = ((imports c').map (o.toList ++ ·)).after reports := by
  have hnext : nextImport c = ⟨.ok (some o), reports, c'⟩ := by
    change (if decide (c.peek.kind = .keyword (.declaration .importKw)) = true then
      (recover .topLevel importDecl >>= fun o => pure (some o)) else _) c = _
    rw [if_pos (by simpa using h), bind_pure, hitem]
    rfl
  have hloop (c : Cursor) : imports c = (many nextImport c).map (List.filterMap id) := bind_pure
  rw [hloop, many_cons hnext hlt, hloop, Reply.map_after, Reply.map_map, Reply.map_map]
  congr 2
  funext items
  cases o <;> rfl

/-- The names are those of the segments that have one, and each of the others is reported. -/
theorem imports_segments {segments : List ImportSegment}
    (hread : Reads c (segments.flatMap ImportSegment.tokens) c')
    (hnext : c'.peek.kind ≠ .keyword (.declaration .importKw)) :
    ∃ reports, imports c = ⟨.ok (segments.filterMap ImportSegment.name?), reports, c'⟩ ∧
      List.Forall₂ ImportSegment.Blamed (segments.filter ImportSegment.isBroken) reports := by
  induction segments generalizing c with
  | nil =>
    cases hread.of_nil
    exact ⟨[], imports_stop hnext, .nil⟩
  | cons s segments ih =>
    rw [List.flatMap_cons] at hread
    obtain ⟨c₁, hs, hmore⟩ := hread.split
    obtain ⟨reports, hitem, hblamed⟩ := recover_segment s hs
    obtain ⟨later, himports, hlater⟩ := ih hmore
    have hkind : c.peek.kind = .keyword (.declaration .importKw) := hs.of_cons.1 ▸ s.word_kind
    refine ⟨reports ++ later, ?_, ?_⟩
    · rw [imports_cons hkind hitem hs.progress, himports]
      cases hname : s.name? <;> simp [Reply.map, Reply.after, Except.map, hname]
    · rw [← List.singleton_append, List.filter_append]
      exact List.rel_append hblamed hlater

/-- Segments in front of a class are a header without a package. -/
theorem header_segments {segments : List ImportSegment}
    (hread : Reads c (segments.flatMap ImportSegment.tokens) c')
    (hclass : c'.peek.kind.startsClass = true) :
    Accepts package? c none c ∧
      ∃ reports, imports c = ⟨.ok (segments.filterMap ImportSegment.name?), reports, c'⟩ ∧
        List.Forall₂ ImportSegment.Blamed (segments.filter ImportSegment.isBroken) reports := by
  have hother : ∀ word, Token.Kind.startsClass (.keyword (.declaration word)) = false →
      c'.peek.kind ≠ .keyword (.declaration word) := by
    intro word hword hkind
    rw [hkind, hword] at hclass
    cases hclass
  refine ⟨package?_complete .none (.nil c) ?_, imports_segments hread (hother _ rfl)⟩
  cases segments with
  | nil => exact hread.of_nil ▸ hother _ rfl
  | cons s segments =>
    rw [List.flatMap_cons, ImportSegment.tokens] at hread
    rw [hread.of_cons.1, s.word_kind]
    decide

end Parser

theorem ImportSegment.kept (s : ImportSegment) : ∀ t ∈ s.tokens, t.kind.isKept = true := by
  intro t ht
  rw [tokens, List.mem_append, List.mem_cons, List.mem_singleton] at ht
  obtain (rfl | ht) | rfl := ht
  · rw [s.word_kind]
    rfl
  · exact (filler_of_fillsImport (s.middle_kinds t ht)).kept
  · rw [s.stop_kind]
    rfl

/-- Blamed tokens are met one after another. -/
theorem ImportSegment.blamed_sublist {segments : List ImportSegment} {p : ImportSegment → Bool}
    {ds : List Diagnostic} (h : List.Forall₂ Blamed (segments.filter p) ds) :
    (ds.map (·.loc.span)).Sublist ((segments.flatMap tokens).map (·.loc.span)) := by
  induction segments generalizing ds with
  | nil =>
    cases h
    exact .slnil
  | cons s segments ih =>
    rw [List.flatMap_cons, List.map_append]
    by_cases hs : p s = true
    · rw [List.filter_cons_of_pos hs] at h
      cases h with
      | cons hfirst hmore =>
        obtain ⟨t, ht, demand, rfl⟩ := hfirst
        have ht : [t.loc.span].Sublist (s.tokens.map (·.loc.span)) :=
          List.singleton_sublist.mpr (List.mem_map_of_mem ht)
        exact ht.append (ih hmore)
    · rw [List.filter_cons_of_neg hs] at h
      exact (ih h).trans (List.sublist_append_right _ _)

/-- **Broken imports do not affect good ones.** In front of a class declaration that parses on its
own, import clauses give the names of those that are well formed, in order. Each other clause is
reported once, at one of its tokens, and the class is the one that the declaration gives alone. -/
theorem parse_imports (segments : List ImportSegment) (decl : List Token)
    (hclean : (parse decl).diagnostics = [])
    (hbare : (parse decl).program.package = none ∧ (parse decl).program.imports = [])
    (hspans : ((segments.flatMap ImportSegment.tokens).map (·.loc.span)).Nodup) :
    (parse (segments.flatMap ImportSegment.tokens ++ decl)).program =
        ⟨none, segments.filterMap ImportSegment.name?, (parse decl).program.classDecl⟩ ∧
      List.Forall₂ ImportSegment.Blamed (segments.filter ImportSegment.isBroken)
        (parse (segments.flatMap ImportSegment.tokens ++ decl)).diagnostics := by
  obtain ⟨c, haccepts⟩ := parse_diagnostics_eq_nil hclean
  obtain ⟨us, vs, ws, c₁, c₂, a, hus, hvs, hws, hend, header, clauses, given, ha, hclass⟩ :=
    program_accepts haccepts
  rw [hbare.1] at header
  rw [hbare.2] at clauses
  cases header
  cases clauses
  obtain rfl := hus.of_nil
  obtain rfl := hvs.of_nil
  have hrest : (Cursor.ofTokens (segments.flatMap ImportSegment.tokens ++ decl)).rest =
      segments.flatMap ImportSegment.tokens ++ ws := by
    have hkept : ∀ t ∈ segments.flatMap ImportSegment.tokens, t.kind.isKept = true := by
      intro t ht
      obtain ⟨s, -, ht⟩ := List.mem_flatMap.mp ht
      exact s.kept t ht
    have hdecl : decl.filter (·.kind.isKept) = ws := by
      have hall := hws.rest_eq
      rwa [hend, List.append_nil] at hall
    rw [Cursor.ofTokens, List.filter_append, List.filter_eq_self.mpr hkept, hdecl]
  obtain ⟨d, hread, hd⟩ := exists_reads_append hrest
  obtain ⟨d', hread', hd'⟩ := exists_reads_append (hd.trans (List.append_nil ws).symm)
  obtain ⟨hpackage, reports, himports, hblamed⟩ := header_segments hread
    (peek_of_leads (startsClass_of_classDeclaration given) hread')
  have hkeeps : Diagnostic.withoutCascades reports = reports :=
    Diagnostic.withoutCascades_of_nodup ((ImportSegment.blamed_sublist hblamed).nodup hspans)
  rw [parse_of_parts hpackage himports (classDeclaration_elsewhere given ha hws hread'), hd',
    List.head?_nil, Option.map_none, Option.toList_none, List.append_nil, hkeeps, hclass]
  exact ⟨rfl, hblamed⟩

theorem parse_imports_between_broken :
    let token (kind : Token.Kind) (text : String) (n : Nat) : Token :=
      ⟨kind, text, none, ⟨⟨n, n + 1⟩, 1⟩⟩
    let word := token (.keyword (.declaration .importKw)) "import"
    let stop := token (.punctuation .semicolon) ";"
    let dot := token (.punctuation .dot) "."
    let name := token .identifier
    let cut : ImportSegment := ⟨word 0, [name "a" 1, dot 2], stop 3, rfl, by decide, rfl⟩
    let whole : ImportSegment :=
      ⟨word 4, [name "a" 5, dot 6, name "b" 7], stop 8, rfl, by decide, rfl⟩
    let empty : ImportSegment := ⟨word 9, [], stop 10, rfl, by decide, rfl⟩
    let segments := [cut, whole, empty]
    let decl := (lex "class A \x7b int f; \x7d").tokens
    let parsed := parse (segments.flatMap ImportSegment.tokens ++ decl)
    (parse decl).diagnostics = [] ∧
      parsed.program = ⟨none, ["a.b"], (parse decl).program.classDecl⟩ ∧
      List.Forall₂ ImportSegment.Blamed [cut, empty] parsed.diagnostics := by
  intro token word stop dot name cut whole empty segments decl parsed
  have hclean : (parse decl).diagnostics = [] := by decide +kernel
  have hbare : (parse decl).program.package = none ∧ (parse decl).program.imports = [] := by
    decide +kernel
  obtain ⟨hprogram, hblamed⟩ := parse_imports segments decl hclean hbare (by decide)
  exact ⟨hclean, hprogram, hblamed⟩

end JavaSubset
