import JavaSubset.Proofs.Cascades
import JavaSubset.Proofs.Search

/-!
# Bodies end at the brace that closes them

* `Body q items closing` : the productions that read a body in braces, a block or that of a class;
* `Body.closed`, `Body.unclosed` : such a body is read up to the brace that closes it, or to the
  end, where that brace is missed;
* `class_ends` : what follows a class that is closed is reported at its first token;
* `parse_bodies` : the same for all bodies of a parse.
-/

namespace JavaSubset

open Cursor

namespace Parser

variable {α β : Type} {c c' : Cursor} {i j : Nat}

theorem ReadsClosed.closes (h : ReadsClosed (c.skip i) c')
    (hopen : (c.skip i).peek.kind = .punctuation .lbrace) :
    ∃ j, Closes c.rest i j ∧ c' = c.skip j := by
  obtain ⟨us, hreads, hbalanced, hclose⟩ := h
  refine ⟨i + us.length + 1, ?_, ?_⟩
  · have hdrop := (hreads.trans (reads_kind hclose rfl)).rest_eq
    rw [skip_rest, List.append_assoc, List.singleton_append] at hdrop
    exact closes_of_drop hdrop hopen hbalanced hclose
  · rw [hreads.eq_skip, skip_skip, List.length_cons, Nat.add_assoc]

theorem ReadsOpen.not_closes (h : ReadsOpen (c.skip i) c')
    (hopen : (c.skip i).peek.kind = .punctuation .lbrace) : ¬ Closes c.rest i j := by
  obtain ⟨us, hreads, hlevel, hend⟩ := h
  have hdrop := hreads.rest_eq
  rw [skip_rest, hend, List.append_nil] at hdrop
  exact not_closes_of_drop hdrop hopen hlevel

/-! ## Bodies -/

/-- The productions that read a body in braces, the loop over what is in it, and what they ask for
behind it. -/
inductive Body : {α : Type} → Parser (List α) → Parser (List α) → Demand → Prop where
  | block {demand : Demand} (limit : Nat)
      (opens : demand.expected = .token (.punctuation .lbrace)) :
      Body (block (statement limit) demand) (bodyOf .statement (statement limit)) .blockEnd
  | members (limit : Nat) : Body (classBody limit) (bodyOf .member (member limit)) .classEnd

theorem classBody_of_body {limit : Nat} {as : List (Member Location)} {reports : List Diagnostic}
    (hopen : c.peek.kind = .punctuation .lbrace)
    (h : bodyOf .member (member limit) c.advance = ⟨.ok as, reports, c'⟩) :
    classBody limit c =
      if c'.peek.kind = .punctuation .rbrace then ⟨.ok as, reports, c'.advance⟩
      else ⟨.ok as, reports ++ [.unexpected .classEnd c'.peek], c'⟩ := by
  rw [classBody, bind_of_ok (expect_of_admits (by rw [hopen]; rfl)), bind_of_ok h,
    Reply.after_nil]
  by_cases hclose : c'.peek.kind = .punctuation .rbrace
  · rw [bind_of_ok (accept_of_kind hclose), if_pos hclose]
    simp [Reply.after, Pure.pure, Reply.ok]
  · rw [bind_of_ok (accept_of_ne hclose), if_neg hclose]
    simp [Reply.after, Pure.pure, Reply.ok, complain, peek, log, Bind.bind, Reply.andThen]

section Body

variable {q items : Parser (List α)} {closing : Demand}

/-- The loop stops in front of the brace that closes the body, which is read then, or at the end,
where it is missed. -/
theorem Body.cases (h : Body q items closing) (hopen : c.peek.kind = .punctuation .lbrace) :
    ∃ as reports c', items c.advance = ⟨.ok as, reports, c'⟩ ∧
      ((ReadsClosed c c' ∧ q c = ⟨.ok as, reports, c'.advance⟩) ∨
        (ReadsOpen c c' ∧ (q c).cursor = c' ∧
          (q c).raised = reports ++ [.unexpected closing c.eof])) := by
  cases h with
  | block limit opens =>
    have hitems : ∀ seen c, Walks true true seen (statement limit) c :=
      fun _ _ => statement_walks limit
    have hbody : ∀ c, Walks true false [] (bodyOf .statement (statement limit)) c :=
      fun _ => bodyOf_walks hitems
    obtain ⟨as, reports, c', hloop, hcases⟩ :=
      block_cases (fun c => (hitems [] c).goes) (fun c => (hbody c).goes) opens hopen
    refine ⟨as, reports, c', hloop, hcases.imp_right fun ⟨hleft, hblock⟩ => ?_⟩
    have heof : c'.eof = c.eof := by
      obtain ⟨us, hreads, -, -⟩ := hleft
      exact hreads.eof_eq
    rw [hblock, heof]
    exact ⟨hleft, rfl, rfl⟩
  | members limit =>
    have hitems : ∀ seen c, Walks true true seen (member limit) c := fun _ _ => member_walks limit
    have hbody : Walks true false [] (bodyOf .member (member limit)) c.advance :=
      bodyOf_walks hitems
    obtain ⟨as, reports, c', hloop, hcases⟩ :=
      body_cases (fun c => (hitems [] c).goes) hbody.goes hopen
    refine ⟨as, reports, c', hloop, ?_⟩
    rw [classBody_of_body hopen hloop]
    rcases hcases with hclosed | hleft
    · obtain ⟨us, -, -, hclose⟩ := id hclosed
      exact .inl ⟨hclosed, if_pos hclose⟩
    · obtain ⟨us, hreads, -, hend⟩ := id hleft
      have hpeek : c'.peek = c.eof := (peek_of_nil hend).trans hreads.eof_eq
      have hnot : c'.peek.kind ≠ .punctuation .rbrace := by
        rw [hpeek, c.eof_kind]
        decide
      rw [if_neg hnot, hpeek]
      exact .inr ⟨hleft, rfl, rfl⟩

theorem Body.closed (h : Body q items closing)
    (hopen : (c.skip i).peek.kind = .punctuation .lbrace) (hcloses : Closes c.rest i j) :
    ∃ as reports, items (c.skip (i + 1)) = ⟨.ok as, reports, c.skip j⟩ ∧
      q (c.skip i) = ⟨.ok as, reports, c.skip (j + 1)⟩ := by
  obtain ⟨as, reports, c', hitems, ⟨hclosed, hbody⟩ | ⟨hleft, -, -⟩⟩ := h.cases hopen
  · obtain ⟨k, hcloses', rfl⟩ := hclosed.closes hopen
    obtain rfl := hcloses.unique hcloses'
    rw [skip_succ, skip_succ]
    exact ⟨as, reports, hitems, hbody⟩
  · exact absurd hcloses (hleft.not_closes hopen)

theorem Body.unclosed (h : Body q items closing)
    (hopen : (c.skip i).peek.kind = .punctuation .lbrace) (hnone : ∀ j, ¬ Closes c.rest i j) :
    (q (c.skip i)).cursor.rest = [] ∧
      ∃ own, (q (c.skip i)).raised = own ++ [.unexpected closing c.eof] := by
  obtain ⟨as, reports, c', -, ⟨hclosed, -⟩ | ⟨hleft, hcursor, hraised⟩⟩ := h.cases hopen
  · obtain ⟨j, hcloses, -⟩ := hclosed.closes hopen
    exact absurd hcloses (hnone j)
  · obtain ⟨us, -, -, hend⟩ := hleft
    rw [skip_eof] at hraised
    rw [hcursor]
    exact ⟨hend, reports, hraised⟩

end Body

/-! ## Behind the class -/

theorem classBody_opens {limit : Nat} {members : List (Member Location)}
    {reports : List Diagnostic} (h : classBody limit c = ⟨.ok members, reports, c'⟩) :
    c.peek.kind = .punctuation .lbrace := by
  obtain ⟨t, r₁, c₁, own, hexpect, -, -⟩ := bind_eq_ok h
  by_cases hadmits : Demand.classBody.expected.admits c.peek.kind = true
  · exact kind_of_admits rfl hadmits
  · rw [expect_of_not_admits hadmits] at hexpect
    cases hexpect

/-- The diagnostics of a class body that is closed are placed at its tokens. -/
theorem classBody_marked {limit : Nat} {members : List (Member Location)}
    {reports : List Diagnostic} (h : classBody limit (c.skip i) = ⟨.ok members, reports, c'⟩)
    (hcloses : Closes c.rest i j) :
    ∃ us, Reads (c.skip i) us c' ∧ us ≠ [] ∧ Marked us reports := by
  have hopen := classBody_opens h
  obtain ⟨as, own, c₁, hbody, ⟨hclosed, hclass⟩ | ⟨hleft, -, -⟩⟩ := (Body.members limit).cases hopen
  · obtain ⟨us, -, -, hclose⟩ := hclosed
    rw [hclass] at h
    cases h
    have hwalks : Walks true false [] (bodyOf .member (member limit)) (c.skip i).advance :=
      bodyOf_walks fun _ _ => member_walks limit
    obtain ⟨vs, hreads, hmarked⟩ := hwalks.places
    rw [hbody] at hreads hmarked
    refine ⟨[(c.skip i).peek] ++ (vs ++ [c₁.peek]), ?_, by simp, hmarked.mono ?_⟩
    · exact (reads_kind hopen rfl).trans (hreads.trans (reads_kind hclose rfl))
    · simp
  · exact absurd hcloses (hleft.not_closes hopen)

end Parser

/-! ## Whole parses -/

section Parse

open JavaSubset.Parser

variable {tokens : List Token} {i j : Nat}

theorem parse_diagnostics (tokens : List Token) :
    (parse tokens).diagnostics =
      Diagnostic.withoutCascades (program maxNesting (.ofTokens tokens)).raised := by
  unfold parse
  rcases program maxNesting (.ofTokens tokens) with ⟨⟨d⟩ | ⟨prog⟩, reports, c⟩ <;> rfl

theorem parse_classDecl {decl : ClassDecl Location}
    (h : (parse tokens).program.classDecl = some decl) :
    ∃ prog reports c, program maxNesting (.ofTokens tokens) = ⟨.ok prog, reports, c⟩ ∧
      prog.classDecl = some decl := by
  unfold parse at h
  rcases hprogram : program maxNesting (.ofTokens tokens) with ⟨⟨d⟩ | ⟨prog⟩, reports, c⟩
  · rw [hprogram] at h
    cases h
  · rw [hprogram] at h
    exact ⟨prog, reports, c, rfl, h⟩

/-- The brace at `i` opens the body that `q` reads, by the loop `items` and then what `closing` asks
for. -/
structure OpensBody {α : Type} (tokens : List Token) (q items : Parser (List α))
    (closing : Demand) (i : Nat) : Prop where
  body : Body q items closing
  runs : Runs (program maxNesting) (.ofTokens tokens) q ((Cursor.ofTokens tokens).skip i)
  brace : ∃ t, (tokens.filter (·.kind.isKept))[i]? = some t ∧ t.kind = .punctuation .lbrace

/-- The class declaration `decl` is read from `c` on, and its body is the one that the brace at `i`
opens. -/
structure OpensClass (tokens : List Token) (decl : ClassDecl Location) (c : Cursor)
    (i : Nat) : Prop where
  runs : Runs (program maxNesting) (.ofTokens tokens) (classDecl maxNesting) c
  outcome : (classDecl maxNesting c).outcome = .ok decl
  body : Runs (classDecl maxNesting) c (classBody maxNesting) ((Cursor.ofTokens tokens).skip i)
  opens : OpensBody tokens (classBody maxNesting) (bodyOf .member (member maxNesting)) .classEnd i

/-- Behind the diagnostics `earlier` the parse comes to `d`, which is left out only if the last one
kept of those has its span. -/
structure Records (tokens : List Token) (earlier : List Diagnostic) (d : Diagnostic) : Prop where
  raised : ∃ more, (program maxNesting (.ofTokens tokens)).raised = earlier ++ d :: more
  recorded : ∃ later, (parse tokens).diagnostics = Diagnostic.withoutCascades earlier ++
    (if Diagnostic.lastSpan? (Diagnostic.withoutCascades earlier) = some d.loc.span then []
      else [d]) ++ later

theorem records_of_raised {earlier more : List Diagnostic} {d : Diagnostic}
    (h : (program maxNesting (.ofTokens tokens)).raised = earlier ++ d :: more) :
    Records tokens earlier d where
  raised := ⟨more, h⟩
  recorded := by
    refine ⟨Diagnostic.withoutRepeats d.loc.span more, ?_⟩
    rw [parse_diagnostics, h, Diagnostic.withoutCascades_cons_behind]

theorem OpensBody.peek_kind {α : Type} {q items : Parser (List α)} {closing : Demand}
    (h : OpensBody tokens q items closing i) :
    ((Cursor.ofTokens tokens).skip i).peek.kind = .punctuation .lbrace := by
  obtain ⟨t, hget, hkind⟩ := h.brace
  have hpeek : ((Cursor.ofTokens tokens).skip i).peek = t := by
    rw [peek_skip, show (Cursor.ofTokens tokens).rest[i]? = some t from hget, Option.getD_some]
  rw [hpeek, hkind]

theorem filter_asksForEnd_of_marked {ts : List Token} {ds : List Diagnostic} (h : Marked ts ds) :
    (Diagnostic.withoutCascades ds).filter (·.asksForEnd) = [] := by
  rw [List.filter_eq_nil_iff]
  intro d hd
  obtain ⟨t, -, hmarks⟩ := h d ((Diagnostic.withoutCascades_sublist ds).subset hd)
  simp [hmarks.other]

/-- What follows a class is reported once, at its first token. -/
theorem filter_asksForEnd_snoc {ts rest : List Token} {t : Token} {ds : List Diagnostic}
    (h : Marked ts ds) (hspans : ((ts ++ t :: rest).map (·.loc.span)).Nodup) :
    (Diagnostic.withoutCascades (ds ++ [.unexpected .sourceEnd t])).filter (·.asksForEnd) =
      [.unexpected .sourceEnd t] := by
  have hne : ∀ d ∈ ds, ∀ e ∈ [Diagnostic.unexpected .sourceEnd t], d.loc.span ≠ e.loc.span := by
    intro d hd e he
    rw [List.mem_singleton] at he
    obtain ⟨u, hu, hmarks⟩ := h d hd
    rw [List.map_append, List.map_cons, List.nodup_append] at hspans
    rw [he, hmarks.place]
    exact hspans.2.2 _ (List.mem_map_of_mem hu) _ List.mem_cons_self
  rw [Diagnostic.withoutCascades_append hne, List.filter_append, filter_asksForEnd_of_marked h]
  rfl

/-- The class that is returned, with what is raised before its body, in it and behind it. -/
theorem class_found {decl : ClassDecl Location}
    (hdecl : (parse tokens).program.classDecl = some decl) :
    ∃ c us before own, OpensClass tokens decl c us.length ∧
      Reads (.ofTokens tokens) us ((Cursor.ofTokens tokens).skip us.length) ∧
      Marked (us ++ [((Cursor.ofTokens tokens).skip us.length).peek]) before ∧
      classBody maxNesting ((Cursor.ofTokens tokens).skip us.length) =
        ⟨.ok decl.members, own, (classDecl maxNesting c).cursor⟩ ∧
      (parse tokens).diagnostics = Diagnostic.withoutCascades (before ++ own ++
        ((classDecl maxNesting c).cursor.rest.head?.map (.unexpected .sourceEnd)).toList) := by
  obtain ⟨prog, reports, c', hprogram, hprog⟩ := parse_classDecl hdecl
  obtain ⟨before, own, c, e, hcomes, hclass, rfl⟩ := program_found hprogram hprog
  obtain ⟨before', own', b, hcomes', hbody, rfl⟩ := classDecl_found hclass
  have hall := hcomes.trans hcomes'
  obtain ⟨us, hreads, hmarked⟩ := hall.places
  obtain rfl : b = (Cursor.ofTokens tokens).skip us.length := hreads.eq_skip
  have hopen := classBody_opens hbody
  have hbrace := getElem?_of_peek (c := .ofTokens tokens) (by rw [hopen]; simp)
  refine ⟨c, us, before ++ before', own', ?_, hreads, hmarked, by rw [hbody, hclass], ?_⟩
  · have hopens : OpensBody tokens _ _ _ us.length :=
      ⟨.members maxNesting, hall.runs, _, hbrace, hopen⟩
    exact ⟨hcomes.runs, by rw [hclass], hcomes'.runs, hopens⟩
  · rw [parse_diagnostics, hprogram, Reply.raised_ok, hclass, ← List.append_assoc before]
    cases hrest : e.rest with
    | nil => rfl
    | cons t rest =>
      rw [if_neg (by simp), peek_of_rest hrest]
      rfl

/-- What follows a class is asked for if the class is closed. An unclosed one takes all. -/
theorem class_ends {decl : ClassDecl Location}
    (hspans : ((tokens.filter (·.kind.isKept)).map (·.loc.span)).Nodup)
    (hdecl : (parse tokens).program.classDecl = some decl) :
    ∃ c i, OpensClass tokens decl c i ∧
      (∀ j, Closes (tokens.filter (·.kind.isKept)) i j →
        (classDecl maxNesting c).cursor = (Cursor.ofTokens tokens).skip (j + 1) ∧
          (parse tokens).diagnostics.filter (·.asksForEnd) =
            ((tokens.filter (·.kind.isKept))[j + 1]?.map (.unexpected .sourceEnd)).toList) ∧
      ((∀ j, ¬ Closes (tokens.filter (·.kind.isKept)) i j) →
        (parse tokens).diagnostics.filter (·.asksForEnd) = []) := by
  obtain ⟨c, us, before, own, hopens, hreads, hmarked, hbody, hdiag⟩ := class_found hdecl
  have hopen := hopens.opens.peek_kind
  refine ⟨c, us.length, hopens, fun j hcloses => ?_, fun hnone => ?_⟩
  · have hcursor : (classDecl maxNesting c).cursor = (Cursor.ofTokens tokens).skip (j + 1) := by
      obtain ⟨as, reports, -, hclosed⟩ := hopens.opens.body.closed hopen hcloses
      exact congrArg Reply.cursor (hbody.symm.trans hclosed)
    refine ⟨hcursor, ?_⟩
    obtain ⟨vs, hreads', hne, hmarked'⟩ := classBody_marked hbody hcloses
    have hmarks : Marked (us ++ vs) (before ++ own) := by
      refine (hmarked.mono ?_).append (hmarked'.mono (List.subset_append_right _ _))
      refine List.append_subset.mpr ⟨List.subset_append_left _ _, ?_⟩
      simpa using List.mem_append_right us (hreads'.peek_mem hne)
    have hkept : tokens.filter (·.kind.isKept) = us ++ vs ++ _ := (hreads.trans hreads').rest_eq
    have hnext : (tokens.filter (·.kind.isKept))[j + 1]? =
        (classDecl maxNesting c).cursor.rest.head? := by
      rw [hcursor, skip_rest, List.head?_drop]
      rfl
    rw [hdiag, hnext]
    cases hrest : (classDecl maxNesting c).cursor.rest with
    | nil =>
      rw [List.head?_nil, Option.map_none, Option.toList_none, List.append_nil,
        filter_asksForEnd_of_marked hmarks]
    | cons t rest =>
      rw [hkept, hrest] at hspans
      exact filter_asksForEnd_snoc hmarks hspans
  · obtain ⟨hend, -⟩ := hopens.opens.body.unclosed hopen hnone
    obtain ⟨vs, -, hmarked'⟩ : Places [] _ _ := classBody_places
    rw [hbody] at hend hmarked'
    rw [Reply.raised_ok] at hmarked'
    have hmarks := (hmarked.mono (List.subset_append_left _ _)).append
      (hmarked'.mono (List.subset_append_right _ _))
    rw [hdiag, hend, List.head?_nil, Option.map_none, Option.toList_none, List.append_nil,
      filter_asksForEnd_of_marked hmarks]

/-- **No brace is lost or stolen.** Whatever is wrong inside, a body is read up to the brace that
closes it. Without one it is read to the end, and that the brace is missing is recorded. So what
follows a class that is closed is reported, and nothing else is. -/
theorem parse_bodies (tokens : List Token) :
    let kept := tokens.filter (·.kind.isKept)
    let start := Cursor.ofTokens tokens
    (∀ {α : Type} {q items : Parser (List α)} {closing : Demand} {i : Nat},
      OpensBody tokens q items closing i →
      (∀ j, Closes kept i j → ∃ as reports,
        items (start.skip (i + 1)) = ⟨.ok as, reports, start.skip j⟩ ∧
          q (start.skip i) = ⟨.ok as, reports, start.skip (j + 1)⟩) ∧
      ((∀ j, ¬ Closes kept i j) →
        (q (start.skip i)).cursor.rest = [] ∧
          ∃ earlier own, (q (start.skip i)).raised = own ++ [.unexpected closing start.eof] ∧
            Records tokens (earlier ++ own) (.unexpected closing start.eof))) ∧
    ((kept.map (·.loc.span)).Nodup → ∀ decl, (parse tokens).program.classDecl = some decl →
      ∃ c i, OpensClass tokens decl c i ∧
        (∀ j, Closes kept i j → (classDecl maxNesting c).cursor = start.skip (j + 1) ∧
          (parse tokens).diagnostics.filter (·.asksForEnd) =
            (kept[j + 1]?.map (.unexpected .sourceEnd)).toList) ∧
        ((∀ j, ¬ Closes kept i j) → (parse tokens).diagnostics.filter (·.asksForEnd) = [])) := by
  intro kept start
  refine ⟨fun {α q items closing i} hopens => ⟨fun j hcloses => ?_, fun hnone => ?_⟩, ?_⟩
  · exact hopens.body.closed hopens.peek_kind hcloses
  · obtain ⟨hend, own, hraised⟩ := hopens.body.unclosed hopens.peek_kind hnone
    obtain ⟨earlier, later, hall⟩ := hopens.runs.raised
    have hbehind : (program maxNesting start).raised =
        (earlier ++ own) ++ .unexpected closing start.eof :: later := by
      rw [← hall, hraised]
      simp [start]
    exact ⟨hend, earlier, own, hraised, records_of_raised hbehind⟩
  · exact fun hspans decl hdecl => class_ends hspans hdecl

theorem parse_bodies_broken_method :
    let token (kind : Token.Kind) (n : Nat) : Token := ⟨kind, "", none, ⟨⟨n, n + 1⟩, 1⟩⟩
    let mark (m : Punctuation) := token (.punctuation m)
    let tokens := [token (.keyword (.declaration .classKw)) 0, token .identifier 1, mark .lbrace 2,
      token (.keyword (.primitive .int)) 3, token .identifier 4, mark .lparen 5, mark .rparen 6,
      mark .lbrace 7, mark .rparen 8, mark .semicolon 9, mark .rbrace 10, mark .rbrace 11,
      mark .rbrace 12]
    let start := Cursor.ofTokens tokens
    OpensBody tokens (block (statement maxNesting) .methodBody)
        (bodyOf .statement (statement maxNesting)) .blockEnd 7 ∧
      Closes tokens 7 10 ∧
      (block (statement maxNesting) .methodBody (start.skip 7)).cursor = start.skip 11 ∧
      ∃ decl c i, (parse tokens).program.classDecl = some decl ∧ OpensClass tokens decl c i ∧
        ∀ j, Closes tokens i j → (classDecl maxNesting c).cursor = start.skip (j + 1) ∧
          (parse tokens).diagnostics.filter (·.asksForEnd) =
            (tokens[j + 1]?.map (.unexpected .sourceEnd)).toList := by
  intro token mark tokens start
  have hmodifiers : ∀ next c, next [] c = ⟨.ok none, [], c⟩ →
      modifiers next c = ⟨.ok (.ofList []), [], c⟩ := by
    intro next c h
    rw [modifiers, iterate, h]
    rfl
  have himports : imports start = ⟨.ok [], [], start⟩ := by
    rw [imports, bind_pure, many, iterate]
    rfl
  have hmember : Runs (member maxNesting) (start.skip 3)
      (block (statement maxNesting) .methodBody) (start.skip 7) := by
    refine .next rfl (.first (.next (hmodifiers _ _ rfl) (.next rfl (.next rfl (.next rfl ?_)))))
    exact .next rfl (.next rfl (.next rfl (.next rfl (.first .self))))
  have hclass : Runs (classDecl maxNesting) start (member maxNesting) (start.skip 3) := by
    refine .next rfl (.first (.next (hmodifiers _ _ rfl) (.next rfl (.next rfl (.first ?_)))))
    refine .next rfl (.first (.first (.map _ (.round (.first ?_)))))
    exact .next rfl (.next rfl (.first (.recover _ .self)))
  have hruns : Runs (program maxNesting) start (block (statement maxNesting) .methodBody)
      (start.skip 7) := by
    refine .next rfl (.next himports (.first (.map _ (.round ?_))))
    exact .next rfl (.first (.recover _ (hclass.trans hmember)))
  have hopens : OpensBody tokens (block (statement maxNesting) .methodBody)
      (bodyOf .statement (statement maxNesting)) .blockEnd 7 :=
    ⟨.block _ rfl, hruns, _, rfl, rfl⟩
  have hcloses : Closes tokens 7 10 := by decide
  obtain ⟨decl, hdecl⟩ : ∃ decl, (parse tokens).program.classDecl = some decl :=
    Option.isSome_iff_exists.mp (by decide +kernel)
  obtain ⟨c, i, hclass, hends, -⟩ := (parse_bodies tokens).2 (by decide) decl hdecl
  obtain ⟨as, reports, -, hblock⟩ := ((parse_bodies tokens).1 hopens).1 10 hcloses
  exact ⟨hopens, hcloses, by rw [hblock], decl, c, i, hdecl, hclass, hends⟩

end Parse

end JavaSubset
