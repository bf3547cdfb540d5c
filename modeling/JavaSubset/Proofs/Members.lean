import JavaSubset.Proofs.Bodies
import JavaSubset.Proofs.Locality

/-!
# Members are parsed independently

In front of a stretch that is closed (balanced, with a semicolon or a closing brace at the end) a
member is read within it, whatever follows (`member_within`). So a round of the loop over the
members leaves a stretch that is closed again (`round_within`), and all rounds together leave
nothing of it (`members_split`): what they give and report depends on the stretch alone.

`ClassFrame.parse_append` : two stretches in one class give the members and the diagnostics that
each of them gives alone.
-/

namespace JavaSubset

open Cursor

/-! ## Stretches that are closed -/

section Ended

variable {t : Token} {us v : List Token}

theorem Ended.of_append (h : Ended (us ++ v)) (hv : v ≠ []) : Ended v := by
  obtain ⟨t, hlast, hkind⟩ := h
  rw [List.getLast?_append, List.getLast?_eq_some_getLast hv, Option.some_or] at hlast
  exact ⟨t, by rwa [List.getLast?_eq_some_getLast hv], hkind⟩

theorem Ended.ne_nil (h : Ended v) : v ≠ [] := by
  rintro rfl
  obtain ⟨t, hlast, -⟩ := h
  cases hlast

/-- No production outside of blocks gets over its last token. -/
theorem Ended.holds (h : Ended v) : Holds false v := by
  obtain ⟨t, hlast, hkind⟩ := h
  refine ⟨t, List.mem_of_getLast? hlast, ?_⟩
  rcases hkind with hkind | hkind <;> rw [hkind] <;> rfl

end Ended

namespace Parser

variable {α β : Type} {p : Parser α} {f : α → Parser β} {c c' d d' : Cursor}
  {us v v' : List Token} {limit : Nat}

/-- Two cursors in front of a stretch that is closed. -/
structure Stretch (v : List Token) (c d : Cursor) : Prop where
  ahead : Ahead v c d
  ended : Ended v
  even : depth v = 0

/-- A part that reads nothing but single tokens, and the rest behind it. -/
theorem Stretch.bind (h : Stretch v c d) (hp : Walks false false [] p c)
    (rest : ∀ {a us v' reports c' d'}, v = us ++ v' → Agrees p c d us (.ok a) reports c' d' →
      Stretch v' c' d' → Within v' (f a) c' d') : Within v (p >>= f) c d := by
  have halike : Alike false [] v c d := ⟨h.ahead, h.ended.holds, by simp⟩
  refine within_bind (hp.within halike) fun {a us v' reports c' d'} hv hagrees => ?_
  subst hv
  have hahead := h.ahead.after hagrees.readsLeft hagrees.readsRight
  have htravels := hp.goes.travels hagrees.left hagrees.readsLeft
  obtain ⟨hholds, heven⟩ := h.ended.holds.after htravels hahead.left
  exact rest rfl hagrees ⟨hahead, h.ended.of_append hholds.ne_nil, heven.trans h.even⟩

theorem within_expect_last {g : Token → α} {demand : Demand} (h : Ahead v c d) (hv : v ≠ []) :
    Within v (expect demand >>= fun t => pure (g t)) c d := by
  cases v with
  | nil => exact absurd rfl hv
  | cons t v => exact within_expect_bind h fun _ => within_pure _

theorem within_congr (q : Parser α) (hc : p c = q c) (hd : p d = q d) (h : Within v q c d) :
    Within v p c d := by
  obtain ⟨us, v', o, reports, c', d', hv, hagrees, hfails⟩ := h
  refine ⟨us, v', o, reports, c', d', hv, ⟨?_, ?_, hagrees.readsLeft, hagrees.readsRight⟩, hfails⟩
  · rw [hc, hagrees.left]
  · rw [hd, hagrees.right]

theorem within_sees_bind {kind : Token.Kind} {f : Bool → Parser β} (hpeek : d.peek = c.peek)
    (h : Within v (f (c.peek.kind = kind)) c d) : Within v (sees kind >>= f) c d := by
  have hright : (sees kind >>= f) d = f (c.peek.kind = kind) d := by
    rw [← hpeek]
    rfl
  exact within_congr (f (c.peek.kind = kind)) rfl hright h

theorem within_located {p : Parser (Location → α)} (h : Within v p c d) (hpeek : d.peek = c.peek)
    (hgoes : Goes true true (located p) c) : Within v (located p) c d := by
  let rest : Parser α := p >>= fun node => locationFrom c.peek >>= fun loc => pure (node loc)
  have hright : located p d = rest d := by
    simp only [rest, ← hpeek]
    rfl
  refine within_congr rest rfl hright (within_bind h fun {node us v' reports c' d'} _ hagrees => ?_)
  have hlast : c'.last = d'.last := by
    refine last_eq_of_reads hagrees.readsLeft hagrees.readsRight fun hus => ?_
    exact absurd hus (hgoes.ne_nil (located_of_ok hagrees.left) hagrees.readsLeft)
  have hloc : locationFrom c.peek d' = ⟨.ok (c'.locationFrom c.peek), [], d'⟩ := by
    rw [Cursor.locationFrom, hlast]
    rfl
  exact within_bind (within_still rfl hloc) fun _ _ => within_pure _

/-! ## Members -/

section Productions

variable {set : ModifierSet} {type : PrimitiveType} {word : String}

theorem fieldRest_within (h : Stretch v c d) : Within v (fieldRest limit set type word) c d := by
  have hexpr : ∀ seen c, Walks false true seen (expression limit) c :=
    fun _ _ => expression_walks limit
  refine h.bind (initializer_walks hexpr) fun _ _ h₁ => ?_
  refine h₁.bind (.many fun _ _ => ?_) fun _ _ h₂ => ?_
  · exact .accept_bind rfl (fun _ => (declarator_walks hexpr rfl).last) (.pure _)
  · exact within_expect_last h₂.ahead h₂.ended.ne_nil

theorem methodBody_within (h : Stretch v c d) :
    Within v (block (statement limit) .methodBody) c d := by
  have hstmt : ∀ seen c, Walks true true seen (statement limit) c :=
    fun _ _ => statement_walks limit
  have hbody : ∀ c, Walks true false [] (bodyOf .statement (statement limit)) c :=
    fun _ => bodyOf_walks hstmt
  exact block_within rfl h.ahead h.ended.ne_nil (Int.le_of_eq h.even) (fun c => (hbody c).goes)
    fun hahead hholds => (hbody _).within ⟨hahead, hholds, by simp⟩

theorem methodRest_within (h : Stretch v c d) (hopen : c.peek.kind = .punctuation .lparen) :
    Within v (methodRest limit set type word) c d := by
  have hend : ∀ {params : List Param} {v c d}, Stretch v c d → Within v (do
      let _ ← expect .parametersEnd
      let body ← block (statement limit) .methodBody
      return ((Member.method · set type word params body) : Location → Member Location)) c d := by
    intro params v c d h
    refine h.bind (.expect (.token rfl rfl)) fun _ _ h₁ => ?_
    exact within_bind (methodBody_within h₁) fun _ _ => within_pure _
  refine h.bind (.advance (by rw [hopen]; rfl)) fun _ _ h₁ => ?_
  refine within_sees_bind (h₁.ahead.peek_eq h₁.ended.ne_nil) ?_
  split
  · exact hend h₁
  · exact h₁.bind (.separated fun _ _ => parameter_walks) fun _ _ h₂ => hend h₂

theorem member_within (h : Stretch v c d) : Within v (member limit) c d := by
  have hgoes : Goes true true (member limit) c := by
    have hwalks : Walks true true [] (member limit) c := member_walks limit
    exact hwalks.goes
  refine within_located ?_ (h.ahead.peek_eq h.ended.ne_nil) hgoes
  refine h.bind (modifiers_walks fun _ _ _ => memberModifier_walks) fun _ _ h₁ => ?_
  refine h₁.bind (primitiveType_walks ?_) fun _ _ h₂ => ?_
  · split <;> decide
  refine h₂.bind (Walks.expect (.identifier rfl)).last fun _ _ h₃ => ?_
  refine within_sees_bind (h₃.ahead.peek_eq h₃.ended.ne_nil) ?_
  split
  · next hopen => exact methodRest_within h₃ (of_decide_eq_true hopen)
  · exact fieldRest_within h₃

end Productions

/-! ## One round -/

theorem Stretch.peek_ne (h : Stretch v c d) (hlevel : Level v) :
    c.peek.kind ≠ .punctuation .rbrace := by
  cases v with
  | nil => exact absurd rfl h.ended.ne_nil
  | cons t v =>
    rw [h.ahead.peek.1]
    intro hclose
    have hone := hlevel 1
    rw [List.take_succ_cons, List.take_zero, depth_cons, hclose] at hone
    simp [Token.Kind.weight] at hone

/-- A round in a stretch reads a part of it, behind which the rest is closed as well. -/
theorem round_within (limit : Nat) (h : Stretch v c d) (hlevel : Level v) :
    ∃ us v' o reports c' d', v = us ++ v' ∧ us ≠ [] ∧ depth us = 0 ∧
      Agrees (recover .member (member limit)) c d us (.ok o) reports c' d' := by
  have hwalks : Walks true true [] (member limit) c := member_walks limit
  have hrest : c.rest ≠ [] := by
    intro hnil
    have hpart := h.ahead.left
    rw [hnil, List.prefix_nil] at hpart
    exact h.ended.ne_nil hpart
  have hround : Within v (recover .member (member limit)) c d := by
    refine recover_within (member_within h) h.ahead h.ended.ne_nil fun {us v'} hv hreads hne => ?_
    subst hv
    refine .inr ⟨?_, h.ended.of_append hne⟩
    have hzero : depth us = 0 := (hwalks.goes.travels rfl hreads).even_of_ahead
      (prefix_of_reads h.ahead.left hreads) (Int.le_of_eq h.even)
    have heven := h.even
    rw [depth_append, hzero, Int.zero_add] at heven
    exact heven
  obtain ⟨us, v', o, reports, c', d', rfl, hagrees, -⟩ := hround
  obtain ⟨a, reports', c₁, hok⟩ := recover_ok .member (member limit) c
  rw [hagrees.left] at hok
  cases hok
  obtain ⟨us', htravels, hne⟩ := recover_goes .member hwalks.goes hrest (h.peek_ne hlevel)
  rw [hagrees.left] at htravels
  obtain rfl : us = us' := hagrees.readsLeft.unique htravels.reads
  refine ⟨us, v', a, reports, c', d', rfl, hne, ?_, hagrees⟩
  exact htravels.even_of_ahead (prefix_of_reads h.ahead.left hagrees.readsLeft)
    (Int.le_of_eq h.even)

/-! ## All rounds -/

/-- Balanced, and empty or with a semicolon or a closing brace at the end. -/
structure ClosedStretch (v : List Token) : Prop where
  balanced : Balanced v
  ended : v ≠ [] → Ended v

/-- What the loop over the members does with a closed stretch does not depend on what follows. -/
theorem members_split (limit : Nat) (hv : ClosedStretch v) (hahead : Ahead v c d) :
    ∃ items reports c' d', Reads c v c' ∧ Reads d v d' ∧
      bodyOf .member (member limit) c =
        ((bodyOf .member (member limit) c').map (items ++ ·)).after reports ∧
      bodyOf .member (member limit) d =
        ((bodyOf .member (member limit) d').map (items ++ ·)).after reports := by
  induction hn : v.length using Nat.strongRecOn generalizing v c d with
  | ind n ih =>
    by_cases hnil : v = []
    · subst hnil
      have hnone (r : Reply (List (Member Location))) : r = (r.map ([] ++ ·)).after [] :=
        (Reply.map_id r).symm
      exact ⟨[], [], c, d, .nil c, .nil d, hnone _, hnone _⟩
    · have hstretch : Stretch v c d := ⟨hahead, hv.ended hnil, hv.balanced.even⟩
      have hbrace := hstretch.peek_ne hv.balanced.level
      obtain ⟨us, v', o, reports, c₁, d₁, rfl, hne, heven, hagrees⟩ :=
        round_within limit hstretch hv.balanced.level
      have hround {c c₁ : Cursor} (hbrace : c.peek.kind ≠ .punctuation .rbrace)
          (h : recover .member (member limit) c = ⟨.ok o, reports, c₁⟩) (hreads : Reads c us c₁) :
          bodyOf .member (member limit) c =
            ((bodyOf .member (member limit) c₁).map (o.toList ++ ·)).after reports := by
        have hlen := hreads.length_eq
        have hpos := List.length_pos_iff.mpr hne
        have hrest : c.rest ≠ [] := List.ne_nil_of_length_pos (by omega)
        exact bodyOf_cons hrest hbrace h (by omega)
      have hmore : ClosedStretch v' := by
        refine ⟨hv.balanced.of_append heven, fun hne' => ?_⟩
        exact (hv.ended hnil).of_append hne'
      have hahead' := hahead.after hagrees.readsLeft hagrees.readsRight
      have hshort : v'.length < n := by
        have hpos := List.length_pos_iff.mpr hne
        rw [← hn, List.length_append]
        omega
      obtain ⟨items, later, c', d', hc, hd, hbodyc, hbodyd⟩ := ih _ hshort hmore hahead' rfl
      refine ⟨o.toList ++ items, reports ++ later, c', d', hagrees.readsLeft.trans hc,
        hagrees.readsRight.trans hd, ?_, ?_⟩
      · rw [hround hbrace hagrees.left hagrees.readsLeft, hbodyc]
        simp [Function.comp_def]
      · rw [← hahead.peek_eq hnil] at hbrace
        rw [hround hbrace hagrees.right hagrees.readsRight, hbodyd]
        simp [Function.comp_def]

/-- What is placed in front of every end is not placed there. -/
theorem marked_of_ends {ts : List Token} {ds : List Diagnostic}
    (h : ∀ z : Token, z.kind = .eof → Marked (ts ++ [z]) ds) : Marked ts ds := by
  intro d hd
  obtain ⟨t, ht, hmarks⟩ := h (.endOfInput 0 0) rfl d hd
  obtain ⟨u, hu, hmarks'⟩ := h (.endOfInput 1 0) rfl d hd
  rcases List.mem_append.mp ht with ht | ht
  · exact ⟨t, ht, hmarks⟩
  rcases List.mem_append.mp hu with hu | hu
  · exact ⟨u, hu, hmarks'⟩
  rw [List.mem_singleton] at ht hu
  have hloc : t.loc = u.loc := hmarks.place.symm.trans hmarks'.place
  rw [ht, hu] at hloc
  cases hloc

/-- The diagnostics of a closed stretch are placed inside it. -/
theorem members_marked {items : List (Member Location)} {reports : List Diagnostic}
    (hv : ClosedStretch v) (hreads : Reads c v c')
    (hbody : bodyOf .member (member limit) c =
      ((bodyOf .member (member limit) c').map (items ++ ·)).after reports) :
    Marked v reports := by
  refine marked_of_ends fun z hz => ?_
  -- the same stretch with nothing behind it but the end `z`
  let d : Cursor := ⟨z, z, v, hz⟩
  have hahead : Ahead v c d := ⟨⟨_, hreads.rest_eq.symm⟩, List.prefix_rfl⟩
  obtain ⟨items₁, reports₁, c₁, d₁, hc, hd, hbodyc, hbodyd⟩ := members_split limit hv hahead
  obtain rfl : c₁ = c' := hc.eq_skip.trans hreads.eq_skip.symm
  have hreports : reports₁ = reports := by
    have hsame := congrArg Reply.reports (hbodyc.symm.trans hbody)
    exact List.append_cancel_right hsame
  have hend : d₁.rest = [] := List.append_right_eq_self.mp hd.rest_eq.symm
  have hwalks : Walks true false [] (bodyOf .member (member limit)) d :=
    bodyOf_walks fun _ _ => member_walks limit
  obtain ⟨us, hus, hmarked⟩ := hwalks.places
  rw [hbodyd, bodyOf_stop (.inl hend)] at hus hmarked
  have hpeek : d₁.peek = z := (peek_of_nil hend).trans hd.eof_eq
  rw [hus.unique hd] at hmarked
  simpa [Reply.map, Reply.after, Except.map, hreports, hpeek] using hmarked

/-- A stretch that is not closed is told from others by nothing but its tokens. -/
theorem bodyOf_members_eq {items : List (Member Location)} {reports : List Diagnostic} {e : Cursor}
    (hahead : Ahead v c d) (hdeep : depth v < 0)
    (hbody : bodyOf .member (member limit) c = ⟨.ok items, reports, e⟩) :
    ∃ e', bodyOf .member (member limit) d = ⟨.ok items, reports, e'⟩ := by
  have hwalks : Walks true false [] (bodyOf .member (member limit)) c :=
    bodyOf_walks fun _ _ => member_walks limit
  obtain ⟨us, v', o, reports', c', d', -, hagrees, -⟩ :=
    hwalks.within ⟨hahead, hdeep, by simp⟩
  have hleft := hagrees.left
  rw [hbody] at hleft
  cases hleft
  exact ⟨d', hagrees.right⟩

/-- Two stretches, the first one closed, in front of a closing brace. -/
theorem members_append {w : List Token} {r : Token} {cv cw e ev ew : Cursor}
    {items itemsv itemsw : List (Member Location)} {reports reportsv reportsw : List Diagnostic}
    (hv : ClosedStretch v) (hw : Balanced w) (hclose : r.kind = .punctuation .rbrace)
    (hc : c.rest = v ++ (w ++ [r])) (hcv : cv.rest = v ++ [r]) (hcw : cw.rest = w ++ [r])
    (hbody : bodyOf .member (member limit) c = ⟨.ok items, reports, e⟩)
    (hbodyv : bodyOf .member (member limit) cv = ⟨.ok itemsv, reportsv, ev⟩)
    (hbodyw : bodyOf .member (member limit) cw = ⟨.ok itemsw, reportsw, ew⟩) :
    items = itemsv ++ itemsw ∧ reports = reportsv ++ reportsw ∧ Marked v reportsv := by
  have hahead : Ahead v c cv := ⟨⟨_, hc.symm⟩, ⟨_, hcv.symm⟩⟩
  obtain ⟨items₁, reports₁, c₁, cv₁, hreads, hreadsv, hsplit, hsplitv⟩ :=
    members_split limit hv hahead
  have hmarked : Marked v reports₁ := members_marked hv hreads hsplit
  -- alone, the first stretch is followed by the brace
  have hrestv : cv₁.rest = [r] :=
    List.append_cancel_left (hreadsv.rest_eq.symm.trans hcv)
  rw [hbodyv, bodyOf_stop (.inr (by rw [peek_of_rest hrestv, hclose]))] at hsplitv
  simp only [Reply.map, Reply.after, Except.map, List.append_nil, Reply.mk.injEq,
    Except.ok.injEq] at hsplitv
  obtain ⟨rfl, rfl, -⟩ := hsplitv
  -- together, by the second one
  have hrest : c₁.rest = w ++ [r] := List.append_cancel_left (hreads.rest_eq.symm.trans hc)
  have hdeep : depth (w ++ [r]) < 0 := by
    rw [depth_append, hw.even, depth_cons, hclose]
    decide
  obtain ⟨e', hsecond⟩ := bodyOf_members_eq ⟨⟨[], by rw [hcw, List.append_nil]⟩,
    ⟨[], by rw [hrest, List.append_nil]⟩⟩ hdeep hbodyw
  rw [hbody, hsecond] at hsplit
  simp only [Reply.map, Reply.after, Except.map, Reply.mk.injEq, Except.ok.injEq] at hsplit
  obtain ⟨rfl, rfl, -⟩ := hsplit
  exact ⟨rfl, rfl, hmarked⟩

/-! ## A class around them -/

theorem classDecl_of_body {items : List (Member Location)} {reports : List Diagnostic} {e : Cursor}
    (hclass : c.peek.kind = .keyword (.declaration .classKw))
    (hname : (c.skip 1).peek.kind = .identifier)
    (hopen : (c.skip 2).peek.kind = .punctuation .lbrace)
    (hbody : bodyOf .member (member limit) (c.skip 3) = ⟨.ok items, reports, e⟩)
    (hclose : e.peek.kind = .punctuation .rbrace) :
    ∃ decl, classDecl limit c = ⟨.ok decl, reports, e.advance⟩ ∧ decl.members = items := by
  have hpeek : peekKind c = ⟨.ok (.keyword (.declaration .classKw)), [], c⟩ := by
    rw [← hclass]
    rfl
  have hset : modifiers classModifier c = ⟨.ok (.ofList []), [], c⟩ := by
    have hnone : classModifier [] c = ⟨.ok none, [], c⟩ := by
      rw [classModifier, bind_of_ok hpeek]
      rfl
    rw [modifiers, iterate, hnone]
    rfl
  have hword : expect .classAfterModifiers c = ⟨.ok c.peek, [], c.skip 1⟩ :=
    expect_of_admits (by rw [hclass]; rfl)
  have hident : name .className (c.skip 1) = ⟨.ok (c.skip 1).peek.text, [], c.skip 2⟩ := by
    rw [name, bind_of_ok (expect_of_admits (by rw [hname]; rfl))]
    rfl
  have hmembers : classBody limit (c.skip 2) = ⟨.ok items, reports, e.advance⟩ := by
    rw [classBody_of_body hopen hbody, if_pos hclose]
  have hnode : (do
      let set ← modifiers classModifier
      let _ ← expect .classAfterModifiers
      let name ← name .className
      let members ← classBody limit
      return ((⟨·, set, name, members⟩) : Location → ClassDecl Location)) c =
        ⟨.ok (⟨·, .ofList [], (c.skip 1).peek.text, items⟩), reports, e.advance⟩ := by
    rw [bind_of_ok hset, bind_of_ok hword, bind_of_ok hident, bind_of_ok hmembers]
    simp [Reply.after, Pure.pure, Reply.ok]
  exact ⟨_, located_of_ok hnode, rfl⟩

theorem classDeclaration_of_decl {decl : ClassDecl Location} {reports : List Diagnostic}
    (hclass : c.peek.kind = .keyword (.declaration .classKw))
    (hdecl : classDecl limit c = ⟨.ok decl, reports, c'⟩) (hend : c'.rest = []) :
    classDeclaration limit c = ⟨.ok (some decl), reports, c'⟩ := by
  have hrest := rest_of_peek (c := c) (by rw [hclass]; simp)
  have hlocate : locateClass false c = ⟨.ok true, [], c⟩ := by
    have hahead : classAhead c = ⟨.ok true, [], c⟩ := by
      simp [classAhead, Reply.ok, hrest, hclass]
    have hpeek : peekKind c = ⟨.ok (.keyword (.declaration .classKw)), [], c⟩ := by
      rw [← hclass]
      rfl
    rw [locateClass, bind_of_ok hahead, if_pos rfl, bind_of_ok hpeek]
    rfl
  have hrecover : recover .topLevel (classDecl limit) c = ⟨.ok (some decl), reports, c'⟩ := by
    rw [recover, hdecl]
  have hattempt : attempt limit .first c = ⟨.ok (some ((), .found decl)), reports, c'⟩ := by
    rw [attempt, attemptFrom, bind_of_ok hlocate, if_pos rfl, bind_of_ok hrecover]
    simp [Reply.after, Pure.pure, Reply.ok]
  have hlt : c'.rest.length < c.rest.length := by
    rw [hend, hrest]
    simp
  have hdone : iterate (attempt limit) (.found decl) c' = ⟨.ok ([], .found decl), [], c'⟩ := by
    rw [iterate]
    rfl
  rw [classDeclaration, iterate, hattempt]
  simp only [hlt, ↓reduceIte, hdone]
  simp [Reply.after, Reply.map, Except.map, ClassSearch.result?]

theorem program_of_body {items : List (Member Location)} {reports : List Diagnostic} {e : Cursor}
    (hclass : c.peek.kind = .keyword (.declaration .classKw))
    (hname : (c.skip 1).peek.kind = .identifier)
    (hopen : (c.skip 2).peek.kind = .punctuation .lbrace)
    (hbody : bodyOf .member (member limit) (c.skip 3) = ⟨.ok items, reports, e⟩)
    (hclose : e.peek.kind = .punctuation .rbrace) (hend : e.advance.rest = []) :
    ∃ decl, program limit c = ⟨.ok ⟨none, [], some decl⟩, reports, e.advance⟩ ∧
      decl.members = items := by
  obtain ⟨decl, hdecl, hmembers⟩ := classDecl_of_body hclass hname hopen hbody hclose
  have hpackage : package? c = ⟨.ok none, [], c⟩ := by
    have hsees : sees (.keyword (.declaration .packageKw)) c = ⟨.ok false, [], c⟩ := by
      simp [sees, peekKind, Bind.bind, Pure.pure, Reply.ok, Reply.andThen, Reply.after, hclass]
    rw [package?, bind_of_ok hsees]
    rfl
  have himports : imports c = ⟨.ok [], [], c⟩ := by
    have hsees : sees (.keyword (.declaration .importKw)) c = ⟨.ok false, [], c⟩ := by
      simp [sees, peekKind, Bind.bind, Pure.pure, Reply.ok, Reply.andThen, Reply.after, hclass]
    rw [imports, bind_pure, many_stop (bind_of_ok hsees)]
    rfl
  have hfound : classDeclaration limit c = ⟨.ok (some decl), reports, e.advance⟩ :=
    classDeclaration_of_decl hclass hdecl hend
  have hstop : atEnd e.advance = ⟨.ok true, [], e.advance⟩ := by
    rw [← atEnd_iff.mpr hend]
    rfl
  refine ⟨decl, ?_, hmembers⟩
  rw [program, bind_of_ok hpackage, bind_of_ok himports, bind_of_ok hfound, bind_of_ok hstop]
  simp [Reply.after, Pure.pure, Reply.ok]

end Parser

/-- The tokens around the members of a class. -/
structure ClassFrame where
  word : Token
  name : Token
  opening : Token
  closing : Token
  stop : Token
  word_kind : word.kind = .keyword (.declaration .classKw)
  name_kind : name.kind = .identifier
  opening_kind : opening.kind = .punctuation .lbrace
  closing_kind : closing.kind = .punctuation .rbrace
  stop_kind : stop.kind = .eof

namespace ClassFrame

open JavaSubset.Parser

variable {v w : List Token}

/-- The source of a class with the members `v`. -/
def around (frame : ClassFrame) (v : List Token) : List Token :=
  frame.word :: frame.name :: frame.opening :: (v ++ [frame.closing, frame.stop])

theorem rest_around (frame : ClassFrame) (h : ∀ t ∈ v, t.kind.isKept = true) :
    (Cursor.ofTokens (frame.around v)).rest =
      frame.word :: frame.name :: frame.opening :: (v ++ [frame.closing]) := by
  have hv : v.filter (·.kind.isKept) = v := List.filter_eq_self.mpr h
  change (frame.around v).filter (·.kind.isKept) = _
  simp only [around, List.filter_cons, List.filter_append, hv, frame.word_kind, frame.name_kind,
    frame.opening_kind, frame.closing_kind, frame.stop_kind]
  rfl

theorem skip_around (frame : ClassFrame) (h : ∀ t ∈ v, t.kind.isKept = true) :
    ((Cursor.ofTokens (frame.around v)).skip 3).rest = v ++ [frame.closing] := by
  rw [skip_rest, rest_around frame h]
  rfl

/-- A class is parsed as its members are. -/
theorem parse_around (frame : ClassFrame) (hkept : ∀ t ∈ v, t.kind.isKept = true)
    (hv : Balanced v) :
    ∃ items reports e,
      bodyOf .member (member maxNesting) ((Cursor.ofTokens (frame.around v)).skip 3) =
        ⟨.ok items, reports, e⟩ ∧ e.peek.kind = .punctuation .rbrace ∧
      (parse (frame.around v)).diagnostics = Diagnostic.withoutCascades reports ∧
      ∃ decl, (parse (frame.around v)).program.classDecl = some decl ∧ decl.members = items := by
  let start := Cursor.ofTokens (frame.around v)
  have hrest : start.rest = _ := rest_around frame hkept
  have hpeek (n : Nat) : (start.skip n).peek =
      (frame.word :: frame.name :: frame.opening :: (v ++ [frame.closing]))[n]?.getD start.eof := by
    rw [peek_skip, hrest]
  have hword : start.peek.kind = .keyword (.declaration .classKw) :=
    (congrArg Token.kind (hpeek 0)).trans frame.word_kind
  have hname : (start.skip 1).peek.kind = .identifier :=
    (congrArg Token.kind (hpeek 1)).trans frame.name_kind
  have hopen : (start.skip 2).peek.kind = .punctuation .lbrace :=
    (congrArg Token.kind (hpeek 2)).trans frame.opening_kind
  have hcloses : Closes start.rest 2 (2 + v.length + 1) := by
    have hdrop : start.rest.drop 2 = frame.opening :: v ++ [frame.closing] := by
      rw [hrest]
      rfl
    exact closes_of_drop hdrop frame.opening_kind hv frame.closing_kind
  obtain ⟨items, reports, hbody, -⟩ := (Body.members maxNesting).closed hopen hcloses
  have hclose : (start.skip (2 + v.length + 1)).peek.kind = .punctuation .rbrace := by
    have hlast : (frame.word :: frame.name :: frame.opening ::
        (v ++ [frame.closing]))[2 + v.length + 1]? = some frame.closing := by
      have hindex : 2 + v.length + 1 = v.length + 1 + 1 + 1 := by omega
      rw [hindex]
      iterate 3 rw [List.getElem?_cons_succ]
      exact List.getElem?_concat_length
    rw [hpeek, hlast]
    exact frame.closing_kind
  have hend : (start.skip (2 + v.length + 1)).advance.rest = [] := by
    rw [← skip_succ, skip_rest, hrest, List.drop_eq_nil_iff]
    simp
    omega
  obtain ⟨decl, hprogram, hmembers⟩ := program_of_body hword hname hopen hbody hclose hend
  refine ⟨items, reports, _, hbody, hclose, ?_, decl, ?_, hmembers⟩
  · rw [parse_diagnostics, hprogram, Reply.raised_ok]
  · rw [parse, hprogram]

/-- The diagnostics of members are placed at them, or at the brace behind. -/
theorem marked_around {c e : Cursor} {items : List (Member Location)} {reports : List Diagnostic}
    (hbody : bodyOf .member (member maxNesting) c = ⟨.ok items, reports, e⟩)
    (hclose : e.peek.kind = .punctuation .rbrace) : Marked c.rest reports := by
  have hwalks : Walks true false [] (bodyOf .member (member maxNesting)) c :=
    bodyOf_walks fun _ _ => member_walks maxNesting
  obtain ⟨us, hreads, hmarked⟩ := hwalks.places
  rw [hbody] at hreads hmarked
  refine hmarked.mono ?_
  rw [hreads.rest_eq, rest_of_peek (c := e) (by rw [hclose]; simp)]
  simp

/-- **Members are parsed independently.** In a class whose members come in two stretches, the first
one closed, each stretch gives the members and the diagnostics it gives alone. -/
theorem parse_append (frame : ClassFrame) (v w : List Token) (hv : ClosedStretch v)
    (hw : Balanced w) (hkept : ∀ t ∈ v ++ w, t.kind.isKept = true)
    (hspans : ((frame.around (v ++ w)).map (·.loc.span)).Nodup) :
    ∃ decl declv declw, (parse (frame.around (v ++ w))).program.classDecl = some decl ∧
      (parse (frame.around v)).program.classDecl = some declv ∧
      (parse (frame.around w)).program.classDecl = some declw ∧
      decl.members = declv.members ++ declw.members ∧
      (parse (frame.around (v ++ w))).diagnostics =
        (parse (frame.around v)).diagnostics ++ (parse (frame.around w)).diagnostics := by
  have hkeptv : ∀ t ∈ v, t.kind.isKept = true := fun t ht => hkept t (List.mem_append_left w ht)
  have hkeptw : ∀ t ∈ w, t.kind.isKept = true := fun t ht => hkept t (List.mem_append_right v ht)
  obtain ⟨items, reports, e, hbody, -, hdiag, decl, hdecl, rfl⟩ :=
    parse_around frame hkept (hv.balanced.trans hw)
  obtain ⟨itemsv, reportsv, ev, hbodyv, -, hdiagv, declv, hdeclv, rfl⟩ :=
    parse_around frame hkeptv hv.balanced
  obtain ⟨itemsw, reportsw, ew, hbodyw, hclosew, hdiagw, declw, hdeclw, rfl⟩ :=
    parse_around frame hkeptw hw
  have hrest := (skip_around frame hkept).trans (List.append_assoc v w _)
  obtain ⟨hitems, rfl, hmarkedv⟩ := members_append hv hw frame.closing_kind hrest
    (skip_around frame hkeptv) (skip_around frame hkeptw) hbody hbodyv hbodyw
  refine ⟨decl, declv, declw, hdecl, hdeclv, hdeclw, hitems, ?_⟩
  have hmarkedw := marked_around hbodyw hclosew
  rw [skip_around frame hkeptw] at hmarkedw
  rw [hdiag, hdiagv, hdiagw, Diagnostic.withoutCascades_append]
  intro d hd d' hd'
  obtain ⟨t, ht, hmarks⟩ := hmarkedv d hd
  obtain ⟨u, hu, hmarks'⟩ := hmarkedw d' hd'
  have hpart : v ++ (w ++ [frame.closing]) <:+: frame.around (v ++ w) :=
    ⟨[frame.word, frame.name, frame.opening], [frame.stop], by simp [around]⟩
  have hapart := (hpart.sublist.map (·.loc.span)).nodup hspans
  rw [List.map_append, List.nodup_append] at hapart
  rw [hmarks.place, hmarks'.place]
  exact hapart.2.2 _ (List.mem_map_of_mem ht) _ (List.mem_map_of_mem hu)

theorem parse_append_broken_members :
    let token (kind : Token.Kind) (n : Nat) : Token := ⟨kind, "", none, ⟨⟨n, n + 1⟩, 1⟩⟩
    let mark (m : Punctuation) := token (.punctuation m)
    let int := token (.keyword (.primitive .int))
    let frame : ClassFrame := ⟨token (.keyword (.declaration .classKw)) 0, token .identifier 1,
      mark .lbrace 2, mark .rbrace 10, token .eof 11, rfl, rfl, rfl, rfl, rfl⟩
    let v := [int 3, mark .lbrace 4, mark .rparen 5, mark .rbrace 6]
    let w := [int 7, token .identifier 8, token .identifier 9]
    ClosedStretch v ∧ Balanced w ∧
      ((parse (frame.around v)).diagnostics ≠ [] ∧ (parse (frame.around w)).diagnostics ≠ []) ∧
      (parse (frame.around (v ++ w))).diagnostics =
        (parse (frame.around v)).diagnostics ++ (parse (frame.around w)).diagnostics := by
  intro token mark int frame v w
  have hv : ClosedStretch v := ⟨by decide, fun _ => ⟨mark .rbrace 6, rfl, .inr rfl⟩⟩
  have hw : Balanced w := by decide
  obtain ⟨decl, declv, declw, -, -, -, -, hdiag⟩ :=
    parse_append frame v w hv hw (by decide) (by decide)
  exact ⟨hv, hw, by decide +kernel, hdiag⟩

end ClassFrame

end JavaSubset
