import JavaSubset.Proofs.Order

/-!
# What holds of what parsers give

`Parser.Ensures Q p c` : if `p`, run from `c`, gives a value, then `Q` holds of the value and of the
cursor behind it, whatever was reported on the way. Each combinator has a rule; `Ensures.iterate`
reduces a loop to its rounds, `parse_ensures` a whole parse to the class it looks for.
-/

namespace JavaSubset

namespace Parser

open Cursor

variable {α β σ : Type} {p : Parser α} {f : α → Parser β} {c c' : Cursor}
  {Q : α → Cursor → Prop} {R : β → Cursor → Prop} {demand : Demand} {kind : Token.Kind}

def Ensures (Q : α → Cursor → Prop) (p : Parser α) (c : Cursor) : Prop :=
  ∀ a reports c', p c = ⟨.ok a, reports, c'⟩ → Q a c'

theorem Orderly.forward (h : Orderly false [] p c) : Ensures (fun _ c' => ∃ us, Reads c us c') p c := by
  obtain ⟨us, hreads, -⟩ := h
  intro a reports c' hp
  rw [hp] at hreads
  exact ⟨us, hreads⟩

namespace Ensures

/-! ## Sequences -/

theorem imp {Q' : α → Cursor → Prop} (h : Ensures Q p c) (himp : ∀ a c', Q a c' → Q' a c') :
    Ensures Q' p c :=
  fun _ _ _ hp => himp _ _ (h _ _ _ hp)

theorem pure {a : α} (h : Q a c) : Ensures Q (Pure.pure a) c := by
  intro a' reports c' hp
  cases hp
  exact h

theorem giveUp {e : Diagnostic} {reports : List Diagnostic} (h : p c = ⟨.error e, reports, c'⟩) :
    Ensures Q p c := by
  intro a reports' c'' hp
  rw [h] at hp
  cases hp

theorem fail : Ensures Q (fail demand) c := giveUp rfl

theorem tooDeep : Ensures Q (tooDeep : Parser α) c := giveUp rfl

theorem bind (h : Ensures Q p c) (rest : ∀ a c', Q a c' → Ensures R (f a) c') :
    Ensures R (p >>= f) c := by
  intro b reports c' hbind
  obtain ⟨a, before, c₁, own, hp, hf, -⟩ := bind_eq_ok hbind
  exact rest _ _ (h _ _ _ hp) _ _ _ hf

/-- The first part may give anything. -/
theorem skip (rest : ∀ a c', Ensures R (f a) c') : Ensures R (p >>= f) c :=
  bind (fun _ _ _ _ => trivial : Ensures (fun _ _ => True) p c) fun a c' _ => rest a c'

theorem map {g : α → β} (h : Ensures (fun a c' => R (g a) c') p c) :
    Ensures R (fun c => (p c).map g) c := by
  intro b reports c' hmap
  change (p c).map g = _ at hmap
  rcases hp : p c with ⟨⟨e⟩ | ⟨a⟩, before, c₁⟩
  · rw [hp] at hmap
    cases hmap
  · rw [hp] at hmap
    cases hmap
    exact h _ _ _ hp

theorem map_bind {g : α → β} (h : Ensures (fun a c' => R (g a) c') p c) :
    Ensures R (p >>= fun a => Pure.pure (g a)) c :=
  h.bind fun _ _ ha => .pure ha

/-! ## Looking ahead -/

theorem peek_bind {f : Token → Parser β} (h : Ensures R (f c.peek) c) :
    Ensures R (peek >>= f) c := h

theorem peekKind_bind {f : Token.Kind → Parser β} (h : Ensures R (f c.peek.kind) c) :
    Ensures R (peekKind >>= f) c := h

theorem sees_bind {f : Bool → Parser β} (h : Ensures R (f (c.peek.kind = kind)) c) :
    Ensures R (sees kind >>= f) c := h

theorem locationFrom_bind {start : Token} {f : Location → Parser β}
    (h : Ensures R (f (c.locationFrom start)) c) : Ensures R (locationFrom start >>= f) c := h

theorem accept_bind {f : Bool → Parser β} (yes : c.peek.kind = kind → Ensures R (f true) c.advance)
    (no : c.peek.kind ≠ kind → Ensures R (f false) c) : Ensures R (accept kind >>= f) c := by
  by_cases hkind : c.peek.kind = kind
  · refine bind (Q := fun a c' => a = true ∧ c' = c.advance) ?_ ?_
    · intro a reports c' hp
      rw [accept_of_kind hkind] at hp
      cases hp
      exact ⟨rfl, rfl⟩
    · rintro a c' ⟨rfl, rfl⟩
      exact yes hkind
  · refine bind (Q := fun a c' => a = false ∧ c' = c) ?_ ?_
    · intro a reports c' hp
      rw [accept_of_ne hkind] at hp
      cases hp
      exact ⟨rfl, rfl⟩
    · rintro a c' ⟨rfl, rfl⟩
      exact no hkind

theorem located {p : Parser (Location → α)}
    (h : Ensures (fun node c' => Q (node (c'.locationFrom c.peek)) c') p c) :
    Ensures Q (located p) c :=
  .peek_bind (h.bind fun _ _ hnode => .locationFrom_bind (.pure hnode))

/-! ## Loops -/

/-- What each round adds in front of those behind it, the loop gives. A loop that ends without a
round that says so has just gone round. -/
theorem iterate {P : σ → Cursor → List β → σ → Cursor → Prop}
    {step : σ → Parser (Option (β × σ))} {s : σ} (last : ∀ s c, P s c [] s c)
    (round : ∀ s c, Ensures (fun o c₁ =>
      match o with
      | none => P s c [] s c₁
      | some (b, s₁) => ∀ bs s' c', P s₁ c₁ bs s' c' → P s c (b :: bs) s' c') (step s) c) :
    Ensures (fun r c' => P s c r.1 r.2 c') (iterate step s) c := by
  rintro ⟨bs, s'⟩ reports c' hloop
  induction hn : c.rest.length using Nat.strongRecOn generalizing s c bs reports with
  | ind _ ih =>
    obtain ⟨hstop, rfl, rfl⟩ | ⟨b, s₁, before, c₁, bs', hstep, rfl, hrest⟩ := iterate_eq_ok hloop
    · exact round _ c _ _ _ hstop
    · obtain ⟨hlt, own, hrest, -⟩ | ⟨rfl, rfl, rfl, -⟩ := hrest
      · exact round s c _ _ _ hstep _ _ _ (ih _ (hn ▸ hlt) _ _ hrest rfl)
      · exact round s c _ _ _ hstep _ _ _ (last _ _)

theorem many {P : Cursor → List α → Cursor → Prop} {step : Parser (Option α)}
    (last : ∀ c, P c [] c)
    (round : ∀ c, Ensures (fun o c₁ =>
      match o with
      | none => P c [] c₁
      | some a => ∀ as c', P c₁ as c' → P c (a :: as) c') step c) :
    Ensures (P c) (many step) c := by
  refine .map (iterate (P := fun _ c as _ c' => P c as c') (fun _ => last) fun _ c => ?_)
  refine .map_bind ((round c).imp fun o c₁ ho => ?_)
  cases o with
  | none => exact ho
  | some a => exact fun as _ c' => ho as c'

/-- A property of single items holds of all items. -/
theorem many_all {P : α → Prop} {step : Parser (Option α)}
    (h : ∀ c, Ensures (fun o _ => ∀ a ∈ o, P a) step c) :
    Ensures (fun as _ => ∀ a ∈ as, P a) (Parser.many step) c := by
  refine many (P := fun _ as _ => ∀ a ∈ as, P a) (by simp) fun c => (h c).imp fun o _ ho => ?_
  cases o with
  | none => simp
  | some a => exact fun as _ has => List.forall_mem_cons.mpr ⟨ho a rfl, has⟩

/-- An item behind a token of its own. -/
theorem behind_all {P : α → Prop} (h : ∀ c, Ensures (fun a _ => P a) p c) :
    Ensures (fun o _ => ∀ a ∈ o, P a) (do
      if ← accept kind then return some (← p) else return none) c :=
  .accept_bind (fun _ => .map_bind <| (h _).imp fun _ _ ha => by simpa using ha)
    fun _ => .pure (by simp)

theorem separated_all {P : α → Prop} (h : ∀ c, Ensures (fun a _ => P a) p c) :
    Ensures (fun as _ => as ≠ [] ∧ ∀ a ∈ as, P a) (separated p) c :=
  (h c).bind fun _ _ hfirst => .map_bind <| (many_all fun _ => behind_all h).imp fun _ _ hmore =>
    ⟨List.cons_ne_nil _ _, List.forall_mem_cons.mpr ⟨hfirst, hmore⟩⟩

/-! ## Recovery -/

theorem recover {P : α → Prop} {point : SyncPoint} (h : Ensures (fun a _ => P a) p c) :
    Ensures (fun o _ => ∀ a ∈ o, P a) (recover point p) c := by
  intro o reports c' hrecover
  unfold Parser.recover at hrecover
  rcases hp : p c with ⟨⟨e⟩ | ⟨a⟩, before, c₁⟩
  · rw [hp] at hrecover
    cases hrecover
    simp
  · rw [hp] at hrecover
    cases hrecover
    rintro a' ⟨⟩
    exact h _ _ _ hp

theorem bodyOf {P : α → Prop} {point : SyncPoint} (h : ∀ c, Ensures (fun a _ => P a) p c) :
    Ensures (fun as _ => ∀ a ∈ as, P a) (bodyOf point p) c := by
  refine .map_bind ((many_all (P := fun o : Option α => ∀ a ∈ o, P a) fun c => ?_).imp ?_)
  · refine .skip fun _ _ => .skip fun _ _ => ?_
    split
    · exact .pure (by simp)
    · exact .map_bind ((h _).recover.imp fun o _ ho => by simpa using ho)
  · intro items _ hitems a ha
    obtain ⟨o, ho, rfl⟩ := List.mem_filterMap.mp ha
    exact hitems _ ho a rfl

/-! ## The whole source -/

variable {G : ClassDecl Location → Prop} {limit : Nat}

theorem attempt {search : ClassSearch} (hsearch : ∀ decl ∈ search.result?, G decl)
    (h : ∀ us c', Reads c us c' → Ensures (fun decl _ => G decl) (classDecl limit) c') :
    Ensures (fun o _ => ∀ x ∈ o, ∀ decl ∈ x.2.result?, G decl) (attempt limit search) c := by
  have hfrom : ∀ again, Ensures (fun o _ => ∀ x ∈ o, ∀ decl ∈ x.2.result?, G decl)
      (attemptFrom limit again) c := by
    intro again
    refine locateClass_orderly.forward.bind fun found c' ⟨us, hreads⟩ => ?_
    split
    · refine (h us c' hreads).recover.bind fun o c'' ho => ?_
      cases o with
      | none => exact .pure (by simp [ClassSearch.result?])
      | some decl => exact .pure (by simpa [ClassSearch.result?] using ho)
    · exact .pure (by simp)
  cases search with
  | first => exact hfrom false
  | again => exact hfrom true
  | found decl => exact .pure (by simp)

theorem classDeclaration
    (h : ∀ us c', Reads c us c' → Ensures (fun decl _ => G decl) (classDecl limit) c') :
    Ensures (fun o _ => ∀ decl ∈ o, G decl) (classDeclaration limit) c := by
  -- a search that has found a class with the property, or none, goes on from where `c` leads
  refine .map ((iterate (P := fun s c₁ _ s' _ => (∃ us, Reads c us c₁) →
    (∀ decl ∈ s.result?, G decl) → ∀ decl ∈ s'.result?, G decl) (fun _ _ _ hs => hs) ?_).imp
    fun _ _ hsearch => hsearch ⟨[], .nil c⟩ (by simp [ClassSearch.result?]))
  intro s c₁ o reports c₂ hstep
  have hreads := Orderly.forward attempt_orderly _ _ _ hstep
  cases o with
  | none => exact fun _ hs => hs
  | some x =>
    intro _ s' c' hrest ⟨us, hus⟩ hs
    obtain ⟨vs, hvs⟩ := hreads
    have hround := attempt hs (fun ws c' hws => h _ c' (hus.trans hws)) _ _ _ hstep
    exact hrest ⟨us ++ vs, hus.trans hvs⟩ (hround x rfl)

end Ensures

end Parser

open Cursor JavaSubset.Parser

/-- What holds of every class that is parsed from a place ahead holds of the class that is found. -/
theorem parse_ensures {G : ClassDecl Location → Prop} {tokens : List Token}
    (h : ∀ us c, Reads (ofTokens tokens) us c →
      Ensures (fun decl _ => G decl) (classDecl maxNesting) c) :
    ∀ decl ∈ (parse tokens).program.classDecl, G decl := by
  have hprogram : Ensures (fun prog _ => ∀ decl ∈ prog.classDecl, G decl) (program maxNesting)
      (ofTokens tokens) := by
    refine package?_orderly.forward.bind fun package c₁ ⟨us, hus⟩ => ?_
    refine imports_orderly.forward.bind fun imports c₂ ⟨vs, hvs⟩ => ?_
    refine (Ensures.classDeclaration fun ws c hws => h _ c ((hus.trans hvs).trans hws)).bind
      fun decl _ hdecl => .skip fun atEnd c₃ => ?_
    split
    · exact .pure hdecl
    · exact .skip fun _ _ => .skip fun _ _ => .pure hdecl
  unfold parse
  rcases hp : program maxNesting (ofTokens tokens) with ⟨⟨e⟩ | ⟨prog⟩, reports, c'⟩
  · simp
  · exact hprogram _ _ _ hp

end JavaSubset
