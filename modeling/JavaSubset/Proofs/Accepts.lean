import JavaSubset.Proofs.Replies

/-!
# Runs without a report

`Parser.Accepts p c a c'` : from `c` on the parser `p` gives `a` and stops at `c'`, with nothing
to report. Each combinator has one equivalence that says when it accepts, so that a production is
opened by rewriting:

* `accepts_bind`, `accepts_pure`, `accepts_expect`, `accepts_located`, ... : the combinators;
* `iterate_accepts`, `many_accepts` : what holds of each round holds of the loop;
* `accepts_many` : a loop accepts what its rounds accept one after another;
* `accepts_recover`, `accepts_bodyOf` : without a report nothing was given up.
-/

namespace JavaSubset

open Cursor (Reads)

variable {α β σ : Type} {c c' : Cursor}

namespace Reply

theorem map_eq_ok_iff {r : Reply α} {f : α → β} {b : β} :
    r.map f = ⟨.ok b, [], c'⟩ ↔ ∃ a, r = ⟨.ok a, [], c'⟩ ∧ f a = b := by
  obtain ⟨o, reports, c₁⟩ := r
  cases o with
  | error d => simp [map, Except.map]
  | ok a =>
    simp only [map, Except.map, Reply.mk.injEq, Except.ok.injEq]
    constructor
    · rintro ⟨hb, hr, hc⟩
      exact ⟨a, ⟨rfl, hr, hc⟩, hb⟩
    · rintro ⟨_, ⟨rfl, hr, hc⟩, hb⟩
      exact ⟨hb, hr, hc⟩

theorem andThen_eq_ok_iff {r : Reply α} {f : α → Cursor → Reply β} {b : β} :
    r.andThen f = ⟨.ok b, [], c'⟩ ↔
      ∃ a c₁, r = ⟨.ok a, [], c₁⟩ ∧ f a c₁ = ⟨.ok b, [], c'⟩ := by
  obtain ⟨o, reports, c₁⟩ := r
  cases o with
  | error d => simp [andThen]
  | ok a =>
    cases hf : f a c₁ with
    | mk o' reports' c₂ =>
      constructor
      · intro h
        simp only [andThen, hf, after, Reply.mk.injEq, List.append_eq_nil_iff] at h
        obtain ⟨rfl, ⟨rfl, rfl⟩, rfl⟩ := h
        exact ⟨a, c₁, rfl, hf⟩
      · rintro ⟨a', c₁', h, h'⟩
        simp only [Reply.mk.injEq, Except.ok.injEq] at h
        obtain ⟨rfl, rfl, rfl⟩ := h
        simpa [andThen, hf] using h'

end Reply

namespace Parser

def Accepts (p : Parser α) (c : Cursor) (a : α) (c' : Cursor) : Prop := p c = ⟨.ok a, [], c'⟩

variable {p : Parser α} {f : α → Parser β} {a a' : α} {b : β} {kind : Token.Kind} {t : Token}
  {demand : Demand}

/-! ## Sequence -/

@[simp] theorem accepts_pure : Accepts (pure a) c a' c' ↔ a = a' ∧ c = c' := by
  simp [Accepts, pure, Reply.ok]

@[simp low] theorem accepts_bind :
    Accepts (p >>= f) c b c' ↔ ∃ a c₁, Accepts p c a c₁ ∧ Accepts (f a) c₁ b c' :=
  Reply.andThen_eq_ok_iff

theorem Accepts.bind {c₁ : Cursor} (h : Accepts p c a c₁) (h' : Accepts (f a) c₁ b c') :
    Accepts (p >>= f) c b c' :=
  accepts_bind.mpr ⟨a, c₁, h, h'⟩

@[simp] theorem accepts_map {g : α → β} :
    Accepts (g <$> p) c b c' ↔ ∃ a, Accepts p c a c' ∧ g a = b := by
  change Accepts (p >>= fun a => pure (g a)) c b c' ↔ _
  simp

/-- A parser accepts in at most one way. -/
theorem Accepts.unique {c₁ : Cursor} (h : Accepts p c a c') (h' : Accepts p c a' c₁) :
    a = a' ∧ c' = c₁ := by
  unfold Accepts at h h'
  rw [h] at h'
  cases h'
  exact ⟨rfl, rfl⟩

/-! ## Looking ahead and reading -/

@[simp] theorem accepts_pure_bind : Accepts (pure a >>= f) c b c' ↔ Accepts (f a) c b c' := Iff.rfl

@[simp] theorem accepts_peek_bind {f : Token → Parser β} :
    Accepts (peek >>= f) c b c' ↔ Accepts (f c.peek) c b c' := Iff.rfl

@[simp] theorem accepts_peekKind_bind {f : Token.Kind → Parser β} :
    Accepts (peekKind >>= f) c b c' ↔ Accepts (f c.peek.kind) c b c' := Iff.rfl

@[simp] theorem accepts_peekNextKind_bind {f : Token.Kind → Parser β} :
    Accepts (peekNextKind >>= f) c b c' ↔ Accepts (f c.peekNext.kind) c b c' := Iff.rfl

@[simp] theorem accepts_atEnd_bind {f : Bool → Parser β} :
    Accepts (atEnd >>= f) c b c' ↔ Accepts (f c.atEnd) c b c' := Iff.rfl

@[simp] theorem accepts_sees_bind {f : Bool → Parser β} :
    Accepts (sees kind >>= f) c b c' ↔ Accepts (f (c.peek.kind = kind)) c b c' := Iff.rfl

@[simp] theorem accepts_advance_bind {f : Token → Parser β} :
    Accepts (advance >>= f) c b c' ↔ Accepts (f c.peek) c.advance b c' := Iff.rfl

@[simp] theorem accepts_locationFrom_bind {f : Location → Parser β} :
    Accepts (locationFrom t >>= f) c b c' ↔ Accepts (f (c.locationFrom t)) c b c' := Iff.rfl

@[simp] theorem accepts_advance : Accepts advance c t c' ↔ c.peek = t ∧ c.advance = c' := by
  simp [Accepts, advance, Reply.ok]

@[simp] theorem accepts_accept_bind {f : Bool → Parser β} :
    Accepts (accept kind >>= f) c b c' ↔
      if c.peek.kind = kind then Accepts (f true) c.advance b c' else Accepts (f false) c b c' := by
  have hassoc : Accepts (accept kind >>= f) c b c' ↔
      ∃ seen c₁, Accepts (accept kind) c seen c₁ ∧ Accepts (f seen) c₁ b c' := accepts_bind
  rw [hassoc]
  by_cases h : c.peek.kind = kind <;> simp [accept, h]

@[simp] theorem not_accepts_fail : ¬ Accepts (fail demand) c a c' := by
  simp [Accepts, fail, Reply.error]

@[simp] theorem accepts_expect :
    Accepts (expect demand) c t c' ↔
      demand.expected.admits c.peek.kind = true ∧ c.peek = t ∧ c.advance = c' := by
  by_cases h : demand.expected.admits c.peek.kind = true <;> simp [expect, h]

@[simp] theorem accepts_expect_bind {f : Token → Parser β} :
    Accepts (expect demand >>= f) c b c' ↔
      demand.expected.admits c.peek.kind = true ∧ Accepts (f c.peek) c.advance b c' := by
  rw [accepts_bind]
  simp [and_assoc]

@[simp] theorem accepts_name_bind {f : String → Parser β} :
    Accepts (name demand >>= f) c b c' ↔
      demand.expected.admits c.peek.kind = true ∧ Accepts (f c.peek.text) c.advance b c' := by
  rw [accepts_bind]
  simp [name, and_assoc]

@[simp] theorem accepts_located {p : Parser (Location → α)} :
    Accepts (located p) c a c' ↔ ∃ f, Accepts p c f c' ∧ f (c'.locationFrom c.peek) = a := by
  simp [located]

theorem Accepts.located {p : Parser (Location → α)} (node : Location → α)
    (h : Accepts p c node c') : Accepts (located p) c (node (c'.locationFrom c.peek)) c' :=
  accepts_located.mpr ⟨node, h, rfl⟩

/-! ## Reports -/

@[simp] theorem not_accepts_log {d : Diagnostic} {u : Unit} : ¬ Accepts (log d) c u c' := by
  simp [Accepts, log]

@[simp] theorem not_accepts_complain {u : Unit} : ¬ Accepts (complain demand) c u c' := by
  simp [complain]

@[simp] theorem accepts_recover {point : SyncPoint} {o : Option α} :
    Accepts (recover point p) c o c' ↔ ∃ a, Accepts p c a c' ∧ some a = o := by
  unfold Accepts recover
  rcases p c with ⟨⟨d⟩ | ⟨a⟩, reports, c₁⟩
  · simp
  · simp only [Reply.mk.injEq, Except.ok.injEq]
    constructor
    · rintro ⟨ho, hr, hc⟩
      exact ⟨a, ⟨rfl, hr, hc⟩, ho⟩
    · rintro ⟨_, ⟨rfl, hr, hc⟩, ho⟩
      exact ⟨ho, hr, hc⟩

/-! ## Repetition -/

section Iterate

variable {step : σ → Parser (Option (β × σ))} {s s' s₁ : σ} {bs : List β} {c₁ : Cursor}

theorem accepts_iterate_stop (h : Accepts (step s) c none c') :
    Accepts (iterate step s) c ([], s) c' := by
  exact iterate_stop h

theorem accepts_iterate_cons (h : Accepts (step s) c (some (b, s₁)) c₁)
    (hlt : c₁.rest.length < c.rest.length) (h' : Accepts (iterate step s₁) c₁ (bs, s') c') :
    Accepts (iterate step s) c (b :: bs, s') c' := by
  unfold Accepts at h h' ⊢
  rw [iterate_next h hlt, h']
  rfl

/-- The first round of a loop: it ends the loop, or more rounds follow unless it reads nothing. -/
theorem iterate_accepts_cases (h : Accepts (iterate step s) c (bs, s') c') :
    (Accepts (step s) c none c' ∧ bs = [] ∧ s' = s) ∨
      ∃ b s₁ c₁ bs', Accepts (step s) c (some (b, s₁)) c₁ ∧ bs = b :: bs' ∧
        ((c₁.rest.length < c.rest.length ∧ Accepts (iterate step s₁) c₁ (bs', s') c') ∨
          (bs' = [] ∧ s' = s₁ ∧ c' = c₁)) := by
  obtain hstop | ⟨b, s₁, before, c₁, bs', hstep, rfl, hrest⟩ := iterate_eq_ok h
  · exact .inl hstop
  · right
    obtain ⟨hlt, own, hrest, hnone⟩ | ⟨rfl, rfl, rfl, rfl⟩ := hrest
    · obtain ⟨rfl, rfl⟩ := List.append_eq_nil_iff.mp hnone.symm
      exact ⟨b, s₁, c₁, bs', hstep, rfl, .inl ⟨hlt, hrest⟩⟩
    · exact ⟨b, _, _, [], hstep, rfl, .inr ⟨rfl, rfl, rfl⟩⟩

/-- What the rounds of a loop do one after another, the loop does. -/
theorem iterate_accepts {P : σ → Cursor → List β → σ → Cursor → Prop}
    (nil : ∀ s c, P s c [] s c)
    (stop : ∀ s c c', Accepts (step s) c none c' → c' = c)
    (cons : ∀ s c b s₁ c₁ bs s' c', Accepts (step s) c (some (b, s₁)) c₁ →
      P s₁ c₁ bs s' c' → P s c (b :: bs) s' c')
    (h : Accepts (iterate step s) c (bs, s') c') : P s c bs s' c' := by
  induction hn : c.rest.length using Nat.strongRecOn generalizing s c bs with
  | ind n ih =>
    obtain ⟨hstop, rfl, rfl⟩ | ⟨b, s₁, c₁, bs', hstep, rfl, hrest⟩ := iterate_accepts_cases h
    · rw [stop _ c c' hstop]
      exact nil _ c
    · obtain ⟨hlt, hrest⟩ | ⟨rfl, rfl, rfl⟩ := hrest
      · exact cons s c b s₁ c₁ bs' s' c' hstep (ih _ (hn ▸ hlt) hrest rfl)
      · exact cons s c b _ _ [] _ _ hstep (nil _ _)

end Iterate

section Many

variable {step : Parser (Option α)} {as : List α} {c₁ : Cursor}

theorem accepts_many_iff :
    Accepts (many step) c as c' ↔
      Accepts (iterate (fun _ => do return (← step).map (·, ())) ()) c (as, ()) c' := by
  unfold Accepts many
  rw [Reply.map_eq_ok_iff]
  constructor
  · rintro ⟨⟨_, _⟩, h, rfl⟩
    exact h
  · intro h
    exact ⟨_, h, rfl⟩

theorem accepts_many_stop (h : Accepts step c none c') : Accepts (many step) c [] c' := by
  rw [accepts_many_iff]
  exact accepts_iterate_stop (by simp [h])

theorem accepts_many_cons (h : Accepts step c (some a) c₁)
    (hlt : c₁.rest.length < c.rest.length) (h' : Accepts (many step) c₁ as c') :
    Accepts (many step) c (a :: as) c' := by
  rw [accepts_many_iff] at h' ⊢
  exact accepts_iterate_cons (by simp [h]) hlt h'

theorem many_accepts {P : Cursor → List α → Cursor → Prop} (nil : ∀ c, P c [] c)
    (stop : ∀ c c', Accepts step c none c' → c' = c)
    (cons : ∀ c a c₁ as c', Accepts step c (some a) c₁ → P c₁ as c' → P c (a :: as) c')
    (h : Accepts (many step) c as c') : P c as c' := by
  refine iterate_accepts (P := fun _ c as _ c' => P c as c') (fun _ => nil) ?_ ?_
    (accepts_many_iff.mp h)
  · intro _ c c' h
    exact stop c c' (by simpa using h)
  · intro _ c a _ c₁ as _ c' h
    exact cons c a c₁ as c' (by simpa using h)

end Many

section BodyOf

variable {point : SyncPoint} {as : List α} {c₁ : Cursor}

theorem accepts_bodyOf_stop (h : c.peek.kind = .punctuation .rbrace) :
    Accepts (bodyOf point p) c [] c := by
  simp only [bodyOf, accepts_bind, accepts_pure]
  exact ⟨[], c, accepts_many_stop (by simp [bodyItem, h]), rfl, rfl⟩

theorem accepts_bodyOf_cons (hend : c.atEnd = false) (hbrace : c.peek.kind ≠ .punctuation .rbrace)
    (h : Accepts p c a c₁) (hlt : c₁.rest.length < c.rest.length)
    (h' : Accepts (bodyOf point p) c₁ as c') : Accepts (bodyOf point p) c (a :: as) c' := by
  simp only [bodyOf, accepts_bind, accepts_pure] at h' ⊢
  obtain ⟨items, _, h', rfl, rfl⟩ := h'
  have hitem : Accepts (bodyItem point p) c (some (some a)) c₁ := by
    simp [bodyItem, hend, hbrace, h]
  exact ⟨some a :: items, _, accepts_many_cons hitem hlt h', rfl, rfl⟩

theorem bodyOf_accepts {P : Cursor → List α → Cursor → Prop} (nil : ∀ c, P c [] c)
    (cons : ∀ c a c₁ as c', Accepts p c a c₁ → P c₁ as c' → P c (a :: as) c')
    (h : Accepts (bodyOf point p) c as c') : P c as c' := by
  simp only [bodyOf, accepts_bind, accepts_pure] at h
  obtain ⟨items, _, h, rfl, rfl⟩ := h
  refine many_accepts (P := fun c items c' => P c (items.filterMap id) c') nil ?_ ?_ h
  · intro c c' h
    simp only [bodyItem, accepts_atEnd_bind, accepts_sees_bind] at h
    split at h
    · exact (accepts_pure.mp h).2.symm
    · simp at h
  · intro c o c₁ items c' h hrest
    simp only [bodyItem, accepts_atEnd_bind, accepts_sees_bind] at h
    split at h
    · simp at h
    · simp only [accepts_bind, accepts_recover, accepts_pure, Option.some.injEq] at h
      obtain ⟨_, _, ⟨a, ha, rfl⟩, rfl, rfl⟩ := h
      exact cons c a _ _ c' ha hrest

end BodyOf

end Parser

end JavaSubset
