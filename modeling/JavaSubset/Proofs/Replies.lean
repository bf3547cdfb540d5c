import JavaSubset.Parse.Member
import JavaSubset.Proofs.Reads

/-!
# What parsers reply

Equations for the combinators, one for each way they can go:

* `bind_of_ok`, `bind_of_error`, `bind_eq_ok` : sequences;
* `expect_of_admits`, `expect_of_not_admits`, `accept_of_kind`, `accept_of_ne` : single tokens;
* `iterate_stop`, `iterate_next`, `iterate_stuck`, `iterate_eq_ok`, `many_stop`, `many_cons` :
  loops;
* `recover_ok`, `recover_error`, `bodyOf_stop`, `bodyOf_cons` : recovery.
-/

namespace JavaSubset

open Cursor

namespace Reply

variable {α β : Type}

@[simp] theorem after_nil (r : Reply α) : r.after [] = r := rfl

@[simp] theorem after_after (earlier later : List Diagnostic) (r : Reply α) :
    (r.after later).after earlier = r.after (earlier ++ later) := by
  simp [after]

@[simp] theorem map_after (earlier : List Diagnostic) (r : Reply α) (f : α → β) :
    (r.after earlier).map f = (r.map f).after earlier := rfl

@[simp] theorem map_map {γ : Type} (r : Reply α) (f : α → β) (g : β → γ) :
    (r.map f).map g = r.map (g ∘ f) := by
  rcases r with ⟨⟨d⟩ | ⟨a⟩, reports, c⟩ <;> rfl

@[simp] theorem map_id (r : Reply α) : r.map id = r := by
  rcases r with ⟨⟨e⟩ | ⟨a⟩, reports, c⟩ <;> rfl

end Reply

namespace Parser

variable {α β σ : Type} {p : Parser α} {f : α → Parser β} {c c' : Cursor} {a : α} {e : Diagnostic}
  {reports : List Diagnostic} {demand : Demand} {kind found : Token.Kind} {point : SyncPoint}

/-! ## Sequences -/

theorem bind_of_ok (h : p c = ⟨.ok a, reports, c'⟩) :
    (p >>= f) c = (f a c').after reports := by
  change (p c).andThen f = _
  rw [h]
  rfl

theorem bind_of_error (h : p c = ⟨.error e, reports, c'⟩) :
    (p >>= f) c = ⟨.error e, reports, c'⟩ := by
  change (p c).andThen f = _
  rw [h]
  rfl

theorem bind_eq_ok {b : β} (h : (p >>= f) c = ⟨.ok b, reports, c'⟩) :
    ∃ a before c₁ own, p c = ⟨.ok a, before, c₁⟩ ∧ f a c₁ = ⟨.ok b, own, c'⟩ ∧
      reports = before ++ own := by
  change (p c).andThen f = _ at h
  rcases hp : p c with ⟨⟨d⟩ | ⟨a⟩, before, c₁⟩
  · rw [hp] at h
    cases h
  · rw [hp] at h
    rcases hf : f a c₁ with ⟨o, own, c₂⟩
    simp only [Reply.andThen, hf, Reply.after, Reply.mk.injEq] at h
    obtain ⟨rfl, rfl, rfl⟩ := h
    exact ⟨a, before, c₁, own, rfl, hf, rfl⟩

theorem bind_assoc {γ : Type} {g : β → Parser γ} :
    (p >>= f) >>= g = p >>= fun a => f a >>= g := by
  funext c
  change ((p c).andThen f).andThen g = (p c).andThen fun a c => (f a c).andThen g
  rcases p c with ⟨⟨d⟩ | ⟨a⟩, reports, c₁⟩
  · rfl
  · change ((f a c₁).after reports).andThen g = ((f a c₁).andThen g).after reports
    rcases f a c₁ with ⟨⟨d⟩ | ⟨b⟩, reports', c₂⟩
    · rfl
    · simp [Reply.andThen, Reply.after]

theorem bind_pure {g : α → β} : (p >>= fun a => pure (g a)) c = (p c).map g := by
  change (p c).andThen _ = _
  rcases p c with ⟨⟨d⟩ | ⟨a⟩, reports, c'⟩
  · rfl
  · simp [Reply.andThen, Pure.pure, Reply.ok, Reply.after, Reply.map, Except.map]

theorem located_of_ok {p : Parser (Location → α)} {node : Location → α}
    (h : p c = ⟨.ok node, reports, c'⟩) :
    located p c = ⟨.ok (node (c'.locationFrom c.peek)), reports, c'⟩ := by
  have hinner : located p c =
      ((locationFrom c.peek >>= fun loc => pure (node loc)) c').after reports :=
    bind_of_ok h
  rw [hinner]
  simp [Bind.bind, locationFrom, Pure.pure, Reply.ok, Reply.andThen, Reply.after]

/-! ## Single tokens -/

theorem kind_of_admits (hd : demand.expected = .token kind)
    (h : demand.expected.admits found = true) : found = kind := by
  simp only [hd, Expected.admits, decide_eq_true_eq] at h
  exact h.symm

theorem identifier_of_admits (hd : demand.expected = .identifier)
    (h : demand.expected.admits found = true) : found = .identifier := by
  simpa [hd, Expected.admits] using h

theorem expect_of_admits (h : demand.expected.admits c.peek.kind = true) :
    expect demand c = ⟨.ok c.peek, [], c.advance⟩ := by
  simp [expect, Bind.bind, peekKind, Reply.ok, Reply.andThen, h, advance, Reply.after]

theorem expect_of_not_admits (h : ¬ demand.expected.admits c.peek.kind = true) :
    expect demand c = ⟨.error (.unexpected demand c.peek), [], c⟩ := by
  simp [expect, Bind.bind, peekKind, Reply.ok, Reply.andThen, h, fail, Reply.after, Reply.error]

theorem accept_of_kind (h : c.peek.kind = kind) : accept kind c = ⟨.ok true, [], c.advance⟩ := by
  simp [accept, sees, peekKind, Bind.bind, Pure.pure, Reply.ok, Reply.andThen, Reply.after,
    advance, h]

theorem accept_of_ne (h : c.peek.kind ≠ kind) : accept kind c = ⟨.ok false, [], c⟩ := by
  simp [accept, sees, peekKind, Bind.bind, Pure.pure, Reply.ok, Reply.andThen, Reply.after, h]

/-! ## Loops -/

section Iterate

variable {step : σ → Parser (Option (β × σ))} {s s' : σ} {b : β}

theorem iterate_error (h : step s c = ⟨.error e, reports, c'⟩) :
    iterate step s c = ⟨.error e, reports, c'⟩ := by
  rw [iterate, h]

theorem iterate_stop (h : step s c = ⟨.ok none, reports, c'⟩) :
    iterate step s c = ⟨.ok ([], s), reports, c'⟩ := by
  rw [iterate, h]

theorem iterate_next (h : step s c = ⟨.ok (some (b, s')), reports, c'⟩)
    (hlt : c'.rest.length < c.rest.length) :
    iterate step s c = ((iterate step s' c').map (Prod.map (b :: ·) id)).after reports := by
  rw [iterate, h]
  simp only [hlt, ↓reduceIte]

/-- A round that reads nothing is the last one. -/
theorem iterate_stuck (h : step s c = ⟨.ok (some (b, s')), reports, c'⟩)
    (hlt : ¬ c'.rest.length < c.rest.length) :
    iterate step s c = ⟨.ok ([b], s'), reports, c'⟩ := by
  rw [iterate, h]
  simp only [hlt, ↓reduceIte]

/-- The first round of a loop: it ends the loop, or more rounds follow unless it reads nothing. -/
theorem iterate_eq_ok {bs : List β} (h : iterate step s c = ⟨.ok (bs, s'), reports, c'⟩) :
    (step s c = ⟨.ok none, reports, c'⟩ ∧ bs = [] ∧ s' = s) ∨
      ∃ b s₁ before c₁ bs', step s c = ⟨.ok (some (b, s₁)), before, c₁⟩ ∧ bs = b :: bs' ∧
        ((c₁.rest.length < c.rest.length ∧ ∃ own,
            iterate step s₁ c₁ = ⟨.ok (bs', s'), own, c'⟩ ∧ reports = before ++ own) ∨
          (bs' = [] ∧ s' = s₁ ∧ c' = c₁ ∧ reports = before)) := by
  rcases hstep : step s c with ⟨⟨d⟩ | ⟨_ | ⟨b, s₁⟩⟩, before, c₁⟩
  · rw [iterate_error hstep] at h
    cases h
  · rw [iterate_stop hstep] at h
    cases h
    exact .inl ⟨rfl, rfl, rfl⟩
  · right
    by_cases hlt : c₁.rest.length < c.rest.length
    · rw [iterate_next hstep hlt] at h
      rcases hrest : iterate step s₁ c₁ with ⟨⟨d⟩ | ⟨bs', s''⟩, own, c₂⟩
      · rw [hrest] at h
        cases h
      · rw [hrest] at h
        cases h
        exact ⟨b, s₁, before, c₁, bs', rfl, rfl, .inl ⟨hlt, own, hrest, rfl⟩⟩
    · rw [iterate_stuck hstep hlt] at h
      cases h
      exact ⟨_, _, _, _, [], rfl, rfl, .inr ⟨rfl, rfl, rfl, rfl⟩⟩

end Iterate

theorem many_stop {step : Parser (Option α)}
    (h : step c = ⟨.ok none, reports, c'⟩) : many step c = ⟨.ok [], reports, c'⟩ := by
  have hround : (do return (← step).map (·, ()) : Parser (Option (α × Unit))) c =
      ⟨.ok none, reports, c'⟩ := by
    simp [Bind.bind, h, Reply.andThen, Pure.pure, Reply.ok, Reply.after]
  rw [many, iterate_stop hround]
  rfl

theorem many_cons {step : Parser (Option α)}
    (h : step c = ⟨.ok (some a), reports, c'⟩) (hlt : c'.rest.length < c.rest.length) :
    many step c = ((many step c').map (a :: ·)).after reports := by
  have hround : (do return (← step).map (·, ()) : Parser (Option (α × Unit))) c =
      ⟨.ok (some (a, ())), reports, c'⟩ := by
    simp [Bind.bind, h, Reply.andThen, Pure.pure, Reply.ok, Reply.after]
  rw [many, iterate_next hround hlt, many, Reply.map_after, Reply.map_map, Reply.map_map]
  rfl

/-! ## Recovery -/

theorem recover_ok (point : SyncPoint) (p : Parser α) (c : Cursor) :
    ∃ o reports c', recover point p c = ⟨.ok o, reports, c'⟩ := by
  unfold recover
  rcases p c with ⟨⟨d⟩ | ⟨a⟩, reports, c'⟩
  · exact ⟨_, _, _, rfl⟩
  · exact ⟨_, _, _, rfl⟩

theorem recover_error (point : SyncPoint) {us : List Token}
    (h : p c = ⟨.error e, reports, c'⟩) (hreads : Reads c us (c'.synchronize point)) :
    recover point p c =
      ⟨.ok none, reports ++ [e], if us = [] then c.advance else c'.synchronize point⟩ := by
  have hlen := hreads.length_eq
  rw [recover, h]
  by_cases hus : us = []
  · rw [hus] at hreads
    simp [hus, hreads.of_nil]
  · have hne : (c'.synchronize point).rest.length ≠ c.rest.length := by
      have := List.length_pos_iff.mpr hus
      omega
    simp [hus, hne]

theorem bodyItem_stop (h : c.rest = [] ∨ c.peek.kind = .punctuation .rbrace) :
    bodyItem point p c = ⟨.ok none, [], c⟩ := by
  have hstop : (c.atEnd || decide (c.peek.kind = .punctuation .rbrace)) = true := by
    simpa [atEnd_iff] using h
  change (if (c.atEnd || decide (c.peek.kind = .punctuation .rbrace)) = true then
    (pure none : Parser (Option (Option α))) else _) c = _
  rw [hstop]
  rfl

theorem bodyItem_next (hrest : c.rest ≠ []) (hbrace : c.peek.kind ≠ .punctuation .rbrace) :
    bodyItem point p c = (recover point p c).map some := by
  have hgo : (c.atEnd || decide (c.peek.kind = .punctuation .rbrace)) = false := by
    simpa [Cursor.atEnd, hbrace] using hrest
  change (if (c.atEnd || decide (c.peek.kind = .punctuation .rbrace)) = true then _ else
    (recover point p >>= fun o => pure (some o))) c = _
  rw [hgo]
  exact bind_pure

theorem bodyOf_stop (h : c.rest = [] ∨ c.peek.kind = .punctuation .rbrace) :
    bodyOf point p c = ⟨.ok [], [], c⟩ := by
  rw [bodyOf, bind_pure, many_stop (bodyItem_stop h)]
  rfl

theorem bodyOf_cons {o : Option α} (hrest : c.rest ≠ [])
    (hbrace : c.peek.kind ≠ .punctuation .rbrace)
    (h : recover point p c = ⟨.ok o, reports, c'⟩) (hlt : c'.rest.length < c.rest.length) :
    bodyOf point p c = ((bodyOf point p c').map (o.toList ++ ·)).after reports := by
  have hitem : bodyItem point p c = ⟨.ok (some o), reports, c'⟩ := by
    rw [bodyItem_next hrest hbrace, h]
    rfl
  rw [bodyOf, bind_pure, many_cons hitem hlt, bind_pure, Reply.map_after, Reply.map_map,
    Reply.map_map]
  congr 2
  funext items
  cases o <;> rfl

/-! ## What productions look for -/

theorem tierOp?_eq_some {tier : Tier} {op : BinaryOp} :
    tierOp? tier kind = some op ↔ kind = .operator (.binary op) ∧ op.tier = tier := by
  unfold tierOp?
  split
  · next op' =>
    simp only [Option.ite_none_right_eq_some, Option.some.injEq, Token.Kind.operator.injEq,
      Operator.binary.injEq]
    constructor
    · rintro ⟨htier, rfl⟩
      exact ⟨rfl, htier⟩
    · rintro ⟨rfl, htier⟩
      exact ⟨htier, rfl⟩
  · next hother =>
    simp only [reduceCtorEq, false_iff, not_and]
    rintro rfl
    exact absurd rfl (hother op)

theorem step?_eq_some {step : Step} : step? kind = some step ↔ kind = .operator (.step step) := by
  unfold step?
  split <;> simp_all

theorem assignOp?_eq_some {op : AssignOp} :
    assignOp? kind = some op ↔ kind = .operator (.assign op) := by
  unfold assignOp?
  split <;> simp_all

theorem modifier?_eq_some {m : Modifier} :
    kind.modifier? = some m ↔ kind = .keyword (.modifier m) := by
  unfold Token.Kind.modifier?
  split
  · next word => cases word <;> simp [Keyword.modifier?]
  · next h =>
    simp only [reduceCtorEq, false_iff]
    rintro rfl
    exact absurd rfl (h _)

theorem primitiveType?_eq_some {type : PrimitiveType} :
    kind.primitiveType? = some type ↔ kind = .keyword (.primitive type) := by
  unfold Token.Kind.primitiveType?
  split
  · next word => cases word <;> simp [Keyword.primitiveType?]
  · next h =>
    simp only [reduceCtorEq, false_iff]
    rintro rfl
    exact absurd rfl (h _)

end Parser

end JavaSubset
