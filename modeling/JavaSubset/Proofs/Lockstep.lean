import JavaSubset.Proofs.Replies
import Mathlib.Data.List.Forall2

/-!
# Two parses side by side

Two cursors are twins (`Cursor.Twin place`) if their tokens say the same, one by one; `place`
relates where they stand. Parsers in `Lockstep` take twins to twins: both give up, with the same
problem at places that belong together, or both go on with values that are related, and they report
the same on the way.

Sequences, loops and recovery keep step if their parts do.
-/

namespace JavaSubset

open Cursor

/-! ## Twins -/

section Twins

variable (place : Location → Location → Prop)

/-- Tokens that say the same, at places that belong together. -/
structure Token.Twin (t u : Token) : Prop where
  kind : t.kind = u.kind
  text : t.text = u.text
  literal : t.literal = u.literal
  place : place t.loc u.loc

structure Diagnostic.Twin (d e : Diagnostic) : Prop where
  problem : d.problem = e.problem
  place : place d.loc e.loc

/-- What was read last plays no part: only notes are made of it. -/
structure Cursor.Twin (c d : Cursor) : Prop where
  eof : c.eof.Twin place d.eof
  rest : List.Forall₂ (Token.Twin place) c.rest d.rest

inductive Reply.Twin {α β : Type} (R : α → β → Prop) : Reply α → Reply β → Prop where
  | ok {a : α} {b : β} {ds es : List Diagnostic} {c d : Cursor} (value : R a b)
      (reports : List.Forall₂ (Diagnostic.Twin place) ds es) (cursor : c.Twin place d) :
      Twin R ⟨.ok a, ds, c⟩ ⟨.ok b, es, d⟩
  | error {x y : Diagnostic} {ds es : List Diagnostic} {c d : Cursor} (problem : x.Twin place y)
      (reports : List.Forall₂ (Diagnostic.Twin place) ds es) (cursor : c.Twin place d) :
      Twin R ⟨.error x, ds, c⟩ ⟨.error y, es, d⟩

end Twins

section Twin

variable {place : Location → Location → Prop} {t u : Token} {c d : Cursor}

theorem Token.Twin.refl (t : Token) : t.Twin Eq t := ⟨rfl, rfl, rfl, rfl⟩

theorem Token.Twin.unexpected (h : t.Twin place u) (demand : Demand) :
    (Diagnostic.unexpected demand t).Twin place (.unexpected demand u) := by
  refine ⟨?_, h.place⟩
  simp only [Diagnostic.unexpected, h.kind, h.text]

namespace Cursor.Twin

theorem peek (h : c.Twin place d) : c.peek.Twin place d.peek := by
  have hrest := h.rest
  unfold Cursor.peek
  generalize c.rest = ts at hrest
  generalize d.rest = us at hrest
  cases hrest with
  | nil => exact h.eof
  | cons next _ => exact next

theorem length (h : c.Twin place d) : d.rest.length = c.rest.length := h.rest.length_eq.symm

theorem atEnd (h : c.Twin place d) : d.atEnd = c.atEnd := by
  unfold Cursor.atEnd
  rw [Bool.eq_iff_iff, List.isEmpty_iff_length_eq_zero, List.isEmpty_iff_length_eq_zero, h.length]

theorem skip (h : c.Twin place d) (n : Nat) : (c.skip n).Twin place (d.skip n) := by
  refine ⟨?_, ?_⟩
  · rw [skip_eof, skip_eof]
    exact h.eof
  · rw [skip_rest, skip_rest]
    exact List.forall₂_drop n h.rest

theorem advance (h : c.Twin place d) : c.advance.Twin place d.advance := h.skip 1

theorem peekNext (h : c.Twin place d) : c.peekNext.Twin place d.peekNext := by
  rw [peekNext_eq, peekNext_eq]
  exact h.advance.peek

theorem kinds (h : c.Twin place d) : c.rest.map (·.kind) = d.rest.map (·.kind) := by
  refine List.forall₂_eq_eq_eq ▸ List.forall₂_map_left_iff.mpr (List.forall₂_map_right_iff.mpr ?_)
  exact h.rest.imp fun _ _ twin => twin.kind

theorem refl (c : Cursor) : c.Twin Eq c :=
  ⟨.refl _, List.forall₂_same.mpr fun t _ => .refl t⟩

end Cursor.Twin

/-- How far recovery skips is told by the kinds of the tokens. -/
theorem SyncPoint.skip_of_twin {ts us : List Token} (point : SyncPoint) (depth : Nat)
    (h : List.Forall₂ (Token.Twin place) ts us) : point.skip depth us = point.skip depth ts := by
  induction h generalizing depth with
  | nil => cases depth <;> rfl
  | cons next _ ih => cases depth <;> simp only [SyncPoint.skip, next.kind, ih]

theorem Cursor.Twin.synchronize (h : c.Twin place d) (point : SyncPoint) :
    (c.synchronize point).Twin place (d.synchronize point) := by
  unfold Cursor.synchronize
  rw [point.skip_of_twin 0 h.rest]
  exact h.skip _

end Twin

/-! ## Steps that are kept -/

namespace Parser

variable {place : Location → Location → Prop} {α β γ δ σ τ : Type}

def Lockstep (place : Location → Location → Prop) (R : α → β → Prop) (p : Parser α)
    (q : Parser β) : Prop :=
  ∀ c d : Cursor, c.Twin place d → (p c).Twin place R (q d)

namespace Lockstep

variable {R : α → β → Prop} {S : γ → δ → Prop} {p : Parser α} {q : Parser β} {f : α → Parser γ}
  {g : β → Parser δ}

theorem bind (h : Lockstep place R p q)
    (h' : ∀ {a b}, R a b → Lockstep place S (f a) (g b)) :
    Lockstep place S (p >>= f) (q >>= g) := by
  intro c d twin
  have hfirst := h c d twin
  generalize hp : p c = r at hfirst
  generalize hq : q d = s at hfirst
  cases hfirst with
  | error problem reports cursor =>
    rw [bind_of_error hp, bind_of_error hq]
    exact .error problem reports cursor
  | @ok a b ds es c₁ d₁ value reports cursor =>
    rw [bind_of_ok hp, bind_of_ok hq]
    have hrest := h' value _ _ cursor
    generalize f a c₁ = r at hrest
    generalize g b d₁ = s at hrest
    cases hrest with
    | ok value more cursor => exact .ok value (List.rel_append reports more) cursor
    | error problem more cursor => exact .error problem (List.rel_append reports more) cursor

theorem map {f : α → γ} {g : β → δ} (h : Lockstep place R p q)
    (h' : ∀ {a b}, R a b → S (f a) (g b)) :
    Lockstep place S (fun c => (p c).map f) (fun c => (q c).map g) := by
  intro c d twin
  have hreply := h c d twin
  change (Reply.map f (p c)).Twin place S (Reply.map g (q d))
  generalize p c = r at hreply
  generalize q d = s at hreply
  cases hreply with
  | ok value reports cursor => exact .ok (h' value) reports cursor
  | error problem reports cursor => exact .error problem reports cursor

theorem iterate {R : β → γ → Prop} {S : σ → τ → Prop} {step : σ → Parser (Option (β × σ))}
    {step' : τ → Parser (Option (γ × τ))}
    (h : ∀ {s s'}, S s s' →
      Lockstep place (Option.Rel fun x y => R x.1 y.1 ∧ S x.2 y.2) (step s) (step' s'))
    {s : σ} {s' : τ} (hs : S s s') :
    Lockstep place (fun x y => List.Forall₂ R x.1 y.1 ∧ S x.2 y.2) (iterate step s)
      (iterate step' s') := by
  intro c d twin
  induction hn : c.rest.length using Nat.strongRecOn generalizing s s' c d with
  | ind n ih =>
    have hround := h hs c d twin
    generalize hleft : step s c = r at hround
    generalize hright : step' s' d = r' at hround
    cases hround with
    | error problem reports cursor =>
      rw [iterate_error hleft, iterate_error hright]
      exact .error problem reports cursor
    | @ok _ _ ds es c₁ d₁ value reports cursor =>
      cases value with
      | none =>
        rw [iterate_stop hleft, iterate_stop hright]
        exact .ok ⟨.nil, hs⟩ reports cursor
      | @some x y value =>
        obtain ⟨b, s₁⟩ := x
        obtain ⟨b', s₁'⟩ := y
        -- the two runs read equally much, so both go on or neither does
        by_cases hlt : c₁.rest.length < c.rest.length
        · rw [iterate_next hleft hlt,
            iterate_next hright (by rw [cursor.length, twin.length]; exact hlt)]
          have hrest := ih _ (hn ▸ hlt) value.2 c₁ d₁ cursor rfl
          generalize Parser.iterate step s₁ c₁ = r at hrest
          generalize Parser.iterate step' s₁' d₁ = r' at hrest
          cases hrest with
          | ok more others last =>
            exact .ok ⟨.cons value.1 more.1, more.2⟩ (List.rel_append reports others) last
          | error problem others last => exact .error problem (List.rel_append reports others) last
        · rw [iterate_stuck hleft hlt,
            iterate_stuck hright (by rw [cursor.length, twin.length]; exact hlt)]
          exact .ok ⟨.cons value.1 .nil, value.2⟩ reports cursor

theorem recover {point : SyncPoint} (h : Lockstep place R p q) :
    Lockstep place (Option.Rel R) (recover point p) (recover point q) := by
  intro c d twin
  have hreply := h c d twin
  unfold Parser.recover
  generalize p c = r at hreply
  generalize q d = s at hreply
  cases hreply with
  | ok value reports cursor => exact .ok (.some value) reports cursor
  | @error x y ds es c₁ d₁ problem reports cursor =>
    have hnext := cursor.synchronize point
    refine .ok .none (List.rel_append reports (.cons problem .nil)) ?_
    rw [hnext.length, twin.length]
    split
    · exact hnext.advance
    · exact hnext

end Lockstep

end Parser

end JavaSubset
