import JavaSubset.Proofs.Places

/-!
# What a parser runs

`Runs p c q d` : from the cursor `c` on the parser `p` comes to run `q` at `d`, as a part of a
sequence, in a round of a loop or with recovery. What `q` raises there, `p` raises (`Runs.raised`).
-/

namespace JavaSubset.Parser

inductive Runs : {α β : Type} → Parser α → Cursor → Parser β → Cursor → Prop where
  | self {α : Type} {p : Parser α} {c : Cursor} : Runs p c p c
  | first {α β γ : Type} {p : Parser α} {f : α → Parser β} {q : Parser γ} {c d : Cursor}
      (inner : Runs p c q d) : Runs (p >>= f) c q d
  | next {α β γ : Type} {p : Parser α} {f : α → Parser β} {q : Parser γ} {c d c' : Cursor} {a : α}
      {reports : List Diagnostic} (done : p c = ⟨.ok a, reports, c'⟩)
      (inner : Runs (f a) c' q d) : Runs (p >>= f) c q d
  | map {α β γ : Type} {p : Parser α} {q : Parser γ} {c d : Cursor} (g : α → β)
      (inner : Runs p c q d) : Runs (fun c => (p c).map g) c q d
  | round {β γ σ : Type} {step : σ → Parser (Option (β × σ))} {s : σ} {q : Parser γ}
      {c d : Cursor} (inner : Runs (step s) c q d) : Runs (iterate step s) c q d
  | rounds {β γ σ : Type} {step : σ → Parser (Option (β × σ))} {s s' : σ} {b : β} {q : Parser γ}
      {c d c' : Cursor} {reports : List Diagnostic}
      (done : step s c = ⟨.ok (some (b, s')), reports, c'⟩)
      (reads : c'.rest.length < c.rest.length) (inner : Runs (iterate step s') c' q d) :
      Runs (iterate step s) c q d
  | recover {α γ : Type} {p : Parser α} {q : Parser γ} {c d : Cursor} (point : SyncPoint)
      (inner : Runs p c q d) : Runs (recover point p) c q d

variable {α β γ σ : Type} {p : Parser α} {q : Parser β} {c d : Cursor}

theorem Runs.trans {r : Parser γ} {e : Cursor} (h : Runs p c q d) (h' : Runs q d r e) :
    Runs p c r e := by
  induction h with
  | self => exact h'
  | first _ ih => exact .first (ih h')
  | next done _ ih => exact .next done (ih h')
  | map g _ ih => exact .map g (ih h')
  | round _ ih => exact .round (ih h')
  | rounds done reads _ ih => exact .rounds done reads (ih h')
  | recover point _ ih => exact .recover point (ih h')

/-! ## Diagnostics on the way -/

theorem raised_first (f : α → Parser β) : (p c).raised <:+: ((p >>= f) c).raised := by
  rcases h : p c with ⟨⟨d⟩ | ⟨a⟩, reports, c'⟩
  · rw [bind_of_error h]
    exact List.infix_rfl
  · rw [bind_of_ok h, Reply.raised_after]
    exact (List.prefix_append _ _).isInfix

theorem raised_next {f : α → Parser β} {a : α} {reports : List Diagnostic} {c' : Cursor}
    (h : p c = ⟨.ok a, reports, c'⟩) : ((p >>= f) c).raised = reports ++ (f a c').raised := by
  rw [bind_of_ok h, Reply.raised_after]

section Iterate

variable {step : σ → Parser (Option (γ × σ))} {s s' : σ} {b : γ}

theorem raised_rounds {reports : List Diagnostic} {c' : Cursor}
    (h : step s c = ⟨.ok (some (b, s')), reports, c'⟩) (hlt : c'.rest.length < c.rest.length) :
    (iterate step s c).raised = reports ++ (iterate step s' c').raised := by
  rw [iterate_next h hlt, Reply.raised_after, Reply.raised_map]

theorem raised_round : (step s c).raised <:+: (iterate step s c).raised := by
  rcases h : step s c with ⟨⟨d⟩ | ⟨_ | ⟨b, s'⟩⟩, reports, c'⟩
  · rw [iterate_error h]
    exact List.infix_rfl
  · rw [iterate_stop h]
    exact List.infix_rfl
  · by_cases hlt : c'.rest.length < c.rest.length
    · rw [raised_rounds h hlt]
      exact (List.prefix_append _ _).isInfix
    · rw [iterate_stuck h hlt]
      exact List.infix_rfl

end Iterate

theorem Runs.raised (h : Runs p c q d) : (q d).raised <:+: (p c).raised := by
  induction h with
  | self => exact List.infix_rfl
  | first _ ih => exact ih.trans (raised_first _)
  | next done _ ih =>
    rw [raised_next done]
    exact ih.trans (List.suffix_append _ _).isInfix
  | map g _ ih => rwa [Reply.raised_map]
  | round _ ih => exact ih.trans raised_round
  | rounds done reads _ ih =>
    rw [raised_rounds done reads]
    exact ih.trans (List.suffix_append _ _).isInfix
  | recover point _ ih => rwa [raised_recover]

end JavaSubset.Parser
