import JavaSubset.Proofs.Productions
import JavaSubset.Proofs.Runs

/-!
# The wording of diagnostics

`Parser.Worded p` : the message of every diagnostic that `p` raises, wherever it is run, is one
line.

A demand is any sentence, so each production is held to the demands it makes. All of them are worded
(`program_worded`).
-/

namespace JavaSubset.Parser

variable {α β σ : Type} {n : Nat} {p : Parser α} {f : α → Parser β}

def Worded (p : Parser α) : Prop := ∀ c, ∀ d ∈ (p c).raised, OneLine d.problem.message

namespace Worded

theorem silent (h : ∀ c, (p c).raised = []) : Worded p := by
  intro c d hd
  rw [h] at hd
  cases hd

theorem raises {d : Cursor → Diagnostic} (h : ∀ c, (p c).raised = [d c])
    (hd : ∀ c, OneLine (d c).problem.message) : Worded p := by
  intro c d' hd'
  rw [h, List.mem_singleton] at hd'
  exact hd' ▸ hd c

theorem bind (h : Worded p)
    (rest : ∀ {a c c' reports}, p c = ⟨.ok a, reports, c'⟩ → Worded (f a)) :
    Worded (p >>= f) := by
  intro c d hd
  have hp := h c
  rcases heq : p c with ⟨⟨e⟩ | ⟨a⟩, reports, c'⟩
  · rw [bind_of_error heq] at hd
    exact hp d (heq ▸ hd)
  · rw [raised_next heq, List.mem_append] at hd
    rcases hd with hd | hd
    · exact hp d (heq ▸ hd)
    · exact rest heq c' d hd

theorem map {g : α → β} (h : Worded p) : Worded (fun c => (p c).map g) := by
  intro c d hd
  rw [Reply.raised_map] at hd
  exact h c d hd

/-- `valid` holds of the state that each round starts in. -/
theorem iterate (valid : σ → Prop) {step : σ → Parser (Option (β × σ))}
    (h : ∀ {s}, valid s → Worded (step s))
    (keep : ∀ {s c b s' reports c'}, valid s →
      step s c = ⟨.ok (some (b, s')), reports, c'⟩ → valid s')
    {s : σ} (hs : valid s) : Worded (iterate step s) := by
  intro c d hd
  -- a round that reads nothing ends the loop, so what is left shrinks from round to round
  induction hn : c.rest.length using Nat.strongRecOn generalizing s c with
  | ind n ih =>
    have hround := h hs c
    rcases hstep : step s c with ⟨⟨e⟩ | ⟨_ | ⟨b, s'⟩⟩, reports, c'⟩
    · rw [iterate_error hstep] at hd
      exact hround d (hstep ▸ hd)
    · rw [iterate_stop hstep] at hd
      exact hround d (hstep ▸ hd)
    · by_cases hlt : c'.rest.length < c.rest.length
      · rw [raised_rounds hstep hlt, List.mem_append] at hd
        rcases hd with hd | hd
        · exact hround d (hstep ▸ hd)
        · exact ih _ (hn ▸ hlt) (keep hs hstep) c' hd rfl
      · rw [iterate_stuck hstep hlt] at hd
        exact hround d (hstep ▸ hd)

theorem recover {point : SyncPoint} (h : Worded p) : Worded (recover point p) := by
  intro c d hd
  rw [raised_recover] at hd
  exact h c d hd

end Worded

/-- The values that come out on the way belong to those of the other parser, so that the next step
is one of both. -/
theorem Related.worded {R : α → β → Prop} {P : Nat → Parser α} {Q : Nat → Parser β}
    (h : Related True Eq n R P Q) : Worded (P n) := by
  induction h with
  | move count value even => exact .silent fun _ => rfl
  | giveUp problem words => exact .raises (fun _ => rfl) fun _ => words trivial _
  | log problem words => exact .raises (fun _ => rfl) fun _ => words trivial
  | bind first rest ih ih' =>
    refine .bind ih fun hp => ?_
    obtain ⟨b, hab⟩ := first.exists_value hp
    exact ih' hab
  | map inner value ih => exact ih.map
  | @iterate n _ _ _ _ R S step step' s s' loops round start ih =>
    refine .iterate (fun s => ∃ s', S s s') (fun hs => ?_) (fun hs hround => ?_) ⟨s', start⟩
    · obtain ⟨_, hst⟩ := hs
      exact ih hst
    · obtain ⟨_, hst⟩ := hs
      obtain ⟨y, hy⟩ := (round hst).exists_value hround
      cases hy with
      | some value => exact ⟨_, value.2⟩
  | recover point inner ih => exact ih.recover
  | tooDeep => exact .raises (fun _ => rfl) fun _ => .literal rfl
  | guarded inner ih => exact ih

theorem program_worded (limit : Nat) : Worded (program limit) := by
  have huniform : Uniform True Eq limit (Agree Program.erase) program := program_uniform limit
  exact huniform.worded

end JavaSubset.Parser
