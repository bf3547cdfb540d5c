import JavaSubset.Parse.Program
import JavaSubset.Proofs.Cascades
import JavaSubset.Proofs.Replies
import Mathlib.Data.List.Induction

/-!
# Parsing with a state

A production is given what may still be opened inside of it, and replies where it stopped and what
it reported. The same can be said of a state that is changed on the way: how many tokens were read
(`pos`), which diagnostics are kept (`errors`), and how many statements and expressions are open
(`depth`).

* `guarded P` : `P` one level deeper, if there is one left. It is the only parser that looks at the
  level (`expression_eq`, `statement_eq`);
* `Exec tokens P s trace o s'` : run in the state `s`, the parser `P` changes the state to those in
  `trace`, one after the other, and leaves the state `s'` with the outcome `o`. The depth is counted
  up before a guarded parser is run, and down behind it, whether it gives up or not;
* `Exec.upkeep` : what all runs keep: positions and errors only grow, and the depth is restored;
* `Exec.reply` : a run replies what the parser replies.
-/

namespace JavaSubset

/-! ## Errors that are kept -/

namespace Diagnostic

/-- Adds a diagnostic to those that are kept, unless the last of them has the same span. -/
def push (ds : List Diagnostic) (d : Diagnostic) : List Diagnostic :=
  if lastSpan? ds = some d.loc.span then ds else ds ++ [d]

theorem prefix_push (ds : List Diagnostic) (d : Diagnostic) : ds <+: push ds d := by
  unfold push
  split
  · exact List.prefix_rfl
  · exact List.prefix_append ds [d]

/-- One after another, the diagnostics that are kept are those without cascades. -/
theorem foldl_push (ds : List Diagnostic) : ds.foldl push [] = withoutCascades ds := by
  induction ds using List.reverseRecOn with
  | nil => rfl
  | append_singleton ds d ih =>
    rw [List.foldl_append, ih, withoutCascades_cons_behind, withoutRepeats, List.append_nil]
    change push (withoutCascades ds) d = _
    unfold push
    split <;> simp

end Diagnostic

open Cursor

namespace Parser

variable {α β σ : Type}

/-! ## Levels -/

/-- `P` with one level less than are left; without any level left it is too deep. -/
def guarded (P : Nat → Parser α) : Nat → Parser α
  | 0 => tooDeep
  | n + 1 => P n

theorem expression_eq : expression = guarded fun n => logical (expression n) := by
  funext n
  cases n <;> rfl

theorem statement_eq : statement = guarded fun n => located (do
    statementOf (statement n) (expression n) (← peekKind)) := by
  funext n
  cases n <;> rfl

/-! ## States -/

/-- How many tokens there are to read. -/
def keptCount (tokens : List Token) : Nat := (tokens.filter (·.kind.isKept)).length

structure State where
  /-- The number of tokens that were read. -/
  pos : Nat
  /-- The diagnostics that are kept. -/
  errors : List Diagnostic
  /-- The number of statements and expressions that are open. -/
  depth : Nat

namespace State

variable {tokens : List Token} {s s' s'' : State}

def cursor (tokens : List Token) (s : State) : Cursor := (ofTokens tokens).skip s.pos

/-- Reads one token, if there is one left. -/
def advance (tokens : List Token) (s : State) : State :=
  if s.pos < keptCount tokens then { s with pos := s.pos + 1 } else s

/-- Reads `n` tokens. -/
def skip (tokens : List Token) (s : State) : Nat → State
  | 0 => s
  | n + 1 => (s.advance tokens).skip tokens n

def report (s : State) (d : Diagnostic) : State := { s with errors := Diagnostic.push s.errors d }

def synchronize (tokens : List Token) (s : State) (point : SyncPoint) : State :=
  s.skip tokens (point.skip 0 (s.cursor tokens).rest)

/-- Reads a token if none was read since `start`. -/
def moveOn (tokens : List Token) (s : State) (start : Nat) : State :=
  if s.pos = start then s.advance tokens else s

def enter (s : State) : State := { s with depth := s.depth + 1 }

def leave (s : State) : State := { s with depth := s.depth - 1 }

/-- Neither the position nor the depth is out of range. -/
structure Sane (tokens : List Token) (s : State) : Prop where
  inside : s.pos ≤ keptCount tokens
  shallow : s.depth ≤ maxNesting

/-- From `s` to `s'` tokens are only read, and errors only added. -/
structure Grows (s s' : State) : Prop where
  forward : s.pos ≤ s'.pos
  errors : s.errors <+: s'.errors

theorem Grows.refl (s : State) : s.Grows s := ⟨Nat.le_refl _, List.prefix_rfl⟩

theorem Grows.trans (h : s.Grows s') (h' : s'.Grows s'') : s.Grows s'' :=
  ⟨Nat.le_trans h.forward h'.forward, h.errors.trans h'.errors⟩

theorem grows_enter (s : State) : s.Grows s.enter := ⟨Nat.le_refl _, List.prefix_rfl⟩

theorem grows_leave (s : State) : s.Grows s.leave := ⟨Nat.le_refl _, List.prefix_rfl⟩

theorem Sane.enter (h : s.Sane tokens) (free : s.depth < maxNesting) : s.enter.Sane tokens :=
  ⟨h.inside, free⟩

theorem Sane.leave (h : s.Sane tokens) : s.leave.Sane tokens :=
  ⟨h.inside, Nat.le_trans (Nat.sub_le s.depth 1) h.shallow⟩

theorem length_rest_cursor : (s.cursor tokens).rest.length = keptCount tokens - s.pos := by
  rw [cursor, skip_rest, List.length_drop]
  rfl

theorem cursor_advance : (s.advance tokens).cursor tokens = (s.cursor tokens).advance := by
  unfold State.advance
  split
  · exact skip_succ
  · next hend =>
    have hnil : (s.cursor tokens).rest = [] := by
      rw [← List.length_eq_zero_iff, length_rest_cursor]
      omega
    exact (advance_of_nil hnil).symm

theorem cursor_skip {n : Nat} :
    (s.skip tokens n).cursor tokens = (s.cursor tokens).skip n := by
  induction n generalizing s with
  | zero => rfl
  | succ n ih => rw [skip, ih, cursor_advance, Cursor.skip]

theorem errors_advance : (s.advance tokens).errors = s.errors := by
  unfold State.advance
  split <;> rfl

theorem errors_skip {n : Nat} : (s.skip tokens n).errors = s.errors := by
  induction n generalizing s with
  | zero => rfl
  | succ n ih => rw [skip, ih, errors_advance]

theorem errors_moveOn {start : Nat} : (s.moveOn tokens start).errors = s.errors := by
  unfold moveOn
  split
  · exact errors_advance
  · rfl

end State

/-! ## Runs -/

open State

inductive Exec (tokens : List Token) :
    {α : Type} → (Nat → Parser α) → State → List State → Except Diagnostic α → State → Prop where
  /-- Looks ahead, and reads some tokens or none. -/
  | move {α : Type} {s : State} (look : Cursor → α) (count : Cursor → Nat) :
      Exec tokens (fun _ c => .ok (look c) (c.skip (count c))) s
        [s.skip tokens (count (s.cursor tokens))] (.ok (look (s.cursor tokens)))
        (s.skip tokens (count (s.cursor tokens)))
  | giveUp {α : Type} {s : State} (d : Token → Diagnostic) :
      Exec tokens (fun _ c => .error (d c.peek) c : Nat → Parser α) s []
        (.error (d (s.cursor tokens).peek)) s
  | log {s : State} (d : Diagnostic) :
      Exec tokens (fun _ => log d) s [s.report d] (.ok ()) (s.report d)
  | bind {α β : Type} {P : Nat → Parser α} {F : Nat → α → Parser β} {s s₁ s₂ : State}
      {trace later : List State} {a : α} {o : Except Diagnostic β}
      (first : Exec tokens P s trace (.ok a) s₁)
      (rest : Exec tokens (fun n => F n a) s₁ later o s₂) :
      Exec tokens (fun n => P n >>= F n) s (trace ++ later) o s₂
  | bindError {α β : Type} {P : Nat → Parser α} {F : Nat → α → Parser β} {s s₁ : State}
      {trace : List State} {d : Diagnostic} (first : Exec tokens P s trace (.error d) s₁) :
      Exec tokens (fun n => P n >>= F n) s trace (.error d) s₁
  | map {α β : Type} {P : Nat → Parser α} {s s₁ : State} {trace : List State}
      {o : Except Diagnostic α} (g : α → β) (inner : Exec tokens P s trace o s₁) :
      Exec tokens (fun n c => (P n c).map g) s trace (o.map g) s₁
  | loopError {β σ : Type} {step : Nat → σ → Parser (Option (β × σ))} {x : σ} {s s₁ : State}
      {trace : List State} {d : Diagnostic}
      (round : Exec tokens (fun n => step n x) s trace (.error d) s₁) :
      Exec tokens (fun n => iterate (step n) x) s trace (.error d) s₁
  | loopStop {β σ : Type} {step : Nat → σ → Parser (Option (β × σ))} {x : σ} {s s₁ : State}
      {trace : List State} (round : Exec tokens (fun n => step n x) s trace (.ok none) s₁) :
      Exec tokens (fun n => iterate (step n) x) s trace (.ok ([], x)) s₁
  /-- A round that goes on has read something. -/
  | loopNext {β σ : Type} {step : Nat → σ → Parser (Option (β × σ))} {x x' : σ} {b : β}
      {s s₁ s₂ : State} {trace later : List State} {o : Except Diagnostic (List β × σ)}
      (round : Exec tokens (fun n => step n x) s trace (.ok (some (b, x'))) s₁)
      (progress : s.pos < s₁.pos)
      (rest : Exec tokens (fun n => iterate (step n) x') s₁ later o s₂) :
      Exec tokens (fun n => iterate (step n) x) s (trace ++ later) (o.map (Prod.map (b :: ·) id)) s₂
  | recoverOk {α : Type} {P : Nat → Parser α} {s s₁ : State} {trace : List State} {a : α}
      (point : SyncPoint) (inner : Exec tokens P s trace (.ok a) s₁) :
      Exec tokens (fun n => recover point (P n)) s trace (.ok (some a)) s₁
  | recoverError {α : Type} {P : Nat → Parser α} {s s₁ : State} {trace : List State}
      {d : Diagnostic} (point : SyncPoint) (inner : Exec tokens P s trace (.error d) s₁) :
      Exec tokens (fun n => recover point (P n)) s
        (trace ++ [s₁.report d, (s₁.report d).synchronize tokens point,
          ((s₁.report d).synchronize tokens point).moveOn tokens s.pos])
        (.ok none) (((s₁.report d).synchronize tokens point).moveOn tokens s.pos)
  | tooDeep {α : Type} {P : Nat → Parser α} {s : State} (full : maxNesting ≤ s.depth) :
      Exec tokens (guarded P) s [] (.error (.nestingTooDeep (s.cursor tokens).peek)) s
  | guarded {α : Type} {P : Nat → Parser α} {s s₁ : State} {trace : List State}
      {o : Except Diagnostic α} (free : s.depth < maxNesting)
      (inner : Exec tokens P s.enter trace o s₁) :
      Exec tokens (guarded P) s (s.enter :: trace ++ [s₁.leave]) o s₁.leave

/-! ## What runs keep -/

/-- What a run from `s` through `trace` to `s'` keeps. -/
structure Upkeep (tokens : List Token) (s : State) (trace : List State) (s' : State) : Prop where
  sane : s'.Sane tokens
  restored : s'.depth = s.depth
  grows : s.Grows s'
  between : ∀ t ∈ trace, t.Sane tokens ∧ s.Grows t ∧ t.Grows s'

section Upkeep

variable {tokens : List Token} {s s' s'' : State} {trace later : List State}

theorem Upkeep.refl (hs : s.Sane tokens) : Upkeep tokens s [] s :=
  ⟨hs, rfl, .refl s, by simp⟩

theorem Upkeep.trans (h : Upkeep tokens s trace s') (h' : Upkeep tokens s' later s'') :
    Upkeep tokens s (trace ++ later) s'' where
  sane := h'.sane
  restored := h'.restored.trans h.restored
  grows := h.grows.trans h'.grows
  between t ht := by
    rcases List.mem_append.mp ht with ht | ht
    · obtain ⟨hsane, hbefore, hbehind⟩ := h.between t ht
      exact ⟨hsane, hbefore, hbehind.trans h'.grows⟩
    · obtain ⟨hsane, hbefore, hbehind⟩ := h'.between t ht
      exact ⟨hsane, h.grows.trans hbefore, hbehind⟩

/-- A single change that leaves the depth as it is. -/
theorem Upkeep.step (hs : s.Sane tokens) (hinside : s'.pos ≤ keptCount tokens)
    (hdepth : s'.depth = s.depth) (hgrows : s.Grows s') : Upkeep tokens s [s'] s' where
  sane := ⟨hinside, hdepth ▸ hs.shallow⟩
  restored := hdepth
  grows := hgrows
  between t ht := by
    obtain rfl := List.mem_singleton.mp ht
    exact ⟨⟨hinside, hdepth ▸ hs.shallow⟩, hgrows, .refl _⟩

theorem upkeep_advance (hs : s.Sane tokens) :
    Upkeep tokens s [s.advance tokens] (s.advance tokens) := by
  have hinside := hs.inside
  unfold State.advance
  split
  · next hlt => exact .step hs hlt rfl ⟨Nat.le_succ _, List.prefix_rfl⟩
  · exact .step hs hinside rfl (.refl s)

/-- The states between the first and the last can be left out. -/
theorem Upkeep.last (h : Upkeep tokens s trace s') (hs : s.Sane tokens) :
    Upkeep tokens s [s'] s' :=
  .step hs h.sane.inside h.restored h.grows

theorem upkeep_skip {n : Nat} (hs : s.Sane tokens) :
    Upkeep tokens s [s.skip tokens n] (s.skip tokens n) := by
  induction n generalizing s with
  | zero => exact .step hs hs.inside rfl (.refl s)
  | succ n ih =>
    have hadvance := upkeep_advance hs
    exact (hadvance.trans (ih hadvance.sane)).last hs

theorem upkeep_report {d : Diagnostic} (hs : s.Sane tokens) :
    Upkeep tokens s [s.report d] (s.report d) :=
  .step hs hs.inside rfl ⟨Nat.le_refl _, Diagnostic.prefix_push _ _⟩

theorem upkeep_moveOn {start : Nat} (hs : s.Sane tokens) :
    Upkeep tokens s [s.moveOn tokens start] (s.moveOn tokens start) := by
  unfold State.moveOn
  split
  · exact upkeep_advance hs
  · exact .step hs hs.inside rfl (.refl s)

/-- Reporting an error, skipping and moving on. -/
theorem upkeep_resume {d : Diagnostic} {point : SyncPoint} {start : Nat} (hs : s.Sane tokens) :
    Upkeep tokens s [s.report d, (s.report d).synchronize tokens point,
        ((s.report d).synchronize tokens point).moveOn tokens start]
      (((s.report d).synchronize tokens point).moveOn tokens start) := by
  have hreport := upkeep_report (d := d) hs
  have hskip : Upkeep tokens _ [_] ((s.report d).synchronize tokens point) :=
    upkeep_skip hreport.sane
  exact hreport.trans (hskip.trans (upkeep_moveOn hskip.sane))

/-- Counting up and down again leaves the depth as it was. -/
theorem Upkeep.guarded (h : Upkeep tokens s.enter trace s') (hs : s.Sane tokens)
    (hfree : s.depth < maxNesting) :
    Upkeep tokens s (s.enter :: trace ++ [s'.leave]) s'.leave where
  sane := h.sane.leave
  restored := by
    change s'.depth - 1 = s.depth
    rw [h.restored]
    rfl
  grows := (grows_enter s).trans (h.grows.trans (grows_leave s'))
  between t ht := by
    simp only [List.cons_append, List.mem_cons, List.mem_append, List.not_mem_nil, or_false] at ht
    rcases ht with rfl | ht | rfl
    · exact ⟨hs.enter hfree, grows_enter s, h.grows.trans (grows_leave s')⟩
    · obtain ⟨hsane, hbefore, hbehind⟩ := h.between t ht
      exact ⟨hsane, (grows_enter s).trans hbefore, hbehind.trans (grows_leave s')⟩
    · exact ⟨h.sane.leave, (grows_enter s).trans (h.grows.trans (grows_leave s')), .refl _⟩

theorem Exec.upkeep {P : Nat → Parser α} {o : Except Diagnostic α}
    (h : Exec tokens P s trace o s') (hs : s.Sane tokens) : Upkeep tokens s trace s' := by
  induction h with
  | move => exact upkeep_skip hs
  | giveUp => exact .refl hs
  | log => exact upkeep_report hs
  | bind _ _ ih ih' => exact (ih hs).trans (ih' (ih hs).sane)
  | bindError _ ih => exact ih hs
  | map _ _ ih => exact ih hs
  | loopError _ ih => exact ih hs
  | loopStop _ ih => exact ih hs
  | loopNext _ _ _ ih ih' => exact (ih hs).trans (ih' (ih hs).sane)
  | recoverOk _ _ ih => exact ih hs
  | recoverError point _ ih => exact (ih hs).trans (upkeep_resume (ih hs).sane)
  | tooDeep => exact .refl hs
  | guarded free _ ih => exact (ih (hs.enter free)).guarded hs free

end Upkeep

/-! ## What runs reply -/

section Reply

variable {tokens : List Token} {s s' : State} {trace : List State}

/-- From `s` to `s'` the parser replies `o`, with the errors that `s'` has more than `s`. -/
def Replies (tokens : List Token) (P : Nat → Parser α) (s : State) (o : Except Diagnostic α)
    (s' : State) : Prop :=
  ∃ reports, P (maxNesting - s.depth) (s.cursor tokens) = ⟨o, reports, s'.cursor tokens⟩ ∧
    s'.errors = reports.foldl Diagnostic.push s.errors

theorem Replies.recoverError {P : Nat → Parser α} {d : Diagnostic} {point : SyncPoint}
    (h : Replies tokens P s (.error d) s') (hs : s.Sane tokens) (hs' : s'.Sane tokens) :
    Replies tokens (fun n => recover point (P n)) s (.ok none)
      (((s'.report d).synchronize tokens point).moveOn tokens s.pos) := by
  obtain ⟨reports, hp, herrors⟩ := h
  have hskip : ((s'.report d).synchronize tokens point).cursor tokens =
      (s'.cursor tokens).synchronize point := cursor_skip
  have hkept : ((s'.report d).synchronize tokens point).errors = (s'.report d).errors := errors_skip
  have hkeep : Upkeep tokens (s'.report d) _ ((s'.report d).synchronize tokens point) :=
    upkeep_skip (upkeep_report hs').sane
  generalize (s'.report d).synchronize tokens point = s₂ at hskip hkept hkeep ⊢
  have hlen : ((s'.cursor tokens).synchronize point).rest.length = (s.cursor tokens).rest.length ↔
      s₂.pos = s.pos := by
    have := hs.inside
    have := hkeep.sane.inside
    rw [← hskip, length_rest_cursor, length_rest_cursor]
    omega
  refine ⟨reports ++ [d], ?_, ?_⟩
  · change recover point (P (maxNesting - s.depth)) (s.cursor tokens) = _
    rw [recover, hp]
    by_cases hstill : s₂.pos = s.pos
    · simp only [hlen, hstill, ↓reduceIte, State.moveOn, cursor_advance, hskip]
    · simp only [hlen, hstill, ↓reduceIte, State.moveOn, hskip]
  · rw [errors_moveOn, hkept, List.foldl_append, ← herrors]
    rfl

theorem Exec.reply {P : Nat → Parser α} {o : Except Diagnostic α}
    (h : Exec tokens P s trace o s') (hs : s.Sane tokens) : Replies tokens P s o s' := by
  induction h with
  | move look count => exact ⟨[], by rw [cursor_skip]; rfl, errors_skip⟩
  | giveUp d => exact ⟨[], rfl, rfl⟩
  | log d => exact ⟨[d], rfl, rfl⟩
  | bind first rest ih ih' =>
    have hkeep := first.upkeep hs
    obtain ⟨reports, hp, herrors⟩ := ih hs
    obtain ⟨own, hf, herrors'⟩ := ih' hkeep.sane
    rw [hkeep.restored] at hf
    refine ⟨reports ++ own, (bind_of_ok hp).trans ?_, ?_⟩
    · exact congrArg (Reply.after reports) hf
    · rw [herrors', herrors, List.foldl_append]
  | bindError first ih =>
    obtain ⟨reports, hp, herrors⟩ := ih hs
    exact ⟨reports, bind_of_error hp, herrors⟩
  | map g inner ih =>
    obtain ⟨reports, hp, herrors⟩ := ih hs
    exact ⟨reports, congrArg (Reply.map g) hp, herrors⟩
  | loopError round ih =>
    obtain ⟨reports, hp, herrors⟩ := ih hs
    exact ⟨reports, iterate_error hp, herrors⟩
  | loopStop round ih =>
    obtain ⟨reports, hp, herrors⟩ := ih hs
    exact ⟨reports, iterate_stop hp, herrors⟩
  | @loopNext _ _ _ _ _ _ s s₁ _ _ _ _ round progress rest ih ih' =>
    have hkeep := round.upkeep hs
    obtain ⟨reports, hp, herrors⟩ := ih hs
    obtain ⟨own, hf, herrors'⟩ := ih' hkeep.sane
    rw [hkeep.restored] at hf
    have hlt : (s₁.cursor tokens).rest.length < (s.cursor tokens).rest.length := by
      have := hkeep.sane.inside
      rw [length_rest_cursor, length_rest_cursor]
      omega
    refine ⟨reports ++ own, (iterate_next hp hlt).trans ?_, ?_⟩
    · exact congrArg (fun r => (Reply.map _ r).after reports) hf
    · rw [herrors', herrors, List.foldl_append]
  | recoverOk point inner ih =>
    obtain ⟨reports, hp, herrors⟩ := ih hs
    refine ⟨reports, ?_, herrors⟩
    change recover point _ _ = _
    rw [recover, hp]
  | recoverError point inner ih => exact (ih hs).recoverError hs (inner.upkeep hs).sane
  | tooDeep full =>
    refine ⟨[], ?_, rfl⟩
    rw [Nat.sub_eq_zero_of_le full]
    rfl
  | @guarded _ _ s _ _ _ free inner ih =>
    obtain ⟨reports, hp, herrors⟩ := ih (hs.enter free)
    refine ⟨reports, ?_, herrors⟩
    have hlevel : maxNesting - s.depth = maxNesting - s.enter.depth + 1 := by
      change maxNesting - s.depth = maxNesting - (s.depth + 1) + 1
      omega
    rw [hlevel]
    exact hp

end Reply

end Parser

end JavaSubset
