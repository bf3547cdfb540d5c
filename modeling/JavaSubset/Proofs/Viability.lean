import JavaSubset.Proofs.Frames

/-!
# Beginnings

* `Begins L us` : the tokens `us` are the beginning of a phrase of `L`. What begins a part begins
  the whole, if what stands before the part belongs there and something fits behind it
  (`Begins.inside`);
* `Viable us` : the tokens `us` are the beginning of a compilation unit, however deep it nests.

`sample` makes tokens to complete a beginning with.
-/

namespace JavaSubset.Grammar

variable {α β : Type} {L : Phrase α} {M : Phrase β} {us vs : List Token} {a : α}

/-- The tokens `us` are the beginning of a phrase. -/
def Begins (L : Phrase α) (us : List Token) : Prop := ∃ vs a, L (us ++ vs) a

theorem begins_of_start (h : L vs a) (hstart : us <+: vs) : Begins L us := by
  obtain ⟨ws, rfl⟩ := hstart
  exact ⟨ws, a, h⟩

theorem begins_nil (h : L us a) : Begins L [] := begins_of_start h List.nil_prefix

theorem Begins.of (h : L us a) : Begins L us := begins_of_start h List.prefix_rfl

theorem Begins.shorter (h : Begins L (us ++ vs)) : Begins L us := by
  obtain ⟨ws, a, h⟩ := h
  exact begins_of_start h (by simp)

/-- A part of the whole begins with `us`, where the whole begins with `ws`. With `rs` behind the
part the whole is complete. -/
theorem Begins.inside {ws : List Token} (h : Begins L us) (rs : List Token)
    (whole : ∀ {vs a}, L (us ++ vs) a → ∃ b, M (ws ++ (vs ++ rs)) b) : Begins M ws := by
  obtain ⟨vs, a, h⟩ := h
  obtain ⟨b, hb⟩ := whole h
  exact ⟨vs ++ rs, b, hb⟩

/-- A part that is a whole. -/
theorem Begins.imp (h : Begins L us) (whole : ∀ {vs a}, L vs a → ∃ b, M vs b) :
    Begins M us := by
  obtain ⟨vs, a, h⟩ := h
  obtain ⟨b, hb⟩ := whole h
  exact ⟨vs, b, hb⟩

/-! ## Completions -/

/-- A token of a given kind. -/
def sample (kind : Token.Kind) : Token := ⟨kind, "", none, ⟨⟨0, 0⟩, 1⟩⟩

@[simp] theorem sample_kind (kind : Token.Kind) : (sample kind).kind = kind := rfl

theorem Expression.name {x : Token} (name : x.kind = .identifier) (n : Nat) :
    Expression (n + 1) [x] (.ident () x.text) :=
  (Postfix.of_primary (.ident name)).expression

/-- A field of what any operand stands for can be assigned to. -/
theorem Postfix.field {expr : Phrase (Expr Unit)} {e : Expr Unit} {d x : Token}
    (h : Postfix expr us e) (dot : Mark .dot d) (name : x.kind = .identifier) :
    Postfix expr (us ++ [d, x]) (.field () e x.text) := by
  obtain ⟨head, selections⟩ := h
  simpa using Postfix.mk head (selections.snoc (.field dot name))

theorem Statement.semicolon {t : Token} (semicolon : Mark .semicolon t) (n : Nat) :
    Statement (n + 1) [t] (.empty ()) :=
  .empty semicolon

/-- Targets with a value behind them are an expression statement. -/
theorem Targets.exprStatement {n : Nat} {ts ws : List Token} {e : Expr Unit} (h : Targets n ts)
    (hws : Expression n ws e) : ∃ e, ExprStatement n (ts ++ ws) e := by
  have hvalue : ∃ e, Assignment n (ts ++ ws) e ∨ Expression n (ts ++ ws) e := by
    have hlast : ∃ e, Assignment n ws e ∨ Expression n ws e := ⟨e, .inr hws⟩
    clear hws
    induction h generalizing ws with
    | none => exact hlast
    | @more us vs t e op left target operator ih =>
      have hnext : ∃ e, Assignment n (vs ++ t :: ws) e ∨ Expression n (vs ++ t :: ws) e := by
        obtain ⟨e, hmore | hlast⟩ := hlast
        · exact ⟨_, .inl (.more target operator hmore)⟩
        · exact ⟨_, .inl (.last target operator hlast)⟩
      simpa using ih hnext
  obtain ⟨e, hassignment | hplain⟩ := hvalue
  · exact ⟨e, .assignment hassignment⟩
  · exact ⟨e, .plain hplain⟩

theorem Modifiers.none (allowed : Modifier → Bool) : Modifiers allowed [] (.ofList []) :=
  .mk rfl .nil (by simp)

theorem begins_class (n : Nat) : Begins (ClassDeclaration n) [] :=
  begins_nil (.mk (.none _) (sample_kind _) (sample_kind _) (sample_kind _) .nil (sample_kind _))

/-! ## The compilation unit -/

/-- The beginnings of compilation units, without a limit on nesting. -/
def Viable (us : List Token) : Prop := ∃ n, Begins (CompilationUnit n) us

end JavaSubset.Grammar
