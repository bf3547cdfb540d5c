import JavaSubset.Proofs.Anchors
import JavaSubset.Proofs.Outcomes
import JavaSubset.Proofs.Stretches
import JavaSubset.Proofs.Termination

/-!
# The spans of a tree

`Parser.Spreads held before p c` : what `p` gives from `c` holds the nodes `before` and, behind
them, nodes that lie over the tokens that `p` reads. Two kinds of productions have short forms:

* `Parser.Bears nodes p c` : the value has these nodes and no others;
* `Parser.Frames mk p c` : the value still waits for its location; with it, `mk` makes a node around
  what was read.

All productions spread. The class that is found lies over tokens of the source, also after errors,
and the spans of its nodes form a proper tree (`parse_lex_proper`).
-/

namespace JavaSubset

open Cursor

@[simp] theorem Expr.note_withNote {ι : Type} (note : ι) (e : Expr ι) :
    (e.withNote note).note = note := by
  cases e <;> rfl

@[simp] theorem Expr.children_withNote {ι : Type} (note : ι) (e : Expr ι) :
    (e.withNote note).children = e.children := by
  cases e <;> rfl

namespace Parser

variable {α β : Type} {p : Parser α} {f : α → Parser β} {c : Cursor}
  {nodes : α → List (Node Location)}
  {held : β → List (Node Location) → Prop} {before : List (Node Location)} {demand : Demand}

def Spreads (held : α → List (Node Location) → Prop) (before : List (Node Location))
    (p : Parser α) (c : Cursor) : Prop :=
  Laid c.rest →
    Ensures (fun a c' => ∃ us ns, Reads c us c' ∧ Parts us ns ∧ held a (before ++ ns)) p c

abbrev Bears (nodes : α → List (Node Location)) (p : Parser α) (c : Cursor) : Prop :=
  Spreads (fun a ns => nodes a = ns) [] p c

/-- Wherever it starts and ends, `mk` makes a node of it that has these children. -/
def Framed (mk : α → Node Location) (node : Location → α) (ns : List (Node Location)) : Prop :=
  ∀ loc, (mk (node loc)).note = loc ∧ (mk (node loc)).children = ns

abbrev Frames (mk : α → Node Location) (p : Parser (Location → α)) (c : Cursor) : Prop :=
  Spreads (Framed mk) [] p c

/-! ## Sequences -/

theorem Bears.ensures (h : Bears nodes p c) (hlaid : Laid c.rest) :
    Ensures (fun a c' => ∃ us, Reads c us c' ∧ Parts us (nodes a)) p c :=
  (h hlaid).imp fun _ _ ⟨us, _, hreads, hparts, hnodes⟩ => ⟨us, hreads, hnodes ▸ hparts⟩

theorem bears_of_ensures
    (h : Laid c.rest → Ensures (fun a c' => ∃ us, Reads c us c' ∧ Parts us (nodes a)) p c) :
    Bears nodes p c :=
  fun hlaid => (h hlaid).imp fun _ _ ⟨us, hreads, hparts⟩ => ⟨us, _, hreads, hparts, rfl⟩

namespace Spreads

theorem pure {b : β} (h : held b before) : Spreads held before (Pure.pure b) c :=
  fun _ => .pure ⟨[], [], .nil c, .nil [], by rwa [List.append_nil]⟩

theorem fail : Spreads held before (fail demand) c := fun _ => .fail

theorem tooDeep : Spreads held before (tooDeep : Parser β) c := fun _ => .tooDeep

theorem bind (h : Bears nodes p c) (rest : ∀ a c', Spreads held (before ++ nodes a) (f a) c') :
    Spreads held before (p >>= f) c := by
  intro hlaid
  refine (h.ensures hlaid).bind fun a c₁ ⟨us, hreads, hparts⟩ => ?_
  refine (rest a c₁ (hlaid.after hreads)).imp fun b c₂ ⟨vs, ns, hreads', hparts', hheld⟩ => ?_
  refine ⟨us ++ vs, nodes a ++ ns, hreads.trans hreads', hparts.append hparts', ?_⟩
  rwa [← List.append_assoc]

/-- What has no nodes only reads. -/
theorem skip (h : Orderly false [] p c) (rest : ∀ a c', Spreads held before (f a) c') :
    Spreads held before (p >>= f) c := by
  have hbears : Bears (fun _ => []) p c := bears_of_ensures fun _ =>
    h.forward.imp fun _ _ ⟨us, hreads⟩ => ⟨us, hreads, .nil us⟩
  refine bind hbears fun a c' => ?_
  rw [List.append_nil]
  exact rest a c'

theorem peekKind_bind {f : Token.Kind → Parser β} (h : Spreads held before (f c.peek.kind) c) :
    Spreads held before (peekKind >>= f) c := h

theorem sees_bind {f : Bool → Parser β} {kind : Token.Kind}
    (h : Spreads held before (f (c.peek.kind = kind)) c) :
    Spreads held before (sees kind >>= f) c := h

end Spreads

namespace Bears

theorem imp {nodes' : α → List (Node Location)} (h : Bears nodes p c)
    (himp : ∀ a us, Parts us (nodes a) → Parts us (nodes' a)) : Bears nodes' p c :=
  bears_of_ensures fun hlaid =>
    (h.ensures hlaid).imp fun a _ ⟨us, hreads, hparts⟩ => ⟨us, hreads, himp a us hparts⟩

theorem map_bind {g : α → β} {nodes : β → List (Node Location)}
    (h : Bears (fun a => nodes (g a)) p c) : Bears nodes (p >>= fun a => Pure.pure (g a)) c :=
  bears_of_ensures fun hlaid => .map_bind (h.ensures hlaid)

/-- A production that has read something puts a node around its parts. -/
theorem located {mk : α → Node Location} {p : Parser (Location → α)} (h : Frames mk p c)
    (hreads : Advances (fun _ => True) (located p) c) : Bears (fun a => [mk a]) (located p) c := by
  refine bears_of_ensures fun hlaid => ?_
  have hnode : Ensures (fun a c' => ∃ us, Reads c us c' ∧ Parts us (mk a).children ∧
      (mk a).note = c'.locationFrom c.peek) (Parser.located p) c := by
    refine .located ((h hlaid).imp fun node c' ⟨us, ns, hus, hparts, hframed⟩ => ?_)
    obtain ⟨hnote, hchildren⟩ := hframed (c'.locationFrom c.peek)
    exact ⟨us, hus, hchildren ▸ hparts, hnote⟩
  intro a reports c' hp
  obtain ⟨us, hus, hparts, hnote⟩ := hnode a reports c' hp
  have hne : us ≠ [] := by
    rintro rfl
    have hless := hreads.progress hp trivial
    rw [hus.of_nil] at hless
    exact Nat.lt_irrefl _ hless
  exact ⟨us, hus, hparts.around hlaid hus hne hnote⟩

/-! ## Repetition -/

theorem many {step : Parser (Option α)}
    (h : ∀ c, Bears (fun o => o.toList.flatMap nodes) step c) :
    Bears (fun as => as.flatMap nodes) (many step) c := by
  refine bears_of_ensures fun hlaid => ?_
  refine (Ensures.many (P := fun c as c' => Laid c.rest →
    ∃ us, Reads c us c' ∧ Parts us (as.flatMap nodes)) (fun c _ => ⟨[], .nil c, .nil []⟩)
    fun c => ?_).imp fun _ _ hmany => hmany hlaid
  intro o reports c₁ hstep
  cases o with
  | none =>
    intro hlaid
    obtain ⟨us, hreads, -⟩ := (h c).ensures hlaid _ _ _ hstep
    exact ⟨us, hreads, .nil us⟩
  | some a =>
    intro as c' hrest hlaid
    obtain ⟨us, hreads, hparts⟩ := (h c).ensures hlaid _ _ _ hstep
    obtain ⟨vs, hreads', hparts'⟩ := hrest (hlaid.after hreads)
    rw [Option.toList_some, List.flatMap_singleton] at hparts
    exact ⟨us ++ vs, hreads.trans hreads', hparts.append hparts'⟩

/-- An item behind a token of its own. -/
theorem behind {kind : Token.Kind} (h : ∀ c, Bears nodes p c) :
    Bears (fun o => o.toList.flatMap nodes) (do
      if ← accept kind then return some (← p) else return none) c := by
  refine .skip .accept fun found c' => ?_
  split
  · exact map_bind ((h c').imp fun _ _ hparts => by simpa using hparts)
  · exact .pure rfl

theorem separated (h : ∀ c, Bears nodes p c) :
    Bears (fun as => as.flatMap nodes) (separated p) c := by
  refine .bind (h c) fun first _ => ?_
  exact .bind (many fun _ => behind h) fun more _ => .pure rfl

/-! ## Recovery -/

theorem recover {point : SyncPoint} (h : Bears nodes p c) (hp : Orderly false [] p c) :
    Bears (fun o => o.toList.flatMap nodes) (recover point p) c := by
  refine bears_of_ensures fun hlaid o reports c' hrecover => ?_
  obtain ⟨us, hreads⟩ := hp.recover.forward _ _ _ hrecover
  unfold Parser.recover at hrecover
  rcases hresult : p c with ⟨⟨e⟩ | ⟨a⟩, own, c₁⟩
  · rw [hresult] at hrecover
    cases hrecover
    exact ⟨us, hreads, .nil us⟩
  · rw [hresult] at hrecover
    cases hrecover
    simpa using h.ensures hlaid _ _ _ hresult

theorem bodyOf {point : SyncPoint} (h : ∀ c, Bears nodes p c) (hp : ∀ c, Orderly false [] p c) :
    Bears (fun as => as.flatMap nodes) (bodyOf point p) c := by
  have hitems : ∀ items : List (Option α),
      (items.filterMap id).flatMap nodes = items.flatMap fun o => o.toList.flatMap nodes := by
    intro items
    induction items with
    | nil => rfl
    | cons o items ih => cases o <;> simpa using ih
  have hitem : ∀ c, Bears (fun o => o.toList.flatMap fun o : Option α => o.toList.flatMap nodes)
      (bodyItem point p) c := by
    intro c
    refine .skip (.still rfl) fun _ _ => .skip (.still rfl) fun _ c' => ?_
    split
    · exact .pure rfl
    · exact map_bind (((h c').recover (hp c')).imp fun _ _ hparts => by simpa using hparts)
  exact map_bind ((many hitem).imp fun items _ hparts => by rwa [hitems])

end Bears

/-! ## Expressions -/

/-- One expression, as a list of nodes. -/
abbrev exprNode (e : Expr Location) : List (Node Location) := [.expr e]

section Expressions

variable {expr operand : Parser (Expr Location)} {tier : Tier}

theorem flatMap_exprNode (es : List (Expr Location)) : es.flatMap exprNode = es.map .expr :=
  (List.map_eq_flatMap ..).symm

section

variable (hexpr : ∀ c, Bears exprNode expr c)

include hexpr

theorem arguments_bears : Bears (fun args => args.map .expr) (arguments expr demand) c := by
  have hend : ∀ (args : List (Expr Location)) (c : Cursor),
      Spreads (fun args ns => args.map .expr = ns) (args.map .expr) (do
        let _ ← expect .argumentsEnd
        return args) c :=
    fun _ _ => .skip .expect fun _ _ => .pure rfl
  refine .skip .expect fun _ _ => .sees_bind ?_
  split
  · exact hend [] _
  · refine .bind (.separated hexpr) fun args c' => ?_
    rw [List.nil_append, flatMap_exprNode]
    exact hend args c'

/-- Parentheses widen the location of what they hold. -/
theorem primary_bears (hwalks : ∀ seen c, Walks false true seen expr c) :
    Bears exprNode (primary expr) c := by
  refine .located (.peekKind_bind ?_) (primary_walks hwalks).advances
  split
  · refine .skip .advance fun _ _ => .sees_bind ?_
    split
    · exact .bind (arguments_bears hexpr) fun _ _ => .pure fun _ => ⟨rfl, rfl⟩
    · exact .pure fun _ => ⟨rfl, rfl⟩
  · exact .skip .advance fun _ _ => .pure fun _ => ⟨rfl, rfl⟩
  · exact .skip .advance fun _ _ => .pure fun _ => ⟨rfl, rfl⟩
  · exact .skip .advance fun _ _ => .pure fun _ => ⟨rfl, rfl⟩
  · refine .skip .advance fun _ _ => .skip .expect fun _ _ => .skip .name fun method _ => ?_
    exact .bind (arguments_bears hexpr) fun args _ => .pure fun _ => ⟨rfl, rfl⟩
  · refine .skip .advance fun _ _ => .skip .name fun className _ => ?_
    exact .bind (arguments_bears hexpr) fun args _ => .pure fun _ => ⟨rfl, rfl⟩
  · have hinner : ∀ c, Bears (fun e => (Node.expr e).children) expr c :=
      fun c => (hexpr c).imp fun _ _ hparts => hparts.children
    refine .skip .advance fun _ _ => .bind (hinner _) fun inner _ => ?_
    refine .skip .expect fun _ _ => .pure fun loc => ⟨inner.note_withNote loc, ?_⟩
    simp [Node.children]
  · exact .fail

/-- With any target, a selector makes a node that reaches back to the token `start`. -/
theorem selector_spreads {start : Token} (hlaid : Laid c.rest) :
    Ensures (fun o c' => ∃ us, Reads c us c' ∧ ∀ sel ∈ o, ∃ ns, Parts us ns ∧ ∀ target,
      (Selector.apply target sel).note = c'.locationFrom start ∧
        (Node.expr (Selector.apply target sel)).children = .expr target :: ns)
      (selector expr start) c := by
  refine Orderly.accept.forward.bind fun found c₁ ⟨us, hus⟩ => ?_
  split
  · refine Orderly.name.forward.bind fun property c₂ ⟨vs, hvs⟩ => .sees_bind ?_
    have hlaid' := hlaid.after (hus.trans hvs)
    split
    · refine ((arguments_bears hexpr).ensures hlaid').bind fun args c₃ ⟨ws, hws, hparts⟩ => ?_
      refine .locationFrom_bind (.pure ⟨us ++ vs ++ ws, (hus.trans hvs).trans hws, ?_⟩)
      rintro sel ⟨⟩
      exact ⟨_, .skip _ hparts, fun _ => ⟨rfl, rfl⟩⟩
    · refine .locationFrom_bind (.pure ⟨us ++ vs, hus.trans hvs, ?_⟩)
      rintro sel ⟨⟩
      exact ⟨[], .nil _, fun _ => ⟨rfl, rfl⟩⟩
  · exact .pure ⟨us, hus, by simp⟩

theorem selection_bears (hwalks : ∀ seen c, Walks false true seen expr c) :
    Bears exprNode (selection expr) c := by
  refine bears_of_ensures fun hlaid => .peek_bind ?_
  refine ((primary_bears hexpr hwalks).ensures hlaid).bind fun target c₁ ⟨us, hus, htarget⟩ => ?_
  -- whatever has been read from `c` on belongs to the target of the selectors to come
  refine .map_bind ((Ensures.many (P := fun c₁ sels c' => ∀ us target, Reads c us c₁ →
    Parts us [.expr target] → ∃ vs, Reads c vs c' ∧
      Parts vs [.expr (sels.foldl Selector.apply target)]) ?_ ?_).imp
    fun _ _ hloop => hloop us target hus htarget)
  · exact fun _ us _ hus htarget => ⟨us, hus, htarget⟩
  intro c₁ o reports c₂ hstep
  have hround : ∀ us, Reads c us c₁ → _ := fun us hus =>
    selector_spreads hexpr (hlaid.after hus) o reports c₂ hstep
  cases o with
  | none =>
    intro us target hus htarget
    obtain ⟨vs, hvs, -⟩ := hround us hus
    have hparts := htarget.append (.nil vs)
    exact ⟨us ++ vs, hus.trans hvs, hparts⟩
  | some sel =>
    intro sels c' hrest us target hus htarget
    obtain ⟨vs, hvs, hsel⟩ := hround us hus
    obtain ⟨ns, hargs, happly⟩ := hsel sel rfl
    obtain ⟨hnote, hchildren⟩ := happly target
    have hread := hus.trans hvs
    have hparts : Parts (us ++ vs) (Node.expr (Selector.apply target sel)).children := by
      rw [hchildren]
      exact htarget.append hargs
    have hne : us ++ vs ≠ [] := by simp [htarget.ne_nil]
    exact hrest _ _ hread (hparts.around hlaid hread hne hnote)

theorem unary_bears (hwalks : ∀ seen c, Walks false true seen expr c) :
    Bears exprNode (unary expr) c := by
  refine .peekKind_bind ?_
  split
  · exact selection_bears hexpr hwalks
  · next op hop =>
    have hreads : Walks false true [] (located do
        let _ ← advance
        let operand ← selection expr
        return ((Expr.unary · op operand) : Location → Expr Location)) c :=
      .located (.advance_bind (sign?_eq_some hop) (selection_walks hwalks).last)
    refine Bears.located (.skip .advance fun _ _ => ?_) hreads.advances
    exact .bind (selection_bears hexpr hwalks) fun operand _ => .pure fun _ => ⟨rfl, rfl⟩

end

theorem chain_bears (h : ∀ c, Bears exprNode operand c) : Bears exprNode (chain tier operand) c := by
  refine bears_of_ensures fun hlaid => ?_
  refine ((h c).ensures hlaid).bind fun first c₁ ⟨us, hus, hfirst⟩ => ?_
  -- whatever has been read from `c` on belongs to the left operand of the links to come
  refine .map_bind ((Ensures.many (P := fun c₁ links c' => ∀ us left, Reads c us c₁ →
    Parts us [.expr left] → ∃ vs, Reads c vs c' ∧ Parts vs [.expr (links.foldl join left)]) ?_
    ?_).imp fun _ _ hloop => hloop us first hus hfirst)
  · exact fun _ us _ hus hleft => ⟨us, hus, hleft⟩
  intro c₁
  refine .peekKind_bind ?_
  split
  · exact .pure fun us _ hus hleft => ⟨us, hus, hleft⟩
  · next op hop =>
    refine Orderly.advance.forward.bind fun _ c₂ ⟨vs, hvs⟩ => .map_bind fun e reports c₃ hright => ?_
    intro links c' hrest us left hus hleft
    have hus' := hus.trans hvs
    obtain ⟨ws, hws, hparts⟩ := (h c₂).ensures (hlaid.after hus') _ _ _ hright
    have hread := hus.trans (hvs.trans hws)
    exact hrest _ _ hread (hleft.merge (.skip vs hparts) (hlaid.read hread) rfl rfl)

theorem expression_bears (n : Nat) (c : Cursor) : Bears exprNode (expression n) c := by
  induction n generalizing c with
  | zero => exact .tooDeep
  | succ n ih =>
    have hunary : ∀ c, Bears exprNode (unary (expression n)) c :=
      fun _ => unary_bears ih fun _ _ => expression_walks n
    have hmultiplicative : ∀ c, Bears exprNode (multiplicative (expression n)) c :=
      fun _ => chain_bears hunary
    have hadditive : ∀ c, Bears exprNode (additive (expression n)) c :=
      fun _ => chain_bears hmultiplicative
    have hrelational : ∀ c, Bears exprNode (relational (expression n)) c :=
      fun _ => chain_bears hadditive
    exact chain_bears hrelational

end Expressions

/-! ## Expression statements -/

section Effects

variable {expr : Parser (Expr Location)} {e : Expr Location} {t : Token}

theorem checkTarget_stays : Ensures (fun _ c' => c' = c) (checkTarget e t) c := by
  unfold checkTarget
  split
  · exact .pure rfl
  · rintro _ _ _ ⟨⟩
    rfl

variable (hexpr : ∀ c, Bears exprNode expr c)

include hexpr

theorem initializer_bears : Bears (fun init => init.toList.map .expr) (initializer expr) c :=
  (Bears.behind hexpr).imp fun init _ hparts => by rwa [flatMap_exprNode] at hparts

theorem declarator_bears : Bears Declarator.nodes (declarator expr demand) c := by
  refine .skip .name fun name _ => ?_
  exact .bind (initializer_bears hexpr) fun init _ => .pure rfl

theorem assignment_spreads (hlaid : Laid c.rest) :
    Ensures (fun o c' => ∃ us, Reads c us c' ∧ ∀ x ∈ o, x.1.1 = e ∧ Parts us [.expr x.2])
      (assignment expr e) c := by
  refine .peekKind_bind ?_
  split
  · exact .pure ⟨[], .nil c, by simp⟩
  · refine Orderly.advance.forward.bind fun op c₁ ⟨us, hus⟩ => ?_
    refine checkTarget_stays.bind fun _ c₂ hstays => ?_
    subst hstays
    refine .map_bind (((hexpr c₂).ensures (hlaid.after hus)).imp fun value c₃ ⟨vs, hvs, hparts⟩ => ?_)
    refine ⟨us ++ vs, hus.trans hvs, ?_⟩
    rintro x ⟨⟩
    exact ⟨rfl, .skip us hparts⟩

/-- Whatever was read for the target stands in front of what the assignments read. -/
theorem assignments_spread {us : List Token} (hlaid : Laid (us ++ c.rest))
    (htarget : Parts us [.expr e]) :
    Ensures (fun e' c' => ∃ vs, Reads c vs c' ∧ Parts (us ++ vs) [.expr e'])
      (assignments expr e) c := by
  refine .map ((Ensures.iterate (P := fun s c links s' c' => ∀ us, Laid (us ++ c.rest) →
    Parts us [.expr s] → ∃ vs, Reads c vs c' ∧ Parts (us ++ vs) [.expr (links.foldr store s')])
    ?_ ?_).imp fun _ _ hloop => hloop us hlaid htarget)
  · exact fun s c us _ htarget => ⟨[], .nil c, by simpa using htarget⟩
  intro s c o reports c₁ hstep
  have hround := fun us (hlaid : Laid (us ++ c.rest)) =>
    assignment_spreads hexpr (hlaid.sublist (List.sublist_append_right us _)) o reports c₁ hstep
  cases o with
  | none =>
    intro us hlaid htarget
    obtain ⟨vs, hvs, -⟩ := hround us hlaid
    exact ⟨vs, hvs, htarget.append (.nil vs)⟩
  | some x =>
    intro links s' c' hrest us hlaid htarget
    obtain ⟨vs, hvs, hx⟩ := hround us hlaid
    obtain ⟨rfl, hvalue⟩ := hx x rfl
    rw [hvs.rest_eq] at hlaid
    obtain ⟨ws, hws, hstored⟩ := hrest vs (hlaid.sublist (List.sublist_append_right us _)) hvalue
    refine ⟨vs ++ ws, hvs.trans hws, htarget.merge hstored (hlaid.sublist ?_) rfl rfl⟩
    rw [hws.rest_eq, ← List.append_assoc vs]
    exact (List.Sublist.refl us).append (List.sublist_append_left _ _)

theorem effect_bears (hwalks : ∀ seen c, Walks false true seen expr c) :
    Bears exprNode (effect expr) c := by
  refine bears_of_ensures fun hlaid => .peek_bind ?_
  split
  · refine Orderly.advance.forward.bind fun op c₁ ⟨us, hus⟩ => ?_
    refine ((selection_bears hexpr hwalks).ensures (hlaid.after hus)).bind
      fun target c₂ ⟨vs, hvs, htarget⟩ => checkTarget_stays.bind fun _ c₃ hstays => ?_
    subst hstays
    have hread := hus.trans hvs
    refine .locationFrom_bind (.pure ⟨us ++ vs, hread, ?_⟩)
    exact Parts.around (.skip us htarget) hlaid hread (by simp [htarget.ne_nil]) rfl
  · refine ((hexpr c).ensures hlaid).bind fun value c₁ ⟨us, hus, hvalue⟩ => .peekKind_bind ?_
    split
    · refine Orderly.advance.forward.bind fun op c₂ ⟨vs, hvs⟩ => ?_
      refine checkTarget_stays.bind fun _ c₃ hstays => ?_
      subst hstays
      have hread := hus.trans hvs
      refine .locationFrom_bind (.pure ⟨us ++ vs, hread, ?_⟩)
      exact Parts.around (hvalue.append (.nil vs)) hlaid hread (by simp [hvalue.ne_nil]) rfl
    · rw [hus.rest_eq] at hlaid
      exact (assignments_spread hexpr hlaid hvalue).imp fun _ _ ⟨vs, hvs, hparts⟩ =>
        ⟨us ++ vs, hus.trans hvs, hparts⟩

end Effects

/-! ## Statements -/

/-- One statement, as a list of nodes. -/
abbrev stmtNode (s : Stmt Location) : List (Node Location) := [.stmt s]

section Statements

variable {n : Nat} {word : ControlWord}

theorem localVariables_frames : Frames .stmt (localVariables (expression n)) c := by
  have hdeclarators : ∀ c, Bears (fun ds => ds.flatMap Declarator.nodes)
      (separated (declarator (expression n) .variableName)) c :=
    fun _ => .separated fun _ => declarator_bears (expression_bears n)
  refine .skip primitiveType_orderly fun type _ => .bind (hdeclarators _) fun ds _ => ?_
  exact .skip .expect fun _ _ => .pure fun _ => ⟨rfl, rfl⟩

theorem effectStatement_frames : Frames .stmt (effectStatement (expression n)) c := by
  have heffect : Bears exprNode (effect (expression n)) c :=
    effect_bears (expression_bears n) fun _ _ => expression_walks n
  refine .bind heffect fun value _ => ?_
  exact .skip .expect fun _ _ => .pure fun _ => ⟨rfl, rfl⟩

theorem condition_bears : Bears exprNode (condition (expression n) word) c := by
  refine .skip .expect fun _ _ => .bind (expression_bears n _) fun test _ => ?_
  exact .skip .expect fun _ _ => .pure rfl

theorem returnStatement_frames : Frames .stmt (returnStatement (expression n)) c := by
  have hend : ∀ (value : Option (Expr Location)) (c : Cursor),
      Spreads (Framed .stmt) (value.toList.map .expr) (do
        let _ ← expect .returnEnd
        return ((Stmt.returnWith · value) : Location → Stmt Location)) c :=
    fun _ _ => .skip .expect fun _ _ => .pure fun _ => ⟨rfl, rfl⟩
  refine .skip .advance fun _ _ => .sees_bind ?_
  split
  · exact hend none _
  · have hvalue : ∀ c, Bears (fun value => value.toList.map .expr) (some <$> expression n) c :=
      fun c => Bears.map_bind (expression_bears n c)
    exact .bind (hvalue _) fun value _ => hend value _

section Nested

variable (hstmt : ∀ c, Bears stmtNode (statement n) c)

include hstmt

theorem block_bears : Bears (fun body => body.map .stmt) (block (statement n) demand) c := by
  have hbody : ∀ c, Bears (fun body => body.map .stmt) (bodyOf .statement (statement n)) c :=
    fun c => (Bears.bodyOf hstmt fun _ => statement_orderly n).imp fun body _ hparts => by
      rwa [← List.map_eq_flatMap] at hparts
  refine .skip .expect fun _ _ => .bind (hbody _) fun body _ => ?_
  exact .skip .expect fun _ _ => .pure rfl

theorem ifStatement_frames : Frames .stmt (ifStatement (statement n) (expression n)) c := by
  refine .skip .advance fun _ _ => .bind condition_bears fun _ _ => .bind (hstmt _) fun _ _ => ?_
  refine .skip .accept fun _ _ => ?_
  split
  · exact .bind (hstmt _) fun _ _ => .pure fun _ => ⟨rfl, rfl⟩
  · exact .pure fun _ => ⟨rfl, rfl⟩

theorem whileStatement_frames : Frames .stmt (whileStatement (statement n) (expression n)) c := by
  refine .skip .advance fun _ _ => .bind condition_bears fun test _ => ?_
  exact .bind (hstmt _) fun body _ => .pure fun _ => ⟨rfl, rfl⟩

theorem doStatement_frames : Frames .stmt (doStatement (statement n) (expression n)) c := by
  refine .skip .advance fun _ _ => .bind (hstmt _) fun body _ => ?_
  refine .skip .expect fun _ _ => .bind condition_bears fun test _ => ?_
  exact .skip .expect fun _ _ => .pure fun _ => ⟨rfl, rfl⟩

theorem labeledStatement_frames : Frames .stmt (labeledStatement (statement n)) c := by
  refine .skip .advance fun label _ => .skip .advance fun _ _ => ?_
  exact .bind (hstmt _) fun body _ => .pure fun _ => ⟨rfl, rfl⟩

theorem catchClause_bears : Bears CatchClause.nodes (catchClause (statement n)) c := by
  refine .skip .expect fun _ _ => .skip .name fun exceptionType _ => ?_
  refine .skip .name fun name _ => .skip .expect fun _ _ => ?_
  exact .bind (block_bears hstmt) fun body _ => .pure rfl

theorem tryStatement_frames : Frames .stmt (tryStatement (statement n)) c := by
  refine .skip .advance fun _ _ => .bind (block_bears hstmt) fun body _ => ?_
  refine .bind (.many fun _ => .behind fun _ => catchClause_bears hstmt) fun catches _ => ?_
  refine .skip .accept fun _ _ => ?_
  split
  · exact .bind (block_bears hstmt) fun _ _ => .pure fun _ => ⟨rfl, rfl⟩
  · split
    · exact .skip .complain fun _ _ => .pure fun _ => ⟨rfl, rfl⟩
    · exact .pure fun _ => ⟨rfl, rfl⟩

theorem statementOf_frames (kind : Token.Kind) :
    Frames .stmt (statementOf (statement n) (expression n) kind) c := by
  unfold statementOf
  split
  · exact .bind (block_bears hstmt) fun _ _ => .pure fun _ => ⟨rfl, rfl⟩
  · exact .skip .advance fun _ _ => .pure fun _ => ⟨rfl, rfl⟩
  · exact localVariables_frames
  · exact ifStatement_frames hstmt
  · exact whileStatement_frames hstmt
  · exact doStatement_frames hstmt
  · exact .skip jump_orderly.loud fun _ _ => .pure fun _ => ⟨rfl, rfl⟩
  · exact .skip jump_orderly.loud fun _ _ => .pure fun _ => ⟨rfl, rfl⟩
  · exact returnStatement_frames
  · exact tryStatement_frames hstmt
  · exact effectStatement_frames
  · exact effectStatement_frames
  · exact effectStatement_frames
  · exact .fail
  · refine .skip (.still rfl) fun _ _ => ?_
    split
    · exact labeledStatement_frames hstmt
    · exact effectStatement_frames
  · exact effectStatement_frames

end Nested

theorem statement_bears (n : Nat) (c : Cursor) : Bears stmtNode (statement n) c := by
  induction n generalizing c with
  | zero => exact .tooDeep
  | succ n ih =>
    exact Bears.located (.peekKind_bind (statementOf_frames ih _)) (statement_walks (n + 1)).advances

end Statements

/-! ## Classes -/

section Classes

variable {limit : Nat} {set : ModifierSet} {type : PrimitiveType} {word : String}

theorem methodRest_frames : Frames .member (methodRest limit set type word) c := by
  have hend : ∀ (params : List Param) (c : Cursor), Frames .member (do
      let _ ← expect .parametersEnd
      let body ← block (statement limit) .methodBody
      return ((Member.method · set type word params body) : Location → Member Location)) c := by
    intro params c
    refine .skip .expect fun _ _ => ?_
    exact .bind (block_bears (statement_bears limit)) fun body _ => .pure fun _ => ⟨rfl, rfl⟩
  refine .skip .advance fun _ _ => .sees_bind ?_
  split
  · exact hend [] _
  · refine .skip (.separated fun _ => ?_) fun _ _ => hend _ _
    exact .bind primitiveType_orderly fun _ => Orderly.name.map_bind

theorem fieldRest_frames : Frames .member (fieldRest limit set type word) c := by
  have hexpr := expression_bears limit
  refine .bind (initializer_bears hexpr) fun init _ => ?_
  refine .bind (.many fun _ => .behind fun _ => declarator_bears hexpr) fun more _ => ?_
  exact .skip .expect fun _ _ => .pure fun _ => ⟨rfl, rfl⟩

theorem member_bears (c : Cursor) : Bears (fun m => [.member m]) (member limit) c := by
  refine .located (.skip (.map (.iterate fun _ _ => memberModifier_orderly)) fun _ _ => ?_)
    (member_walks limit).advances
  refine .skip primitiveType_orderly fun _ _ => .skip .name fun _ _ => .sees_bind ?_
  split
  · exact methodRest_frames
  · exact fieldRest_frames

theorem classBody_bears : Bears (fun members => members.map .member) (classBody limit) c := by
  refine .skip .expect fun _ _ => ?_
  refine .bind (.bodyOf member_bears fun _ => member_orderly limit) fun members _ => ?_
  rw [List.nil_append, ← List.map_eq_flatMap]
  refine .skip .accept fun _ _ => ?_
  split
  · exact .pure rfl
  · exact .skip .complain fun _ _ => .pure rfl

theorem classDecl_bears : Bears (fun decl => [.classDecl decl]) (classDecl limit) c := by
  refine .located (.skip (.map (.iterate fun _ _ => classModifier_orderly)) fun _ _ => ?_)
    classDecl_advances
  refine .skip .expect fun _ _ => .skip .name fun name _ => ?_
  exact .bind classBody_bears fun members _ => .pure fun _ => ⟨rfl, rfl⟩

end Classes

end Parser

/-! ## A whole source -/

/-- Whatever is in the program lies over tokens, with or without errors. -/
theorem parse_over {tokens : List Token} (hlaid : Laid (ofTokens tokens).rest) :
    (parse tokens).program.Every fun n => ∃ us, us.Sublist (ofTokens tokens).rest ∧ Over us n := by
  refine parse_ensures fun us c hreads => ?_
  refine (Parser.classDecl_bears.ensures (hlaid.after hreads)).imp fun decl c' ⟨vs, hvs, hparts⟩ => ?_
  refine hparts.every ?_ _ List.mem_cons_self
  rw [hreads.rest_eq, hvs.rest_eq]
  exact (List.sublist_append_left _ _).trans (List.sublist_append_right _ _)

theorem Tiled.laid {offset : Nat} {text : List Char} {tokens : List Token}
    (h : Tiled offset text tokens) : Laid (ofTokens tokens).rest := by
  obtain ⟨words, eof, rfl, hkind, -, -, hwords⟩ := h.ends
  refine ⟨h.ordered.sublist List.filter_sublist, fun t ht => ?_⟩
  obtain ⟨hmem, hkept⟩ := List.mem_filter.mp ht
  rcases List.mem_append.mp hmem with ht | ht
  · exact (hwords t ht).2
  · rw [List.mem_singleton.mp ht, hkind] at hkept
    cases hkept

theorem Node.Proper.mono {us ts : List Token} {n : Node Location} (h : n.Proper us)
    (hsub : us ⊆ ts) : n.Proper ts where
  nonempty := h.nonempty
  starts := h.starts.imp fun _ ⟨ht, hstart⟩ => ⟨hsub ht, hstart⟩
  stops := h.stops.imp fun _ ⟨ht, hstop⟩ => ⟨hsub ht, hstop⟩
  within := h.within
  apart := h.apart

/-- **Spans form a proper tree over the tokens.** In the program that parsing gives for any source,
with or without errors, the span of every node is not empty and reaches from the start of a token to
the end of a token. The spans of its children lie inside it, one behind the other. -/
theorem parse_lex_proper (source : String) :
    (parse (lex source).tokens).program.Every (Node.Proper (lex source).tokens) := by
  have hlaid := (lex_tiled source).laid
  intro decl hdecl
  refine (parse_over hlaid decl hdecl).imp fun n ⟨us, hsub, hover⟩ => ?_
  exact (hover.proper (hlaid.sublist hsub)).mono (hsub.trans List.filter_sublist).subset

end JavaSubset
