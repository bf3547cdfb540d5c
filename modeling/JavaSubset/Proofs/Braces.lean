import JavaSubset.Proofs.Reads
import JavaSubset.Parse.Recovery

/-!
# Counting braces

* `depth` : how many more braces a list of tokens opens than it closes;
* `Level` : on no way through a list are more braces closed than were opened;
* `Balanced` : level, and in the end every brace is closed;
* `Closes ts i j` : the brace at `i` is closed at `j`, where the depth counted from `i` is back at
  zero for the first time;
* `SyncPoint.skip_leaves` : what is skipped after an error is balanced, unless it goes on to the
  end.
-/

namespace JavaSubset

def Token.Kind.weight : Token.Kind → Int
  | .punctuation .lbrace => 1
  | .punctuation .rbrace => -1
  | _ => 0

def depth : List Token → Int
  | [] => 0
  | t :: ts => t.kind.weight + depth ts

def Level (ts : List Token) : Prop := ∀ n, 0 ≤ depth (ts.take n)

structure Balanced (ts : List Token) : Prop where
  level : Level ts
  even : depth ts = 0

/-- The brace at `i` is closed at `j`. -/
structure Closes (ts : List Token) (i j : Nat) : Prop where
  behind : i < j
  inside : j < ts.length
  even : depth ((ts.drop i).take (j + 1 - i)) = 0
  first : ∀ k < j, i < k → depth ((ts.drop i).take (k + 1 - i)) ≠ 0

instance (ts : List Token) : Decidable (Level ts) :=
  decidable_of_iff (∀ n < ts.length + 1, 0 ≤ depth (ts.take n)) <| by
    refine ⟨fun h n => ?_, fun h n _ => h n⟩
    by_cases hn : n < ts.length + 1
    · exact h n hn
    · have hall := h ts.length (Nat.lt_succ_self _)
      rwa [List.take_length, ← List.take_of_length_le (by omega : ts.length ≤ n)] at hall

instance (ts : List Token) : Decidable (Balanced ts) :=
  decidable_of_iff (Level ts ∧ depth ts = 0) ⟨fun ⟨hl, he⟩ => ⟨hl, he⟩, fun ⟨hl, he⟩ => ⟨hl, he⟩⟩

instance (ts : List Token) (i j : Nat) : Decidable (Closes ts i j) :=
  decidable_of_iff (i < j ∧ j < ts.length ∧ depth ((ts.drop i).take (j + 1 - i)) = 0 ∧
      ∀ k < j, i < k → depth ((ts.drop i).take (k + 1 - i)) ≠ 0)
    ⟨fun ⟨hb, hi, he, hf⟩ => ⟨hb, hi, he, hf⟩, fun ⟨hb, hi, he, hf⟩ => ⟨hb, hi, he, hf⟩⟩

/-! ## Depth -/

section Depth

variable {t : Token} {us vs : List Token} {kind : Token.Kind}

@[simp] theorem depth_nil : depth [] = 0 := rfl

@[simp] theorem depth_cons : depth (t :: us) = t.kind.weight + depth us := rfl

@[simp] theorem depth_append : depth (us ++ vs) = depth us + depth vs := by
  induction us with
  | nil => simp
  | cons t us ih =>
    rw [List.cons_append, depth_cons, depth_cons, ih]
    omega

theorem weight_of_ne (hopen : kind ≠ .punctuation .lbrace) (hclose : kind ≠ .punctuation .rbrace) :
    kind.weight = 0 := by
  unfold Token.Kind.weight
  split
  · exact absurd rfl hopen
  · exact absurd rfl hclose
  · rfl

theorem depth_eq_zero (h : ∀ t ∈ us, t.kind.weight = 0) : depth us = 0 := by
  induction us with
  | nil => rfl
  | cons t us ih =>
    rw [depth_cons, h t List.mem_cons_self, ih fun t ht => h t (List.mem_cons_of_mem _ ht)]
    rfl

theorem Level.depth_nonneg (h : Level us) : 0 ≤ depth us := by
  have hall := h us.length
  rwa [List.take_length] at hall

theorem level_nil : Level [] := by
  intro n
  simp

theorem level_of_weight (h : ∀ t ∈ us, t.kind.weight = 0) : Level us := by
  intro n
  exact Int.le_of_eq (depth_eq_zero fun t ht => h t (List.mem_of_mem_take ht)).symm

/-- Behind braces that are still open, as many more may be closed. -/
theorem Level.append (h : Level us) (h' : ∀ n, 0 ≤ depth us + depth (vs.take n)) :
    Level (us ++ vs) := by
  intro n
  rw [List.take_append, depth_append]
  by_cases hn : n ≤ us.length
  · rw [Nat.sub_eq_zero_of_le hn, List.take_zero, depth_nil]
    have := h n
    omega
  · rw [List.take_of_length_le (by omega)]
    exact h' _

theorem Level.trans (h : Level us) (h' : Level vs) : Level (us ++ vs) := by
  refine h.append fun n => ?_
  have := h.depth_nonneg
  have := h' n
  omega

theorem Level.cons (h : Level us) (hopen : t.kind = .punctuation .lbrace) : Level (t :: us) := by
  intro n
  cases n with
  | zero => simp
  | succ n =>
    have := h n
    rw [List.take_succ_cons, depth_cons, hopen, Token.Kind.weight]
    omega

/-- A brace, what is balanced and the brace that closes it. -/
theorem Balanced.enclose {r : Token} (h : Balanced us) (hopen : t.kind = .punctuation .lbrace)
    (hclose : r.kind = .punctuation .rbrace) : Balanced (t :: us ++ [r]) := by
  have heven : depth (t :: us) = 1 := by
    rw [depth_cons, hopen, h.even]
    rfl
  refine ⟨(h.level.cons hopen).append fun n => ?_, ?_⟩
  · rw [heven]
    cases n with
    | zero => simp
    | succ n => simp [hclose, Token.Kind.weight]
  · rw [depth_append, heven, depth_cons, hclose]
    rfl

theorem Balanced.trans (h : Balanced us) (h' : Balanced vs) : Balanced (us ++ vs) := by
  refine ⟨h.level.trans h'.level, ?_⟩
  rw [depth_append, h.even, h'.even]
  rfl

/-- A balanced list goes on balanced behind a balanced beginning. -/
theorem Balanced.of_append (h : Balanced (us ++ vs)) (hus : depth us = 0) : Balanced vs := by
  refine ⟨fun n => ?_, ?_⟩
  · have hn := h.level (us.length + n)
    rw [List.take_length_add_append, depth_append, hus] at hn
    omega
  · have heven := h.even
    rw [depth_append, hus] at heven
    omega

end Depth

/-! ## Braces that belong together -/

section Closes

variable {ts us rest : List Token} {t r : Token} {i j k : Nat}

theorem Closes.unique (h : Closes ts i j) (h' : Closes ts i k) : j = k := by
  rcases Nat.lt_trichotomy j k with hlt | heq | hlt
  · exact absurd h.even (h'.first j hlt h.behind)
  · exact heq
  · exact absurd h'.even (h.first k hlt h'.behind)

theorem depth_take_cons_pos (hopen : t.kind = .punctuation .lbrace) {n : Nat}
    (hlevel : 0 ≤ depth (us.take n)) : 0 < depth ((t :: us).take (n + 1)) := by
  rw [List.take_succ_cons, depth_cons, hopen, Token.Kind.weight]
  omega

theorem closes_of_drop (h : ts.drop i = t :: us ++ r :: rest)
    (hopen : t.kind = .punctuation .lbrace) (hus : Balanced us)
    (hclose : r.kind = .punctuation .rbrace) : Closes ts i (i + us.length + 1) where
  behind := by omega
  inside := by
    have hlen := congrArg List.length h
    simp only [List.length_drop, List.length_append, List.length_cons] at hlen
    omega
  even := by
    have htake : (ts.drop i).take (i + us.length + 1 + 1 - i) = t :: us ++ [r] := by
      rw [h, show i + us.length + 1 + 1 - i = (t :: us).length + 1 by rw [List.length_cons]; omega,
        List.take_length_add_append, List.take_succ_cons, List.take_zero]
    rw [htake]
    exact (hus.enclose hopen hclose).even
  first k hkj hik := by
    obtain ⟨n, rfl⟩ : ∃ n, k = i + n := ⟨k - i, by omega⟩
    rw [h, show i + n + 1 - i = n + 1 by omega,
      List.take_append_of_le_length (by rw [List.length_cons]; omega)]
    have := depth_take_cons_pos hopen (hus.level n)
    omega

theorem not_closes_of_drop (h : ts.drop i = t :: us) (hopen : t.kind = .punctuation .lbrace)
    (hus : Level us) : ¬ Closes ts i j := by
  intro hcloses
  have heven := hcloses.even
  have hbehind := hcloses.behind
  rw [h, show j + 1 - i = j - i + 1 by omega] at heven
  have := depth_take_cons_pos hopen (hus (j - i))
  omega

end Closes

/-! ## Skipping -/

namespace SyncPoint

variable {d : Nat} {ts : List Token}

/-- Of the first `n` tokens no more than `d` braces are closed, and in the end just as many, unless
no more tokens are left. -/
structure Leaves (d : Nat) (ts : List Token) (n : Nat) : Prop where
  inside : n ≤ ts.length
  level : ∀ m ≤ n, -(d : Int) ≤ depth (ts.take m)
  even : depth (ts.take n) = -(d : Int) ∨ n = ts.length

theorem Leaves.cons {d' n : Nat} {t : Token} (h : Leaves d' ts n)
    (hd : (d' : Int) = d + t.kind.weight) : Leaves d (t :: ts) (n + 1) where
  inside := by
    rw [List.length_cons]
    exact Nat.succ_le_succ h.inside
  level m hm := by
    cases m with
    | zero =>
      rw [List.take_zero, depth_nil]
      omega
    | succ m =>
      have := h.level m (by omega)
      rw [List.take_succ_cons, depth_cons]
      omega
  even := by
    rw [List.take_succ_cons, depth_cons, List.length_cons]
    rcases h.even with heven | hend
    · left
      omega
    · right
      omega

theorem leaves_zero : Leaves 0 ts 0 :=
  ⟨Nat.zero_le _, by simp, .inl rfl⟩

theorem leaves_one {t : Token} (h : t.kind.weight = -(d : Int)) : Leaves d (t :: ts) 1 := by
  refine leaves_zero.cons ?_
  rw [h]
  omega

theorem skip_leaves (point : SyncPoint) (d : Nat) (ts : List Token) :
    Leaves d ts (point.skip d ts) := by
  fun_induction skip point d ts with
  | case1 d => exact ⟨Nat.le_refl 0, by simp, .inr rfl⟩
  | case2 t rest hresume => exact leaves_zero
  | case3 t rest hresume hsemi => exact leaves_one (by rw [hsemi]; rfl)
  | case4 t rest hresume hsemi hclose => exact leaves_zero
  | case5 t rest hresume hsemi hclose hopen ih => exact ih.cons (by rw [hopen]; rfl)
  | case6 t rest hresume hsemi hclose hopen ih =>
    exact ih.cons (by rw [weight_of_ne hopen hclose]; rfl)
  | case7 d t rest hopen ih => exact ih.cons (by rw [hopen]; rfl)
  | case8 t rest hopen hclose => exact leaves_one (by rw [hclose]; rfl)
  | case9 d t rest hopen hclose hd ih =>
    refine ih.cons ?_
    rw [hclose, Token.Kind.weight]
    omega
  | case10 d t rest hopen hclose ih => exact ih.cons (by rw [weight_of_ne hopen hclose]; rfl)

end SyncPoint

end JavaSubset
