import JavaSubset.Proofs.Braces
import Mathlib.Data.Nat.Find

/-!
# Where skipping stops

After an error tokens are skipped, and the depth in braces is counted on the way. With `d` braces
open at the start of the list `ts`:

* `SyncPoint.StopsBefore d ts n` : the token at `n` is one to stop in front of;
* `StopsBehind d ts n` : the token at `n` is one to stop behind;
* `SyncPoint.FirstStop ts n` : after `n` tokens skipping may stop for the first time.

There is exactly one first stop (`FirstStop.unique`), and it is where `Cursor.synchronize` goes
(`synchronize_firstStop`). Braces are read in pairs up to there (`FirstStop.opened`,
`FirstStop.closed`).
-/

namespace JavaSubset

variable {d : Int} {t : Token} {ts : List Token} {i j n : Nat}

/-- The token at `n` closes the surrounding scope, or can only start something new. -/
def SyncPoint.StopsBefore (point : SyncPoint) (d : Int) (ts : List Token) (n : Nat) : Prop :=
  d + depth (ts.take n) = 0 ∧
    ∃ t, ts[n]? = some t ∧ (t.kind = .punctuation .rbrace ∨ point.resumesAt t.kind = true)

/-- The token at `n` is a semicolon outside of all blocks, or the brace behind which all of them are
closed. -/
def StopsBehind (d : Int) (ts : List Token) (n : Nat) : Prop :=
  ∃ t, ts[n]? = some t ∧
    (t.kind = .punctuation .semicolon ∧ d + depth (ts.take n) = 0 ∨
      t.kind = .punctuation .rbrace ∧ d + depth (ts.take (n + 1)) = 0)

/-- Skipping stops after `n` tokens of `ts`, and no earlier. -/
structure SyncPoint.FirstStop (point : SyncPoint) (ts : List Token) (n : Nat) : Prop where
  inside : n ≤ ts.length
  level : ∀ m ≤ n, 0 ≤ depth (ts.take m)
  even : depth (ts.take n) = 0 ∨ n = ts.length
  stop : n = ts.length ∨ point.StopsBefore 0 ts n ∨ ∃ m, n = m + 1 ∧ StopsBehind 0 ts m
  before : ∀ m < n, ¬ point.StopsBefore 0 ts m
  behind : ∀ m, m + 1 < n → ¬ StopsBehind 0 ts m

/-! ## One token -/

section Cons

variable {point : SyncPoint}

theorem stopsBefore_zero : point.StopsBefore d (t :: ts) 0 ↔
    d = 0 ∧ (t.kind = .punctuation .rbrace ∨ point.resumesAt t.kind = true) := by
  simp [SyncPoint.StopsBefore]

theorem stopsBefore_succ :
    point.StopsBefore d (t :: ts) (n + 1) ↔ point.StopsBefore (d + t.kind.weight) ts n := by
  simp [SyncPoint.StopsBefore, Int.add_assoc]

theorem stopsBehind_zero : StopsBehind d (t :: ts) 0 ↔
    t.kind = .punctuation .semicolon ∧ d = 0 ∨
      t.kind = .punctuation .rbrace ∧ d + t.kind.weight = 0 := by
  simp [StopsBehind]

theorem stopsBehind_succ :
    StopsBehind d (t :: ts) (n + 1) ↔ StopsBehind (d + t.kind.weight) ts n := by
  simp [StopsBehind, Int.add_assoc]

end Cons

/-! ## The loop -/

namespace SyncPoint

variable {point : SyncPoint}

/-- From depth `d` on the loop goes over `n` tokens. -/
structure Scans (point : SyncPoint) (d : Int) (ts : List Token) (n : Nat) : Prop where
  stop : n = ts.length ∨ point.StopsBefore d ts n ∨ ∃ m, n = m + 1 ∧ StopsBehind d ts m
  before : ∀ m < n, ¬ point.StopsBefore d ts m
  behind : ∀ m, m + 1 < n → ¬ StopsBehind d ts m

theorem scans_zero (h : point.StopsBefore d ts 0) : point.Scans d ts 0 :=
  ⟨.inr (.inl h), by simp, by simp⟩

theorem scans_one (h : StopsBehind d ts 0) (hbefore : ¬ point.StopsBefore d ts 0) :
    point.Scans d ts 1 where
  stop := .inr (.inr ⟨0, rfl, h⟩)
  before m hm := by
    obtain rfl : m = 0 := by omega
    exact hbefore
  behind m hm := by omega

/-- A token at which the loop does not stop. -/
theorem Scans.cons {d' : Int} (h : point.Scans d' ts n) (hd : d' = d + t.kind.weight)
    (hbefore : ¬ point.StopsBefore d (t :: ts) 0) (hbehind : ¬ StopsBehind d (t :: ts) 0) :
    point.Scans d (t :: ts) (n + 1) where
  stop := by
    subst hd
    rcases h.stop with hend | hstop | ⟨m, rfl, hstop⟩
    · left
      rw [hend, List.length_cons]
    · right
      left
      exact stopsBefore_succ.mpr hstop
    · right
      right
      exact ⟨m + 1, rfl, stopsBehind_succ.mpr hstop⟩
  before m hm := by
    subst hd
    cases m with
    | zero => exact hbefore
    | succ m =>
      rw [stopsBefore_succ]
      exact h.before m (by omega)
  behind m hm := by
    subst hd
    cases m with
    | zero => exact hbehind
    | succ m =>
      rw [stopsBehind_succ]
      exact h.behind m (by omega)

theorem skip_scans (point : SyncPoint) (d : Nat) (ts : List Token) :
    point.Scans d ts (point.skip d ts) := by
  fun_induction skip point d ts with
  | case1 d => exact ⟨.inl rfl, by simp, by simp⟩
  | case2 t rest hresume => exact scans_zero (stopsBefore_zero.mpr ⟨rfl, .inr hresume⟩)
  | case3 t rest hresume hsemi =>
    refine scans_one (stopsBehind_zero.mpr (.inl ⟨hsemi, rfl⟩)) ?_
    rw [stopsBefore_zero]
    rintro ⟨-, hclose | hgo⟩
    · rw [hsemi] at hclose
      cases hclose
    · exact hresume hgo
  | case4 t rest hresume hsemi hclose =>
    exact scans_zero (stopsBefore_zero.mpr ⟨rfl, .inl hclose⟩)
  | case5 t rest hresume hsemi hclose hopen ih =>
    refine ih.cons ?_ ?_ ?_
    · rw [hopen]
      rfl
    · simp [stopsBefore_zero, hresume, hclose]
    · simp [stopsBehind_zero, hsemi, hclose]
  | case6 t rest hresume hsemi hclose hopen ih =>
    refine ih.cons ?_ ?_ ?_
    · rw [weight_of_ne hopen hclose]
      rfl
    · simp [stopsBefore_zero, hresume, hclose]
    · simp [stopsBehind_zero, hsemi, hclose]
  -- inside of a block no token is one to stop in front of, and only the last brace ends the loop
  | case7 d t rest hopen ih =>
    refine ih.cons ?_ ?_ ?_
    · rw [hopen]
      rfl
    · rw [stopsBefore_zero]
      omega
    · simp [stopsBehind_zero, hopen]
  | case8 t rest hopen hclose =>
    refine scans_one (stopsBehind_zero.mpr (.inr ⟨hclose, ?_⟩)) ?_
    · rw [hclose]
      rfl
    · rw [stopsBefore_zero]
      omega
  | case9 d t rest hopen hclose hd ih =>
    have hweight : t.kind.weight = -1 := by
      rw [hclose]
      rfl
    refine ih.cons ?_ ?_ ?_
    · omega
    · rw [stopsBefore_zero]
      omega
    · rw [stopsBehind_zero]
      omega
  | case10 d t rest hopen hclose ih =>
    refine ih.cons ?_ ?_ ?_
    · rw [weight_of_ne hopen hclose]
      omega
    · rw [stopsBefore_zero]
      omega
    · rw [stopsBehind_zero]
      rintro (⟨-, hd⟩ | ⟨hend, -⟩)
      · omega
      · exact hclose hend

theorem skip_firstStop (point : SyncPoint) (ts : List Token) :
    point.FirstStop ts (point.skip 0 ts) := by
  have hleaves := point.skip_leaves 0 ts
  have hscans := point.skip_scans 0 ts
  exact ⟨hleaves.inside, fun m hm => by simpa using hleaves.level m hm, by simpa using hleaves.even,
    hscans.stop, hscans.before, hscans.behind⟩

/-- Skipping can not stop for the first time at two places. -/
theorem FirstStop.not_lt {m : Nat} (h : point.FirstStop ts m) (h' : point.FirstStop ts n) :
    ¬ m < n := by
  intro hlt
  rcases h.stop with hend | hstop | ⟨k, rfl, hstop⟩
  · have := h'.inside
    omega
  · exact h'.before m hlt hstop
  · exact h'.behind k hlt hstop

theorem FirstStop.unique {m : Nat} (h : point.FirstStop ts m) (h' : point.FirstStop ts n) :
    m = n := by
  have := h.not_lt h'
  have := h'.not_lt h
  omega

end SyncPoint

/-! ## Braces in pairs -/

section Pairs

theorem depth_take_succ (h : ts[n]? = some t) :
    depth (ts.take (n + 1)) = depth (ts.take n) + t.kind.weight := by
  rw [List.take_add_one, h, depth_append]
  simp

theorem neg_one_le_weight (kind : Token.Kind) : -1 ≤ kind.weight := by
  unfold Token.Kind.weight
  split <;> decide

theorem weight_le_one (kind : Token.Kind) : kind.weight ≤ 1 := by
  unfold Token.Kind.weight
  split <;> decide

/-- One more token changes the depth by one at most. -/
theorem depth_take_succ_near (ts : List Token) (n : Nat) :
    depth (ts.take n) - 1 ≤ depth (ts.take (n + 1)) ∧
      depth (ts.take (n + 1)) ≤ depth (ts.take n) + 1 := by
  cases h : ts[n]? with
  | none =>
    rw [List.take_add_one, h, Option.toList_none, List.append_nil]
    omega
  | some t =>
    have := neg_one_le_weight t.kind
    have := weight_le_one t.kind
    rw [depth_take_succ h]
    omega

theorem depth_between (h : i ≤ j) :
    depth ((ts.drop i).take (j - i)) = depth (ts.take j) - depth (ts.take i) := by
  have hsplit : ts.take j = ts.take i ++ (ts.drop i).take (j - i) := by
    rw [← List.take_add, Nat.add_sub_cancel' h]
  rw [hsplit, depth_append]
  omega

/-- Two braces belong together if between them the depth is greater than around them. -/
theorem closes_of_depth (hij : i < j) (hj : j < ts.length)
    (heven : depth (ts.take (j + 1)) = depth (ts.take i))
    (habove : ∀ k, i < k → k ≤ j → depth (ts.take i) < depth (ts.take k)) : Closes ts i j where
  behind := hij
  inside := hj
  even := by
    rw [depth_between (by omega)]
    omega
  first k hkj hik := by
    have := habove (k + 1) (by omega) (by omega)
    rw [depth_between (by omega)]
    omega

/-- A brace is closed where the depth first falls back to what it was. -/
theorem exists_closes_of_lbrace (h : ts[i]? = some t) (hopen : t.kind = .punctuation .lbrace)
    (hi : i < n) (hn : n ≤ ts.length) (hfall : depth (ts.take n) ≤ depth (ts.take i)) :
    ∃ j < n, Closes ts i j := by
  have hrise : depth (ts.take (i + 1)) = depth (ts.take i) + 1 := by
    rw [depth_take_succ h, hopen]
    rfl
  have hne : n ≠ i + 1 := by
    rintro rfl
    omega
  have hback : ∃ j, i < j ∧ depth (ts.take (j + 1)) ≤ depth (ts.take i) :=
    ⟨n - 1, by omega, by rwa [Nat.sub_add_cancel (by omega)]⟩
  classical
  obtain ⟨hij, hle⟩ := Nat.find_spec hback
  have hfirst : ∀ k, i < k → k ≤ Nat.find hback → depth (ts.take i) < depth (ts.take k) := by
    intro k hik hk
    by_cases hnext : k = i + 1
    · rw [hnext, hrise]
      omega
    · have hmin := Nat.find_min hback (show k - 1 < Nat.find hback by omega)
      rw [Nat.sub_add_cancel (by omega)] at hmin
      omega
  have hbound : Nat.find hback ≤ n - 1 :=
    Nat.find_min' hback ⟨by omega, by rwa [Nat.sub_add_cancel (by omega)]⟩
  have hnear := (depth_take_succ_near ts (Nat.find hback)).1
  have hlast := hfirst _ hij le_rfl
  exact ⟨Nat.find hback, by omega, closes_of_depth hij (by omega) (by omega) hfirst⟩

/-- A brace closes the one behind the last place that was no deeper. -/
theorem exists_closes_of_rbrace (h : ts[j]? = some t) (hclose : t.kind = .punctuation .rbrace)
    (hlevel : 0 ≤ depth (ts.take (j + 1))) : ∃ i < j, Closes ts i j := by
  have hj : j < ts.length := (List.getElem?_eq_some_iff.mp h).1
  have hdrop : depth (ts.take (j + 1)) = depth (ts.take j) - 1 := by
    rw [depth_take_succ h, hclose]
    rfl
  let low (k : Nat) : Prop := depth (ts.take k) ≤ depth (ts.take (j + 1))
  have hlow : low (Nat.findGreatest low j) :=
    Nat.findGreatest_spec (m := 0) (Nat.zero_le j) (by simpa [low] using hlevel)
  have hhigh : ∀ k, Nat.findGreatest low j < k → k ≤ j →
      depth (ts.take (j + 1)) < depth (ts.take k) := fun k hk hkj =>
    Int.not_le.mp (Nat.findGreatest_is_greatest hk hkj)
  have hle : Nat.findGreatest low j ≤ j := Nat.findGreatest_le j
  have hne : Nat.findGreatest low j ≠ j := by
    intro heq
    rw [heq] at hlow
    simp only [low] at hlow
    omega
  have hnear := (depth_take_succ_near ts (Nat.findGreatest low j)).2
  have hnext := hhigh (Nat.findGreatest low j + 1) (by omega) (by omega)
  have heven : depth (ts.take (j + 1)) = depth (ts.take (Nat.findGreatest low j)) := by
    simp only [low] at hlow hnear hnext ⊢
    omega
  refine ⟨Nat.findGreatest low j, by omega, closes_of_depth (by omega) hj heven fun k hk hkj => ?_⟩
  rw [← heven]
  exact hhigh k hk hkj

variable {point : SyncPoint}

/-- A block that opens on the way is read as a whole, unless nothing is left. -/
theorem SyncPoint.FirstStop.opened (h : point.FirstStop ts n) (hi : i < n) (hget : ts[i]? = some t)
    (hopen : t.kind = .punctuation .lbrace) : (∃ j < n, Closes ts i j) ∨ n = ts.length := by
  rcases h.even with heven | hend
  · left
    have hlevel := h.level i (by omega)
    exact exists_closes_of_lbrace hget hopen hi h.inside (by omega)
  · exact .inr hend

/-- A closing brace that is read belongs to a block that opened on the way. -/
theorem SyncPoint.FirstStop.closed (h : point.FirstStop ts n) (hj : j < n)
    (hget : ts[j]? = some t) (hclose : t.kind = .punctuation .rbrace) : ∃ i < j, Closes ts i j :=
  exists_closes_of_rbrace hget hclose (h.level (j + 1) (by omega))

end Pairs

/-! ## Synchronization -/

open Cursor

/-- **Synchronization goes to the first place where parsing can go on.** From position `p` of any
list of tokens it skips `n` tokens, where `n` is the only first stop among those ahead. So it never
stops inside of a block that opens on the way, and never reads the brace that closes the surrounding
scope. -/
theorem synchronize_firstStop (tokens : List Token) (p : Nat) (point : SyncPoint) :
    let ahead := (tokens.filter (·.kind.isKept)).drop p
    ∃ n, ((ofTokens tokens).skip p).synchronize point = (ofTokens tokens).skip (p + n) ∧
      (∀ m, point.FirstStop ahead m ↔ m = n) ∧
      (∀ i < n, ∀ t, ahead[i]? = some t → t.kind = .punctuation .lbrace →
        (∃ j < n, Closes ahead i j) ∨ n = ahead.length) ∧
      ∀ j < n, ∀ t, ahead[j]? = some t → t.kind = .punctuation .rbrace →
        ∃ i < j, Closes ahead i j := by
  intro ahead
  have hfirst : point.FirstStop ahead (point.skip 0 ahead) := point.skip_firstStop ahead
  refine ⟨point.skip 0 ahead, ?_, fun m => ⟨fun h => h.unique hfirst, ?_⟩, ?_, ?_⟩
  · have hrest : ((ofTokens tokens).skip p).rest = ahead := skip_rest
    rw [Cursor.synchronize, hrest, skip_skip]
  · rintro rfl
    exact hfirst
  · intro i hi t
    exact hfirst.opened hi
  · intro j hj t
    exact hfirst.closed hj

end JavaSubset
