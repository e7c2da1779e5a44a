import Mathlib.Data.List.Basic

/-!
# AsioStudy.Core.CountedLoop

`for (i = first; test(i); i++) body` with a counter of `w` bits, whose `++` wraps around.

`Turns` are the iterations that end without an exception. The counter after `n` of them is
`first + n` modulo `2 ^ w` (`Turns.counter`). A loop whose body does not throw returns after
`n` iterations when the test admits the first `n` of these values and not the next
(`for_loop_returns_iff`); a test that admits every value is never left
(`not_returns_of_forall`). The two usual tests come with their counts (`passes_lt`,
`passes_le`): `i <= bound` is the one that may admit every value.
-/

namespace AsioStudy

variable {w : Nat} {σ ε : Type*}

/-- The loop, at most `fuel` tests of it; `body` throws or returns, and changes the state. -/
def for_loop (test : BitVec w → Bool) (body : σ → Option ε × σ) :
    Nat → BitVec w → σ → Option (Option ε × σ)
  | 0, _, _ => none
  | fuel + 1, i, st =>
      if test i then
        match body st with
        | (some e, st) => some (some e, st)
        | (none, st) => for_loop test body fuel (i + 1) st
      else some (none, st)

/-- `n` iterations take the counter from `i` to `j` and the state from `st` to `st'`. -/
inductive Turns (test : BitVec w → Bool) (body : σ → Option ε × σ) :
    BitVec w → σ → Nat → BitVec w → σ → Prop
  | zero {i st} : Turns test body i st 0 i st
  | succ {i j st st' st'' n} : test i = true → body st = (none, st') →
      Turns test body (i + 1) st' n j st'' → Turns test body i st (n + 1) j st''

/-- The test admits the first `n` values of a counter that starts at `i`. -/
def Passes (test : BitVec w → Bool) (i : BitVec w) (n : Nat) : Prop :=
  ∀ k < n, test (i + BitVec.ofNat w k) = true

variable {test : BitVec w → Bool} {body : σ → Option ε × σ} {i j : BitVec w}
  {st st' : σ} {n : Nat}

theorem add_one_add (i : BitVec w) (k : Nat) :
    i + 1 + BitVec.ofNat w k = i + BitVec.ofNat w (k + 1) := by
  have hsucc : BitVec.ofNat w (k + 1) = BitVec.ofNat w k + 1 := BitVec.ofNat_add k 1
  rw [hsucc, BitVec.add_assoc, BitVec.add_comm 1]

/-- The first value that the test refuses is at one place only. -/
theorem Passes.unique {m : Nat} (hn : Passes test i n) (hm : Passes test i m)
    (hn' : test (i + BitVec.ofNat w n) = false) (hm' : test (i + BitVec.ofNat w m) = false) :
    n = m := by
  rcases Nat.lt_trichotomy n m with hlt | heq | hlt
  · exact absurd (hn'.symm.trans (hm n hlt)) (by simp)
  · exact heq
  · exact absurd (hm'.symm.trans (hn m hlt)) (by simp)

namespace Turns

/-- The counter wraps around. -/
theorem counter (h : Turns test body i st n j st') : j = i + BitVec.ofNat w n := by
  induction h with
  | zero => exact (BitVec.add_zero _).symm
  | succ _ _ _ ih => rw [ih, add_one_add]

theorem passes (h : Turns test body i st n j st') : Passes test i n := by
  induction h with
  | zero =>
      intro k hk
      exact absurd hk (Nat.not_lt_zero k)
  | @succ i j st st' st'' n htest _ _ ih =>
      intro k hk
      cases k with
      | zero => simpa using htest
      | succ k =>
          rw [← add_one_add]
          exact ih k (Nat.lt_of_succ_lt_succ hk)

/-- **Invariant rule.** -/
theorem invariant {I : Nat → σ → Prop}
    (hstep : ∀ {k st st'}, I k st → body st = (none, st') → I (k + 1) st')
    (h : Turns test body i st n j st') {k : Nat} (hI : I k st) : I (k + n) st' := by
  induction h generalizing k with
  | zero => exact hI
  | @succ i j st st' st'' n _ hbody _ ih =>
      have hrest := ih (hstep hI hbody)
      rwa [Nat.add_right_comm] at hrest

/-- The loop goes through its iterations. -/
theorem for_loop_eq (h : Turns test body i st n j st') (fuel : Nat) :
    for_loop test body (n + fuel) i st = for_loop test body fuel j st' := by
  induction h with
  | zero => rw [Nat.zero_add]
  | @succ i j st st' st'' n htest hbody _ ih =>
      rw [Nat.add_right_comm, for_loop, if_pos htest, hbody]
      exact ih

/-- As long as the test admits the counter and the body returns, there are iterations. -/
theorem exists_of_passes {I : Nat → σ → Prop} {k : Nat}
    (hstep : ∀ m st, m < k + n → I m st → ∃ st', body st = (none, st') ∧ I (m + 1) st')
    (hpasses : Passes test i n) (hI : I k st) :
    ∃ st', Turns test body i st n (i + BitVec.ofNat w n) st' := by
  induction n generalizing i st k with
  | zero => exact ⟨st, by simpa using Turns.zero⟩
  | succ n ih =>
      obtain ⟨st₁, hbody, hI₁⟩ := hstep k st (by omega) hI
      have htest : test i = true := by simpa using hpasses 0 (Nat.succ_pos n)
      have hrest : Passes test (i + 1) n := by
        intro m hm
        rw [add_one_add]
        exact hpasses (m + 1) (Nat.succ_lt_succ hm)
      obtain ⟨st', hturns⟩ := ih (fun m st hm => hstep m st (by omega)) hrest hI₁
      rw [add_one_add] at hturns
      exact ⟨st', .succ htest hbody hturns⟩

end Turns

/-- **When the loop returns**: it has made iterations up to a value the test refuses. -/
theorem for_loop_returns_iff (i : BitVec w) (st st' : σ) :
    (∃ fuel, for_loop test body fuel i st = some (none, st')) ↔
      ∃ n j, Turns test body i st n j st' ∧ test j = false := by
  constructor
  · intro h
    obtain ⟨fuel, hloop⟩ := h
    induction fuel generalizing i st with
    | zero => exact absurd hloop (by simp [for_loop])
    | succ fuel ih =>
        rw [for_loop] at hloop
        cases htest : test i with
        | false =>
            rw [if_neg (by simp [htest])] at hloop
            obtain rfl := (Prod.mk.inj (Option.some.inj hloop)).2
            exact ⟨0, i, .zero, htest⟩
        | true =>
            rw [if_pos htest] at hloop
            rcases hbody : body st with ⟨e | e, st₁⟩
            · rw [hbody] at hloop
              obtain ⟨n, j, hturns, hfalse⟩ := ih (i + 1) st₁ hloop
              exact ⟨n + 1, j, .succ htest hbody hturns, hfalse⟩
            · rw [hbody] at hloop
              exact absurd hloop (by simp)
  · intro h
    obtain ⟨n, j, hturns, hfalse⟩ := h
    refine ⟨n + 1, ?_⟩
    rw [hturns.for_loop_eq 1, for_loop, if_neg (by simp [hfalse])]

/-- A test that admits every value is never left. -/
theorem not_returns_of_forall (hall : ∀ i, test i = true) (fuel : Nat) (i : BitVec w)
    (st st' : σ) : for_loop test body fuel i st ≠ some (none, st') := by
  intro h
  obtain ⟨n, j, -, hfalse⟩ := (for_loop_returns_iff i st st').mp ⟨fuel, h⟩
  exact absurd (hfalse.symm.trans (hall j)) (by simp)

/-! ### The two usual tests -/

theorem zero_add_ofNat (k : Nat) : (0 : BitVec w) + BitVec.ofNat w k = BitVec.ofNat w k := by
  simp

theorem one_add_ofNat (k : Nat) : (1 : BitVec w) + BitVec.ofNat w k = BitVec.ofNat w (k + 1) := by
  rw [BitVec.add_comm]
  exact (BitVec.ofNat_add k 1).symm

theorem toNat_ofNat_of_le {bound : BitVec w} {k : Nat} (hk : k ≤ bound.toNat) :
    (BitVec.ofNat w k).toNat = k := by
  rw [BitVec.toNat_ofNat]
  exact Nat.mod_eq_of_lt (Nat.lt_of_le_of_lt hk bound.isLt)

/-- `i < bound` from 0 on. -/
theorem passes_lt (bound : BitVec w) : Passes (fun i => decide (i < bound)) 0 bound.toNat := by
  intro k hk
  refine decide_eq_true ?_
  rw [zero_add_ofNat, BitVec.lt_def, toNat_ofNat_of_le (Nat.le_of_lt hk)]
  exact hk

/-- The next value is the bound. -/
theorem not_lt_bound (bound : BitVec w) : ¬ 0 + BitVec.ofNat w bound.toNat < bound := by
  rw [zero_add_ofNat, BitVec.ofNat_toNat, BitVec.setWidth_eq]
  exact BitVec.lt_irrefl bound

/-- `i <= bound` from 1 on. -/
theorem passes_le (bound : BitVec w) : Passes (fun i => decide (i ≤ bound)) 1 bound.toNat := by
  intro k hk
  refine decide_eq_true ?_
  rw [one_add_ofNat, BitVec.le_def, toNat_ofNat_of_le hk]
  exact hk

/-- The next value is the one after the bound, unless that wraps around. -/
theorem not_le_bound {bound : BitVec w} (h : bound ≠ BitVec.allOnes w) :
    ¬ 1 + BitVec.ofNat w bound.toNat ≤ bound := by
  rw [BitVec.add_comm, BitVec.ofNat_toNat, BitVec.setWidth_eq]
  exact BitVec.not_le.mpr (BitVec.lt_add_one h)

end AsioStudy
