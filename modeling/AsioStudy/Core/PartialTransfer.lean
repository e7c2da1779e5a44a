import Mathlib.Data.List.Basic

/-!
# AsioStudy.Core.PartialTransfer

Transferring a buffer of `size` units in parts.

An operation `io` is given a range of the buffer and transfers some of it, at least one unit
of a non-empty range, or fails (`Bounded`). `Parts` is the transfer itself: as long as units
are missing, the operation is given all of them. It always ends (`Parts.exists_parts`),
either with every unit transferred or with the first operation that fails, and every range
it passes is in the buffer (`Parts.inside`). What a particular operation does to its state
is carried along by `Parts.invariant`.
-/

namespace AsioStudy

/-- A part of a buffer. -/
structure Range where
  offset : Nat
  length : Nat
  deriving DecidableEq, Repr

/-- An operation that was given a range, and its result: the units transferred, or an error. -/
structure Part (ε : Type*) extends Range where
  result : Except ε Nat

/-- The operation has failed. -/
def Part.Failed {ε : Type*} (p : Part ε) : Prop := ∃ e, p.result = .error e

/-- An operation on a state. -/
abbrev Io (σ ε : Type*) := σ → Range → Except ε Nat × σ

variable {σ ε : Type*}

/-- An operation transfers at least one unit of a non-empty range, and never more than the
range has. -/
structure Bounded (io : Io σ ε) : Prop where
  pos : ∀ {st st' r n}, 0 < r.length → io st r = (.ok n, st') → 0 < n
  le : ∀ {st st' r n}, io st r = (.ok n, st') → n ≤ r.length

/-- The transfer of a buffer of which `total` units are done: the operations, the state they
leave, and the error that has ended them. -/
inductive Parts (io : Io σ ε) (size : Nat) : σ → Nat → List (Part ε) → σ → Option ε → Prop
  | done {st} : Parts io size st size [] st none
  | fails {st st' total e} : total < size → io st ⟨total, size - total⟩ = (.error e, st') →
      Parts io size st total [⟨⟨total, size - total⟩, .error e⟩] st' (some e)
  | more {st st' st'' total n parts failure} : total < size →
      io st ⟨total, size - total⟩ = (.ok n, st') →
      Parts io size st' (total + n) parts st'' failure →
      Parts io size st total (⟨⟨total, size - total⟩, .ok n⟩ :: parts) st'' failure

variable {io : Io σ ε} {size total : Nat} {st st' : σ} {parts : List (Part ε)}
  {failure : Option ε}

namespace Parts

/-- **A transfer always ends.** -/
theorem exists_parts (hb : Bounded io) (st : σ) (hle : total ≤ size) :
    ∃ parts st' failure, Parts io size st total parts st' failure := by
  -- on the number of units that are missing, of which every operation takes some away
  induction hn : size - total using Nat.strongRecOn generalizing st total with
  | ind n ih =>
      subst hn
      rcases Nat.eq_or_lt_of_le hle with rfl | hlt
      · exact ⟨[], st, none, .done⟩
      · rcases hio : io st ⟨total, size - total⟩ with ⟨e | n, st'⟩
        · exact ⟨_, st', some e, .fails hlt hio⟩
        · have hpos : 0 < n := hb.pos (Nat.sub_pos_of_lt hlt) hio
          have hmore : n ≤ size - total := hb.le hio
          obtain ⟨parts, st'', failure, hparts⟩ :=
            ih (size - (total + n)) (by omega) st' (by omega : total + n ≤ size) rfl
          exact ⟨_, st'', failure, .more hlt hio hparts⟩

/-- A transfer that has nothing to do does nothing. -/
theorem of_done (h : Parts io size st size parts st' failure) :
    parts = [] ∧ st' = st ∧ failure = none := by
  generalize ht : size = t at h
  cases h with
  | done => exact ⟨rfl, rfl, rfl⟩
  | fails hlt _ => exact absurd hlt (Nat.lt_irrefl _)
  | more hlt _ _ => exact absurd hlt (Nat.lt_irrefl _)

/-- Every range is in the buffer. -/
theorem inside (h : Parts io size st total parts st' failure) :
    ∀ p ∈ parts, p.offset + p.length ≤ size := by
  induction h with
  | done => simp
  | fails hlt _ =>
      intro p hp
      obtain rfl := List.mem_singleton.mp hp
      exact Nat.le_of_eq (Nat.add_sub_cancel' (Nat.le_of_lt hlt))
  | more hlt _ _ ih =>
      intro p hp
      rcases List.mem_cons.mp hp with rfl | hp
      · exact Nat.le_of_eq (Nat.add_sub_cancel' (Nat.le_of_lt hlt))
      · exact ih p hp

/-- The error is that of an operation that has failed. -/
theorem failure_eq_none_iff (h : Parts io size st total parts st' failure) :
    failure = none ↔ ∀ p ∈ parts, ¬ p.Failed := by
  induction h with
  | done => simp
  | @fails st st' total e hlt _ =>
      have hfailed : (⟨⟨total, size - total⟩, .error e⟩ : Part ε).Failed := ⟨e, rfl⟩
      simp [hfailed]
  | @more st st' st'' total n parts failure hlt _ _ ih =>
      have hok : ¬ (⟨⟨total, size - total⟩, .ok n⟩ : Part ε).Failed := by simp [Part.Failed]
      simp [ih, hok]

/-- No operation comes after one that has failed. -/
theorem last (h : Parts io size st total parts st' failure) {pre post : List (Part ε)}
    {p : Part ε} (hp : parts = pre ++ p :: post) (hfailed : p.Failed) : post = [] := by
  induction h generalizing pre with
  | done => simp at hp
  | fails _ _ =>
      cases pre with
      | nil => simpa using (List.cons.inj hp).2.symm
      | cons q pre => simp at hp
  | more _ _ _ ih =>
      cases pre with
      | nil =>
          obtain ⟨e, he⟩ := hfailed
          rw [← (List.cons.inj hp).1] at he
          exact absurd he (by simp)
      | cons q pre => exact ih (List.cons.inj hp).2

/-- An operation that notes down its calls has the parts noted down in the end. -/
theorem log (log : σ → List (Part ε))
    (hlog : ∀ st r, log (io st r).2 = log st ++ [⟨r, (io st r).1⟩])
    (h : Parts io size st total parts st' failure) : log st' = log st ++ parts := by
  induction h with
  | done => simp
  | @fails st st' total e _ hio =>
      have hcall := hlog st ⟨total, size - total⟩
      rwa [hio] at hcall
  | @more st st' st'' total n parts failure _ hio _ ih =>
      have hcall := hlog st ⟨total, size - total⟩
      rw [hio] at hcall
      rw [ih, hcall, List.append_assoc]
      rfl

/-- **Invariant rule.** What every successful operation carries over to the next total, and
what a failing one makes of it. -/
theorem invariant {I J : Nat → σ → Prop}
    (hok : ∀ {st st' total n}, total < size → I total st →
      io st ⟨total, size - total⟩ = (.ok n, st') → I (total + n) st')
    (herror : ∀ {st st' total e}, total < size → I total st →
      io st ⟨total, size - total⟩ = (.error e, st') → J total st')
    (h : Parts io size st total parts st' failure) (hI : I total st) :
    (failure = none → I size st') ∧ (∀ e, failure = some e → ∃ k, k < size ∧ J k st') := by
  induction h with
  | done => exact ⟨fun _ => hI, by simp⟩
  | @fails st st' total e hlt hio => exact ⟨by simp, fun _ _ => ⟨total, hlt, herror hlt hI hio⟩⟩
  | more hlt hio _ ih => exact ih (hok hlt hI hio)

end Parts

end AsioStudy
