import Mathlib.Data.List.Induction

/-!
# AsioStudy.Core.Path

Lexical normalisation of paths: the components of a path, one after the other, on a list of
directories that begins at the root. A component is left out, goes up to the parent, or
names an entry (`Component`); at the root, going up stays at the root.

`head?_resolve` tells from the components alone when the path ends up at or below the entry
`d` of the root: somewhere the path is at the root, goes to `d`, and from there on never
goes up further than it has come down (`walk`).
-/

namespace AsioStudy.LexicalPath

/-- What a component of a path does. -/
inductive Component
  | skip
  | up
  | name
  deriving DecidableEq, Repr

variable {α : Type*} (kind : α → Component)

/-- The directories after one more component. -/
def push (dirs : List α) (c : α) : List α :=
  match kind c with
  | .skip => dirs
  | .up => dirs.dropLast
  | .name => dirs ++ [c]

/-- The directories of an absolute path, from the root on. -/
def resolve (path : List α) : List α := path.foldl (push kind) []

/-- How many levels below the root a path leads. -/
def depth (path : List α) : Nat :=
  path.foldl (fun n c =>
    match kind c with
    | .skip => n
    | .up => n - 1
    | .name => n + 1) 0

/-- How many levels below its start a path leads; `none` when it goes above it on the way. -/
def walk (path : List α) : Option Nat :=
  path.foldlM (fun n c =>
    match kind c with
    | .skip => some n
    | .up => if n = 0 then none else some (n - 1)
    | .name => some (n + 1)) 0

variable {kind} {path : List α} {c d : α} {k : Nat}

@[simp] theorem resolve_concat : resolve kind (path ++ [c]) = push kind (resolve kind path) c := by
  simp [resolve]

theorem length_resolve : (resolve kind path).length = depth kind path := by
  induction path using List.reverseRecOn with
  | nil => rfl
  | append_singleton path c ih =>
      rw [resolve_concat]
      cases hc : kind c <;> simp [push, depth, hc, ih]

theorem resolve_eq_nil : resolve kind path = [] ↔ depth kind path = 0 := by
  rw [← length_resolve, List.length_eq_zero_iff]

theorem walk_concat : walk kind (path ++ [c]) = (walk kind path).bind fun n =>
    match kind c with
    | .skip => some n
    | .up => if n = 0 then none else some (n - 1)
    | .name => some (n + 1) := by
  rw [walk, List.foldlM_append]
  exact bind_congr fun n => bind_pure _

theorem walk_concat_skip (hc : kind c = .skip) : walk kind (path ++ [c]) = walk kind path := by
  rw [walk_concat, hc]
  cases walk kind path <;> rfl

theorem walk_concat_up (hc : kind c = .up) :
    walk kind (path ++ [c]) = some k ↔ walk kind path = some (k + 1) := by
  rw [walk_concat, hc]
  cases walk kind path with
  | none => simp
  | some n => cases n <;> simp

theorem walk_concat_name (hc : kind c = .name) :
    walk kind (path ++ [c]) = some (k + 1) ↔ walk kind path = some k := by
  rw [walk_concat, hc]
  cases walk kind path <;> simp

theorem walk_concat_name_ne_zero (hc : kind c = .name) : walk kind (path ++ [c]) ≠ some 0 := by
  rw [walk_concat, hc]
  cases walk kind path <;> simp

/-- The path goes through the entry `d` of the root and ends `k` levels below it. -/
def Below (kind : α → Component) (d : α) (k : Nat) (path : List α) : Prop :=
  ∃ pre post, path = pre ++ d :: post ∧ depth kind pre = 0 ∧ walk kind post = some k

/-- The last component of such a path is `d` itself or comes after it. -/
theorem below_concat :
    Below kind d k (path ++ [c]) ↔
      (c = d ∧ depth kind path = 0 ∧ k = 0) ∨
        ∃ pre post, path = pre ++ d :: post ∧ depth kind pre = 0 ∧
          walk kind (post ++ [c]) = some k := by
  constructor
  · rintro ⟨pre, post, heq, hdepth, hwalk⟩
    rcases List.eq_nil_or_concat post with rfl | ⟨post', c', rfl⟩
    · obtain ⟨rfl, hlast⟩ := List.append_inj' heq rfl
      exact .inl ⟨(List.cons.inj hlast).1, hdepth, (Option.some.inj hwalk).symm⟩
    · rw [List.concat_eq_append, ← List.cons_append, ← List.append_assoc] at heq
      obtain ⟨rfl, hlast⟩ := List.append_inj' heq rfl
      obtain rfl := (List.cons.inj hlast).1
      exact .inr ⟨pre, post', rfl, hdepth, by rwa [List.concat_eq_append] at hwalk⟩
  · rintro (⟨rfl, hdepth, rfl⟩ | ⟨pre, post, rfl, hdepth, hwalk⟩)
    · exact ⟨path, [], rfl, hdepth, rfl⟩
    · exact ⟨pre, post ++ [c], by simp, hdepth, hwalk⟩

theorem not_below_concat_zero (hc : kind c = .name) {pre post : List α} :
    ¬ (path = pre ++ d :: post ∧ depth kind pre = 0 ∧ walk kind (post ++ [c]) = some 0) :=
  fun h => walk_concat_name_ne_zero hc h.2.2

/-- Going up from below the first directory. -/
theorem head?_dropLast {dirs : List α} :
    (dirs.dropLast.head? = some d ∧ dirs.dropLast.length = k + 1) ↔
      (dirs.head? = some d ∧ dirs.length = (k + 1) + 1) := by
  match dirs with
  | [] => simp
  | [x] => simp
  | x :: y :: dirs => simp

/-- **Where a path ends up**, by induction on the path from its end. -/
theorem resolve_below (hd : kind d = .name) :
    ((resolve kind path).head? = some d ∧ (resolve kind path).length = k + 1) ↔
      Below kind d k path := by
  induction path using List.reverseRecOn generalizing k with
  | nil => simp [resolve, Below]
  | append_singleton path c ih =>
      have hne : kind c ≠ .name → c ≠ d := by
        rintro hc rfl
        exact hc hd
      rw [below_concat, resolve_concat]
      cases hc : kind c with
      | skip =>
          simp only [push, hc, walk_concat_skip hc, hne (by simp [hc]), false_and, false_or]
          exact ih
      | up =>
          simp only [push, hc, walk_concat_up hc, hne (by simp [hc]), false_and, false_or]
          exact head?_dropLast.trans ih
      | name =>
          simp only [push, hc]
          cases k with
          | zero =>
              -- the path has just come to `d`
              have hnil : resolve kind path = [] ↔ depth kind path = 0 := resolve_eq_nil
              cases hdirs : resolve kind path <;> simp_all [not_below_concat_zero hc]
          | succ k =>
              simp only [walk_concat_name hc]
              have hbelow := ih (k := k)
              cases hdirs : resolve kind path <;> simp_all [Below]

/-- **A path ends up at or below `d`** exactly when it goes there from the root and does not
leave it again. -/
theorem head?_resolve (hd : kind d = .name) :
    (resolve kind path).head? = some d ↔ ∃ k, Below kind d k path := by
  constructor
  · intro h
    cases hdirs : resolve kind path with
    | nil => simp [hdirs] at h
    | cons x dirs => exact ⟨dirs.length, (resolve_below hd).mp ⟨h, by simp [hdirs]⟩⟩
  · rintro ⟨k, hk⟩
    exact ((resolve_below hd).mpr hk).1

end AsioStudy.LexicalPath
