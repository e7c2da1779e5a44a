import AsioStudy.Core.Bytes
import AsioStudy.Core.ErrorCode
import AsioStudy.Core.TransitionSystem

/-!
# AsioStudy.Core.AsyncObject

Objects that live from one asynchronous operation to the next: a completion handler of the
object starts the next operation or ends with `delete this`. A `Program` gives the code of
the handlers, cut into steps; an `AsyncObject` is one object with its pending operations
and the handlers that run.

Nothing here forbids a program to start two operations or to delete its object twice.
`Program.Linear` is the condition on the single steps under which every object has, at any
moment, exactly one thing that it waits for or that it has ended with (`weight_eq_one`), and
under which a property of its data can be proved along this single thread
(`Program.Invariant`).
-/

namespace AsioStudy

/-- What comes after a step of a handler. -/
inductive Next (Point : Type*)
  | goto (p : Point)
  /-- The handler returns. -/
  | ret
  /-- An exception leaves the handler. -/
  | threw
  /-- The behaviour is undefined. -/
  | undefined
  deriving DecidableEq, Repr

/-- The handlers that run after a step of the `i`-th of them. -/
def Next.running {Point : Type*} (running : List Point) (i : Nat) : Next Point → List Point
  | .goto p => running.set i p
  | _ => running.eraseIdx i

def Next.throws {Point : Type*} : Next Point → Bool
  | .threw => true
  | _ => false

def Next.isUndefined {Point : Type*} : Next Point → Bool
  | .undefined => true
  | _ => false

/-- What a step of a handler does. -/
structure Effect (Op Point Data : Type*) where
  data : Data
  /-- The operations it starts. -/
  starts : List Op
  /-- It executes `delete this`. -/
  deletes : Bool
  next : Next Point

/-- The code of a class of objects. `Op` are its operations, each with its own handler,
`Point` the places in the handlers, and `Input` what a step finds outside the object. -/
structure Program (Op Point Input Data : Type*) where
  /-- The members as the constructor leaves them. -/
  data : Data
  /-- The operation an object is started with. -/
  first : Op
  /-- What a completed operation puts into the object. -/
  receive : Op → Bytes → Data → Data
  /-- Where the handler of an operation begins. -/
  entry : Op → ErrorCode → Point
  /-- A step of a handler; `none` if it never ends. -/
  step : Point → Input → Data → Option (Effect Op Point Data)

structure AsyncObject (Op Point Data : Type*) where
  data : Data
  pending : List Op
  /-- Where each handler that runs is. -/
  running : List Point
  /-- How often `delete this` was executed. -/
  deleted : Nat
  /-- How many handlers an exception has left. -/
  threw : Nat
  undefined : Nat

/-- The object after a step of its `i`-th handler. A handler that fails is gone and counted; what
becomes of the others then, whether the exception leaves `run()` or the process ends, is not said
here. -/
def AsyncObject.perform {Op Point Data : Type*} (o : AsyncObject Op Point Data) (i : Nat)
    (e : Effect Op Point Data) : AsyncObject Op Point Data where
  data := e.data
  pending := o.pending ++ e.starts
  running := e.next.running o.running i
  deleted := o.deleted + e.deletes.toNat
  threw := o.threw + e.next.throws.toNat
  undefined := o.undefined + e.next.isUndefined.toNat

inductive ObjectAction (Input : Type*)
  /-- A pending operation completes and its handler is invoked. -/
  | complete (i : Nat) (ec : ErrorCode) (received : Bytes)
  /-- The next step of a handler. -/
  | run (i : Nat) (input : Input)

namespace Program

variable {Op Point Input Data : Type*} (P : Program Op Point Input Data)

/-- A new object whose first operation has been started. -/
def start : AsyncObject Op Point Data := ⟨P.data, [P.first], [], 0, 0, 0⟩

def stepObject (o : AsyncObject Op Point Data) : ObjectAction Input →
    Option (AsyncObject Op Point Data)
  | .complete i ec received => o.pending[i]?.map fun op =>
      { o with
        data := P.receive op received o.data
        pending := o.pending.eraseIdx i
        running := o.running ++ [P.entry op ec] }
  | .run i input =>
      o.running[i]?.bind fun p => (P.step p input o.data).map fun e => o.perform i e

/-- One object as a transition system. -/
def machine : TransitionSystem (AsyncObject Op Point Data) (ObjectAction Input) :=
  ⟨P.start, P.stepObject⟩

end Program

variable {Op Point Input Data : Type*} {P : Program Op Point Input Data}
  {o o' : AsyncObject Op Point Data} {a : ObjectAction Input}

/-! ### The steps -/

inductive ObjectStep (P : Program Op Point Input Data) (o : AsyncObject Op Point Data) :
    ObjectAction Input → AsyncObject Op Point Data → Prop
  | complete {i ec received op} : o.pending[i]? = some op →
      ObjectStep P o (.complete i ec received)
        { o with
          data := P.receive op received o.data
          pending := o.pending.eraseIdx i
          running := o.running ++ [P.entry op ec] }
  | run {i input p e} : o.running[i]? = some p → P.step p input o.data = some e →
      ObjectStep P o (.run i input) (o.perform i e)

/-- **Inversion.** Every step of an object is one of the listed ones. -/
theorem stepObject_inv (h : P.stepObject o a = some o') : ObjectStep P o a o' := by
  cases a with
  | complete i ec received =>
      obtain ⟨op, hop, rfl⟩ := Option.map_eq_some_iff.mp h
      exact .complete hop
  | run i input =>
      obtain ⟨p, hp, h⟩ := Option.bind_eq_some_iff.mp h
      obtain ⟨e, he, rfl⟩ := Option.map_eq_some_iff.mp h
      exact .run hp he

/-! ### Linear programs -/

def Next.weight : Next Point → Nat
  | .ret => 0
  | _ => 1

/-- The ways in which an object goes on after the step, or has ended with it. -/
def Effect.weight (e : Effect Op Point Data) : Nat :=
  e.starts.length + e.deletes.toNat + e.next.weight

/-- Every step goes on in its handler, starts one operation, deletes the object, or fails:
exactly one of these. -/
def Program.Linear (P : Program Op Point Input Data) : Prop :=
  ∀ p input d e, P.step p input d = some e → e.weight = 1

/-- What an object waits for, runs, and has ended with. -/
def AsyncObject.weight (o : AsyncObject Op Point Data) : Nat :=
  o.pending.length + o.running.length + (o.deleted + o.threw + o.undefined)

theorem Next.length_running (next : Next Point) {running : List Point} {i : Nat}
    (hi : i < running.length) :
    (next.running running i).length + (next.throws.toNat + next.isUndefined.toNat) + 1 =
      running.length + next.weight := by
  cases next <;> simp [Next.running, Next.weight, Next.throws, Next.isUndefined,
    List.length_eraseIdx_of_lt hi] <;> omega

theorem ObjectStep.weight (h : ObjectStep P o a o') (hl : P.Linear) : o'.weight = o.weight := by
  cases h with
  | @complete i _ _ _ hop =>
      have hi : i < o.pending.length := (List.getElem?_eq_some_iff.mp hop).1
      simp only [AsyncObject.weight, List.length_eraseIdx_of_lt hi, List.length_append,
        List.length_singleton]
      omega
  | @run i _ _ e hp he =>
      have hi : i < o.running.length := (List.getElem?_eq_some_iff.mp hp).1
      have hlen := e.next.length_running hi
      have hone := hl _ _ _ _ he
      simp only [Effect.weight] at hone
      simp only [AsyncObject.weight, AsyncObject.perform, List.length_append]
      omega

/-- **One thing at a time.** An object of a linear program waits for one operation, or runs
one handler, or has ended, once. -/
theorem weight_eq_one (hl : P.Linear) (h : P.machine.Reachable o) : o.weight = 1 := by
  refine h.invariant (P := fun o => o.weight = 1) rfl ?_
  intro o a o' _ hi hs
  rw [(stepObject_inv hs).weight hl]
  exact hi

/-- While none of its handlers runs, an object that has not failed waits for exactly one
operation or has been deleted exactly once. -/
theorem AsyncObject.pending_or_deleted (hw : o.weight = 1) (hrunning : o.running = [])
    (hthrew : o.threw = 0) (hundefined : o.undefined = 0) :
    o.pending.length = 1 ∧ o.deleted = 0 ∨ o.pending = [] ∧ o.deleted = 1 := by
  simp only [AsyncObject.weight, hrunning, List.length_nil, hthrew, hundefined] at hw
  by_cases hp : o.pending = []
  · refine .inr ⟨hp, ?_⟩
    simpa [hp] using hw
  · have hpos := List.length_pos_of_ne_nil hp
    exact .inl (by omega)

/-- An object that has been deleted has come to its end. -/
theorem AsyncObject.ended_of_deleted (hw : o.weight = 1) (hdeleted : o.deleted = 1) :
    o.pending = [] ∧ o.running = [] := by
  simp only [AsyncObject.weight, hdeleted] at hw
  exact ⟨List.length_eq_zero_iff.mp (by omega), List.length_eq_zero_iff.mp (by omega)⟩

/-- An object that waits for nothing and runs nothing stays as it is. -/
theorem stepObject_ended (hpending : o.pending = []) (hrunning : o.running = [])
    (a : ObjectAction Input) : P.stepObject o a = none := by
  cases a <;> simp [Program.stepObject, hpending, hrunning]

/-- The program has no step that fails. -/
def Program.Safe (P : Program Op Point Input Data) : Prop :=
  ∀ p input d e, P.step p input d = some e → e.next.throws = false ∧ e.next.isUndefined = false

theorem not_failed_of_safe (hsafe : P.Safe) (h : P.machine.Reachable o) :
    o.threw = 0 ∧ o.undefined = 0 := by
  refine h.invariant (P := fun o => o.threw = 0 ∧ o.undefined = 0) ⟨rfl, rfl⟩ ?_
  intro o a o' _ hi hs
  cases stepObject_inv hs with
  | complete _ => exact hi
  | run hp he =>
      obtain ⟨hthrows, hundefined⟩ := hsafe _ _ _ _ he
      simp [AsyncObject.perform, hi, hthrows, hundefined]

/-! ### Invariants of linear programs -/

/-- A property of the data for every operation that is pending (`O`), for every point at
which a handler is (`R`), and for all times (`D`), as the steps have to respect it. -/
structure Program.Invariant (P : Program Op Point Input Data) (O : Op → Data → Prop)
    (R : Point → Data → Prop) (D : Data → Prop) : Prop where
  first : O P.first P.data
  always : D P.data
  complete : ∀ op ec received d, O op d → D d →
    R (P.entry op ec) (P.receive op received d) ∧ D (P.receive op received d)
  step : ∀ p input d e, R p d → D d → P.step p input d = some e →
    (∀ op ∈ e.starts, O op e.data) ∧ (∀ p', e.next = .goto p' → R p' e.data) ∧ D e.data

/-- What a `Program.Invariant` gives for an object. -/
structure AsyncObject.Holds (O : Op → Data → Prop) (R : Point → Data → Prop) (D : Data → Prop)
    (o : AsyncObject Op Point Data) : Prop where
  pending : ∀ op ∈ o.pending, O op o.data
  running : ∀ p ∈ o.running, R p o.data
  always : D o.data

variable {O : Op → Data → Prop} {R : Point → Data → Prop} {D : Data → Prop}

/-- A handler that runs is all that an object has. -/
theorem AsyncObject.only_running {i : Nat} {p : Point} (hw : o.weight = 1)
    (hp : o.running[i]? = some p) :
    o.pending = [] ∧ o.running = [p] ∧ i = 0 ∧ o.deleted = 0 ∧ o.threw = 0 ∧
      o.undefined = 0 := by
  have hi : i < o.running.length := (List.getElem?_eq_some_iff.mp hp).1
  simp only [AsyncObject.weight] at hw
  have hlen : o.running.length = 1 := by omega
  obtain ⟨q, hq⟩ := List.length_eq_one_iff.mp hlen
  obtain rfl : i = 0 := by omega
  obtain rfl : q = p := by simpa [hq] using hp
  exact ⟨List.length_eq_zero_iff.mp (by omega), hq, rfl, by omega, by omega, by omega⟩

/-- An operation that is pending is all that an object has. -/
theorem AsyncObject.only_pending {i : Nat} {op : Op} (hw : o.weight = 1)
    (hop : o.pending[i]? = some op) : o.pending = [op] ∧ o.running = [] ∧ i = 0 := by
  have hi : i < o.pending.length := (List.getElem?_eq_some_iff.mp hop).1
  simp only [AsyncObject.weight] at hw
  have hlen : o.pending.length = 1 := by omega
  obtain ⟨q, hq⟩ := List.length_eq_one_iff.mp hlen
  obtain rfl : i = 0 := by omega
  obtain rfl : q = op := by simpa [hq] using hop
  exact ⟨hq, List.length_eq_zero_iff.mp (by omega), rfl⟩

/-- The data a step of a handler leaves suits what comes after it. -/
theorem ObjectStep.holds (h : ObjectStep P o a o') (hinv : P.Invariant O R D)
    (hw : o.weight = 1) (hi : o.Holds O R D) : o'.Holds O R D := by
  cases h with
  | @complete i ec received op hop =>
      obtain ⟨hpending, hrunning, rfl⟩ := AsyncObject.only_pending hw hop
      obtain ⟨hR, hD⟩ := hinv.complete op ec received o.data (hi.pending op (by simp [hpending]))
        hi.always
      exact ⟨by simp [hpending], by simpa [hrunning] using hR, hD⟩
  | @run i input p e hp he =>
      obtain ⟨hpending, hrunning, rfl, -⟩ := AsyncObject.only_running hw hp
      obtain ⟨hO, hR, hD⟩ := hinv.step p input o.data e (hi.running p (by simp [hrunning]))
        hi.always he
      refine ⟨by simpa [AsyncObject.perform, hpending] using hO, ?_, hD⟩
      intro p' hp'
      cases hnext : e.next with
      | goto q =>
          obtain rfl : p' = q := by
            simpa [AsyncObject.perform, hnext, Next.running, hrunning] using hp'
          exact hR p' hnext
      | _ => simp [AsyncObject.perform, hnext, Next.running, hrunning] at hp'

/-- **Invariant rule of linear programs.** -/
theorem Program.Invariant.holds (hinv : P.Invariant O R D) (hl : P.Linear)
    (h : P.machine.Reachable o) : o.Holds O R D := by
  refine h.invariant (P := fun o => o.Holds O R D) ?_ ?_
  · exact ⟨by simpa [Program.machine, Program.start] using hinv.first,
      by simp [Program.machine, Program.start], hinv.always⟩
  · intro o a o' hr hi hs
    exact (stepObject_inv hs).holds hinv (weight_eq_one hl hr) hi

end AsioStudy
