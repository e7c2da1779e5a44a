import AsioStudy.Core.AsyncObject
import AsioStudy.Core.Termination

/-!
# AsioStudy.Core.RankedProgram

Programs that end. Where whatever comes after a point or an operation has a lower **rank**, an
object takes no more steps than the rank of its first operation says, and where in addition
no step takes forever an object comes to its end once its operations complete.
-/

namespace AsioStudy

/-- Within its handler, whatever comes after a point has a lower rank. -/
structure Program.HandlersEnd {Op Point Input Data : Type*} (P : Program Op Point Input Data)
    (rankPoint : Point → Nat) : Prop where
  pos : ∀ p, 0 < rankPoint p
  goto : ∀ {p input d e p'}, P.step p input d = some e → e.next = .goto p' →
    rankPoint p' < rankPoint p

/-- Whatever comes after an operation or a point has a lower rank. -/
structure Program.Ranked {Op Point Input Data : Type*} (P : Program Op Point Input Data)
    (rankOp : Op → Nat) (rankPoint : Point → Nat) : Prop extends P.HandlersEnd rankPoint where
  entry : ∀ op ec, rankPoint (P.entry op ec) < rankOp op
  starts : ∀ {p input d e}, P.step p input d = some e → ∀ op ∈ e.starts, rankOp op < rankPoint p

/-- No step of a handler takes forever, whatever it finds. -/
def Program.Total {Op Point Input Data : Type*} (P : Program Op Point Input Data) : Prop :=
  ∀ p d, ∃ input, (P.step p input d).isSome = true

variable {Op Point Input Data : Type*} {P : Program Op Point Input Data} {rankOp : Op → Nat}
  {rankPoint : Point → Nat} {o o' : AsyncObject Op Point Data} {a : ObjectAction Input}

/-- The steps that the handlers of an object which run may still take. -/
def AsyncObject.runningCost (rankPoint : Point → Nat) (o : AsyncObject Op Point Data) : Nat :=
  (o.running.map rankPoint).sum

/-- The steps that an object may still take. -/
def AsyncObject.cost (rankOp : Op → Nat) (rankPoint : Point → Nat)
    (o : AsyncObject Op Point Data) : Nat :=
  (o.pending.map rankOp).sum + o.runningCost rankPoint

/-- **Every step of a handler brings it closer to its end.** -/
theorem Program.HandlersEnd.runningCost (h : P.HandlersEnd rankPoint) {i : Nat} {input : Input}
    (hs : P.stepObject o (.run i input) = some o') :
    o'.runningCost rankPoint + 1 ≤ o.runningCost rankPoint := by
  cases stepObject_inv hs with
  | @run i input p e hp he =>
      have hpos := h.pos p
      have herase := sum_map_eraseIdx rankPoint hp
      simp only [AsyncObject.runningCost, AsyncObject.perform]
      cases hnext : e.next with
      | goto p' =>
          have hlt := h.goto he hnext
          have hset := sum_map_set rankPoint p' hp
          simp only [Next.running]
          omega
      | _ =>
          simp only [Next.running]
          omega

/-- **Every step of an object of a linear program leads down.** -/
theorem ObjectStep.cost (h : ObjectStep P o a o') (hl : P.Linear)
    (hrank : P.Ranked rankOp rankPoint) (hw : o.weight = 1) :
    o'.cost rankOp rankPoint + 1 ≤ o.cost rankOp rankPoint := by
  cases h with
  | @complete i ec received op hop =>
      obtain ⟨hpending, hrunning, rfl⟩ := AsyncObject.only_pending hw hop
      have hlt := hrank.entry op ec
      simp only [AsyncObject.cost, AsyncObject.runningCost, hpending, hrunning,
        List.eraseIdx_cons_zero, List.nil_append, List.map_nil, List.map_cons, List.sum_nil,
        List.sum_cons]
      omega
  | @run i input p e hp he =>
      obtain ⟨hpending, hrunning, rfl, -⟩ := AsyncObject.only_running hw hp
      have hpos := hrank.pos p
      have hone := hl _ _ _ _ he
      simp only [Effect.weight] at hone
      simp only [AsyncObject.cost, AsyncObject.runningCost, AsyncObject.perform, hpending,
        hrunning, List.nil_append, List.map_nil, List.map_cons, List.sum_nil, List.sum_cons]
      -- the step goes on in its handler, or it starts an operation, or neither
      cases hnext : e.next with
      | goto p' =>
          have hlt := hrank.goto he hnext
          simp only [hnext, Next.weight] at hone
          have hstarts : e.starts = [] := List.length_eq_zero_iff.mp (by omega)
          simp only [hstarts, Next.running, List.set_cons_zero, List.map_nil, List.map_cons,
            List.sum_nil, List.sum_cons]
          omega
      | _ =>
          simp only [Next.running, List.eraseIdx_cons_zero, List.map_nil, List.sum_nil]
          rcases hstarts : e.starts with _ | ⟨op, _ | ⟨op', ops⟩⟩
          · simp only [List.map_nil, List.sum_nil]
            omega
          · have hlt := hrank.starts he op (by simp [hstarts])
            simp only [List.map_cons, List.map_nil, List.sum_cons, List.sum_nil]
            omega
          · simp only [hstarts, List.length_cons] at hone
            omega

/-- The steps of an object of a linear program, all of them its own. -/
theorem Program.Ranked.potential (hrank : P.Ranked rankOp rankPoint) (hl : P.Linear) :
    P.machine.Potential (fun _ => True) (fun _ => true) (fun _ => 0)
      (AsyncObject.cost rankOp rankPoint) := by
  refine ⟨?_⟩
  intro o a o' hr _ hs
  exact (stepObject_inv hs).cost hl hrank (weight_eq_one hl hr)

/-- **An object takes no more steps than its first operation has in rank.** -/
theorem Program.Ranked.length_le (hrank : P.Ranked rankOp rankPoint) (hl : P.Linear)
    {as : List (ObjectAction Input)} (he : P.machine.exec P.machine.init as = some o) :
    as.length ≤ rankOp P.first := by
  have hle := (hrank.potential hl).countP_le .init (fun _ _ => trivial) he
  have hinit : P.machine.init.cost rankOp rankPoint = rankOp P.first := by
    simp [Program.machine, Program.start, AsyncObject.cost, AsyncObject.runningCost]
  simp only [List.countP_true, List.map_const', List.sum_replicate_nat, Nat.mul_zero, hinit] at hle
  omega

end AsioStudy
