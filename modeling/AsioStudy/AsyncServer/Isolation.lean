import AsioStudy.AsyncServer.Conservation

/-!
# AsioStudy.AsyncServer.Isolation

A run of a server is a shuffle of the runs of its services: what the `j`-th service has become
is what its program makes of the completions and steps of that service alone, in their order
(`exec_service`). The other connections, the threads and `Stop` only decide when they come.
-/

namespace AsioStudy.AsyncServer

variable {Op Point Input Data : Type*} {P : Program Op Point Input Data} {thread_pool_size : Nat}
  {s s' : State Op Point Data} {a : Action Input} {j : Nat}

/-- The part of an action that the `j`-th service takes. -/
def Action.of (j : Nat) : Action Input → Option (ObjectAction Input)
  | .service i a => if i = j then some a else none
  | .server | .accept _ _ | .onAccept _ => none

/-- The run of the `j`-th service within a run of the server. -/
def runOf (j : Nat) (as : List (Action Input)) : List (ObjectAction Input) :=
  as.filterMap (Action.of j)

theorem runOf_concat (j : Nat) (as : List (Action Input)) (a : Action Input) :
    runOf j (as ++ [a]) = runOf j as ++ (a.of j).toList := by
  rw [runOf, List.filterMap_append]
  cases h : a.of j <;> simp [runOf, h]

/-- What a step does to the `j`-th service: it is made, or it takes its part of the step. -/
inductive ServiceStep (P : Program Op Point Input Data) (j : Nat) (s : State Op Point Data)
    (a : Action Input) (s' : State Op Point Data) : Prop
  | made (x : Served Op Point Data) : s.services[j]? = none → a.of j = none →
      s'.services[j]? = some x → x.service = P.start → ServiceStep P j s a s'
  | runs (x : Served Op Point Data) (b : ObjectAction Input) (o : AsyncObject Op Point Data) :
      s.services[j]? = some x → a.of j = some b → P.stepObject x.service b = some o →
      s'.services[j]? = some { x with service := o } → ServiceStep P j s a s'
  | none : a.of j = none → s'.services[j]? = s.services[j]? → ServiceStep P j s a s'

theorem stepOnAccept_service (i sock : Nat) (pc : AcceptPc) (s : State Op Point Data) :
    (stepOnAccept P s i sock pc).services = s.services ∨
      (stepOnAccept P s i sock pc).services = s.services ++ [⟨sock, P.start⟩] := by
  cases pc with
  | entry ec =>
      by_cases hec : ec.value = 0
      · exact .inr (by simp [stepOnAccept, hec, State.goto])
      · exact .inl (by simp [stepOnAccept, hec, State.goto])
  | _ => exact .inl rfl

theorem Step.serviceStep (h : Step P s a s') (j : Nat) : ServiceStep P j s a s' := by
  cases h with
  | @onAccept i sock pc _ =>
      rcases stepOnAccept_service (P := P) i sock pc s with hs | hs
      · exact .none rfl (by rw [hs])
      · rcases Nat.lt_trichotomy j s.services.length with hj | rfl | hj
        · exact .none rfl (by rw [hs, List.getElem?_append_left hj])
        · exact .made ⟨sock, P.start⟩ (List.getElem?_eq_none (Nat.le_refl _)) rfl
            (by rw [hs, List.getElem?_concat_length]) rfl
        · refine .none rfl ?_
          rw [hs, List.getElem?_append_right (Nat.le_of_lt hj),
            List.getElem?_eq_none (Nat.le_of_lt hj)]
          refine List.getElem?_eq_none ?_
          rw [List.length_singleton]
          omega
  | @service i b x o hx ho _ =>
      by_cases hij : i = j
      · subst hij
        have hj : i < s.services.length := (List.getElem?_eq_some_iff.mp hx).1
        exact .runs x b o hx (by simp [Action.of]) ho (by simp [hj])
      · exact .none (by simp [Action.of, hij]) (by simp [hij])
  | _ => exact .none rfl rfl

/-- **Isolation.** Every service is where its own part of the run takes it. -/
theorem exec_service {as : List (Action Input)}
    (he : (machine P thread_pool_size).exec (machine P thread_pool_size).init as = some s)
    {x : Served Op Point Data} (hx : s.services[j]? = some x) :
    P.machine.exec P.start (runOf j as) = some x.service := by
  have hall : (s.services[j]? = none → runOf j as = []) ∧
      ∀ x, s.services[j]? = some x → P.machine.exec P.start (runOf j as) = some x.service := by
    refine TransitionSystem.exec_history
      (P := fun as s => (s.services[j]? = none → runOf j as = []) ∧
        ∀ x, s.services[j]? = some x → P.machine.exec P.start (runOf j as) = some x.service)
      ?_ ?_ he
    · exact ⟨fun _ => rfl, by simp [machine, State.init]⟩
    · rintro as s a s' _ ⟨hnone, hsome⟩ hs
      rw [runOf_concat]
      rcases (step_inv hs).serviceStep j with
        ⟨y, hold, hof, hnew, hstart⟩ | ⟨y, b, o, hold, hof, ho, hnew⟩ | ⟨hof, hsame⟩
      · rw [hof, hnone hold, hnew]
        refine ⟨by simp, ?_⟩
        rintro x ⟨⟩
        rw [hstart]
        rfl
      · rw [hof, hnew, TransitionSystem.exec_append, hsome y hold]
        refine ⟨by simp, ?_⟩
        rintro x ⟨⟩
        exact TransitionSystem.exec_cons_of_step ho rfl
      · rw [hof, hsame, Option.toList_none, List.append_nil]
        exact ⟨hnone, hsome⟩
  exact hall.2 x hx

end AsioStudy.AsyncServer
