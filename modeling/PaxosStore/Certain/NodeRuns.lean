import PaxosStore.Certain.PlogWorker

set_option autoImplicit false

namespace PaxosStore.Certain.Node

variable {n : Nat}

-- The states of runs in which every step meets a condition on the state before it.
inductive Reached (o : Options n) (meets : Node n → Env n → Event → Prop) : Node n → Prop where
  | start (route : Nat → Fin n) : Reached o meets (start route)
  | step (s t : Node n) (env : Env n) (event : Event) (before : Reached o meets s) (met : meets s env event)
      (done : s.handle o env event = some t) : Reached o meets t

def Any : Node n → Env n → Event → Prop := fun _ _ _ => True

theorem reached_invariant (o : Options n) (meets : Node n → Env n → Event → Prop) (Inv : Node n → Prop)
    (first : ∀ route, Inv (start route))
    (step : ∀ s t env event, Reached o meets s → Inv s → meets s env event → s.handle o env event = some t → Inv t)
    (s : Node n) (reached : Reached o meets s) : Inv s := by
  induction reached with
  | start route => exact first route
  | step s t env event before met done ih => exact step s t env event before ih met done

theorem reached_weaker (o : Options n) (meets looser : Node n → Env n → Event → Prop)
    (weaker : ∀ s env event, meets s env event → looser s env event) (s : Node n) (reached : Reached o meets s) :
    Reached o looser s := by
  induction reached with
  | start route => exact .start route
  | step s t env event _ met done ih => exact .step s t env event ih (weaker s env event met) done

-- A list of events, each with what the outside answers meanwhile and checked first.
def runEvents (o : Options n) (check : Node n → Event → Bool) (events : List (Env n × Event)) (s : Node n) : Option (Node n) :=
  events.foldlM (fun s (event : Env n × Event) => if check s event.2 then s.handle o event.1 event.2 else none) s

theorem run_reached (o : Options n) (check : Node n → Event → Bool) (meets : Node n → Env n → Event → Prop)
    (sound : ∀ s env event, check s event = true → meets s env event) (events : List (Env n × Event)) (s t : Node n)
    (reached : Reached o meets s) (done : runEvents o check events s = some t) : Reached o meets t := by
  induction events generalizing s with
  | nil =>
      cases done
      exact reached
  | cons event rest ih =>
      rw [runEvents, List.foldlM_cons] at done
      obtain ⟨u, first, later⟩ := Option.bind_eq_some_iff.mp done
      split at first
      · rename_i fine
        exact ih u (.step s u event.1 event.2 reached (sound s event.1 event.2 fine) first) later
      · cases first

def unchecked : Node n → Event → Bool := fun _ _ => true

theorem unchecked_reached (o : Options n) (events : List (Env n × Event)) (s t : Node n) (reached : Reached o Any s)
    (done : runEvents o unchecked events s = some t) : Reached o Any t :=
  run_reached o unchecked Any (fun _ _ _ _ => trivial) events s t reached done

end PaxosStore.Certain.Node
