import Arborist.Service.State

/-!
Running actions: what each way of putting actions together gives, as a result and a state.
-/

namespace Arborist.Action

theorem ext_run {action other : Action α} (same : ∀ service, action.run service = other.run service) :
    action = other :=
  funext same

variable (service : Service)

@[simp] theorem run_pure (value : α) : Action.run (pure value) service = (.ok value, service) := rfl

@[simp] theorem run_throw (fault : Fault) :
    Action.run (throw fault : Action α) service = (.error fault, service) := rfl

@[simp] theorem run_get : Action.run (get : Action Service) service = (.ok service, service) := rfl

@[simp] theorem run_modify (change : Service → Service) :
    Action.run (modify change) service = (.ok (), change service) := rfl

@[simp] theorem run_lift (result : Except Fault α) :
    Action.run (lift result) service = (result, service) := rfl

theorem run_bind (action : Action α) (next : α → Action β) :
    Action.run (action >>= next) service =
      match Action.run action service with
      | (.ok value, after) => Action.run (next value) after
      | (.error fault, after) => (.error fault, after) := by
  change StateT.run (ExceptT.run (action >>= next)) service = _
  rw [ExceptT.run_bind, StateT.run_bind]
  change (match StateT.run (ExceptT.run action) service with
    | (result, after) => StateT.run _ after) = _
  rcases outcome : Action.run action service with ⟨result, after⟩
  have inner : StateT.run (ExceptT.run action) service = (result, after) := outcome
  rw [inner]
  cases result <;> rfl

theorem run_bind_eq_ok_iff {action : Action α} {next : α → Action β} {result : β} :
    (Action.run (action >>= next) service).1 = .ok result ↔
      ∃ value, (Action.run action service).1 = .ok value ∧
        (Action.run (next value) (Action.run action service).2).1 = .ok result := by
  rw [run_bind]
  rcases Action.run action service with ⟨outcome, after⟩
  cases outcome <;> simp

@[simp] theorem run_map (action : Action α) (change : α → β) :
    Action.run (change <$> action) service =
      ((Action.run action service).1.map change, (Action.run action service).2) := by
  rw [← bind_pure_comp, run_bind]
  rcases Action.run action service with ⟨result, after⟩
  cases result <;> rfl

@[simp] theorem run_onStore (read : Store → Except Fault α) :
    Action.run (onStore read) service = (read service.store, service) := rfl

theorem run_tryCatch (action : Action α) (handle : Fault → Action α) :
    Action.run (tryCatchThe Fault action handle) service =
      match Action.run action service with
      | (.ok value, after) => (.ok value, after)
      | (.error fault, after) => Action.run (handle fault) after := by
  change StateT.run (ExceptT.run (tryCatch action handle)) service = _
  rw [ExceptT.run_tryCatch, StateT.run_bind]
  change (match StateT.run (ExceptT.run action) service with
    | (result, after) => StateT.run _ after) = _
  rcases outcome : Action.run action service with ⟨result, after⟩
  have inner : StateT.run (ExceptT.run action) service = (result, after) := outcome
  rw [inner]
  cases result <;> rfl

theorem run_mapFault (action : Action α) (wrap : Fault → Fault) :
    Action.run (mapFault action wrap) service =
      ((Action.run action service).1.mapError wrap, (Action.run action service).2) := by
  rw [mapFault, run_tryCatch]
  rcases Action.run action service with ⟨result, after⟩
  cases result <;> rfl

theorem run_attempt (action : Action α) :
    Action.run (attempt action) service =
      (.ok (Action.run action service).1, (Action.run action service).2) := by
  rw [attempt, run_tryCatch, run_bind]
  rcases Action.run action service with ⟨result, after⟩
  cases result <;> rfl

end Arborist.Action
