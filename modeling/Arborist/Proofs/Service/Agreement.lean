import Arborist.Proofs.Service.ActionRun

/-!
Two actions side by side.  They agree if, started in related states, they end in related states, and
with related values or with the same fault.
-/

namespace Arborist

/-- Two values in a relation, or one fault twice. -/
inductive Alike (same : α → β → Prop) : Except Fault α → Except Fault β → Prop where
  | ok {left right} (related : same left right) : Alike same (.ok left) (.ok right)
  | error (fault : Fault) : Alike same (.error fault) (.error fault)

namespace Alike

theorem refl (result : Except Fault α) : Alike Eq result result := by
  cases result with
  | ok value => exact .ok rfl
  | error fault => exact .error fault

theorem eq {left right : Except Fault α} (alike : Alike Eq left right) : left = right := by
  cases alike with
  | ok related => rw [related]
  | error fault => rfl

theorem exists_of_ok {same : α → β → Prop} {left : Except Fault α} {right : Except Fault β}
    (alike : Alike same left right) {value : α} (told : left = .ok value) :
    ∃ other, right = .ok other ∧ same value other := by
  cases alike with
  | ok related =>
      cases told
      exact ⟨_, rfl, related⟩
  | error fault => cases told

theorem exists_ok_iff {same : α → β → Prop} {left : Except Fault α} {right : Except Fault β}
    (alike : Alike same left right) : (∃ value, left = .ok value) ↔ ∃ value, right = .ok value := by
  cases alike with
  | ok related => exact ⟨fun _ => ⟨_, rfl⟩, fun _ => ⟨_, rfl⟩⟩
  | error fault => simp

theorem mapError {same : α → β → Prop} {left : Except Fault α} {right : Except Fault β}
    (alike : Alike same left right) (wrap : Fault → Fault) :
    Alike same (left.mapError wrap) (right.mapError wrap) := by
  cases alike with
  | ok related => exact .ok related
  | error fault => exact .error (wrap fault)

end Alike

namespace Action

structure EndAlike (kept : Service → Service → Prop) (same : α → β → Prop)
    (left : Except Fault α × Service) (right : Except Fault β × Service) : Prop where
  alike : Alike same left.1 right.1
  kept : kept left.2 right.2

def Agree (kept : Service → Service → Prop) (same : α → β → Prop) (left : Action α) (right : Action β) :
    Prop :=
  ∀ first second, kept first second → EndAlike kept same (left.run first) (right.run second)

variable {kept : Service → Service → Prop}

theorem EndAlike.bind {same : α → β → Prop} {other : γ → δ → Prop} {left : Action α} {right : Action β}
    {first second : Service} {next : α → Action γ} {follow : β → Action δ}
    (start : EndAlike kept same (left.run first) (right.run second))
    (continues : ∀ value result, same value result → Agree kept other (next value) (follow result)) :
    EndAlike kept other ((left >>= next).run first) ((right >>= follow).run second) := by
  rw [run_bind, run_bind]
  rcases ends : left.run first with ⟨leftResult, leftState⟩
  rcases finishes : right.run second with ⟨rightResult, rightState⟩
  rw [ends, finishes] at start
  obtain ⟨alike, related⟩ := start
  cases alike with
  | ok values => exact continues _ _ values _ _ related
  | error fault => exact ⟨.error fault, related⟩

theorem Agree.bind {same : α → β → Prop} {other : γ → δ → Prop} {left : Action α} {right : Action β}
    {next : α → Action γ} {follow : β → Action δ} (start : Agree kept same left right)
    (continues : ∀ value result, same value result → Agree kept other (next value) (follow result)) :
    Agree kept other (left >>= next) (right >>= follow) :=
  fun first second related => (start first second related).bind continues

theorem Agree.bind_eq {other : γ → δ → Prop} {left right : Action α} {next : α → Action γ}
    {follow : α → Action δ} (start : Agree kept Eq left right)
    (continues : ∀ value, Agree kept other (next value) (follow value)) :
    Agree kept other (left >>= next) (right >>= follow) := by
  refine start.bind ?_
  rintro value _ rfl
  exact continues value

theorem agree_pure {same : α → β → Prop} {value : α} {result : β} (related : same value result) :
    Agree kept same (pure value) (pure result) :=
  fun _ _ states => ⟨.ok related, states⟩

theorem agree_throw (same : α → β → Prop) (fault : Fault) : Agree kept same (throw fault) (throw fault) :=
  fun _ _ states => ⟨.error fault, states⟩

theorem agree_throw_bind {other : γ → δ → Prop} (fault : Fault) (next : α → Action γ)
    (follow : β → Action δ) : Agree kept other (throw fault >>= next) (throw fault >>= follow) :=
  (agree_throw (fun _ _ => False) fault).bind fun _ _ => False.elim

theorem agree_lift {same : α → β → Prop} {left : Except Fault α} {right : Except Fault β}
    (alike : Alike same left right) : Agree kept same (lift left) (lift right) :=
  fun _ _ states => ⟨alike, states⟩

theorem agree_get : Agree kept kept get get :=
  fun _ _ states => ⟨.ok states, states⟩

theorem agree_modify {change alter : Service → Service}
    (keeps : ∀ {first second}, kept first second → kept (change first) (alter second)) :
    Agree kept Eq (modify change) (modify alter) :=
  fun _ _ states => ⟨.ok rfl, keeps states⟩

theorem EndAlike.mapFault {same : α → β → Prop} {left : Action α} {right : Action β}
    {first second : Service} (ends : EndAlike kept same (left.run first) (right.run second))
    (wrap : Fault → Fault) :
    EndAlike kept same ((left.mapFault wrap).run first) ((right.mapFault wrap).run second) := by
  rw [run_mapFault, run_mapFault]
  exact ⟨ends.alike.mapError wrap, ends.kept⟩

theorem Agree.mapFault {same : α → β → Prop} {left : Action α} {right : Action β}
    (agree : Agree kept same left right) (wrap : Fault → Fault) :
    Agree kept same (left.mapFault wrap) (right.mapFault wrap) :=
  fun first second related => (agree first second related).mapFault wrap

theorem Agree.attempt {same : α → β → Prop} {left : Action α} {right : Action β}
    (agree : Agree kept same left right) : Agree kept (Alike same) left.attempt right.attempt := by
  intro first second related
  rw [run_attempt, run_attempt]
  obtain ⟨alike, states⟩ := agree first second related
  exact ⟨.ok alike, states⟩

theorem Agree.foldlM {items : List ι} {step : α → ι → Action α} {follow : β → ι → Action β}
    {same : α → β → Prop}
    (agree : ∀ value result item, same value result →
      Agree kept same (step value item) (follow result item)) :
    ∀ {value result}, same value result →
      Agree kept same (items.foldlM step value) (items.foldlM follow result) := by
  induction items with
  | nil => exact agree_pure
  | cons item rest ih =>
      intro value result related
      exact (agree value result item related).bind fun _ _ => ih

end Action

end Arborist
