/-!
Steps that may fail: what is known when a sequence of them succeeds.
-/

namespace Arborist.Outcome

@[simp] theorem ok_bind (value : α) (next : α → Except ε β) : (Except.ok value >>= next) = next value :=
  rfl

@[simp] theorem error_bind (fault : ε) (next : α → Except ε β) :
    (Except.error fault >>= next) = .error fault := rfl

@[simp] theorem pure_eq_ok (value : α) : (pure value : Except ε α) = .ok value := rfl

@[simp] theorem throw_eq_error (fault : ε) : (throw fault : Except ε α) = .error fault := rfl

@[simp] theorem ok_mapError (value : α) (wrap : ε → δ) : (Except.ok value).mapError wrap = .ok value := rfl

@[simp] theorem error_mapError (fault : ε) (wrap : ε → δ) :
    (Except.error fault : Except ε α).mapError wrap = .error (wrap fault) := rfl

theorem bind_eq_ok_iff {step : Except ε α} {next : α → Except ε β} {result : β} :
    (step >>= next) = .ok result ↔ ∃ value, step = .ok value ∧ next value = .ok result := by
  cases step <;> simp

theorem map_eq_ok_iff {result : Except ε α} {change : α → β} {changed : β} :
    result.map change = .ok changed ↔ ∃ value, result = .ok value ∧ change value = changed := by
  cases result <;> simp [Except.map]

theorem map_eq_error_iff {result : Except ε α} {change : α → β} {fault : ε} :
    result.map change = .error fault ↔ result = .error fault := by
  cases result <;> simp [Except.map]

theorem mapError_eq_ok_iff {result : Except ε α} {wrap : ε → δ} {value : α} :
    result.mapError wrap = .ok value ↔ result = .ok value := by
  cases result <;> simp

theorem isOk_eq_isOk {left : Except ε α} {right : Except δ β}
    (same : (∃ value, left = .ok value) ↔ ∃ value, right = .ok value) : left.isOk = right.isOk := by
  cases left <;> cases right <;> simp_all [Except.isOk, Except.toBool]

theorem exists_of_mem_mapM {items : List α} {step : α → Except ε β} {results : List β} {result : β}
    (done : items.mapM step = .ok results) (member : result ∈ results) :
    ∃ item ∈ items, step item = .ok result := by
  induction items generalizing results with
  | nil =>
      cases done
      cases member
  | cons first rest ih =>
      rw [List.mapM_cons] at done
      obtain ⟨head, onFirst, afterFirst⟩ := bind_eq_ok_iff.mp done
      obtain ⟨tail, onRest, same⟩ := bind_eq_ok_iff.mp afterFirst
      cases same
      rcases List.mem_cons.mp member with rfl | inTail
      · exact ⟨first, by simp, onFirst⟩
      · obtain ⟨item, among, gives⟩ := ih onRest inTail
        exact ⟨item, by simp [among], gives⟩

theorem exists_mapM_iff {items : List α} {step : α → Except ε β} :
    (∃ results, items.mapM step = .ok results) ↔ ∀ item ∈ items, ∃ result, step item = .ok result := by
  induction items with
  | nil => simp [List.mapM_nil]
  | cons first rest ih =>
      rw [List.forall_mem_cons, ← ih, List.mapM_cons]
      constructor
      · intro done
        obtain ⟨results, whole⟩ := done
        obtain ⟨head, onFirst, afterFirst⟩ := bind_eq_ok_iff.mp whole
        obtain ⟨tail, onRest, -⟩ := bind_eq_ok_iff.mp afterFirst
        exact ⟨⟨head, onFirst⟩, tail, onRest⟩
      · intro both
        obtain ⟨⟨head, onFirst⟩, tail, onRest⟩ := both
        exact ⟨head :: tail, by rw [onFirst, ok_bind, onRest]; rfl⟩

theorem mapM_eq_ok_map {items : List α} {step : α → Except ε β} {give : α → β}
    (gives : ∀ item ∈ items, step item = .ok (give item)) : items.mapM step = .ok (items.map give) := by
  induction items with
  | nil => rfl
  | cons first rest ih =>
      rw [List.mapM_cons, gives first List.mem_cons_self, ok_bind,
        ih fun item member => gives item (List.mem_cons_of_mem first member)]
      rfl

theorem holds_of_foldlM {items : List α} {step : β → α → Except ε β} {holds : β → Prop} {first last : β}
    (keeps : ∀ item ∈ items, ∀ value next, holds value → step value item = .ok next → holds next)
    (start : holds first) (done : items.foldlM step first = .ok last) : holds last := by
  induction items generalizing first with
  | nil => exact Except.ok.inj done ▸ start
  | cons item rest ih =>
      rw [List.foldlM_cons] at done
      obtain ⟨next, onItem, onRest⟩ := bind_eq_ok_iff.mp done
      refine ih (fun later member => keeps later (List.mem_cons_of_mem _ member)) ?_ onRest
      exact keeps item List.mem_cons_self first next start onItem

end Arborist.Outcome
