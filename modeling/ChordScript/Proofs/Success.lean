namespace ChordScript

variable {ε α β : Type}

theorem ok_of_bind {x : Except ε α} {f : α → Except ε β} {b : β} (h : x >>= f = .ok b) :
    ∃ a, x = .ok a ∧ f a = .ok b := by
  cases x with
  | error e => cases h
  | ok a => exact ⟨a, rfl, h⟩

theorem error_of_bind {x : Except ε α} {f : α → Except ε β} {e : ε} (h : x >>= f = .error e) :
    x = .error e ∨ ∃ a, x = .ok a ∧ f a = .error e := by
  cases x with
  | error e' => exact .inl (congrArg _ (Except.error.inj h))
  | ok a => exact .inr ⟨a, rfl, h⟩

theorem ok_of_map {x : Except ε α} {f : α → β} {b : β} (h : x.map f = .ok b) :
    ∃ a, x = .ok a ∧ f a = b := by
  cases x with
  | error e => cases h
  | ok a => exact ⟨a, rfl, Except.ok.inj h⟩

theorem error_of_map {x : Except ε α} {f : α → β} {e : ε} (h : x.map f = .error e) :
    x = .error e := by
  cases x with
  | error e' => rw [Except.error.inj h]
  | ok a => cases h

theorem error_of_foldlM {f : α → β → Except ε α} {a : α} {xs : List β} {e : ε}
    (h : xs.foldlM f a = .error e) :
    ∃ before x after b, xs = before ++ x :: after ∧ before.foldlM f a = .ok b ∧ f b x = .error e := by
  induction xs generalizing a with
  | nil => cases h
  | cons x xs ih =>
      rw [List.foldlM_cons] at h
      cases hx : f a x with
      | error e' =>
          rw [hx] at h
          cases h
          exact ⟨[], x, xs, a, rfl, rfl, hx⟩
      | ok a' =>
          rw [hx] at h
          obtain ⟨before, y, after, b, rfl, hb, hy⟩ := ih h
          refine ⟨x :: before, y, after, b, rfl, ?_, hy⟩
          rw [List.foldlM_cons, hx]
          exact hb

theorem foldlM_of_error {f : α → β → Except ε α} {a b : α} {before : List β} {x : β} {e : ε}
    (hb : before.foldlM f a = .ok b) (hx : f b x = .error e) (after : List β) :
    (before ++ x :: after).foldlM f a = .error e := by
  rw [List.foldlM_append, hb]
  change (x :: after).foldlM f b = .error e
  rw [List.foldlM_cons, hx]
  rfl

end ChordScript
