/-
Steps that succeed.

A computation of several steps succeeds only when each of its steps does, and a
change of its errors makes no difference then. Otherwise it fails with the error of
the first step that fails. Two computations whose steps end alike end alike.
-/

namespace RelationalLayout

variable {ε δ α β : Type}

theorem bind_eq_ok_iff {first : Except ε α} {next : α → Except ε β} {result : β} :
    (first >>= next) = .ok result ↔ ∃ value, first = .ok value ∧ next value = .ok result := by
  cases first with
  | error fault =>
      refine iff_of_false (fun impossible => by cases impossible) ?_
      intro given
      obtain ⟨_, impossible, _⟩ := given
      cases impossible
  | ok value =>
      constructor
      · exact fun succeeds => ⟨value, rfl, succeeds⟩
      · intro given
        obtain ⟨_, same, succeeds⟩ := given
        cases same
        exact succeeds

theorem bind_eq_error_iff {first : Except ε α} {next : α → Except ε β} {fault : ε} :
    (first >>= next) = .error fault ↔
      first = .error fault ∨ ∃ value, first = .ok value ∧ next value = .error fault := by
  cases first with
  | error other =>
      constructor
      · intro same
        cases same
        exact Or.inl rfl
      · rintro (same | ⟨_, impossible, _⟩)
        · cases same
          rfl
        · cases impossible
  | ok value =>
      constructor
      · exact fun fails => Or.inr ⟨value, rfl, fails⟩
      · rintro (impossible | ⟨_, same, fails⟩)
        · cases impossible
        · cases same
          exact fails

theorem exists_eq_ok_iff {first : Except ε α} :
    (∃ value, first = .ok value) ↔ ∀ fault, ¬first = .error fault := by
  cases first with
  | error other =>
      constructor
      · rintro ⟨_, impossible⟩
        cases impossible
      · intro succeeds
        exact absurd rfl (succeeds other)
  | ok value =>
      constructor
      · intro _ fault impossible
        cases impossible
      · exact fun _ => ⟨value, rfl⟩

theorem eq_ok_of_mapError_eq_ok {first : Except ε α} {change : ε → δ} {value : α}
    (succeeds : first.mapError change = .ok value) : first = .ok value := by
  cases first with
  | error fault => cases succeeds
  | ok found =>
      cases succeeds
      rfl

theorem exists_eq_error_of_mapError_eq_error {first : Except ε α} {change : ε → δ} {fault : δ}
    (failed : first.mapError change = .error fault) :
    ∃ error, first = .error error ∧ fault = change error := by
  cases first with
  | ok value => cases failed
  | error error =>
      cases failed
      exact ⟨error, rfl, rfl⟩

/-- Two computations fail with the same error, or succeed with related results. -/
inductive EndsAlike (relation : α → β → Prop) : Except ε α → Except ε β → Prop
  | ok {left : α} {right : β} (related : relation left right) :
      EndsAlike relation (.ok left) (.ok right)
  | error (fault : ε) : EndsAlike relation (.error fault) (.error fault)

namespace EndsAlike

variable {relation : α → β → Prop} {left : Except ε α} {right : Except ε β}

theorem exists_eq_ok (alike : EndsAlike relation left right) {value : α}
    (succeeds : left = .ok value) : ∃ other, right = .ok other ∧ relation value other := by
  cases alike with
  | ok related =>
      cases succeeds
      exact ⟨_, rfl, related⟩
  | error fault => cases succeeds

theorem eq_error (alike : EndsAlike relation left right) {fault : ε} (failed : left = .error fault) :
    right = .error fault := by
  cases alike with
  | ok related => cases failed
  | error other =>
      cases failed
      rfl

theorem map {γ δ : Type} {further : γ → δ → Prop} (alike : EndsAlike relation left right)
    {changeLeft : α → γ} {changeRight : β → δ}
    (change : ∀ value other, relation value other → further (changeLeft value) (changeRight other)) :
    EndsAlike further (left.map changeLeft) (right.map changeRight) := by
  cases alike with
  | ok related => exact .ok (change _ _ related)
  | error fault => exact .error fault

theorem bind {γ δ : Type} {further : γ → δ → Prop} (alike : EndsAlike relation left right)
    {nextLeft : α → Except ε γ} {nextRight : β → Except ε δ}
    (next : ∀ value other, relation value other →
      EndsAlike further (nextLeft value) (nextRight other)) :
    EndsAlike further (left >>= nextLeft) (right >>= nextRight) := by
  cases alike with
  | ok related => exact next _ _ related
  | error fault => exact .error fault

end EndsAlike

theorem exists_eq_ok_of_isOk {first : Except ε α} (succeeds : first.isOk = true) :
    ∃ value, first = .ok value := by
  cases first with
  | error fault => cases succeeds
  | ok value => exact ⟨value, rfl⟩

end RelationalLayout
