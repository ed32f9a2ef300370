/-
Refusals and what parsers make of them.

Of two refusals the further one counts, so a refusal from before is lost as soon as a
token behind it is refused. A loop or a choice is what its parsers make of the tokens, one
after the other, with the refusals of all of them.
-/

import RelationalLayout.Text.Parser

namespace RelationalLayout

variable {place α β : Type}

/-! ### Refusals -/

namespace Refusal

/-- There is no refusal at some tokens or behind them. -/
def Before (refusal : Option (Refusal place)) (tokens : List (Token × place)) : Prop :=
  ∀ earlier ∈ refusal, tokens.length < earlier.left.length

variable {refusal first second : Option (Refusal place)} {tokens later : List (Token × place)}

theorem before_none (tokens : List (Token × place)) : Before none tokens :=
  fun _ impossible => by cases impossible

theorem before_some_iff {earlier : Refusal place} :
    Before (some earlier) tokens ↔ tokens.length < earlier.left.length := by
  constructor
  · exact fun before => before earlier rfl
  · intro longer other same
    cases same
    exact longer

theorem Before.mono (before : Before refusal tokens) (fewer : later.length ≤ tokens.length) :
    Before refusal later :=
  fun earlier given => Nat.lt_of_le_of_lt fewer (before earlier given)

@[simp]
theorem furthest_none (refusal : Option (Refusal place)) : furthest refusal none = refusal := by
  cases refusal <;> rfl

theorem furthest_of_before {further : Refusal place} (before : Before refusal further.left) :
    furthest refusal (some further) = some further := by
  cases refusal with
  | none => rfl
  | some earlier =>
      have longer := before earlier rfl
      rw [furthest, if_neg (Nat.lt_asymm longer), if_pos longer]

theorem furthest_of_before_right {further : Refusal place} (before : Before refusal further.left) :
    furthest (some further) refusal = some further := by
  cases refusal with
  | none => rfl
  | some earlier => rw [furthest, if_pos (before earlier rfl)]

theorem furthest_same (left : List (Token × place)) (first second : List Expectation) :
    furthest (some { left := left, expected := first })
        (some { left := left, expected := second }) =
      some (merge { left := left, expected := first } { left := left, expected := second }) := by
  rw [furthest, if_neg (Nat.lt_irrefl _), if_neg (Nat.lt_irrefl _)]

theorem before_furthest (firstBefore : Before first tokens) (secondBefore : Before second tokens) :
    Before (furthest first second) tokens := by
  cases first with
  | none => exact secondBefore
  | some one =>
      cases second with
      | none => exact firstBefore
      | some other =>
          rw [furthest]
          split
          · exact firstBefore
          · split
            · exact secondBefore
            · exact before_some_iff.mpr (firstBefore one rfl)

theorem merge_assoc (first second third : Refusal place) :
    (first.merge second).merge third = first.merge (second.merge third) := by
  have unknown : third.expected.filter (fun expectation =>
        expectation ∉ (first.merge second).expected) =
      (third.expected.filter (fun expectation => expectation ∉ second.expected)).filter
        (fun expectation => expectation ∉ first.expected) := by
    rw [List.filter_filter]
    apply List.filter_congr
    intro expectation _
    by_cases known : expectation ∈ first.expected <;> simp [merge, known]
  show mk first.left ((first.merge second).expected ++ third.expected.filter (fun expectation =>
      expectation ∉ (first.merge second).expected)) = _
  rw [unknown, merge, merge, merge, List.filter_append, List.append_assoc]

theorem furthest_assoc (first second third : Option (Refusal place)) :
    furthest (furthest first second) third = furthest first (furthest second third) := by
  cases first with
  | none => rfl
  | some one =>
      cases second with
      | none => rfl
      | some two =>
          cases third with
          | none => rw [furthest_none, furthest_none]
          | some three =>
              have left (one two : Refusal place) : (one.merge two).left = one.left := rfl
              grind [furthest, merge_assoc]

end Refusal

/-! ### Parsers -/

theorem Attempt.after_after (attempt : Attempt place α)
    (first second : Option (Refusal place)) :
    (attempt.after second).after first = attempt.after (Refusal.furthest first second) := by
  rw [after, after, after, Refusal.furthest_assoc]

theorem Attempt.after_of_before {value : Option (α × List (Token × place))}
    {further : Refusal place} {earlier : Option (Refusal place)}
    (before : Refusal.Before earlier further.left) :
    (⟨value, some further⟩ : Attempt place α).after earlier = ⟨value, some further⟩ := by
  rw [after, Refusal.furthest_of_before before]

namespace Parser

variable {parser first second : Parser place α} {next : α → Parser place β}
  {tokens left : List (Token × place)} {value : α} {refusal : Option (Refusal place)}

theorem bind_of_value (read : parser tokens = ⟨some (value, left), refusal⟩) :
    (parser >>= next) tokens = (next value left).after refusal := by
  show parser.andThen next tokens = _
  rw [andThen, read]

theorem bind_of_none (refused : parser tokens = ⟨none, refusal⟩) :
    (parser >>= next) tokens = ⟨none, refusal⟩ := by
  show parser.andThen next tokens = _
  rw [andThen, refused]

theorem select_bind_of_none {expected : List Expectation} {choose : Token → Option α}
    {token : Token × place} (unfit : choose token.1 = none) (rest : List (Token × place)) :
    (select expected choose >>= next) (token :: rest) = refuse expected (token :: rest) := by
  have refused : select expected choose (token :: rest) = refuse expected (token :: rest) := by
    rw [select, unfit]
  exact bind_of_none refused

theorem just_bind_of_ne {next : Unit → Parser place β} {token : Token × place} {expected : Token}
    (different : token.1 ≠ expected) (rest : List (Token × place)) :
    (just expected >>= next) (token :: rest) = refuse [.token expected] (token :: rest) :=
  select_bind_of_none (if_neg different) rest

theorem orElse_of_value (read : first tokens = ⟨some (value, left), refusal⟩) :
    first.orElse second tokens = ⟨some (value, left), refusal⟩ := by
  rw [orElse, read]

theorem orElse_of_none (refused : first tokens = ⟨none, refusal⟩) :
    first.orElse second tokens = (second tokens).after refusal := by
  rw [orElse, refused]

theorem refuse_after (tokens : List (Token × place)) (first second : List Expectation) :
    (refuse second tokens : Attempt place α).after
        (some { left := tokens, expected := first }) =
      refuse (first ++ second.filter (fun expectation => expectation ∉ first)) tokens := by
  rw [refuse, Attempt.after, Refusal.furthest_same]
  rfl

theorem orElse_of_refuse {firstExpected secondExpected : List Expectation}
    (firstRefused : first tokens = refuse firstExpected left)
    (secondRefused : second tokens = refuse secondExpected left) :
    first.orElse second tokens = refuse (firstExpected ++
      secondExpected.filter (fun expectation => expectation ∉ firstExpected)) left := by
  rw [orElse_of_none firstRefused, secondRefused, refuse_after]

theorem refuse_after_of_further {further : Refusal place} {token : Token × place}
    (fewer : further.left.length ≤ tokens.length) (expected : List Expectation) :
    (refuse expected (token :: tokens) : Attempt place α).after (some further) =
      ⟨none, some further⟩ := by
  have before : Refusal.Before (some ⟨token :: tokens, expected⟩) further.left :=
    Refusal.before_some_iff.mpr (Nat.lt_succ_of_le fewer)
  rw [refuse, Attempt.after, Refusal.furthest_of_before_right before]

theorem optional_bind_of_value {next : Option α → Parser place β}
    (read : parser tokens = ⟨some (value, left), refusal⟩) :
    (parser.optional >>= next) tokens = (next (some value) left).after refusal := by
  have mapped : (some <$> parser) tokens = ⟨some (some value, left), refusal⟩ := by
    show (parser >>= fun value => pure (some value)) tokens = _
    rw [bind_of_value read]
    show (⟨some (some value, left), Refusal.furthest refusal none⟩ : Attempt place _) = _
    rw [Refusal.furthest_none]
  exact bind_of_value (orElse_of_value mapped)

theorem optional_bind_of_none {next : Option α → Parser place β}
    (refused : parser tokens = ⟨none, refusal⟩) :
    (parser.optional >>= next) tokens = (next none tokens).after refusal := by
  have mapped : (some <$> parser) tokens = ⟨none, refusal⟩ := bind_of_none refused
  apply bind_of_value
  rw [optional, orElse_of_none mapped]
  show (⟨some (none, tokens), Refusal.furthest refusal none⟩ : Attempt place _) = _
  rw [Refusal.furthest_none]

/-! ### Lists -/

variable {others : Parser place (List α)}

theorem exists_value_listOf (parser : Parser place α) (others : Parser place (List α))
    (tokens : List (Token × place)) :
    ∃ values left refusal, parser.listOf others tokens = ⟨some (values, left), refusal⟩ := by
  rw [listOf]
  rcases read : (do
      let first ← parser
      let rest ← others
      return first :: rest : Parser place (List α)) tokens with ⟨_ | ⟨values, left⟩, refusal⟩
  · rw [orElse_of_none read]
    exact ⟨[], tokens, _, rfl⟩
  · rw [orElse_of_value read]
    exact ⟨values, left, refusal, rfl⟩

theorem listOf_bind_of_value {next : List α → Parser place β}
    (read : parser tokens = ⟨some (value, left), refusal⟩)
    (goesOn : ∃ values rest later, others left = ⟨some (values, rest), later⟩) :
    (parser.listOf others >>= next) tokens =
      ((others >>= fun rest => next (value :: rest)) left).after refusal := by
  obtain ⟨values, rest, later, followed⟩ := goesOn
  have whole : (do
      let first ← parser
      let rest ← others
      return first :: rest : Parser place (List α)) tokens =
        ⟨some (value :: values, rest), Refusal.furthest refusal later⟩ := by
    rw [bind_of_value read, bind_of_value followed]
    show (⟨some (value :: values, rest), Refusal.furthest refusal (Refusal.furthest later none)⟩ :
      Attempt place _) = _
    rw [Refusal.furthest_none]
  rw [bind_of_value followed, Attempt.after_after]
  exact bind_of_value (orElse_of_value whole)

theorem listOf_bind_of_none {next : List α → Parser place β}
    (refused : parser tokens = ⟨none, refusal⟩) :
    (parser.listOf others >>= next) tokens = (next [] tokens).after refusal := by
  apply bind_of_value
  rw [listOf, orElse_of_none (bind_of_none refused)]
  show (⟨some ([], tokens), Refusal.furthest refusal none⟩ : Attempt place _) = _
  rw [Refusal.furthest_none]

theorem exists_value_many (parser : Parser place α) (count : Nat) (tokens : List (Token × place)) :
    ∃ values left refusal, parser.many count tokens = ⟨some (values, left), refusal⟩ := by
  cases count with
  | zero => exact ⟨[], tokens, none, rfl⟩
  | succ count => exact exists_value_listOf parser (parser.many count) tokens

theorem many_bind_of_value {next : List α → Parser place β}
    (read : parser tokens = ⟨some (value, left), refusal⟩) (count : Nat) :
    (parser.many (count + 1) >>= next) tokens =
      ((parser.many count >>= fun rest => next (value :: rest)) left).after refusal :=
  listOf_bind_of_value read (exists_value_many parser count left)

theorem many_bind_of_none {next : List α → Parser place β}
    (refused : parser tokens = ⟨none, refusal⟩) (count : Nat) :
    (parser.many (count + 1) >>= next) tokens = (next [] tokens).after refusal :=
  listOf_bind_of_none refused

theorem separatedBy_bind_of_value {separator : Parser place Unit} {next : List α → Parser place β}
    (read : parser tokens = ⟨some (value, left), refusal⟩) :
    (parser.separatedBy separator >>= next) tokens =
      (((do separator; parser).many (left.length + 1) >>= fun rest => next (value :: rest))
        left).after refusal :=
  listOf_bind_of_value read (exists_value_many (do separator; parser) (left.length + 1) left)

theorem separatedBy_bind_of_none {separator : Parser place Unit} {next : List α → Parser place β}
    (refused : parser tokens = ⟨none, refusal⟩) :
    (parser.separatedBy separator >>= next) tokens = (next [] tokens).after refusal :=
  listOf_bind_of_none refused

end Parser

end RelationalLayout
