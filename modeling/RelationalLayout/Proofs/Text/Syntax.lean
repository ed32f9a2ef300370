/-
The parser is refused where a draft is.

Rules agree with a draft up to their separations, and behind a separation that went wrong
there is no further rule. So the furthest refusal is the one of the draft at the token
that it cannot read.
-/

import RelationalLayout.Proofs.Text.Layout

namespace RelationalLayout

open RelationalLayout.Parser

variable {place : Type}

/-! ### Rules -/

def Rule.under (outer : Option Chain) (rule : Rule) : Rule :=
  match outer with
  | none => rule
  | some outer =>
      { rule with chain := { first := outer.first, rest := outer.rest ++ rule.selectors } }

theorem Rule.under_push (outer : Option Chain) (selector : Selector) (rule : Rule) :
    rule.under (some (Chain.push outer selector)) = (rule.inside selector).under outer := by
  cases outer with
  | none => rfl
  | some outer =>
      simp only [under, Chain.push, inside, selectors, Chain.toList, List.append_assoc,
        List.singleton_append]

theorem Rule.under_ending (outer : Option Chain) (selector : Selector) (terminal : Template) :
    (Chain.push outer selector).ending terminal =
      Rule.under outer { chain := { first := selector, rest := [] }, terminal := terminal } := by
  cases outer <;> rfl

section Rules

variable (finished : Program)

theorem rule_succ (limit : Nat) (mark : place) (rest : List (Token × place)) :
    rule (limit + 1) ((.keyword .ifWord, mark) :: rest) =
      (do
        let selector ← selector
        keyword .thenWord
        inside selector (rule limit)) rest := rfl

theorem rule_refuses (limit : Nat) {token : Token} (different : token ≠ .keyword .ifWord)
    (mark : place) (rest : List (Token × place)) :
    rule (limit + 1) ((token, mark) :: rest) =
      refuse [.token (.keyword .ifWord)] ((token, mark) :: rest) :=
  just_bind_of_ne different rest

theorem endsRule_inside {limit : Nat} (outer : Option Chain) (selector : Selector)
    (nested : ∀ (mark : place) rest, rest.length < limit →
      EndsRule (.selecting finished (some (Chain.push outer selector)) .start) rest finished
        (Rule.under (some (Chain.push outer selector)))
        (rule (limit + 1) ((.keyword .ifWord, mark) :: rest)))
    {placed : List (Token × place)} (enough : placed.length < limit + 1) :
    EndsRule (.placing finished (Chain.push outer selector) .start) placed finished
      (Rule.under outer) (inside selector (rule (limit + 1)) placed) := by
  cases placed with
  | nil => exact .agrees (Agrees.refuse rfl rfl rfl)
  | cons token rest =>
      obtain ⟨token, mark⟩ := token
      by_cases again : token = .keyword .ifWord
      · subst again
        have unplaced : (do
            return { chain := { first := selector, rest := [] }, terminal := ← terminal } :
              Parser place Rule) ((.keyword .ifWord, mark) :: rest) =
            refuse [.layout] ((.keyword .ifWord, mark) :: rest) :=
          bind_of_none (terminal_refuses (by simp [Token.BeginsLayout]) mark rest)
        have ends := nested mark rest (Nat.lt_of_succ_lt_succ enough)
        rw [funext (Rule.under_push outer selector)] at ends
        exact EndsRule.step rfl (EndsRule.orElse_first (EndsRule.map ends) unplaced)
      · have unnested : (do return (← rule (limit + 1)).inside selector : Parser place Rule)
            ((token, mark) :: rest) =
              refuse [.token (.keyword .ifWord)] ((token, mark) :: rest) :=
          bind_of_none (rule_refuses limit again mark rest)
        by_cases begins : token.BeginsLayout
        · obtain ⟨middle, stepped, ends⟩ := exists_endsRule_terminal finished
            (Chain.push outer selector) begins mark rest
          rw [funext (Rule.under_ending outer selector)] at ends
          exact EndsRule.step stepped (EndsRule.orElse_second unnested (EndsRule.map ends))
        · have unplaced : (do
              return { chain := { first := selector, rest := [] }, terminal := ← terminal } :
                Parser place Rule) ((token, mark) :: rest) =
              refuse [.layout] ((token, mark) :: rest) :=
            bind_of_none (terminal_refuses begins mark rest)
          rw [inside, orElse_of_none unnested, unplaced, refuse_after]
          refine .agrees (Agrees.refuse (Draft.advance_of_refused ?_ rest) rfl rfl)
          unfold Token.BeginsLayout at begins
          cases token with
          | keyword word => cases word <;> first | rfl | simp at begins again
          | identifier name => simp at begins
          | _ => rfl

theorem endsRule_rule {limit : Nat} (outer : Option Chain) (mark : place)
    {rest : List (Token × place)} (enough : rest.length < limit) :
    EndsRule (.selecting finished outer .start) rest finished (Rule.under outer)
      (rule (limit + 1) ((.keyword .ifWord, mark) :: rest)) := by
  induction limit generalizing outer mark rest with
  | zero => exact absurd enough (Nat.not_lt_zero _)
  | succ limit ih =>
      rw [rule_succ]
      refine EndsRule.bind (agrees_selector finished outer rest) (fun selector left fewer => ?_)
      have closes : ∀ token, (Draft.selecting finished outer (.closed selector)).step token =
          (if token = .keyword .thenWord then some () else none).map
            (fun _ => .placing finished (Chain.push outer selector) .start) := by
        intro token
        cases token with
        | keyword word => cases word <;> rfl
        | _ => rfl
      refine EndsRule.bind (agrees_select _ rfl rfl closes left) (fun _ last evenFewer => ?_)
      refine endsRule_inside finished outer selector (fun mark rest shorter => ih _ mark shorter) ?_
      exact Nat.lt_of_le_of_lt evenFewer (Nat.lt_of_le_of_lt fewer enough)

end Rules

/-! ### Programs -/

/-- An attempt at a whole program agrees with a draft: it is the program that the draft makes up
at the end of the tokens, or it was refused at last where the draft was. -/
inductive EndsProgram (draft : Draft) (placed : List (Token × place)) : Attempt place Program → Prop
  | accepted {program : Program} {stopped : Draft} {refusal : Option (Refusal place)}
      (stops : draft.advance placed = (stopped, [])) (makesUp : stopped.program? = some program) :
      EndsProgram draft placed ⟨some (program, []), refusal⟩
  | refused {stopped : Draft} {left : List (Token × place)}
      (stops : draft.advance placed = (stopped, left))
      (incomplete : left = [] → stopped.program? = none) :
      EndsProgram draft placed ⟨none, some ⟨left, stopped.expected⟩⟩

namespace EndsProgram

variable {draft middle : Draft} {placed rest : List (Token × place)}
  {attempt : Attempt place Program} {earlier : Option (Refusal place)}

theorem after (ends : EndsProgram draft placed attempt)
    (before : Refusal.Before earlier placed) :
    EndsProgram draft placed (attempt.after earlier) := by
  cases ends with
  | accepted stops makesUp => exact accepted stops makesUp
  | refused stops incomplete =>
      rw [Attempt.after_of_before (before.mono (Draft.length_advance_le stops))]
      exact refused stops incomplete

theorem of_advance (reads : draft.advance placed = middle.advance rest)
    (ends : EndsProgram middle rest attempt) : EndsProgram draft placed attempt := by
  cases ends with
  | accepted stops makesUp => exact accepted (reads.trans stops) makesUp
  | refused stops incomplete => exact refused (reads.trans stops) incomplete

end EndsProgram

/-- Rules to the end of the tokens, behind those that are finished. -/
def remaining (finished : Program) (limit count : Nat) : Parser place Program := do
  let rules ← (rule limit).many count
  atEnd
  return finished ++ rules

theorem remaining_of_none {finished : Program} {limit count : Nat}
    {placed : List (Token × place)} {refusal : Option (Refusal place)}
    (refused : rule limit placed = ⟨none, refusal⟩) :
    remaining finished limit (count + 1) placed =
      ((do atEnd; return finished ++ [] : Parser place Program) placed).after refusal :=
  many_bind_of_none refused count

theorem remaining_of_value {finished : Program} {limit count : Nat}
    {placed left : List (Token × place)} {latest : Rule} {refusal : Option (Refusal place)}
    (read : rule limit placed = ⟨some (latest, left), refusal⟩) :
    remaining finished limit (count + 1) placed =
      (remaining (finished ++ [latest]) limit count left).after refusal := by
  have longer : (fun rules => do atEnd; return finished ++ [latest] ++ rules) =
      (fun rules => do atEnd; return finished ++ latest :: rules : _ → Parser place Program) := by
    funext rules
    rw [List.append_assoc, List.singleton_append]
  rw [remaining, remaining, longer]
  exact many_bind_of_value read count

theorem atEnd_refuses (finished : Program) (token : Token × place) (rest : List (Token × place)) :
    (do atEnd; return finished ++ [] : Parser place Program) (token :: rest) =
      refuse [.endOfInput] (token :: rest) := rfl

/-- A rule that was left open goes on like one that was closed, unless both stop right there. -/
theorem Draft.advance_extendable_cases (finished : Program) (latest : Rule)
    {left : List (Token × place)} (unopened : ∀ mark rest, left ≠ (.openParen, mark) :: rest) :
    ((extendable finished latest).advance left = (.extendable finished latest, left) ∧
        (complete (finished ++ [latest])).advance left = (.complete (finished ++ [latest]), left)) ∨
      ∃ token rest, ∃ middle : Draft, left = token :: rest ∧
        (extendable finished latest).advance left = middle.advance rest ∧
        (complete (finished ++ [latest])).advance left = middle.advance rest := by
  cases left with
  | nil => exact Or.inl ⟨rfl, rfl⟩
  | cons token rest =>
      obtain ⟨token, mark⟩ := token
      cases token with
      | keyword word =>
          cases word with
          | ifWord =>
              exact Or.inr ⟨_, rest, .selecting (finished ++ [latest]) none .start, rfl, rfl, rfl⟩
          | _ => exact Or.inl ⟨rfl, rfl⟩
      | openParen => exact absurd rfl (unopened mark rest)
      | _ => exact Or.inl ⟨rfl, rfl⟩

theorem endsProgram_extendable {finished : Program} {latest : Rule} {left : List (Token × place)}
    {attempt : Attempt place Program} (unopened : ∀ mark rest, left ≠ (.openParen, mark) :: rest)
    (ends : EndsProgram (.complete (finished ++ [latest])) left attempt) :
    EndsProgram (.extendable finished latest) left
      (attempt.after (some ⟨left, [.token .openParen]⟩)) := by
  rcases Draft.advance_extendable_cases finished latest unopened with
    ⟨stays, closed⟩ | ⟨token, rest, middle, rfl, goesOn, closed⟩
  · cases ends with
    | accepted stops makesUp =>
        cases closed.symm.trans stops
        exact .accepted stays makesUp
    | refused stops incomplete =>
        cases closed.symm.trans stops
        have both : (refuse (Draft.complete (finished ++ [latest])).expected left :
            Attempt place Program).after (some ⟨left, [.token .openParen]⟩) =
              refuse (Draft.extendable finished latest).expected left := refuse_after left _ _
        rw [refuse] at both
        rw [both]
        exact .refused stays (fun ended => by cases incomplete ended)
  · cases ends with
    | accepted stops makesUp => exact .accepted (goesOn.trans (closed.symm.trans stops)) makesUp
    | @refused _ last stops incomplete =>
        have further : last.length < (token :: rest).length :=
          Nat.lt_succ_of_le (Draft.length_advance_le (closed.symm.trans stops))
        rw [Attempt.after_of_before (Refusal.before_some_iff.mpr further)]
        exact .refused (goesOn.trans (closed.symm.trans stops)) incomplete

theorem endsProgram_rule {draft : Draft} {finished : Program} {limit count : Nat}
    {token : Token × place} {placed : List (Token × place)}
    (ends : EndsRule draft placed finished id (rule limit (token :: placed)))
    (goesOn : ∀ (finished : Program) (left : List (Token × place)), left.length ≤ placed.length →
      EndsProgram (.complete finished) left (remaining finished limit count left)) :
    EndsProgram draft placed (remaining finished limit (count + 1) (token :: placed)) := by
  generalize read : rule limit (token :: placed) = attempt at ends
  cases ends with
  | agrees certain =>
      cases certain with
      | accepted reads fewer before =>
          rw [remaining_of_value read]
          exact ((goesOn _ _ fewer).after before).of_advance reads
      | refused stops incomplete =>
          rw [remaining_of_none read, atEnd_refuses,
            refuse_after_of_further (Draft.length_advance_le stops)]
          exact .refused stops (fun _ => incomplete)
  | extendable reads fewer unopened =>
      rw [remaining_of_value read]
      exact (endsProgram_extendable unopened (goesOn _ _ fewer)).of_advance reads
  | @broken latest mark rest left stopped stops incomplete further fewer =>
      rw [remaining_of_value read]
      have stays : (Draft.complete (finished ++ [latest])).advance ((.openParen, mark) :: rest) =
          (.complete (finished ++ [latest]), (.openParen, mark) :: rest) := rfl
      have behind := goesOn (finished ++ [latest]) ((.openParen, mark) :: rest) fewer
      generalize remaining (finished ++ [latest]) limit count ((.openParen, mark) :: rest) =
        attempt at behind
      cases behind with
      | accepted stops makesUp => cases stays.symm.trans stops
      | refused again _ =>
          cases stays.symm.trans again
          have kept : (refuse (Draft.complete (finished ++ [latest])).expected
              ((.openParen, mark) :: rest) : Attempt place Program).after
                (some ⟨left, stopped.expected⟩) = _ := refuse_after_of_further further _
          rw [refuse] at kept
          rw [kept]
          exact .refused stops (fun _ => incomplete)

theorem endsProgram_remaining {limit count : Nat} (finished : Program)
    {placed : List (Token × place)} (room : placed.length < limit)
    (enough : placed.length < count) :
    EndsProgram (.complete finished) placed (remaining finished limit count placed) := by
  induction count generalizing finished placed with
  | zero => exact absurd enough (Nat.not_lt_zero _)
  | succ count ih =>
      obtain ⟨limit, rfl⟩ : ∃ lower, limit = lower + 1 :=
        Nat.exists_eq_succ_of_ne_zero (Nat.ne_of_gt (Nat.zero_lt_of_lt room))
      cases placed with
      | nil =>
          have none : rule (limit + 1) ([] : List (Token × place)) =
            refuse [.token (.keyword .ifWord)] [] := rfl
          rw [remaining_of_none none, List.append_nil]
          exact .accepted rfl rfl
      | cons token rest =>
          obtain ⟨token, mark⟩ := token
          by_cases starts : token = .keyword .ifWord
          · subst starts
            have first := endsRule_rule finished none mark (Nat.lt_of_succ_lt_succ room)
            refine EndsProgram.of_advance (Draft.advance_of_step rfl rest)
              (endsProgram_rule first (fun longer left fewer => ih longer ?_ ?_))
            · exact Nat.lt_of_le_of_lt fewer (Nat.lt_of_succ_lt room)
            · exact Nat.lt_of_le_of_lt fewer (Nat.lt_of_succ_lt_succ enough)
          · rw [remaining_of_none (rule_refuses limit starts mark rest), atEnd_refuses,
              refuse_after]
            refine .refused (Draft.advance_of_refused ?_ rest) (fun ended => by cases ended)
            cases token with
            | keyword word => cases word <;> first | rfl | contradiction
            | _ => rfl

/-- The parser comes as far as a draft does. -/
theorem endsProgram_program (placed : List (Token × place)) :
    EndsProgram (.complete []) placed (program placed) :=
  endsProgram_remaining [] (Nat.lt_succ_self _) (Nat.lt_succ_self _)

end RelationalLayout
