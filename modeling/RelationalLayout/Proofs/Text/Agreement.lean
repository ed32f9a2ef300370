/-
A parser and a draft of what it reads.

While a parser tries one way after the other, a draft reads the same tokens once. What the
parser was refused last is what the draft was refused, since a way that was given up goes
no further than the one that is tried instead of it.
-/

import RelationalLayout.Proofs.Text.Draft
import RelationalLayout.Proofs.Text.Parser
import RelationalLayout.Text.Syntax

namespace RelationalLayout

open RelationalLayout.Parser

variable {place α β : Type}

namespace Draft

variable {draft stopped next : Draft} {placed left : List (Token × place)}

theorem advance_of_step {token : Token × place} (stepped : draft.step token.1 = some next)
    (rest : List (Token × place)) : draft.advance (token :: rest) = next.advance rest := by
  rw [advance, stepped]

theorem advance_of_refused {token : Token × place} (refused : draft.step token.1 = none)
    (rest : List (Token × place)) : draft.advance (token :: rest) = (draft, token :: rest) := by
  rw [advance, refused]

theorem length_advance_le (stops : draft.advance placed = (stopped, left)) :
    left.length ≤ placed.length := by
  induction placed generalizing draft with
  | nil =>
      cases stops
      exact Nat.le_refl _
  | cons token rest ih =>
      cases stepped : draft.step token.1 with
      | none =>
          rw [advance_of_refused stepped] at stops
          cases stops
          exact Nat.le_refl _
      | some next =>
          rw [advance_of_step stepped] at stops
          exact Nat.le_succ_of_le (ih stops)

end Draft

/-! ### Agreement -/

/-- An attempt at some tokens agrees with a draft: it stands where the draft has come to and all
refusals are from before, or it was refused at last where the draft was. -/
inductive Agrees (draft : Draft) (placed : List (Token × place)) (next : α → Draft) :
    Attempt place α → Prop
  | accepted {value : α} {left : List (Token × place)} {refusal : Option (Refusal place)}
      (reads : draft.advance placed = (next value).advance left)
      (fewer : left.length ≤ placed.length) (before : Refusal.Before refusal left) :
      Agrees draft placed next ⟨some (value, left), refusal⟩
  | refused {stopped : Draft} {left : List (Token × place)}
      (stops : draft.advance placed = (stopped, left)) (incomplete : stopped.program? = none) :
      Agrees draft placed next ⟨none, some ⟨left, stopped.expected⟩⟩

namespace Agrees

variable {draft middle : Draft} {placed rest : List (Token × place)} {next : α → Draft}
  {attempt : Attempt place α} {earlier : Option (Refusal place)}

theorem after (agrees : Agrees draft placed next attempt)
    (before : Refusal.Before earlier placed) :
    Agrees draft placed next (attempt.after earlier) := by
  cases agrees with
  | accepted reads fewer behind =>
      exact accepted reads fewer (Refusal.before_furthest (before.mono fewer) behind)
  | refused stops incomplete =>
      rw [Attempt.after_of_before (before.mono (Draft.length_advance_le stops))]
      exact refused stops incomplete

theorem of_advance (reads : draft.advance placed = middle.advance rest)
    (fewer : rest.length ≤ placed.length) (agrees : Agrees middle rest next attempt) :
    Agrees draft placed next attempt := by
  cases agrees with
  | accepted goesOn evenFewer before =>
      exact accepted (reads.trans goesOn) (Nat.le_trans evenFewer fewer) before
  | refused stops incomplete => exact refused (reads.trans stops) incomplete

theorem step {token : Token × place} (stepped : draft.step token.1 = some middle)
    (agrees : Agrees middle rest next attempt) : Agrees draft (token :: rest) next attempt :=
  agrees.of_advance (Draft.advance_of_step stepped rest) (Nat.le_succ _)

theorem refuse {expected : List Expectation} (stops : draft.advance placed = (draft, placed))
    (incomplete : draft.program? = none) (same : draft.expected = expected) :
    Agrees draft placed next (Parser.refuse expected placed) := by
  rw [← same]
  exact refused stops incomplete

theorem bind {parser : Parser place α} {following : α → Parser place β} {last : β → Draft}
    {tokens : List (Token × place)} (agrees : Agrees draft placed next (parser tokens))
    (goesOn : ∀ value left, left.length ≤ placed.length →
      Agrees (next value) left last (following value left)) :
    Agrees draft placed last ((parser >>= following) tokens) := by
  generalize read : parser tokens = attempt at agrees
  cases agrees with
  | accepted reads fewer before =>
      rw [bind_of_value read]
      exact ((goesOn _ _ fewer).after before).of_advance reads fewer
  | refused stops incomplete =>
      rw [bind_of_none read]
      exact refused stops incomplete

theorem pure {value : α} (same : draft = next value) :
    Agrees draft placed next ((Pure.pure value : Parser place α) placed) := by
  rw [same]
  exact accepted rfl (Nat.le_refl _) (Refusal.before_none _)

/-- The first of two ways goes on behind a token at which the second one is refused. -/
theorem orElse_first {first second : Parser place α} {expected : List Expectation}
    {token : Token × place} {tokens : List (Token × place)}
    (agrees : Agrees draft placed next (first tokens))
    (other : second tokens = Parser.refuse expected (token :: placed)) :
    Agrees draft placed next (first.orElse second tokens) := by
  generalize read : first tokens = attempt at agrees
  cases agrees with
  | accepted reads fewer before =>
      rw [orElse_of_value read]
      exact accepted reads fewer before
  | refused stops incomplete =>
      rw [orElse_of_none read, other, refuse_after_of_further (Draft.length_advance_le stops)]
      exact refused stops incomplete

/-- The second of two ways goes on behind a token at which the first one is refused. -/
theorem orElse_second {first second : Parser place α} {expected : List Expectation}
    {token : Token × place} {tokens : List (Token × place)}
    (other : first tokens = Parser.refuse expected (token :: placed))
    (agrees : Agrees draft placed next (second tokens)) :
    Agrees draft placed next (first.orElse second tokens) := by
  rw [orElse_of_none other]
  exact agrees.after (Refusal.before_some_iff.mpr (Nat.lt_succ_self _))

end Agrees

theorem agrees_select {draft : Draft} {expected : List Expectation} {choose : Token → Option α}
    (next : α → Draft) (incomplete : draft.program? = none)
    (same : draft.expected = expected)
    (reads : ∀ token, draft.step token = (choose token).map next)
    (placed : List (Token × place)) :
    Agrees draft placed next (select expected choose placed) := by
  cases placed with
  | nil => exact Agrees.refuse rfl incomplete same
  | cons token rest =>
      cases chosen : choose token.1 with
      | none =>
          have refused : draft.step token.1 = none := by rw [reads, chosen, Option.map_none]
          rw [select, chosen]
          exact Agrees.refuse (Draft.advance_of_refused refused rest) incomplete same
      | some value =>
          have stepped : draft.step token.1 = some (next value) := by
            rw [reads, chosen, Option.map_some]
          rw [select, chosen]
          exact .accepted (Draft.advance_of_step stepped rest) (Nat.le_succ _)
            (Refusal.before_none rest)

/-! ### Selectors -/

section Selectors

variable (finished : Program) (outer : Option Chain)

/-- The parenthesis behind a list that might have gone on at the same place. -/
theorem agrees_closing {draft : Draft} {next : α → Draft} {value : α} {token : Token}
    {others : List Expectation} (closing : draft.step .closeParen = some (next value))
    (stuck : token ≠ .closeParen → draft.step token = none) (incomplete : draft.program? = none)
    (same : draft.expected =
      others ++ [.token .closeParen].filter (fun expectation => expectation ∉ others))
    (mark : place) (rest : List (Token × place)) :
    Agrees draft ((token, mark) :: rest) next
      (((do just .closeParen; return value : Parser place α) ((token, mark) :: rest)).after
        (some ⟨(token, mark) :: rest, others⟩)) := by
  by_cases closes : token = .closeParen
  · subst closes
    refine .accepted (Draft.advance_of_step closing rest) (Nat.le_succ _) ?_
    exact Refusal.before_some_iff.mpr (Nat.lt_succ_self _)
  · rw [just_bind_of_ne closes, refuse_after]
    exact Agrees.refuse (Draft.advance_of_refused (stuck closes) rest) incomplete same

theorem agrees_arguments {count : Nat} {rest : List (Token × place)}
    (predicateName latest : String) (earlier : List String) (enough : rest.length < count) :
    Agrees (.selecting finished outer (.argument predicateName earlier latest)) rest
      (fun arguments => .selecting finished outer (.closed (.predicate predicateName arguments)))
      ((many (do just .comma; identifier) count >>= fun others => do
        just .closeParen
        return earlier ++ latest :: others) rest) := by
  induction count generalizing rest latest earlier with
  | zero => exact absurd enough (Nat.not_lt_zero _)
  | succ count ih =>
      cases rest with
      | nil => exact Agrees.refuse rfl rfl rfl
      | cons token rest =>
          obtain ⟨token, mark⟩ := token
          by_cases separates : token = .comma
          · subst separates
            have opened : (do just .comma; identifier : Parser place String)
                ((.comma, mark) :: rest) = identifier rest := rfl
            have stepped : (Draft.selecting finished outer
                (.argument predicateName earlier latest)).step .comma =
                  some (.selecting finished outer (.comma predicateName (earlier ++ [latest]))) :=
              rfl
            have named : Agrees (.selecting finished outer
                (.comma predicateName (earlier ++ [latest]))) rest
                  (fun name => .selecting finished outer
                    (.argument predicateName (earlier ++ [latest]) name)) (identifier rest) := by
              refine agrees_select _ rfl rfl ?_ rest
              intro token
              cases token <;> rfl
            generalize read : identifier rest = attempt at named
            cases named with
            | @accepted name left refusal reads fewer before =>
                have shorter : left.length < count :=
                  Nat.lt_of_le_of_lt fewer (Nat.lt_of_succ_lt_succ enough)
                have goesOn := ih name (earlier ++ [latest]) shorter
                simp only [List.append_assoc, List.singleton_append] at goesOn
                rw [many_bind_of_value (opened.trans read)]
                exact ((goesOn.after before).of_advance reads fewer).step stepped
            | refused stops incomplete =>
                -- A comma with no name behind it is no end of the list.
                rw [many_bind_of_none (opened.trans read),
                  just_bind_of_ne (fun impossible => by cases impossible),
                  refuse_after_of_further (Draft.length_advance_le stops)]
                exact (Agrees.refused stops incomplete).step stepped
          · have unseparated : (do just .comma; identifier : Parser place String)
                ((token, mark) :: rest) = refuse [.token .comma] ((token, mark) :: rest) :=
              just_bind_of_ne separates rest
            rw [many_bind_of_none unseparated]
            refine agrees_closing rfl (fun different => ?_) rfl rfl mark rest
            cases token <;> first | rfl | contradiction

theorem identifier_refuses {token : Token} (unnamed : ¬∃ name, token = .identifier name)
    (mark : place) (rest : List (Token × place)) :
    identifier ((token, mark) :: rest) = refuse [.identifier] ((token, mark) :: rest) := by
  cases token with
  | identifier name => exact absurd ⟨name, rfl⟩ unnamed
  | _ => rfl

theorem agrees_separated (predicateName : String) (rest : List (Token × place)) :
    Agrees (.selecting finished outer (.opened predicateName)) rest
      (fun arguments => .selecting finished outer (.closed (.predicate predicateName arguments)))
      ((do
        let arguments ← identifier.separatedBy (just .comma)
        just .closeParen
        return arguments : Parser place (List String)) rest) := by
  cases rest with
  | nil => exact Agrees.refuse rfl rfl rfl
  | cons token rest =>
      obtain ⟨token, mark⟩ := token
      by_cases named : ∃ name, token = .identifier name
      · obtain ⟨name, rfl⟩ := named
        have stepped : (Draft.selecting finished outer (.opened predicateName)).step
            (.identifier name) =
              some (.selecting finished outer (.argument predicateName [] name)) := rfl
        have read : identifier ((.identifier name, mark) :: rest) = ⟨some (name, rest), none⟩ := rfl
        rw [separatedBy_bind_of_value read]
        have others :=
          agrees_arguments finished outer predicateName name [] (Nat.lt_succ_self rest.length)
        exact others.step stepped
      · rw [separatedBy_bind_of_none (identifier_refuses named mark rest)]
        refine agrees_closing rfl (fun different => ?_) rfl rfl mark rest
        cases token with
        | identifier name => exact absurd ⟨name, rfl⟩ named
        | closeParen => exact absurd rfl different
        | _ => rfl

theorem agrees_predicate (name : String) (mark tokenMark : place) (rest : List (Token × place)) :
    Agrees (.selecting finished outer (.opened name)) rest
      (fun selector => .selecting finished outer (.closed selector))
      (predicateSelector ((.identifier name, mark) :: (.openParen, tokenMark) :: rest)) := by
  have read : predicateSelector ((.identifier name, mark) :: (.openParen, tokenMark) :: rest) =
      ((do
        let arguments ← identifier.separatedBy (just .comma)
        just .closeParen
        return arguments : Parser place (List String)) >>= fun arguments =>
          return Selector.predicate name arguments) rest := rfl
  rw [read]
  exact Agrees.bind (agrees_separated finished outer name rest) (fun _ _ _ => Agrees.pure rfl)

theorem agrees_signature (name : String) (mark tokenMark : place) (rest : List (Token × place)) :
    Agrees (.selecting finished outer (.typing name)) rest
      (fun selector => .selecting finished outer (.closed selector))
      (signatureSelector ((.identifier name, mark) :: (.colon, tokenMark) :: rest)) := by
  have read : signatureSelector ((.identifier name, mark) :: (.colon, tokenMark) :: rest) =
      (do return Selector.signature name (← identifier) : Parser place Selector) rest := rfl
  rw [read]
  refine Agrees.bind (agrees_select _ rfl rfl ?_ rest) (fun _ _ _ => Agrees.pure rfl)
  intro token
  cases token <;> rfl

/-- Both ways to read a selector begin with a name, and only one goes on. -/
theorem agrees_named (name : String) (mark : place) (rest : List (Token × place)) :
    Agrees (.selecting finished outer (.named name)) rest
      (fun selector => .selecting finished outer (.closed selector))
      (selector ((.identifier name, mark) :: rest)) := by
  cases rest with
  | nil => exact Agrees.refuse rfl rfl rfl
  | cons token rest =>
      obtain ⟨token, tokenMark⟩ := token
      have untyped (different : token ≠ .colon) :
          signatureSelector ((.identifier name, mark) :: (token, tokenMark) :: rest) =
            refuse [.token .colon] ((token, tokenMark) :: rest) := just_bind_of_ne different rest
      have unapplied (different : token ≠ .openParen) :
          predicateSelector ((.identifier name, mark) :: (token, tokenMark) :: rest) =
            refuse [.token .openParen] ((token, tokenMark) :: rest) := by
        have unopened : parenthesized (identifier.separatedBy (just .comma))
            ((token, tokenMark) :: rest) =
              refuse [.token .openParen] ((token, tokenMark) :: rest) :=
          just_bind_of_ne different rest
        have read : predicateSelector ((.identifier name, mark) :: (token, tokenMark) :: rest) =
            (do
              let arguments ← parenthesized (identifier.separatedBy (just .comma))
              return Selector.predicate name arguments : Parser place Selector)
                ((token, tokenMark) :: rest) := rfl
        exact read.trans (bind_of_none unopened)
      by_cases typed : token = .colon
      · subst typed
        have stepped : (Draft.selecting finished outer (.named name)).step .colon =
            some (.selecting finished outer (.typing name)) := rfl
        have signature := agrees_signature finished outer name mark tokenMark rest
        exact Agrees.step stepped
          (signature.orElse_first (unapplied (fun impossible => by cases impossible)))
      by_cases applied : token = .openParen
      · subst applied
        have stepped : (Draft.selecting finished outer (.named name)).step .openParen =
            some (.selecting finished outer (.opened name)) := rfl
        have predicate := agrees_predicate finished outer name mark tokenMark rest
        exact Agrees.step stepped (Agrees.orElse_second (untyped typed) predicate)
      rw [selector, orElse_of_none (untyped typed), unapplied applied, refuse_after]
      refine Agrees.refuse (Draft.advance_of_refused ?_ rest) rfl rfl
      cases token <;> first | rfl | contradiction

theorem agrees_selector (placed : List (Token × place)) :
    Agrees (.selecting finished outer .start) placed
      (fun selector => .selecting finished outer (.closed selector)) (selector placed) := by
  cases placed with
  | nil => exact Agrees.refuse rfl rfl rfl
  | cons token rest =>
      obtain ⟨token, mark⟩ := token
      by_cases named : ∃ name, token = .identifier name
      · obtain ⟨name, rfl⟩ := named
        exact (agrees_named finished outer name mark rest).step rfl
      · have unnamed := identifier_refuses named mark rest
        have untyped : signatureSelector ((token, mark) :: rest) =
            refuse [.identifier] ((token, mark) :: rest) := bind_of_none unnamed
        have unapplied : predicateSelector ((token, mark) :: rest) =
            refuse [.identifier] ((token, mark) :: rest) := bind_of_none unnamed
        rw [selector, orElse_of_none untyped, unapplied, refuse_after]
        refine Agrees.refuse (Draft.advance_of_refused ?_ rest) rfl rfl
        cases token with
        | identifier name => exact absurd ⟨name, rfl⟩ named
        | _ => rfl

end Selectors

/-! ### Separations -/

section Separations

variable (finished : Program) (latest : Rule)

def Rule.spaced (rule : Rule) (separation : Separation) : Rule :=
  { rule with terminal := rule.terminal.withSeparation separation }

theorem agrees_atLeast (mark : place) (rest : List (Token × place)) :
    Agrees (.separating finished latest .atLeast) rest
      (fun separation => .separating finished latest (.measured separation))
      (atLeast ((.keyword .atWord, mark) :: rest)) := by
  have read : atLeast ((.keyword .atWord, mark) :: rest) =
      (do
        keyword .least
        return .atLeast (← number) : Parser place Separation) rest := rfl
  have least : ∀ token, (Draft.separating finished latest .atLeast).step token =
      (if token = .keyword .least then some () else none).map
        (fun _ => .separating finished latest .atLeastDistance) := by
    intro token
    cases token with
    | keyword word => cases word <;> rfl
    | _ => rfl
  rw [read]
  refine Agrees.bind (agrees_select _ rfl rfl least rest) (fun _ left _ => ?_)
  refine Agrees.bind (agrees_select _ rfl rfl ?_ left) (fun _ _ _ => Agrees.pure rfl)
  intro token
  cases token <;> rfl

theorem agrees_exactly (mark : place) (rest : List (Token × place)) :
    Agrees (.separating finished latest .exactlyDistance) rest
      (fun separation => .separating finished latest (.measured separation))
      (exactly ((.keyword .exactly, mark) :: rest)) := by
  have read : exactly ((.keyword .exactly, mark) :: rest) =
      (do return .exactly (← number) : Parser place Separation) rest := rfl
  rw [read]
  refine Agrees.bind (agrees_select _ rfl rfl ?_ rest) (fun _ _ _ => Agrees.pure rfl)
  intro token
  cases token <;> rfl

theorem agrees_distance (placed : List (Token × place)) :
    Agrees (.separating finished latest .named) placed
      (fun separation => .separating finished latest (.measured separation))
      (atLeast.orElse exactly placed) := by
  cases placed with
  | nil => exact Agrees.refuse rfl rfl rfl
  | cons token rest =>
      obtain ⟨token, mark⟩ := token
      by_cases least : token = .keyword .atWord
      · subst least
        have notExactly : exactly ((.keyword .atWord, mark) :: rest) =
            refuse [.token (.keyword .exactly)] ((.keyword .atWord, mark) :: rest) := rfl
        exact Agrees.step rfl (Agrees.orElse_first (agrees_atLeast finished latest mark rest)
          notExactly)
      · have notAtLeast : atLeast ((token, mark) :: rest) =
            refuse [.token (.keyword .atWord)] ((token, mark) :: rest) := just_bind_of_ne least rest
        by_cases exact : token = .keyword .exactly
        · subst exact
          exact Agrees.step rfl (Agrees.orElse_second notAtLeast
            (agrees_exactly finished latest mark rest))
        · have notExactly : exactly ((token, mark) :: rest) =
              refuse [.token (.keyword .exactly)] ((token, mark) :: rest) :=
            just_bind_of_ne exact rest
          rw [orElse_of_none notAtLeast, notExactly, refuse_after]
          refine Agrees.refuse (Draft.advance_of_refused ?_ rest) rfl rfl
          cases token with
          | keyword word => cases word <;> first | rfl | contradiction
          | _ => rfl

theorem agrees_separation (mark : place) (rest : List (Token × place)) :
    Agrees (.separating finished latest .start) rest
      (fun separation => .complete (finished ++ [latest.spaced separation]))
      (parenthesized (do keyword .separation; atLeast.orElse exactly)
        ((.openParen, mark) :: rest)) := by
  have opened : parenthesized (do keyword .separation; atLeast.orElse exactly)
      ((.openParen, mark) :: rest) =
        (do
          let value ← (do keyword .separation; atLeast.orElse exactly)
          just .closeParen
          return value : Parser place Separation) rest := rfl
  rw [opened]
  have word : ∀ token, (Draft.separating finished latest .start).step token =
      (if token = .keyword .separation then some () else none).map
        (fun _ => .separating finished latest .named) := by
    intro token
    cases token with
    | keyword word => cases word <;> rfl
    | _ => rfl
  have closes (separation : Separation) (token : Token) :
      (Draft.separating finished latest (.measured separation)).step token =
        (if token = .closeParen then some () else none).map
          (fun _ => .complete (finished ++ [latest.spaced separation])) := by
    cases token <;> rfl
  refine Agrees.bind (Agrees.bind (agrees_select _ rfl rfl word rest)
    (fun _ left _ => agrees_distance finished latest left)) (fun separation left _ => ?_)
  exact Agrees.bind (agrees_select _ rfl rfl (closes separation) left)
    (fun _ _ _ => Agrees.pure rfl)

end Separations

end RelationalLayout
