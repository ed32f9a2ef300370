/-
Layouts whose separation may be left out.

A separation that goes wrong is taken for one that was left out: the parser then goes back to
the parenthesis. Nothing else can stand there, so the draft that goes on is refused for good.
-/

import RelationalLayout.Proofs.Text.Agreement

namespace RelationalLayout

open RelationalLayout.Parser

variable {place α β : Type}

/-! ### Ends of rules -/

/-- An attempt at a rule agrees with a draft, or it gave up on a separation. Then it stands where
the separation would have begun: there is no parenthesis there, or one behind which the draft was
refused. -/
inductive EndsRule (draft : Draft) (placed : List (Token × place)) (finished : Program)
    (ruleOf : α → Rule) : Attempt place α → Prop
  | agrees {attempt : Attempt place α}
      (certain : Agrees draft placed (fun value => .complete (finished ++ [ruleOf value]))
        attempt) :
      EndsRule draft placed finished ruleOf attempt
  | extendable {value : α} {left : List (Token × place)}
      (reads : draft.advance placed = (Draft.extendable finished (ruleOf value)).advance left)
      (fewer : left.length ≤ placed.length)
      (unopened : ∀ mark rest, left ≠ (.openParen, mark) :: rest) :
      EndsRule draft placed finished ruleOf ⟨some (value, left), some ⟨left, [.token .openParen]⟩⟩
  | broken {value : α} {mark : place} {rest left : List (Token × place)} {stopped : Draft}
      (stops : draft.advance placed = (stopped, left)) (incomplete : stopped.program? = none)
      (further : left.length ≤ rest.length) (fewer : rest.length < placed.length) :
      EndsRule draft placed finished ruleOf
        ⟨some (value, (.openParen, mark) :: rest), some ⟨left, stopped.expected⟩⟩

namespace EndsRule

variable {draft middle : Draft} {placed rest : List (Token × place)} {finished : Program}
  {ruleOf : α → Rule} {attempt : Attempt place α} {earlier : Option (Refusal place)}

theorem after (ends : EndsRule draft placed finished ruleOf attempt)
    (before : Refusal.Before earlier placed) :
    EndsRule draft placed finished ruleOf (attempt.after earlier) := by
  cases ends with
  | agrees certain => exact agrees (certain.after before)
  | extendable reads fewer unopened =>
      rw [Attempt.after_of_before (before.mono fewer)]
      exact extendable reads fewer unopened
  | broken stops incomplete further fewer =>
      rw [Attempt.after_of_before (before.mono (Draft.length_advance_le stops))]
      exact broken stops incomplete further fewer

theorem of_advance (reads : draft.advance placed = middle.advance rest)
    (fewer : rest.length ≤ placed.length) (ends : EndsRule middle rest finished ruleOf attempt) :
    EndsRule draft placed finished ruleOf attempt := by
  cases ends with
  | agrees certain => exact agrees (certain.of_advance reads fewer)
  | extendable goesOn evenFewer unopened =>
      exact extendable (reads.trans goesOn) (Nat.le_trans evenFewer fewer) unopened
  | broken stops incomplete further evenFewer =>
      exact broken (reads.trans stops) incomplete further (Nat.lt_of_lt_of_le evenFewer fewer)

theorem step {token : Token × place} (stepped : draft.step token.1 = some middle)
    (ends : EndsRule middle rest finished ruleOf attempt) :
    EndsRule draft (token :: rest) finished ruleOf attempt :=
  ends.of_advance (Draft.advance_of_step stepped rest) (Nat.le_succ _)

theorem bind {parser : Parser place β} {following : β → Parser place α} {next : β → Draft}
    {tokens : List (Token × place)} (begins : Agrees draft placed next (parser tokens))
    (goesOn : ∀ value left, left.length ≤ placed.length →
      EndsRule (next value) left finished ruleOf (following value left)) :
    EndsRule draft placed finished ruleOf ((parser >>= following) tokens) := by
  generalize read : parser tokens = attempt at begins
  cases begins with
  | accepted reads fewer before =>
      rw [bind_of_value read]
      exact ((goesOn _ _ fewer).after before).of_advance reads fewer
  | refused stops incomplete =>
      rw [bind_of_none read]
      exact agrees (.refused stops incomplete)

theorem map {parser : Parser place β} {tokens : List (Token × place)} {change : β → α}
    (ends : EndsRule draft placed finished (fun value => ruleOf (change value)) (parser tokens)) :
    EndsRule draft placed finished ruleOf
      ((do return change (← parser) : Parser place α) tokens) := by
  generalize read : parser tokens = attempt at ends
  cases ends with
  | agrees certain =>
      cases certain with
      | accepted reads fewer before =>
          rw [bind_of_value read]
          exact agrees (.accepted reads fewer
            (Refusal.before_furthest before (Refusal.before_none _)))
      | refused stops incomplete =>
          rw [bind_of_none read]
          exact agrees (.refused stops incomplete)
  | extendable reads fewer unopened =>
      rw [bind_of_value read]
      exact extendable reads fewer unopened
  | broken stops incomplete further fewer =>
      rw [bind_of_value read]
      exact broken stops incomplete further fewer

theorem orElse_first {first second : Parser place α} {expected : List Expectation}
    {token : Token × place} {tokens : List (Token × place)}
    (ends : EndsRule draft placed finished ruleOf (first tokens))
    (other : second tokens = Parser.refuse expected (token :: placed)) :
    EndsRule draft placed finished ruleOf (first.orElse second tokens) := by
  generalize read : first tokens = attempt at ends
  obtain ⟨_ | ⟨value, left⟩, refusal⟩ := attempt
  · cases ends with
    | agrees certain =>
        rw [← read] at certain
        exact agrees (certain.orElse_first other)
  · rw [orElse_of_value read]
    exact ends

theorem orElse_second {first second : Parser place α} {expected : List Expectation}
    {token : Token × place} {tokens : List (Token × place)}
    (other : first tokens = Parser.refuse expected (token :: placed))
    (ends : EndsRule draft placed finished ruleOf (second tokens)) :
    EndsRule draft placed finished ruleOf (first.orElse second tokens) := by
  rw [orElse_of_none other]
  exact ends.after (Refusal.before_some_iff.mpr (Nat.lt_succ_self _))

/-- A name for what is expected at the start is of no matter once a token was read. -/
theorem labelled {parser : Parser place α} {token : Token × place}
    (ends : EndsRule middle rest finished ruleOf (parser (token :: rest))) (label : Expectation) :
    EndsRule middle rest finished ruleOf (parser.labelled label (token :: rest)) := by
  rw [Parser.labelled]
  generalize parser (token :: rest) = attempt at ends
  have kept {left : List (Token × place)} (fewer : left.length ≤ rest.length)
      (expected : List Expectation) :
      (if left.length = (token :: rest).length then Refusal.mk left [label]
        else ⟨left, expected⟩) = ⟨left, expected⟩ :=
    if_neg (Nat.ne_of_lt (Nat.lt_succ_of_le fewer))
  cases ends with
  | agrees certain =>
      cases certain with
      | accepted reads fewer before =>
          refine agrees (.accepted reads fewer ?_)
          intro changed given
          obtain ⟨refusal, same, rfl⟩ := Option.map_eq_some_iff.mp given
          have longer := before refusal same
          split <;> exact longer
      | refused stops incomplete =>
          simp only [Option.map_some, kept (Draft.length_advance_le stops)]
          exact agrees (.refused stops incomplete)
  | extendable reads fewer unopened =>
      simp only [Option.map_some, kept fewer]
      exact extendable reads fewer unopened
  | broken stops incomplete further fewer =>
      simp only [Option.map_some, kept (Draft.length_advance_le stops)]
      exact broken stops incomplete further fewer

end EndsRule

theorem endsRule_separation (finished : Program) {latest : Rule}
    (unspaced : latest.spaced .unspecified = latest) (rest : List (Token × place)) :
    EndsRule (.extendable finished latest) rest finished latest.spaced (separation rest) := by
  cases rest with
  | nil =>
      refine EndsRule.extendable ?_ (Nat.le_refl _) (fun _ _ impossible => by cases impossible)
      rw [Option.getD_none, unspaced]
  | cons token rest =>
      obtain ⟨token, mark⟩ := token
      by_cases opens : token = .openParen
      · subst opens
        have stepped : (Draft.extendable finished latest).step .openParen =
            some (.separating finished latest .start) := rfl
        have agrees := agrees_separation finished latest mark rest
        generalize read : parenthesized (do keyword .separation; atLeast.orElse exactly)
          ((.openParen, mark) :: rest) = attempt at agrees
        cases agrees with
        | accepted reads fewer before =>
            have given : separation ((.openParen, mark) :: rest) = _ := optional_bind_of_value read
            rw [given]
            exact (EndsRule.agrees (.accepted reads fewer
              (Refusal.before_furthest before (Refusal.before_none _)))).step stepped
        | refused stops incomplete =>
            have missing : separation ((.openParen, mark) :: rest) = _ := optional_bind_of_none read
            rw [missing]
            exact EndsRule.broken ((Draft.advance_of_step stepped rest).trans stops) incomplete
              (Draft.length_advance_le stops) (Nat.lt_succ_self _)
      · have unopened : parenthesized (do keyword .separation; atLeast.orElse exactly)
            ((token, mark) :: rest) = refuse [.token .openParen] ((token, mark) :: rest) :=
          just_bind_of_ne opens rest
        have missing : separation ((token, mark) :: rest) = _ := optional_bind_of_none unopened
        rw [missing]
        refine EndsRule.extendable ?_ (Nat.le_refl _) ?_
        · rw [Option.getD_none, unspaced]
        · intro other others same
          cases same
          exact opens rfl

/-! ### Layouts -/

section Terminals

variable (finished : Program) (chain : Chain)

def Chain.ending (chain : Chain) (terminal : Template) : Rule :=
  { chain := chain, terminal := terminal }

theorem agrees_cyclic (mark : place) (rest : List (Token × place)) :
    Agrees (.placing finished chain .cycle) rest
      (fun terminal => .complete (finished ++ [chain.ending terminal]))
      (cyclic ((.keyword .cycle, mark) :: rest)) := by
  have read : cyclic ((.keyword .cycle, mark) :: rest) =
      (do
        let first ← identifier
        let option ← cyclicOption
        let second ← identifier
        return .cyclic option first second () : Parser place Template) rest := rfl
  rw [read]
  refine Agrees.bind (agrees_select (fun first => .placing finished chain (.cycleFrom first))
    rfl rfl ?_ rest) (fun first left _ => ?_)
  · intro token
    cases token <;> rfl
  refine Agrees.bind (agrees_select (fun option =>
    .placing finished chain (.cycleTowards first option)) rfl rfl ?_ left) (fun option last _ => ?_)
  · intro token
    cases token <;> rfl
  refine Agrees.bind (agrees_select _ rfl rfl ?_ last) (fun _ _ _ => Agrees.pure rfl)
  intro token
  cases token <;> rfl

theorem agrees_grouping (mark : place) (rest : List (Token × place)) :
    Agrees (.placing finished chain .group) rest
      (fun terminal => .complete (finished ++ [chain.ending terminal]))
      (grouping ((.keyword .group, mark) :: rest)) := by
  have read : grouping ((.keyword .group, mark) :: rest) =
      (do return .grouping (← identifier) () : Parser place Template) rest := rfl
  rw [read]
  refine Agrees.bind (agrees_select _ rfl rfl ?_ rest) (fun _ _ _ => Agrees.pure rfl)
  intro token
  cases token <;> rfl

theorem endsRule_binary (option : BinaryOption) (name : String) (mark tokenMark : place)
    (rest : List (Token × place)) :
    EndsRule (.placing finished chain (.relation name option)) rest finished chain.ending
      (binary ((.identifier name, mark) :: (.binary option, tokenMark) :: rest)) := by
  have read : binary ((.identifier name, mark) :: (.binary option, tokenMark) :: rest) =
      (do
        let second ← identifier
        return .binary option (← separation) name second : Parser place Template) rest := rfl
  rw [read]
  refine EndsRule.bind (agrees_select (fun second =>
    .extendable finished (chain.ending (.binary option .unspecified name second)))
      rfl rfl ?_ rest) (fun second left _ => ?_)
  · intro token
    cases token <;> rfl
  · exact EndsRule.map (endsRule_separation finished rfl left)

theorem endsRule_unary (option : UnaryOption) (name : String) (mark tokenMark : place)
    (rest : List (Token × place)) :
    EndsRule (.extendable finished (chain.ending (.unary option .unspecified name))) rest finished
      chain.ending (unary ((.identifier name, mark) :: (.unary option, tokenMark) :: rest)) := by
  have read : unary ((.identifier name, mark) :: (.unary option, tokenMark) :: rest) =
      (do return .unary option (← separation) name : Parser place Template) rest := rfl
  rw [read]
  exact EndsRule.map (endsRule_separation finished rfl rest)

theorem endsRule_operand (name : String) (mark : place) (rest : List (Token × place)) :
    EndsRule (.placing finished chain (.operand name)) rest finished chain.ending
      (binary.orElse unary ((.identifier name, mark) :: rest)) := by
  cases rest with
  | nil => exact .agrees (Agrees.refuse rfl rfl rfl)
  | cons token rest =>
      obtain ⟨token, tokenMark⟩ := token
      have unrelated (different : ¬∃ option, token = .binary option) :
          binary ((.identifier name, mark) :: (token, tokenMark) :: rest) =
            refuse [] ((token, tokenMark) :: rest) := by
        cases token with
        | binary option => exact absurd ⟨option, rfl⟩ different
        | _ => rfl
      have unplaced (different : ¬∃ option, token = .unary option) :
          unary ((.identifier name, mark) :: (token, tokenMark) :: rest) =
            refuse [] ((token, tokenMark) :: rest) := by
        cases token with
        | unary option => exact absurd ⟨option, rfl⟩ different
        | _ => rfl
      by_cases related : ∃ option, token = .binary option
      · obtain ⟨option, rfl⟩ := related
        have stepped : (Draft.placing finished chain (.operand name)).step (.binary option) =
            some (.placing finished chain (.relation name option)) := rfl
        have ends := endsRule_binary finished chain option name mark tokenMark rest
        exact EndsRule.step stepped (ends.orElse_first (unplaced (by simp)))
      by_cases placed : ∃ option, token = .unary option
      · obtain ⟨option, rfl⟩ := placed
        have stepped : (Draft.placing finished chain (.operand name)).step (.unary option) =
            some (.extendable finished (chain.ending (.unary option .unspecified name))) := rfl
        have ends := endsRule_unary finished chain option name mark tokenMark rest
        exact EndsRule.step stepped (EndsRule.orElse_second (unrelated related) ends)
      rw [orElse_of_none (unrelated related), unplaced placed, refuse_after]
      refine .agrees (Agrees.refuse (Draft.advance_of_refused ?_ rest) rfl rfl)
      cases token with
      | binary option => exact absurd ⟨option, rfl⟩ related
      | unary option => exact absurd ⟨option, rfl⟩ placed
      | _ => rfl

def Token.BeginsLayout (token : Token) : Prop :=
  token = .keyword .cycle ∨ token = .keyword .group ∨ ∃ name, token = .identifier name

theorem exists_endsRule_terminal {token : Token} (begins : token.BeginsLayout) (mark : place)
    (rest : List (Token × place)) :
    ∃ middle, (Draft.placing finished chain .start).step token = some middle ∧
      EndsRule middle rest finished chain.ending (terminal ((token, mark) :: rest)) := by
  rcases begins with rfl | rfl | ⟨name, rfl⟩
  · have operands : (binary.orElse unary) ((.keyword .cycle, mark) :: rest) =
        refuse _ ((.keyword .cycle, mark) :: rest) := orElse_of_refuse rfl rfl
    have others : grouping.orElse (binary.orElse unary) ((.keyword .cycle, mark) :: rest) =
        refuse _ ((.keyword .cycle, mark) :: rest) := orElse_of_refuse rfl operands
    have ends := EndsRule.agrees (agrees_cyclic finished chain mark rest)
    exact ⟨_, rfl, (ends.orElse_first others).labelled .layout⟩
  · have uncycled : cyclic ((.keyword .group, mark) :: rest) =
        refuse _ ((.keyword .group, mark) :: rest) := rfl
    have operands : (binary.orElse unary) ((.keyword .group, mark) :: rest) =
        refuse _ ((.keyword .group, mark) :: rest) := orElse_of_refuse rfl rfl
    have ends := EndsRule.agrees (agrees_grouping finished chain mark rest)
    exact ⟨_, rfl, (EndsRule.orElse_second uncycled (ends.orElse_first operands)).labelled .layout⟩
  · have uncycled : cyclic ((.identifier name, mark) :: rest) =
        refuse _ ((.identifier name, mark) :: rest) := rfl
    have ungrouped : grouping ((.identifier name, mark) :: rest) =
        refuse _ ((.identifier name, mark) :: rest) := rfl
    have ends := endsRule_operand finished chain name mark rest
    exact ⟨_, rfl,
      (EndsRule.orElse_second uncycled (EndsRule.orElse_second ungrouped ends)).labelled .layout⟩

theorem terminal_refuses {token : Token} (foreign : ¬token.BeginsLayout) (mark : place)
    (rest : List (Token × place)) :
    terminal ((token, mark) :: rest) = refuse [.layout] ((token, mark) :: rest) := by
  obtain ⟨uncycled, ungrouped, unnamed⟩ := not_or.mp foreign |>.imp_right not_or.mp
  have noCycle : cyclic ((token, mark) :: rest) =
      refuse [.token (.keyword .cycle)] ((token, mark) :: rest) := just_bind_of_ne uncycled rest
  have noGroup : grouping ((token, mark) :: rest) =
      refuse [.token (.keyword .group)] ((token, mark) :: rest) := just_bind_of_ne ungrouped rest
  have noName := identifier_refuses unnamed mark rest
  have noBinary : binary ((token, mark) :: rest) =
      refuse [.identifier] ((token, mark) :: rest) := bind_of_none noName
  have noUnary : unary ((token, mark) :: rest) =
      refuse [.identifier] ((token, mark) :: rest) := bind_of_none noName
  rw [terminal, labelled, orElse_of_refuse noCycle (orElse_of_refuse noGroup
    (orElse_of_refuse noBinary noUnary))]
  simp [refuse]

end Terminals

end RelationalLayout
