/-
Reading a program one token at a time.

A draft is what a token sequence has spelled so far. The next token either extends the
draft or can stand in no program that starts with the tokens read. Each construct takes a
draft from one known state to the next while its tokens are read, and a rule leads from any
draft that makes up a program to one that makes up the same program with the rule at its end.
-/

import RelationalLayout.Text.Grammar
import RelationalLayout.Text.Parser

namespace RelationalLayout

/-! ### Drafts -/

/-- A selector that is being read, after the word `IF`. -/
inductive SelectorDraft where
  | start
  | named (name : String)
  | typing (variableName : String)
  | opened (predicateName : String)
  | argument (predicateName : String) (earlier : List String) (latest : String)
  | comma (predicateName : String) (earlier : List String)
  | closed (selector : Selector)
deriving DecidableEq

inductive TerminalDraft where
  | start
  | cycle
  | cycleFrom (first : String)
  | cycleTowards (first : String) (option : CyclicOption)
  | group
  | operand (name : String)
  | relation (first : String) (option : BinaryOption)
deriving DecidableEq

/-- A separation that is being read, after its opening parenthesis. -/
inductive SeparationDraft where
  | start
  | named
  | atLeast
  | atLeastDistance
  | exactlyDistance
  | measured (separation : Separation)
deriving DecidableEq

inductive Draft where
  /-- Between rules, when the latest rule takes no separation any more. -/
  | complete (finished : Program)
  /-- Behind a rule that may still get a separation. -/
  | extendable (finished : Program) (latest : Rule)
  | selecting (finished : Program) (outer : Option Chain) (inner : SelectorDraft)
  | placing (finished : Program) (chain : Chain) (terminal : TerminalDraft)
  | separating (finished : Program) (latest : Rule) (separation : SeparationDraft)
deriving DecidableEq

namespace SelectorDraft

def step : SelectorDraft → Token → Option SelectorDraft
  | .start, .identifier name => some (.named name)
  | .named name, .colon => some (.typing name)
  | .named name, .openParen => some (.opened name)
  | .typing variableName, .identifier name => some (.closed (.signature variableName name))
  | .opened predicateName, .closeParen => some (.closed (.predicate predicateName []))
  | .opened predicateName, .identifier name => some (.argument predicateName [] name)
  | .argument predicateName earlier latest, .comma =>
      some (.comma predicateName (earlier ++ [latest]))
  | .argument predicateName earlier latest, .closeParen =>
      some (.closed (.predicate predicateName (earlier ++ [latest])))
  | .comma predicateName earlier, .identifier name => some (.argument predicateName earlier name)
  | _, _ => none

def expected : SelectorDraft → List Expectation
  | .start => [.identifier]
  | .named _ => [.token .colon, .token .openParen]
  | .typing _ => [.identifier]
  | .opened _ => [.identifier, .token .closeParen]
  | .argument _ _ _ => [.token .comma, .token .closeParen]
  | .comma _ _ => [.identifier]
  | .closed _ => [.token (.keyword .thenWord)]

end SelectorDraft

namespace TerminalDraft

def step : TerminalDraft → Token → Option (TerminalDraft ⊕ Template)
  | .start, .keyword .cycle => some (.inl .cycle)
  | .start, .keyword .group => some (.inl .group)
  | .start, .identifier name => some (.inl (.operand name))
  | .cycle, .identifier name => some (.inl (.cycleFrom name))
  | .cycleFrom first, .cyclic option => some (.inl (.cycleTowards first option))
  | .cycleTowards first option, .identifier name => some (.inr (.cyclic option first name ()))
  | .group, .identifier name => some (.inr (.grouping name ()))
  | .operand name, .unary option => some (.inr (.unary option .unspecified name))
  | .operand name, .binary option => some (.inl (.relation name option))
  | .relation first option, .identifier name =>
      some (.inr (.binary option .unspecified first name))
  | _, _ => none

def expected : TerminalDraft → List Expectation
  | .start => [.token (.keyword .ifWord), .layout]
  | .cycle => [.identifier]
  | .cycleFrom _ => []
  | .cycleTowards _ _ => [.identifier]
  | .group => [.identifier]
  | .operand _ => []
  | .relation _ _ => [.identifier]

end TerminalDraft

namespace SeparationDraft

def step : SeparationDraft → Token → Option (SeparationDraft ⊕ Separation)
  | .start, .keyword .separation => some (.inl .named)
  | .named, .keyword .atWord => some (.inl .atLeast)
  | .named, .keyword .exactly => some (.inl .exactlyDistance)
  | .atLeast, .keyword .least => some (.inl .atLeastDistance)
  | .atLeastDistance, .number distance => some (.inl (.measured (.atLeast distance)))
  | .exactlyDistance, .number distance => some (.inl (.measured (.exactly distance)))
  | .measured separation, .closeParen => some (.inr separation)
  | _, _ => none

def expected : SeparationDraft → List Expectation
  | .start => [.token (.keyword .separation)]
  | .named => [.token (.keyword .atWord), .token (.keyword .exactly)]
  | .atLeast => [.token (.keyword .least)]
  | .atLeastDistance => [.number]
  | .exactlyDistance => [.number]
  | .measured _ => [.token .closeParen]

end SeparationDraft

/-- Whether a separation may follow the tokens of a terminal. -/
def Template.takesSeparation : Template → Bool
  | .unary _ .unspecified _ => true
  | .binary _ .unspecified _ _ => true
  | _ => false

namespace Draft

def afterTerminal (finished : Program) (rule : Rule) : Draft :=
  if Template.takesSeparation rule.terminal then
    .extendable finished rule
  else
    .complete (finished ++ [rule])

def step : Draft → Token → Option Draft
  | .complete finished, .keyword .ifWord => some (.selecting finished none .start)
  | .complete _, _ => none
  | .extendable finished latest, .keyword .ifWord =>
      some (.selecting (finished ++ [latest]) none .start)
  | .extendable finished latest, .openParen => some (.separating finished latest .start)
  | .extendable _ _, _ => none
  | .selecting finished outer (.closed selector), .keyword .thenWord =>
      some (.placing finished (Chain.push outer selector) .start)
  | .selecting finished outer inner, token =>
      (inner.step token).map (.selecting finished outer)
  | .placing finished chain .start, .keyword .ifWord =>
      some (.selecting finished (some chain) .start)
  | .placing finished chain terminal, token =>
      (terminal.step token).map (fun
        | .inl next => .placing finished chain next
        | .inr template => afterTerminal finished { chain := chain, terminal := template })
  | .separating finished latest separation, token =>
      (separation.step token).map (fun
        | .inl next => .separating finished latest next
        | .inr read =>
            let spaced : Rule := { latest with terminal := latest.terminal.withSeparation read }
            .complete (finished ++ [spaced]))

def expected : Draft → List Expectation
  | .complete _ => [.token (.keyword .ifWord), .endOfInput]
  | .extendable _ _ => [.token .openParen, .token (.keyword .ifWord), .endOfInput]
  | .selecting _ _ inner => inner.expected
  | .placing _ _ terminal => terminal.expected
  | .separating _ _ separation => separation.expected

def program? : Draft → Option Program
  | .complete finished => some finished
  | .extendable finished latest => some (finished ++ [latest])
  | _ => none

/-- Reads on until a token is refused; that token is then the first one left. -/
def advance {place : Type} (draft : Draft) : List (Token × place) → Draft × List (Token × place)
  | [] => (draft, [])
  | token :: rest =>
      match draft.step token.1 with
      | some next => advance next rest
      | none => (draft, token :: rest)

end Draft

/-! ### Selectors -/

namespace SelectorDraft

def run (draft : SelectorDraft) (tokens : List Token) : Option SelectorDraft :=
  tokens.foldlM step draft

theorem run_step {draft next : SelectorDraft} {token : Token}
    (leads : draft.step token = some next) (tokens : List Token) :
    draft.run (token :: tokens) = next.run tokens := by
  rw [run, List.foldlM_cons, leads]
  rfl

theorem run_arguments (predicateName latest : String) (others : List String)
    {draft : SelectorDraft} {earlier : List String}
    (leads : draft.step (.identifier latest) = some (.argument predicateName earlier latest)) :
    draft.run (argumentTokens (latest :: others) ++ [.closeParen]) =
      some (.closed (.predicate predicateName (earlier ++ latest :: others))) := by
  induction others generalizing draft earlier latest with
  | nil =>
      rw [argumentTokens, List.singleton_append, run_step leads]
      rfl
  | cons next others ih =>
      have towardsNext : (comma predicateName (earlier ++ [latest])).step (.identifier next) =
          some (.argument predicateName (earlier ++ [latest]) next) := rfl
      have separated : (argument predicateName earlier latest).step .comma =
          some (.comma predicateName (earlier ++ [latest])) := rfl
      have remaining := ih next towardsNext
      rw [argumentTokens, List.cons_append, List.cons_append, run_step leads, run_step separated,
        remaining, List.append_assoc, List.singleton_append]
      exact List.cons_ne_nil next others

theorem run_tokens (selector : Selector) :
    start.run selector.tokens = some (.closed selector) := by
  cases selector with
  | signature variableName signatureName => rfl
  | predicate predicateName arguments =>
      cases arguments with
      | nil => rfl
      | cons first others =>
          have opensList : (opened predicateName).step (.identifier first) =
              some (.argument predicateName [] first) := rfl
          exact run_arguments predicateName first others opensList

end SelectorDraft

namespace Draft

def run (draft : Draft) (tokens : List Token) : Option Draft := tokens.foldlM step draft

theorem run_step {draft next : Draft} {token : Token} (leads : draft.step token = some next)
    (tokens : List Token) : draft.run (token :: tokens) = next.run tokens := by
  rw [run, List.foldlM_cons, leads]
  rfl

theorem run_append {draft next : Draft} {tokens : List Token} (leads : draft.run tokens = some next)
    (later : List Token) : draft.run (tokens ++ later) = next.run later := by
  rw [run, List.foldlM_append]
  rw [run] at leads
  rw [leads]
  rfl

/-- Where tokens stand makes no difference to what they spell. -/
theorem advance_of_run {place : Type} {draft final : Draft} {placed : List (Token × place)}
    (leads : draft.run (placed.map Prod.fst) = some final) : draft.advance placed = (final, []) := by
  induction placed generalizing draft with
  | nil =>
      cases leads
      rfl
  | cons token placed ih =>
      rw [List.map_cons, run, List.foldlM_cons] at leads
      rw [advance]
      cases stepped : draft.step token.1 with
      | none =>
          rw [stepped] at leads
          cases leads
      | some next =>
          rw [stepped] at leads
          exact ih leads

theorem step_selecting {finished : Program} {outer : Option Chain} {inner next : SelectorDraft}
    {token : Token} (leads : inner.step token = some next) :
    (selecting finished outer inner).step token = some (.selecting finished outer next) := by
  cases inner with
  | closed selector => cases leads
  | _ => exact congrArg (Option.map (selecting finished outer)) leads

theorem run_selecting {finished : Program} {outer : Option Chain} {inner final : SelectorDraft}
    {tokens : List Token} (leads : inner.run tokens = some final) :
    (selecting finished outer inner).run tokens = some (.selecting finished outer final) := by
  induction tokens generalizing inner with
  | nil =>
      cases leads
      rfl
  | cons token tokens ih =>
      rw [SelectorDraft.run, List.foldlM_cons] at leads
      cases stepped : inner.step token with
      | none =>
          rw [stepped] at leads
          cases leads
      | some next =>
          rw [stepped] at leads
          rw [run_step (step_selecting stepped)]
          exact ih leads

theorem run_selector {draft : Draft} {finished : Program} {outer : Option Chain}
    (selector : Selector)
    (opens : draft.step (.keyword .ifWord) = some (.selecting finished outer .start)) :
    draft.run (.keyword .ifWord :: (selector.tokens ++ [.keyword .thenWord])) =
      some (.placing finished (Chain.push outer selector) .start) := by
  have read : (selecting finished outer .start).run selector.tokens =
      some (.selecting finished outer (.closed selector)) :=
    run_selecting (SelectorDraft.run_tokens selector)
  rw [run_step opens, run_append read]
  rfl

theorem run_innerSelectors (finished : Program) (chain : Chain) (selectors : List Selector) :
    (placing finished chain .start).run (chainTokens selectors) =
      some (.placing finished { first := chain.first, rest := chain.rest ++ selectors } .start) := by
  induction selectors generalizing chain with
  | nil =>
      rw [List.append_nil]
      rfl
  | cons selector selectors ih =>
      have opens : (placing finished chain .start).step (.keyword .ifWord) =
          some (.selecting finished (some chain) .start) := rfl
      have first := run_selector selector opens
      have later := ih (Chain.push (some chain) selector)
      rw [chainTokens, List.flatMap_cons, run_append first]
      rw [chainTokens] at later
      rw [later]
      simp only [Chain.push, List.append_assoc, List.singleton_append]

/-! ### Rules -/

theorem step_ifWord {draft : Draft} {finished : Program}
    (program : draft.program? = some finished) :
    draft.step (.keyword .ifWord) = some (.selecting finished none .start) := by
  cases draft with
  | complete _ =>
      cases program
      rfl
  | extendable _ _ =>
      cases program
      rfl
  | _ => cases program

theorem run_terminal (finished : Program) (chain : Chain) (terminal : Template) :
    ∃ final, (placing finished chain .start).run (Template.tokens terminal) = some final ∧
      final.program? = some (finished ++ [{ chain := chain, terminal := terminal }]) := by
  cases terminal with
  | unary option separation operand => cases separation <;> exact ⟨_, rfl, rfl⟩
  | binary option separation first second => cases separation <;> exact ⟨_, rfl, rfl⟩
  | cyclic option first second cycle => exact ⟨_, rfl, rfl⟩
  | grouping operand group => exact ⟨_, rfl, rfl⟩

theorem run_rule {draft : Draft} {finished : Program} (program : draft.program? = some finished)
    (rule : Rule) :
    ∃ final, draft.run rule.tokens = some final ∧ final.program? = some (finished ++ [rule]) := by
  have outer := run_selector rule.chain.first (step_ifWord program)
  have inner := run_innerSelectors finished (Chain.push none rule.chain.first) rule.chain.rest
  obtain ⟨final, placed, makesUp⟩ := run_terminal finished rule.chain rule.terminal
  refine ⟨final, ?_, makesUp⟩
  rw [Rule.tokens, Rule.selectors, Chain.toList, chainTokens, List.flatMap_cons, List.append_assoc,
    run_append outer]
  rw [chainTokens] at inner
  rw [run_append inner]
  exact placed

theorem run_program {draft : Draft} {finished : Program} (started : draft.program? = some finished)
    (program : Program) :
    ∃ final, draft.run (Program.tokens program) = some final ∧
      final.program? = some (finished ++ program) := by
  induction program generalizing draft finished with
  | nil =>
      refine ⟨draft, rfl, ?_⟩
      rw [List.append_nil]
      exact started
  | cons rule rules ih =>
      obtain ⟨next, read, extended⟩ := run_rule started rule
      obtain ⟨final, remaining, makesUp⟩ := ih extended
      refine ⟨final, ?_, ?_⟩
      · rw [Program.tokens, List.flatMap_cons, run_append read]
        exact remaining
      · rw [makesUp, List.append_assoc, List.singleton_append]

end Draft

end RelationalLayout
