/-
Inferring rules from an instance and a drawing of it.

All rules up to a bound on the length of their chain are tried. A chain starts
with signature selectors over distinct variables and goes on with distinct
predicate selectors over the variables so typed. A rule is kept when its score
exceeds a threshold; of the rules with the same footprints the simplest is kept,
and of equally simple ones the first.
-/

import RelationalLayout.Confidence
import RelationalLayout.Footprint
import RelationalLayout.Typing

namespace RelationalLayout

structure InferredRule (α : Type) where
  rule : Rule
  confidence : α
  footprints : List GroundLayout

namespace InferredRule

variable {α : Type}

def key (inferred : InferredRule α) : FootprintKey := .ofFootprints inferred.footprints

def complexity (inferred : InferredRule α) : Nat := inferred.rule.complexity

end InferredRule

/-! ### Chains -/

inductive SelectorKind where
  | signature
  | predicate
deriving DecidableEq

def SelectorKind.successors : SelectorKind → List SelectorKind
  | .signature => [.predicate, .signature]
  | .predicate => [.predicate]

/-- A chain under construction, with the signatures of its variables. -/
structure TypedChain where
  selectors : List Selector
  env : TypeEnv

namespace TypedChain

def empty : TypedChain := { selectors := [], env := .empty }

def variablePool (length : Nat) : List String :=
  (List.range length).map (fun index => "v" ++ Nat.repr index)

def signatureExtensions (schema : Schema) (pool : List String) (chain : TypedChain) :
    List TypedChain :=
  schema.signatures.flatMap (fun signature =>
    (pool.filter (fun variableName => !chain.env.contains variableName)).map (fun variableName =>
      { selectors := chain.selectors ++ [.signature variableName signature]
        env := chain.env.insert variableName signature }))

def choices : List (List String) → List (List String)
  | [] => [[]]
  | list :: rest => list.flatMap (fun item => (choices rest).map (fun later => item :: later))

def variablesOf (env : TypeEnv) (signature : String) : List String :=
  (env.entries.filter (fun entry => entry.2 == signature)).map Prod.fst

/-- Every predicate over all well-typed variables, unless the chain has that selector. -/
def predicateExtensions (schema : Schema) (chain : TypedChain) : List TypedChain :=
  schema.predicates.flatMap (fun predicate =>
    let selectors := (choices (predicate.signatures.map (variablesOf chain.env))).map
      (fun arguments => Selector.predicate predicate.name arguments)
    (selectors.filter (fun selector => selector ∉ chain.selectors)).map (fun selector =>
      { chain with selectors := chain.selectors ++ [selector] }))

def extensions (schema : Schema) (pool : List String) (chain : TypedChain) :
    SelectorKind → List TypedChain
  | .signature => chain.signatureExtensions schema pool
  | .predicate => chain.predicateExtensions schema

end TypedChain

/-! ### The search for chains -/

/-- A chain that still gets some selectors, the next of which is of a kind. -/
structure SearchState where
  chain : TypedChain
  remaining : Nat
  next : SelectorKind

namespace SearchState

def root (length : Nat) : SearchState :=
  { chain := .empty, remaining := length, next := .signature }

def extend (state : SearchState) (longer : TypedChain) (next : SelectorKind) : SearchState :=
  { chain := longer, remaining := state.remaining - 1, next := next }

/-- The kinds that the selector behind the next one may have. What would follow the last
selector makes no difference, so one kind stands for all of them there. -/
def successors (state : SearchState) : List SelectorKind :=
  if state.remaining = 1 then [.predicate] else state.next.successors

def children (schema : Schema) (pool : List String) (state : SearchState) : List SearchState :=
  (state.chain.extensions schema pool state.next).flatMap (fun longer =>
    state.successors.map (state.extend longer))

/-- Puts states on a stack one by one, so that the first of them ends on top. -/
def push (states stack : List SearchState) : List SearchState :=
  states.reverse.foldl (fun pushed state => state :: pushed) stack

theorem push_eq (states stack : List SearchState) : push states stack = states ++ stack := by
  simp [push]

/-- How many rounds it takes to deal with a state that gets some more selectors, and with all
states that come of it. -/
def rounds (schema : Schema) (pool : List String) : Nat → SearchState → Nat
  | 0, _ => 1
  | further + 1, state =>
      ((state.children schema pool).map (rounds schema pool further)).foldr Nat.add 1

def stackRounds (schema : Schema) (pool : List String) : List SearchState → Nat
  | [] => 0
  | state :: stack => rounds schema pool state.remaining state + stackRounds schema pool stack

theorem stackRounds_append (schema : Schema) (pool : List String) (states stack : List SearchState) :
    stackRounds schema pool (states ++ stack) =
      stackRounds schema pool states + stackRounds schema pool stack := by
  induction states with
  | nil => rw [List.nil_append, stackRounds, Nat.zero_add]
  | cons state states ih => rw [List.cons_append, stackRounds, stackRounds, ih, Nat.add_assoc]

theorem remaining_of_mem_children {schema : Schema} {pool : List String} {state child : SearchState}
    (member : child ∈ state.children schema pool) : child.remaining = state.remaining - 1 := by
  obtain ⟨longer, _, inChildren⟩ := List.mem_flatMap.mp member
  obtain ⟨next, _, rfl⟩ := List.mem_map.mp inChildren
  rfl

theorem stackRounds_children (schema : Schema) (pool : List String) {state : SearchState}
    (unfinished : state.remaining ≠ 0) :
    stackRounds schema pool (state.children schema pool) + 1 =
      rounds schema pool state.remaining state := by
  obtain ⟨further, more⟩ := Nat.exists_eq_succ_of_ne_zero unfinished
  have same : ∀ child ∈ state.children schema pool, child.remaining = further := by
    intro child member
    rw [remaining_of_mem_children member, more, Nat.succ_sub_one]
  rw [more, rounds]
  generalize state.children schema pool = children at same
  induction children with
  | nil => rfl
  | cons child children ih =>
      obtain ⟨here, later⟩ := List.forall_mem_cons.mp same
      rw [stackRounds, here, List.map_cons, List.foldr_cons, ← ih later, Nat.add_assoc]
      rfl

/-- Works a stack off from its top. A finished chain is handed over, any other state makes way
for its children. -/
def explore {σ ε : Type} (schema : Schema) (pool : List String)
    (visit : σ → TypedChain → Except ε σ) (found : σ) : List SearchState → Except ε σ
  | [] => .ok found
  | state :: stack =>
      if state.remaining = 0 then do
        let next ← visit found state.chain
        explore schema pool visit next stack
      else
        explore schema pool visit found (push (state.children schema pool) stack)
termination_by stack => stackRounds schema pool stack
decreasing_by
  · rename_i finished
    rw [stackRounds, finished, rounds]
    omega
  · rename_i unfinished
    have fewer := stackRounds_children schema pool unfinished
    rw [push_eq, stackRounds_append, stackRounds]
    omega

end SearchState

/-! ### Terminals -/

structure RelatedPair where
  first : String
  option : BinaryOption
  second : String
deriving DecidableEq

namespace RelatedPair

def mirror? (pair : RelatedPair) : Option RelatedPair :=
  pair.option.mirror.map (fun mirror =>
    { first := pair.second, option := mirror, second := pair.first })

def terminal (pair : RelatedPair) : Template :=
  .binary pair.option .unspecified pair.first pair.second

def allOver (names : List String) : List RelatedPair :=
  BinaryOption.all.flatMap (fun option =>
    names.flatMap (fun first =>
      (names.filter (fun second => second ≠ first)).map (fun second =>
        { first := first, option := option, second := second })))

/-- Leaves out each pair whose mirror was considered before it. A pair that is left out
counts as considered too. -/
def withoutMirrors (considered : List RelatedPair) : List RelatedPair → List RelatedPair
  | [] => []
  | pair :: rest =>
      let mirrored := pair.mirror?.any (fun mirror => considered.contains mirror)
      let later := withoutMirrors (pair :: considered) rest
      if mirrored then later else pair :: later

end RelatedPair

/-- The terminals over some variables, each meaning once. -/
def templatesOver (names : List String) : List Template :=
  UnaryOption.all.flatMap (fun option => names.map (Layout.unary option .unspecified)) ++
    (RelatedPair.withoutMirrors [] (RelatedPair.allOver names)).map RelatedPair.terminal

/-! ### Scores -/

variable {α : Type} [Scalar α]

structure Evidence (α : Type) where
  schema : Schema
  world : Instance
  diagram : Diagram α
  threshold : α

namespace Evidence

/-- The score of one instance of a terminal, zero where an atom is not drawn; `none`
when there is no score for it at all. -/
def scoreOf? (evidence : Evidence α) (layout : GroundLayout) : Option α :=
  match layout.score evidence.diagram with
  | .ok confidence => some confidence
  | .error (.missingPosition _) => some Scalar.zero
  | .error (.unsupported _) => none

/-- Instantiates a terminal and scores its instances in order. A terminal without a
score is given up where that is found. -/
def scoreAll (evidence : Evidence α) (terminal : Template) :
    List Substitution → Except CompileError (Option (List (GroundLayout × α)))
  | [] => .ok (some [])
  | substitution :: rest => do
      let layout ← terminal.instantiate substitution "0"
      match evidence.scoreOf? layout with
      | none => .ok none
      | some confidence =>
          .ok ((← scoreAll evidence terminal rest).map (fun later => (layout, confidence) :: later))

def accept? (evidence : Evidence α) (chain : Chain) (substitutions : List Substitution)
    (terminal : Template) : Except CompileError (Option (InferredRule α)) := do
  match ← evidence.scoreAll terminal substitutions with
  | none => .ok none
  | some scored =>
      let confidence := geometricMean (scored.map Prod.snd)
      if Scalar.exceeds confidence evidence.threshold then
        .ok (some
          { rule := { chain := chain, terminal := terminal }
            confidence := confidence
            footprints := GroundLayout.canonicalize (scored.map Prod.fst) })
      else
        .ok none

def acceptAll (evidence : Evidence α) (chain : Chain) (substitutions : List Substitution) :
    List Template → Except CompileError (List (InferredRule α))
  | [] => .ok []
  | terminal :: rest => do
      let accepted ← evidence.accept? chain substitutions terminal
      .ok (accepted.toList ++ (← acceptAll evidence chain substitutions rest))

/-- The accepted rules of a chain. A chain that matches nothing has none. -/
def rulesOf (evidence : Evidence α) (chain : TypedChain) :
    Except CompileError (List (InferredRule α)) :=
  match Chain.ofList? chain.selectors with
  | none => .ok []
  | some selectors =>
      match substitutionsOf evidence.schema evidence.world chain.selectors with
      | .error fault => .error (.arityMismatch fault)
      | .ok [] => .ok []
      | .ok (first :: rest) =>
          evidence.acceptAll selectors (first :: rest) (templatesOver chain.env.keys)

end Evidence

/-! ### Results -/

abbrev InferredRules (α : Type) := SortedMap FootprintKey (InferredRule α)

/-- Keeps a rule unless one as simple has the same footprints. -/
def InferredRules.record (found : InferredRules α) (candidate : InferredRule α) :
    InferredRules α :=
  match found.find? candidate.key with
  | none => found.insert candidate.key candidate
  | some earlier =>
      if candidate.complexity < earlier.complexity then
        found.insert candidate.key candidate
      else
        found

namespace Evidence

def recordChain (evidence : Evidence α) (found : InferredRules α) (chain : TypedChain) :
    Except CompileError (InferredRules α) := do
  let rules ← evidence.rulesOf chain
  .ok (rules.foldl InferredRules.record found)

def recordLength (evidence : Evidence α) (found : InferredRules α) (length : Nat) :
    Except CompileError (InferredRules α) :=
  SearchState.explore evidence.schema (TypedChain.variablePool length) evidence.recordChain found
    [.root length]

def recordLengths (evidence : Evidence α) (found : InferredRules α) (length : Nat) :
    Nat → Except CompileError (InferredRules α)
  | 0 => .ok found
  | more + 1 => do
      let next ← evidence.recordLength found length
      recordLengths evidence next (length + 1) more

/-- One rule for each set of footprints that rules with chains up to a bound have,
in the order of the footprints. -/
def infer (evidence : Evidence α) (bound : Nat) : Except CompileError (List (InferredRule α)) :=
  (evidence.recordLengths .empty 1 bound).map SortedMap.values

end Evidence

end RelationalLayout
