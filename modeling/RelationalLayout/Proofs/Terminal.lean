/-
The terminals that a search tries.

Relations to the centre are tried for each variable, and relations between two variables
for all pairs of different ones, except that a relation and its mirror say the same: the
first of the two that comes up is tried, and the other one is not.
-/

import RelationalLayout.Proofs.Mirror
import RelationalLayout.Proofs.SortedMap
import RelationalLayout.Search

namespace RelationalLayout

theorem UnaryOption.mem_all (option : UnaryOption) : option ∈ all := by
  cases option <;> decide

theorem UnaryOption.nodup_all : all.Nodup := by decide

theorem BinaryOption.mem_all (option : BinaryOption) : option ∈ all := by
  cases option <;> decide

theorem BinaryOption.nodup_all : all.Nodup := by decide

namespace RelatedPair

variable {pair image other : RelatedPair} {considered pairs : List RelatedPair} {names : List String}

/-! ### Mirrored pairs -/

theorem mirror?_mirror? (mirrored : pair.mirror? = some image) : image.mirror? = some pair := by
  obtain ⟨mirror, found, rfl⟩ := Option.map_eq_some_iff.mp mirrored
  rw [mirror?, BinaryOption.mirror_mirror found]
  rfl

theorem withoutMirrors_cons (considered : List RelatedPair) (pair : RelatedPair)
    (rest : List RelatedPair) :
    withoutMirrors considered (pair :: rest) =
      if ∃ image ∈ considered, pair.mirror? = some image then
        withoutMirrors (pair :: considered) rest
      else
        pair :: withoutMirrors (pair :: considered) rest := by
  rw [withoutMirrors]
  cases pair.mirror? with
  | none => simp
  | some image => simp

theorem sublist_withoutMirrors (considered pairs : List RelatedPair) :
    (withoutMirrors considered pairs).Sublist pairs := by
  induction pairs generalizing considered with
  | nil => exact List.Sublist.slnil
  | cons pair rest ih =>
      rw [withoutMirrors_cons]
      split
      · exact (ih _).cons pair
      · exact (ih _).cons_cons pair

theorem mem_withoutMirrors_cons_of_ne (different : other ≠ pair) :
    other ∈ withoutMirrors considered (pair :: pairs) ↔
      other ∈ withoutMirrors (pair :: considered) pairs := by
  rw [withoutMirrors_cons]
  split
  · rfl
  · rw [List.mem_cons, or_iff_right different]

/-- Once its mirror is considered a pair is left out wherever it comes up. -/
theorem not_mem_withoutMirrors (mirrored : pair.mirror? = some image)
    (before : image ∈ considered) : pair ∉ withoutMirrors considered pairs := by
  induction pairs generalizing considered with
  | nil => exact List.not_mem_nil
  | cons head rest ih =>
      have later := ih (List.mem_cons_of_mem head before)
      by_cases same : pair = head
      · subst same
        rw [withoutMirrors_cons, if_pos ⟨image, before, mirrored⟩]
        exact later
      · rw [mem_withoutMirrors_cons_of_ne same]
        exact later

theorem mem_withoutMirrors_head (fresh : ∀ image, pair.mirror? = some image → image ∉ considered) :
    pair ∈ withoutMirrors considered (pair :: pairs) := by
  rw [withoutMirrors_cons, if_neg]
  · exact List.mem_cons_self
  · rintro ⟨image, before, mirrored⟩
    exact fresh image mirrored before

theorem mem_withoutMirrors_of_mirror?_eq_none (alone : pair.mirror? = none) (member : pair ∈ pairs) :
    pair ∈ withoutMirrors considered pairs := by
  induction pairs generalizing considered with
  | nil => cases member
  | cons head rest ih =>
      by_cases same : pair = head
      · subst same
        refine mem_withoutMirrors_head fun image mirrored => ?_
        cases alone.symm.trans mirrored
      · rw [mem_withoutMirrors_cons_of_ne same]
        exact ih ((List.mem_cons.mp member).resolve_left same)

/-- Of two pairs that mirror each other one is kept: the first that comes up, for the other one
then finds it among those considered. -/
theorem mem_withoutMirrors_iff_mirror_not_mem (mirrored : pair.mirror? = some image)
    (different : pair ≠ image) (here : pair ∈ pairs) (there : image ∈ pairs)
    (fresh : pair ∉ considered) (imageFresh : image ∉ considered) :
    pair ∈ withoutMirrors considered pairs ↔ image ∉ withoutMirrors considered pairs := by
  have back := mirror?_mirror? mirrored
  induction pairs generalizing considered with
  | nil => cases here
  | cons head rest ih =>
      -- At the front stands the pair, its mirror or one that is neither.
      by_cases first : pair = head
      · subst first
        refine iff_of_true (mem_withoutMirrors_head ?_) ?_
        · rintro other found
          cases mirrored.symm.trans found
          exact imageFresh
        · rw [mem_withoutMirrors_cons_of_ne different.symm]
          exact not_mem_withoutMirrors back List.mem_cons_self
      by_cases imageFirst : image = head
      · subst imageFirst
        refine iff_of_false ?_ (not_not_intro (mem_withoutMirrors_head ?_))
        · rw [mem_withoutMirrors_cons_of_ne different]
          exact not_mem_withoutMirrors mirrored List.mem_cons_self
        · rintro other found
          cases back.symm.trans found
          exact fresh
      · rw [mem_withoutMirrors_cons_of_ne first, mem_withoutMirrors_cons_of_ne imageFirst]
        exact ih ((List.mem_cons.mp here).resolve_left first)
          ((List.mem_cons.mp there).resolve_left imageFirst)
          (List.not_mem_cons_of_ne_of_not_mem first fresh)
          (List.not_mem_cons_of_ne_of_not_mem imageFirst imageFresh)

/-! ### All pairs -/

theorem mem_allOver_iff :
    pair ∈ allOver names ↔ pair.first ∈ names ∧ pair.second ∈ names ∧ pair.first ≠ pair.second := by
  simp only [allOver, List.mem_flatMap, List.mem_map, List.mem_filter, decide_eq_true_eq]
  constructor
  · rintro ⟨option, _, first, knownFirst, second, ⟨knownSecond, different⟩, rfl⟩
    exact ⟨knownFirst, knownSecond, different.symm⟩
  · rintro ⟨knownFirst, knownSecond, different⟩
    exact ⟨pair.option, pair.option.mem_all, pair.first, knownFirst, pair.second,
      ⟨knownSecond, different.symm⟩, rfl⟩

theorem nodup_allOver (distinct : names.Nodup) : (allOver names).Nodup := by
  refine List.nodup_flatMap.mpr ⟨fun option _ => ?_, BinaryOption.nodup_all.imp ?_⟩
  · refine List.nodup_flatMap.mpr ⟨fun first _ => ?_, distinct.imp ?_⟩
    · exact (distinct.filter _).map fun second other same => (RelatedPair.mk.inj same).2.2
    · intro first other different pair ofFirst ofOther
      obtain ⟨_, _, rfl⟩ := List.mem_map.mp ofFirst
      obtain ⟨_, _, same⟩ := List.mem_map.mp ofOther
      exact different (RelatedPair.mk.inj same).1.symm
  · intro option other different pair ofOption ofOther
    obtain ⟨_, _, inPairs⟩ := List.mem_flatMap.mp ofOption
    obtain ⟨_, _, rfl⟩ := List.mem_map.mp inPairs
    obtain ⟨_, _, inOthers⟩ := List.mem_flatMap.mp ofOther
    obtain ⟨_, _, same⟩ := List.mem_map.mp inOthers
    exact different (RelatedPair.mk.inj same).2.1.symm

end RelatedPair

/-! ### The terminals over some variables -/

/-- A relation with no separation between variables, or one of a variable to the centre. -/
inductive Template.Over (names : List String) : Template → Prop where
  | unary (option : UnaryOption) {operand : String} (known : operand ∈ names) :
      Over names (.unary option .unspecified operand)
  | binary (option : BinaryOption) {first second : String} (knownFirst : first ∈ names)
      (knownSecond : second ∈ names) (different : first ≠ second) :
      Over names (.binary option .unspecified first second)

theorem Template.Over.mono {names others : List String} {template : Template}
    (inScope : Template.Over names template) (included : ∀ name ∈ names, name ∈ others) :
    Template.Over others template := by
  cases inScope with
  | unary option known => exact .unary option (included _ known)
  | binary option knownFirst knownSecond different =>
      exact .binary option (included _ knownFirst) (included _ knownSecond) different

section Tried

variable {names : List String} {option mirror : BinaryOption} {first second : String}

theorem mem_templatesOver_unary (option : UnaryOption) {operand : String}
    (known : operand ∈ names) : .unary option .unspecified operand ∈ templatesOver names := by
  refine List.mem_append_left _ (List.mem_flatMap.mpr ⟨option, option.mem_all, ?_⟩)
  exact List.mem_map.mpr ⟨operand, known, rfl⟩

theorem mem_templatesOver_binary_iff :
    .binary option .unspecified first second ∈ templatesOver names ↔
      RelatedPair.mk first option second ∈
        RelatedPair.withoutMirrors [] (RelatedPair.allOver names) := by
  constructor
  · intro member
    rcases List.mem_append.mp member with isUnary | isBinary
    · obtain ⟨_, _, inNames⟩ := List.mem_flatMap.mp isUnary
      obtain ⟨_, _, impossible⟩ := List.mem_map.mp inNames
      cases impossible
    · obtain ⟨⟨_, _, _⟩, kept, same⟩ := List.mem_map.mp isBinary
      cases same
      exact kept
  · intro kept
    exact List.mem_append_right _ (List.mem_map.mpr ⟨_, kept, rfl⟩)

theorem over_of_mem_templatesOver {template : Template} (member : template ∈ templatesOver names) :
    Template.Over names template := by
  rcases List.mem_append.mp member with isUnary | isBinary
  · obtain ⟨option, _, inNames⟩ := List.mem_flatMap.mp isUnary
    obtain ⟨operand, known, rfl⟩ := List.mem_map.mp inNames
    exact .unary option known
  · obtain ⟨pair, kept, rfl⟩ := List.mem_map.mp isBinary
    have inAll := (RelatedPair.sublist_withoutMirrors _ _).subset kept
    obtain ⟨knownFirst, knownSecond, different⟩ := RelatedPair.mem_allOver_iff.mp inAll
    exact .binary pair.option knownFirst knownSecond different

theorem mem_templatesOver_binary (alone : option.mirror = none) (knownFirst : first ∈ names)
    (knownSecond : second ∈ names) (different : first ≠ second) :
    .binary option .unspecified first second ∈ templatesOver names := by
  refine mem_templatesOver_binary_iff.mpr (RelatedPair.mem_withoutMirrors_of_mirror?_eq_none ?_ ?_)
  · rw [RelatedPair.mirror?, alone]
    rfl
  · exact RelatedPair.mem_allOver_iff.mpr ⟨knownFirst, knownSecond, different⟩

theorem mem_templatesOver_iff_mirror_not_mem (mirrored : option.mirror = some mirror)
    (knownFirst : first ∈ names) (knownSecond : second ∈ names) (different : first ≠ second) :
    .binary option .unspecified first second ∈ templatesOver names ↔
      .binary mirror .unspecified second first ∉ templatesOver names := by
  rw [mem_templatesOver_binary_iff, mem_templatesOver_binary_iff]
  apply RelatedPair.mem_withoutMirrors_iff_mirror_not_mem
  · rw [RelatedPair.mirror?, mirrored]
    rfl
  · exact fun same => different (RelatedPair.mk.inj same).1
  · exact RelatedPair.mem_allOver_iff.mpr ⟨knownFirst, knownSecond, different⟩
  · exact RelatedPair.mem_allOver_iff.mpr ⟨knownSecond, knownFirst, different.symm⟩
  · exact List.not_mem_nil
  · exact List.not_mem_nil

theorem mem_templatesOver_or_mirror (option : BinaryOption) (knownFirst : first ∈ names)
    (knownSecond : second ∈ names) (different : first ≠ second) :
    .binary option .unspecified first second ∈ templatesOver names ∨
      ∃ mirror, option.mirror = some mirror ∧
        .binary mirror .unspecified second first ∈ templatesOver names := by
  cases mirrored : option.mirror with
  | none => exact Or.inl (mem_templatesOver_binary mirrored knownFirst knownSecond different)
  | some mirror =>
      have exactlyOne :=
        mem_templatesOver_iff_mirror_not_mem mirrored knownFirst knownSecond different
      by_cases tried : .binary option .unspecified first second ∈ templatesOver names
      · exact Or.inl tried
      · exact Or.inr ⟨mirror, rfl, not_not.mp (mt exactlyOne.mpr tried)⟩

theorem nodup_templatesOver (distinct : names.Nodup) : (templatesOver names).Nodup := by
  refine List.nodup_append'.mpr ⟨?_, ?_, ?_⟩
  · refine List.nodup_flatMap.mpr ⟨fun option _ => ?_, UnaryOption.nodup_all.imp ?_⟩
    · exact distinct.map fun operand other same => (Layout.unary.inj same).2.2
    · intro option other different template ofOption ofOther
      obtain ⟨_, _, rfl⟩ := List.mem_map.mp ofOption
      obtain ⟨_, _, same⟩ := List.mem_map.mp ofOther
      exact different (Layout.unary.inj same).1.symm
  · have kept := (RelatedPair.nodup_allOver distinct).sublist
      (RelatedPair.sublist_withoutMirrors [] _)
    refine kept.map fun pair other same => ?_
    obtain ⟨sameOption, _, sameFirst, sameSecond⟩ := Layout.binary.inj same
    cases pair
    cases other
    cases sameOption
    cases sameFirst
    cases sameSecond
    rfl
  · intro template isUnary isBinary
    obtain ⟨_, _, inNames⟩ := List.mem_flatMap.mp isUnary
    obtain ⟨_, _, rfl⟩ := List.mem_map.mp inNames
    obtain ⟨_, _, impossible⟩ := List.mem_map.mp isBinary
    cases impossible

end Tried

/-- Each meaning is tried once: every relation of a variable to the centre, and of all relations
between two different variables one of each that say the same. -/
theorem templatesOver_exact (env : TypeEnv) :
    (templatesOver env.keys).Nodup ∧
      (∀ template ∈ templatesOver env.keys, Template.Over env.keys template) ∧
      (∀ option, ∀ operand ∈ env.keys,
        .unary option .unspecified operand ∈ templatesOver env.keys) ∧
      (∀ option separation operand,
        .binary option separation operand operand ∉ templatesOver env.keys) ∧
      ∀ option, ∀ first ∈ env.keys, ∀ second ∈ env.keys, first ≠ second →
        (option.mirror = none →
          .binary option .unspecified first second ∈ templatesOver env.keys) ∧
        ∀ mirror, option.mirror = some mirror →
          (.binary option .unspecified first second ∈ templatesOver env.keys ↔
            .binary mirror .unspecified second first ∉ templatesOver env.keys) := by
  refine ⟨nodup_templatesOver env.nodup_keys, fun template => over_of_mem_templatesOver,
    fun option operand => mem_templatesOver_unary option, fun option separation operand member => ?_,
    fun option first knownFirst second knownSecond different => ⟨fun alone => ?_, ?_⟩⟩
  · cases over_of_mem_templatesOver member with
    | binary _ _ _ different => exact different rfl
  · exact mem_templatesOver_binary alone knownFirst knownSecond different
  · intro mirror mirrored
    exact mem_templatesOver_iff_mirror_not_mem mirrored knownFirst knownSecond different

def twoApples : TypeEnv := .ofList [("v0", "Apple"), ("v1", "Apple")]

/-- An alignment is its own mirror, so it is tried in one order of its variables; containment
has no mirror and is tried in both. -/
theorem templatesOver_exact_two_apples :
    "v0" ∈ twoApples.keys ∧ "v1" ∈ twoApples.keys ∧ "v0" ≠ "v1" ∧
      BinaryOption.mirror .verticallyAligned = some .verticallyAligned ∧
      (.binary .verticallyAligned .unspecified "v0" "v1" ∈ templatesOver twoApples.keys ↔
        .binary .verticallyAligned .unspecified "v1" "v0" ∉ templatesOver twoApples.keys) ∧
      BinaryOption.mirror .contains = none ∧
      .binary .contains .unspecified "v1" "v0" ∈ templatesOver twoApples.keys := by
  have knownFirst : "v0" ∈ twoApples.keys := by decide
  have knownSecond : "v1" ∈ twoApples.keys := by decide
  have different : "v0" ≠ "v1" := by decide
  obtain ⟨_, _, _, _, each⟩ := templatesOver_exact twoApples
  exact ⟨knownFirst, knownSecond, different, rfl,
    (each .verticallyAligned _ knownFirst _ knownSecond different).2 _ rfl, rfl,
    (each .contains _ knownSecond _ knownFirst different.symm).1 rfl⟩

example : (templatesOver twoApples.keys).length = 24 := by decide

end RelationalLayout
