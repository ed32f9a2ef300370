/-
The first item at fault.

Whatever is checked item by item reports the first item at fault. Where an item may be at
fault because of those before it, the fault is said of the item together with them.
-/

import Mathlib.Data.List.Basic

namespace RelationalLayout

/-- The first item of a list that is at fault has this fault. -/
def FirstFault {α ε : Type} (Fails : α → ε → Prop) (items : List α) (fault : ε) : Prop :=
  ∃ before item after, items = before ++ item :: after ∧
    (∀ earlier ∈ before, ∀ other, ¬Fails earlier other) ∧ Fails item fault

namespace FirstFault

variable {α ε : Type} {Fails : α → ε → Prop} {item : α} {items : List α} {fault : ε}

theorem not_nil : ¬FirstFault Fails [] fault := by
  rintro ⟨before, item, after, split, _⟩
  cases before <;> cases split

theorem cons_iff :
    FirstFault Fails (item :: items) fault ↔
      Fails item fault ∨ (∀ other, ¬Fails item other) ∧ FirstFault Fails items fault := by
  constructor
  · rintro ⟨before, found, after, split, none, fails⟩
    cases before with
    | nil =>
        obtain ⟨rfl, _⟩ := List.cons.inj split
        exact Or.inl fails
    | cons first before =>
        obtain ⟨rfl, rest⟩ := List.cons.inj split
        obtain ⟨here, later⟩ := List.forall_mem_cons.mp none
        exact Or.inr ⟨here, before, found, after, rest, later, fails⟩
  · rintro (fails | ⟨here, before, found, after, rfl, none, fails⟩)
    · refine ⟨[], item, items, rfl, ?_, fails⟩
      intro earlier impossible
      cases impossible
    · refine ⟨item :: before, found, after, rfl, ?_, fails⟩
      exact List.forall_mem_cons.mpr ⟨here, none⟩

theorem singleton_iff : FirstFault Fails [item] fault ↔ Fails item fault := by
  rw [cons_iff, or_iff_left (fun given => not_nil given.2)]

theorem exists_iff :
    (∃ fault, FirstFault Fails items fault) ↔ ∃ item ∈ items, ∃ fault, Fails item fault := by
  induction items with
  | nil =>
      constructor
      · rintro ⟨fault, impossible⟩
        exact absurd impossible not_nil
      · rintro ⟨item, impossible, _⟩
        cases impossible
  | cons item items ih =>
      simp only [cons_iff, exists_or, exists_and_left, ih, List.mem_cons, or_and_right,
        exists_eq_left]
      by_cases fails : ∃ fault, Fails item fault
      · simp [fails]
      · simp [not_exists.mp fails]

end FirstFault

/-- The first item of a list that is at fault has this fault. Whether an item is at fault may
depend on the items before it. -/
def FirstFaultAfter {α ε : Type} (Fails : List α → α → ε → Prop) (items : List α) (fault : ε) :
    Prop :=
  ∃ before item after, items = before ++ item :: after ∧
    (∀ earlier other later, before = earlier ++ other :: later →
      ∀ error, ¬Fails earlier other error) ∧
    Fails before item fault

namespace FirstFaultAfter

variable {α ε : Type} {Fails : List α → α → ε → Prop} {item : α} {items : List α} {fault : ε}

theorem not_nil : ¬FirstFaultAfter Fails [] fault := by
  rintro ⟨before, item, after, split, _⟩
  cases before <;> cases split

theorem cons_iff :
    FirstFaultAfter Fails (item :: items) fault ↔
      Fails [] item fault ∨
        (∀ other, ¬Fails [] item other) ∧
          FirstFaultAfter (fun before => Fails (item :: before)) items fault := by
  constructor
  · rintro ⟨before, found, after, split, none, fails⟩
    cases before with
    | nil =>
        obtain ⟨rfl, _⟩ := List.cons.inj split
        exact Or.inl fails
    | cons first before =>
        obtain ⟨rfl, rest⟩ := List.cons.inj split
        refine Or.inr ⟨none [] item before rfl, before, found, after, rest, ?_, fails⟩
        intro earlier other later inside
        apply none (item :: earlier) other later
        rw [inside, List.cons_append]
  · rintro (fails | ⟨here, before, found, after, rfl, none, fails⟩)
    · refine ⟨[], item, items, rfl, ?_, fails⟩
      intro earlier other later impossible
      cases earlier <;> cases impossible
    · refine ⟨item :: before, found, after, rfl, ?_, fails⟩
      intro earlier other later inside
      cases earlier with
      | nil =>
          obtain ⟨rfl, _⟩ := List.cons.inj inside
          exact here
      | cons first earlier =>
          obtain ⟨rfl, rest⟩ := List.cons.inj inside
          exact none earlier other later rest

end FirstFaultAfter

end RelationalLayout
