import JavaSubset.Vocabulary.Keyword

/-!
# Sets of modifiers

A `ModifierSet` lists its members in the order of `Modifier.all`, so that two sets with the same
members are equal.
-/

namespace JavaSubset

structure ModifierSet where
  toList : List Modifier
  canonical : toList = Modifier.all.filter (· ∈ toList)
  deriving DecidableEq

theorem Modifier.mem_all (m : Modifier) : m ∈ Modifier.all := by cases m <;> decide

namespace ModifierSet

/-- The set of the modifiers in a list, whatever their order and number. -/
def ofList (modifiers : List Modifier) : ModifierSet where
  toList := Modifier.all.filter (· ∈ modifiers)
  canonical := by simp [Modifier.mem_all]

def isEmpty (s : ModifierSet) : Bool := s.toList.isEmpty

instance : Membership Modifier ModifierSet := ⟨fun s m => m ∈ s.toList⟩

theorem mem_ofList {m : Modifier} {modifiers : List Modifier} :
    m ∈ ofList modifiers ↔ m ∈ modifiers := by
  change m ∈ Modifier.all.filter (· ∈ modifiers) ↔ m ∈ modifiers
  simp [Modifier.mem_all]

end ModifierSet

end JavaSubset
