/-!
Generations number the reconciliation cycles of a provider. A result that
carries an older generation than the current one belongs to a cycle that is
over, so nothing but equality with the current generation is ever asked.
-/

namespace FreshTree

/-- The number of a reconciliation cycle. The first cycle has number one; zero
stands for the time before it. -/
structure Generation where
  count : UInt64
deriving DecidableEq, Inhabited

namespace Generation

def initial : Generation := ⟨0⟩

/-- The number of the cycle after this one. It wraps at 2^64. -/
def next (g : Generation) : Generation := ⟨g.count + 1⟩

def short (g : Generation) : String := "g" ++ toString g.count.toNat

def long (g : Generation) : String := "Generation(" ++ toString g.count.toNat ++ ")"

-- A cycle never shares its number with the one right before it, wrapping included.
theorem next_ne (g : Generation) : g.next ≠ g := by
  intro same
  have counts : g.count + 1 = g.count := congrArg Generation.count same
  have values := congrArg UInt64.toNat counts
  have bound := g.count.toNat_lt
  rw [UInt64.toNat_add] at values
  simp at values
  omega

end Generation

end FreshTree
