/-!
The focus is the one unit that the cache may serve. It counts its effective
changes, so that whoever looked away can tell that it moved even if it came
back to the same unit meanwhile.
-/

namespace FreshTree

structure Focus (U : Type) where
  active : Option U := none
  /-- The number of effective changes so far. It wraps at 2^64. -/
  changes : UInt64 := 0
deriving DecidableEq

namespace Focus

variable {U : Type} [DecidableEq U]

/-- Moves the focus. Setting it to where it is already is no change. -/
def set (focus : Focus U) (unit : Option U) : Focus U :=
  if focus.active = unit then focus
  else { active := unit, changes := focus.changes + 1 }

theorem set_active (focus : Focus U) (unit : Option U) : (focus.set unit).active = unit := by
  unfold set
  split <;> simp_all

theorem set_changes (focus : Focus U) (unit : Option U) :
    (focus.set unit).changes =
      if focus.active = unit then focus.changes else focus.changes + 1 := by
  unfold set
  split <;> simp_all

end Focus

end FreshTree
