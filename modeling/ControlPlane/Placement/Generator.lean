/-!
# Pseudorandom numbers

A generator of numbers that look random and are the same for the same seed. Its state moves on by a
fixed odd step, so it takes every value once before one returns; what is drawn are the high bits of
the mixed state.
-/

namespace ControlPlane

/-- A generator of pseudorandom numbers. The same state gives the same numbers, which is what makes
a rehearsal repeatable. -/
structure Generator where
  state : UInt64 := 0
deriving DecidableEq, Inhabited

namespace Generator

/-- A number whose bits depend on all bits of the state, so that the remainders of numbers that
follow each other have nothing to do with each other. -/
def mixed (state : UInt64) : UInt64 :=
  let x := (state ^^^ (state >>> 30)) * 0xBF58476D1CE4E5B9
  let y := (x ^^^ (x >>> 27)) * 0x94D049BB133111EB
  y ^^^ (y >>> 31)

/-- A number that is at most `bound`, with the generator behind it. A remainder is taken, so the
numbers are only nearly equally likely unless `bound + 1` is a power of two. -/
def pick (g : Generator) (bound : Nat) : Fin (bound + 1) × Generator :=
  let state := g.state + 0x9E3779B97F4A7C15
  (⟨(mixed state).toNat % (bound + 1), Nat.mod_lt _ (Nat.succ_pos bound)⟩, ⟨state⟩)

end Generator

end ControlPlane
