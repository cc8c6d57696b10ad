import Keystroke.Binary64

/-!
# Random numbers

A pair of words that every random number replaces by its second word and a mixture of both, shifted
against each other.
-/

namespace Keystroke

/-- The state of the random number generator. -/
structure Generator where
  first : UInt64
  second : UInt64
deriving DecidableEq, Repr, Inhabited

namespace Generator

/-- The generator that a number stands for; its sign does not matter. -/
def ofSeed (seed : Binary64) : Generator :=
  let bits := seed.abs.bits
  ⟨bits ^^^ 0x9E3779B97F4A7C15, (bits <<< 32 ||| bits >>> 32) ||| 1⟩

/-- The top fifty-three bits of a word as a fraction of one. -/
def fraction (word : UInt64) : Binary64 := .ofNat (word >>> 11).toNat / .ofNat 0x20000000000000

/-- The next random number, at least zero and below one. -/
def next (generator : Generator) : Binary64 × Generator :=
  let mixed := generator.first ^^^ (generator.first <<< 23)
  (fraction (generator.first + generator.second),
    ⟨generator.second,
     mixed ^^^ generator.second ^^^ (mixed >>> 18) ^^^ (generator.second >>> 5)⟩)

end Generator

end Keystroke
