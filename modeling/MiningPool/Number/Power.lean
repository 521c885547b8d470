/-
Module: MiningPool.Number.Power
Purpose: which power of natural numbers this library means.
Main exports: none; opening the namespace is enough
-/

/-!
Inside the namespace `MiningPool`, `b ^ n` on natural numbers is the core library's power, also where an
algebra library with a power for all monoids is imported. Definitions written without that library and
theorems that use it then speak of the same term. An exponent that is a numeral carries its type, because
no instance is looked for before the types are known.
-/

namespace MiningPool

attribute [scoped instance (2000)] instPowNat

end MiningPool
