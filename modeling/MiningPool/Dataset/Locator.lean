/-
Module: MiningPool.Dataset.Locator
Purpose: where the dataset of an epoch is stored.
Main exports: DatasetLocator, DatasetLocator.pathFor
-/
import MiningPool.Block.Value
import MiningPool.FilePath

/-!
Every epoch has a seed hash, and its dataset is a file whose name holds a revision number and the first
eight bytes of the seed.
-/

namespace MiningPool

/-- A directory of dataset files. -/
structure DatasetLocator where
  directory : String
  revision : Nat
deriving Repr, DecidableEq

namespace DatasetLocator

/-- The revision that file names carry unless another one is set. -/
def defaultRevision : Nat := 23

/-- The name of the dataset of a seed. -/
def fileName (revision : Nat) (seed : Hash256) : String :=
  s!"full-R{revision}-" ++ Hex.text (seed.toList.take 8)

/-- The path of the dataset of a seed. -/
def pathFor (locator : DatasetLocator) (seed : Hash256) : String :=
  FilePath.join locator.directory (fileName locator.revision seed)

end DatasetLocator

end MiningPool
