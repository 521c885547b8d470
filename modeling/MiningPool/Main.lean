/-
Module: MiningPool.Main
Purpose: the command line of the program.
Main exports: main
-/
import MiningPool.Command.Run

/-!
Files are read, the outcome of the run is printed, and its exit code is returned. Everything else is decided
by the run itself.
-/

namespace MiningPool.Command

/-- The number of a fault of the operating system, which some calls report negated. -/
def faultNumber (code : UInt32) : Nat := if code < 0x80000000 then code.toNat else (0 - code).toNat

/-- The number and the words of a fault of the operating system. -/
def systemFault : IO.Error → Nat × String
  | .alreadyExists _ code details | .noFileOrDirectory _ code details
  | .invalidArgument _ code details | .permissionDenied _ code details
  | .resourceExhausted _ code details | .inappropriateType _ code details
  | .noSuchThing _ code details | .interrupted _ code details
  | .otherError code details | .resourceBusy code details
  | .resourceVanished code details | .unsupportedOperation code details
  | .hardwareFault code details | .unsatisfiedConstraints code details
  | .illegalOperation code details | .protocolError code details
  | .timeExpired code details => (faultNumber code, details)
  | .unexpectedEof => (5, "unexpected end of file")
  | .userError text => (5, text)

/-- The fault of a file by the number that the operating system gives. -/
def fileFault (error : IO.Error) : FileFault :=
  match systemFault error with
  | (2, _) => .notFound
  | (13, _) => .permissionDenied
  | (20, _) => .notADirectory
  | (21, _) => .isADirectory
  | (36, _) => .nameTooLong
  | (code, text) => .other code text

/-- The content of a file. -/
def readFile (path : String) : IO (Except FileFault (List UInt8)) := do
  match ← (IO.FS.readBinFile path).toBaseIO with
  | .ok content => return .ok content.toList
  | .error error => return .error (fileFault error)

end MiningPool.Command

/-- Runs the program. -/
def main (arguments : List String) : IO UInt32 := do
  let level ← IO.getEnv "SMARTPOOL_LOG_LEVEL"
  let outcome ← MiningPool.Command.run MiningPool.Command.readFile level arguments
  IO.print outcome.printed
  IO.eprint outcome.complaint
  return UInt32.ofNat outcome.exitCode
