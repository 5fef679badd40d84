import LambdaArrow.Error
import LambdaArrow.Command.Path

/-! What can go wrong around the compiler, and how it is told. -/

namespace LambdaArrow

/-- Why a file could not be used or a program not be started. -/
inductive Fault where
  | notFound
  | denied
  | notFolder
  | isFolder
  | notText
  | other (reason : Text)
  deriving DecidableEq

namespace Fault

/-- The reason in words. -/
def reason : Fault → Text
  | .notFound => "No such file or directory".toList
  | .denied => "Permission denied".toList
  | .notFolder => "Not a directory".toList
  | .isFolder => "Is a directory".toList
  | .notText => "stream did not contain valid UTF-8".toList
  | .other reason => reason

/-- The number that the operating system gives to a reason. -/
def number? : Fault → Option Nat
  | .notFound => some 2
  | .denied => some 13
  | .notFolder => some 20
  | .isFolder => some 21
  | .notText => none
  | .other _ => none

/-- The reason with its number. -/
def message (fault : Fault) : Text :=
  match fault.number? with
  | some number => fault.reason ++ " (os error ".toList ++ Text.ofNat number ++ [')']
  | none => fault.reason

end Fault

/-- Why a run of the command failed. -/
inductive Failure where
  | extension (path : Text)
  | read (path : Text) (fault : Fault)
  | compile (error : Error)
  | write (path : Text) (fault : Fault)
  | emptyRuntime
  | launch (runtime : Text) (fault : Fault)
  deriving DecidableEq

/-- The words of a failure. -/
def Failure.message : Failure → Text
  | .extension path =>
    "file must have a .".toList ++ Path.sourceExtension ++ " extension: ".toList ++ path
  | .read path fault => "failed to read ".toList ++ path ++ ": ".toList ++ fault.message
  | .compile error => error.message
  | .write path fault => "failed to write ".toList ++ path ++ ": ".toList ++ fault.message
  | .emptyRuntime => "runtime command is empty".toList
  | .launch runtime fault => "failed to launch ".toList ++ runtime ++ ": ".toList ++ fault.message

end LambdaArrow
