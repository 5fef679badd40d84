import LambdaArrow.Sandbox.Shell

/-! Where the streams of a command lead. -/

namespace LambdaArrow.Shell

/-- Where the output of a stream goes. -/
inductive Destination where
  | stdout
  | stderr
  | file (path : Text)
  deriving DecidableEq

/-- The streams of a command: where its output and its complaints go. -/
structure Streams where
  output : Destination
  errors : Destination

/-- Sends bytes to a destination. -/
def send (shell : Shell) (bytes : ByteArray) : Destination → Shell
  | .stdout => { shell with stdout := shell.stdout ++ bytes }
  | .stderr => { shell with stderr := shell.stderr ++ bytes }
  | .file path =>
    let old := (shell.files.read path).toOption.getD ByteArray.empty
    match shell.files.write path (old ++ bytes) with
    | .ok files => { shell with files := files }
    | .error _ => shell

/-- Why a file could not be made or opened. -/
def openComplaint (verb path : Text) (fault : Fault) : Text :=
  let reason := match fault with
    | .notFound =>
      if verb = "open".toList then "No such file".toList else "Directory nonexistent".toList
    | fault => fault.reason
  "cannot ".toList ++ verb ++ ' ' :: path ++ ": ".toList ++ reason

/-- Leads a stream to a path: the shell, with the file made, and the streams. -/
def redirect (shell : Shell) (streams : Streams) (stream : Nat) (direction : Script.Direction)
    (path : Text) : Except Shell (Shell × Streams) :=
  let lead := fun (destination : Destination) =>
    if stream = 2 then { streams with errors := destination }
    else { streams with output := destination }
  match direction with
  | .copyOf =>
    let copied := if path = ['2'] then streams.errors else streams.output
    .ok (shell, lead copied)
  | .fromText => .ok ({ shell with input := path.toBytes }, streams)
  | .fromFile =>
    match shell.files.read path with
    | .ok bytes => .ok ({ shell with input := bytes }, streams)
    | .error fault => .error (shell.complain 2 (openComplaint "open".toList path fault))
  | _ =>
    let kept := if direction = .appendTo then (shell.files.read path).toOption else none
    match shell.files.write path (kept.getD ByteArray.empty) with
    | .ok files => .ok ({ shell with files := files }, lead (.file path))
    | .error fault => .error (shell.complain 2 (openComplaint "create".toList path fault))

end LambdaArrow.Shell
