import LambdaArrow.Text.Basic

/-! The arguments of the command line. One operand names the source. The switches `-q`, `--quiet` and
    `--run` and the settings `-o`, `--output` and `--runtime` may stand anywhere before `--`, each at
    most once. One-letter options may share a dash, and the value of a setting may follow it at once,
    behind an equals sign, or as the next argument. -/

namespace LambdaArrow

/-- What the command line asks for. -/
structure Invocation where
  input : Text
  output : Text
  quiet : Bool
  run : Bool
  runtime : Text
  deriving DecidableEq

namespace Invocation

/-- Options that are on or off. -/
inductive Switch where
  | quiet
  | run
  deriving DecidableEq

/-- Options with a value. -/
inductive Setting where
  | output
  | runtime
  deriving DecidableEq

/-- The options of one argument. Only the last can be a setting; its value may be in the argument. -/
structure Options where
  switches : List Switch
  setting : Option (Setting × Option Text)
  deriving DecidableEq

/-- An argument by its form. -/
inductive Argument where
  | operand
  | terminator
  | options (options : Options)
  | unknown
  deriving DecidableEq

/-- The switch with a long name. -/
def switch? (name : Text) : Option Switch :=
  if name = "quiet".toList then some .quiet
  else if name = "run".toList then some .run
  else none

/-- The setting with a long name. -/
def setting? (name : Text) : Option Setting :=
  if name = "output".toList then some .output
  else if name = "runtime".toList then some .runtime
  else none

/-- The option with a long name, behind its two dashes. -/
def longOption? (text : Text) : Option Options :=
  match Text.cut? ['='] text with
  | some (name, value) => (setting? name).map fun setting => ⟨[], some (setting, some value)⟩
  | none =>
    match switch? text with
    | some switch => some ⟨[switch], none⟩
    | none => (setting? text).map fun setting => ⟨[], some (setting, none)⟩

/-- The value that follows a one-letter setting at once. -/
def attached? : Text → Option Text
  | [] => none
  | '=' :: value => some value
  | value => some value

/-- The one-letter options behind one dash. -/
def shortOptions? : Text → Option Options
  | [] => some ⟨[], none⟩
  | c :: cs =>
    if c = 'q' then
      (shortOptions? cs).map fun options => ⟨.quiet :: options.switches, options.setting⟩
    else if c = 'o' then some ⟨[], some (.output, attached? cs)⟩
    else none

/-- The form of an argument. A dash alone is an operand. -/
def Argument.ofText : Text → Argument
  | ['-', '-'] => .terminator
  | '-' :: '-' :: name => (longOption? name).elim .unknown .options
  | ['-'] => .operand
  | '-' :: letters => (shortOptions? letters).elim .unknown .options
  | _ => .operand

/-- What the arguments so far have fixed. -/
structure Draft where
  input : Option Text
  output : Option Text
  quiet : Bool
  run : Bool
  runtime : Option Text
  deriving DecidableEq

namespace Draft

/-- The draft before the first argument. -/
def empty : Draft := ⟨none, none, false, false, none⟩

/-- Takes the operand, unless there was one. -/
def operand? (draft : Draft) (text : Text) : Option Draft :=
  if draft.input.isSome then none else some { draft with input := some text }

/-- Turns a switch on, unless it is on. -/
def turn? (draft : Draft) : Switch → Option Draft
  | .quiet => if draft.quiet then none else some { draft with quiet := true }
  | .run => if draft.run then none else some { draft with run := true }

/-- Fixes a setting, unless it is fixed. -/
def set? (draft : Draft) (value : Text) : Setting → Option Draft
  | .output => if draft.output.isSome then none else some { draft with output := some value }
  | .runtime => if draft.runtime.isSome then none else some { draft with runtime := some value }

/-- Reads the arguments behind a draft. The next argument is the value of a setting that still needs
    one, unless it has the form of an option. -/
def read? (draft : Draft) : List Text → Option Draft
  | [] => some draft
  | argument :: rest =>
    match Argument.ofText argument with
    | .unknown => none
    | .terminator => rest.foldlM operand? draft
    | .operand => (draft.operand? argument).bind fun draft => draft.read? rest
    | .options ⟨switches, none⟩ => (switches.foldlM turn? draft).bind fun draft => draft.read? rest
    | .options ⟨switches, some (setting, some value)⟩ =>
      (switches.foldlM turn? draft).bind fun draft =>
        (draft.set? value setting).bind fun draft => draft.read? rest
    | .options ⟨switches, some (setting, none)⟩ =>
      match rest with
      | [] => none
      | value :: rest =>
        if Argument.ofText value = .operand then
          (switches.foldlM turn? draft).bind fun draft =>
            (draft.set? value setting).bind fun draft => draft.read? rest
        else none

/-- Fills in what was left open. No path is empty. -/
def finish? (draft : Draft) (runtime : Text) : Option Invocation :=
  match draft.input, draft.output.getD "output.js".toList with
  | none, _ => none
  | some [], _ => none
  | some _, [] => none
  | some input, output =>
    some ⟨input, output, draft.quiet, draft.run, draft.runtime.getD runtime⟩

end Draft

/-- The command that runs a compiled program when nothing else is asked for. -/
def defaultRuntime : Text := "deno run".toList

/-- Understands the arguments; `preferred` is the runtime that the surroundings ask for. -/
def ofArguments? (preferred : Option Text) (arguments : List Text) : Option Invocation :=
  (Draft.empty.read? arguments).bind fun draft => draft.finish? (preferred.getD defaultRuntime)

end Invocation

end LambdaArrow
