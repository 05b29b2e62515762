import NativeLayout.Command.CommandError
import NativeLayout.Settings

namespace NativeLayout.Command

/-!
# Options of a command

* `Options` — the ABI and the packing that the arguments ask for.
* `readOptions` — splits the arguments into options and other arguments.
-/

/-- What the options of a command say. -/
structure Options where
  abi : Abi
  packed : Bool
  deriving DecidableEq, Repr

/-- One argument: an option, or something else. -/
inductive Argument where
  | abi (text : String)
  | packed
  /-- An option that no command knows. -/
  | unknown (text : String)
  | positional (text : String)
  deriving DecidableEq, Repr

/-- Tells options from other arguments by their two dashes. -/
def Argument.ofText (text : String) : Argument :=
  match "--abi=".toList.isPrefixOf? text.toList with
  | some rest => .abi (String.ofList rest)
  | none =>
    if text = "--packed" ∨ text = "--compressed" then .packed
    else if "--".toList.isPrefixOf text.toList then .unknown text
    else .positional text

/-- Reads the arguments from left to right; a later option overrides an earlier one. -/
def readArguments (options : Options) : List String → Except CommandError (Options × List String)
  | [] => .ok (options, [])
  | text :: rest =>
    match Argument.ofText text with
    | .abi name =>
      match Abi.ofText? name with
      | .ok abi => readArguments { options with abi } rest
      | .error e => .error (.layout e)
    | .packed => readArguments { options with packed := true } rest
    | .unknown text => .error (.usage s!"unknown option `{text}`")
    | .positional text =>
      (readArguments options rest).map fun (options, others) => (options, text :: others)

/-- The options, from the environment and then from the arguments, and the other arguments. -/
def readOptions (lookup : String → Option String) (arguments : List String) :
    Except CommandError (Options × List String) :=
  match Settings.ofEnvironment lookup with
  | .error e => .error (.layout e)
  | .ok settings => readArguments { abi := settings.abi, packed := settings.packed } arguments

end NativeLayout.Command
