import NativeLayout.Command.Options
import NativeLayout.Command.TypeText
import NativeLayout.Source.Render

namespace NativeLayout.Command

/-!
# Declaring a record from the command line

* `readField` — one field argument, a name and a type with a colon between them.
* `declareRecord` — the declaration of a record with the given fields.
-/

/-- How the command is called. -/
def declareUsage : String :=
  "usage: strata emit <c|rust> <Name> [--abi=<abi>] [--packed] <field:type>..."

/-- A field argument: the name in front of the first colon, the type behind it, and the
shape of that type. -/
def readField (text : String) : Except CommandError (Member × Shape) := do
  let cs := text.toList
  match cs.dropWhile (· ≠ ':') with
  | [] => throw (.usage s!"expected `name:type`, found `{text}`")
  | _ :: rest =>
    let type ← readType (String.ofList rest)
    let shape ← shapeOfType type
    return ({ name := String.ofList (Text.trimChars (cs.takeWhile (· ≠ ':'))), type }, shape)

/-- The declaration of a record with these fields. -/
def declareRecord (language : Source.Language) (name : String) (options : Options)
    (texts : List String) : Except CommandError String := do
  if texts = [] then throw (.usage declareUsage)
  let fields ← texts.mapM readField
  let layout ←
    ofLayout (options.abi.layout options.packed RecordLayout.anonymous (fields.map (·.2)))
  let text ← ofSource (Source.render language { name, members := fields.map (·.1) } layout)
  return language.prelude ++ text

end NativeLayout.Command
