import NativeLayout.LayoutError
import NativeLayout.Source.Language

namespace NativeLayout.Command

/-!
# Why a command fails

* `CommandError` — the causes, with their wording in `CommandError.message`.
-/

/-- Why a command has no answer. -/
inductive CommandError where
  /-- The arguments do not fit; the text says how they would. -/
  | usage (text : String)
  /-- A text that is no field type. -/
  | unknownType (text : String)
  | layout (cause : LayoutError)
  | source (cause : Source.SourceError)
  deriving DecidableEq, Repr

/-- The wording of each cause. -/
def CommandError.message : CommandError → String
  | .usage text => text
  | .unknownType text => s!"unknown field type `{text}`"
  | .layout cause => cause.message
  | .source cause => cause.message

/-- A layout failure as the failure of a command. -/
def ofLayout {α : Type} : Except LayoutError α → Except CommandError α
  | .ok a => .ok a
  | .error e => .error (.layout e)

/-- A failure to write a declaration as the failure of a command. -/
def ofSource {α : Type} : Except Source.SourceError α → Except CommandError α
  | .ok a => .ok a
  | .error e => .error (.source e)

end NativeLayout.Command
