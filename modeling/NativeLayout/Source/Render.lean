import NativeLayout.Source.CDeclaration
import NativeLayout.Source.RustDeclaration
import NativeLayout.Text.Lines

namespace NativeLayout.Source

/-!
# Writing declarations

* `render` — one record in a language.
* `renderAll` — several records in order, with an empty line between them.
-/

/-- The declaration of a record definition under a layout. -/
def render (language : Language) (d : RecordDef) (layout : RecordLayout) :
    Except SourceError String := do
  let items ← items? d layout
  match language with
  | .c => return Text.ofLines (CDeclaration.ofLayout d layout items).lines
  | .rust => return Text.ofLines (RustDeclaration.ofLayout d layout items).lines

/-- The declarations of several records in order. -/
def renderAll (language : Language) (records : List (RecordDef × RecordLayout)) :
    Except SourceError String := do
  let texts ← records.mapM fun (d, layout) => render language d layout
  return "\n".intercalate texts

end NativeLayout.Source
