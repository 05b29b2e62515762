import NativeLayout.Text.Blank

namespace NativeLayout.Source

/-!
# Declarations as source text

* `Language` — the languages a record can be declared in.
* `SourceError` — why a declaration cannot be written.
-/

/-- A language with record declarations. -/
inductive Language where
  | c
  | rust
  deriving DecidableEq, Repr

/-- Why there is no declaration. -/
inductive SourceError where
  /-- The definition and the layout have different numbers of fields. -/
  | fieldCountMismatch (typeName : String) (declared laidOut : Nat)
  /-- A text that names no language. -/
  | unknownLanguage (text : String)
  deriving DecidableEq, Repr

/-- The wording of each cause. -/
def SourceError.message : SourceError → String
  | .fieldCountMismatch typeName declared laidOut =>
    s!"`{typeName}` declares {declared} fields but its layout has {laidOut}"
  | .unknownLanguage text => s!"unknown target language `{text}` (expected `c` or `rust`)"

namespace Language

/-- The name a user sees. -/
def name : Language → String
  | c => "c"
  | rust => "rust"

/-- What stands once in front of all declarations. -/
def prelude : Language → String
  | c => "#include <stdint.h>\n\n"
  | rust => ""

/-- The language a user means, blanks and letter case aside. -/
def ofText? (text : String) : Except SourceError Language :=
  let word := Text.word text
  if word = "c" ∨ word = "h" then .ok c
  else if word = "rust" ∨ word = "rs" then .ok rust
  else .error (.unknownLanguage word)

end Language

end NativeLayout.Source
