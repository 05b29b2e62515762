import NativeLayout.RecordLayout
import NativeLayout.Text.Blank

namespace NativeLayout

/-!
# Application binary interfaces

An ABI fixes how far the alignment of a field reaches inside a record.

* `Abi.cap` — the largest alignment a field gets.
* `Abi.ofText?` — reads the name a user types.
-/

/-- The interfaces a record can be laid out for. -/
inductive Abi where
  /-- Natural alignment, up to 16 bytes. -/
  | msvcX64
  /-- Fields are aligned to at most 4 bytes. -/
  | sysVI386
  deriving DecidableEq, Repr

namespace Abi

/-- The interface used where none is named. -/
def standard : Abi := .msvcX64

/-- The largest alignment a field gets inside a record. -/
def cap : Abi → Nat
  | .msvcX64 => 16
  | .sysVI386 => 4

/-- The name a user sees. -/
def name : Abi → String
  | .msvcX64 => "msvc-x64"
  | .sysVI386 => "sysv-i386"

/-- The spelling in stored documents. -/
def tag : Abi → String
  | .msvcX64 => "MsvcX64"
  | .sysVI386 => "SysVI386"

/-- The interface stored as `tag`. -/
def ofTag? (tag : String) : Option Abi :=
  [msvcX64, sysVI386].find? fun abi => abi.tag = tag

/-- The names a user may type. -/
def names : Abi → List String
  | .msvcX64 => ["msvc-x64", "msvc", "win64"]
  | .sysVI386 => ["sysv-i386", "i386", "x86"]

/-- The interface a user means, blanks and letter case aside. -/
def ofText? (text : String) : Except LayoutError Abi :=
  let word := Text.word text
  match [msvcX64, sysVI386].find? fun abi => abi.names.contains word with
  | some abi => .ok abi
  | none => .error (.unknownAbi word)

/-- The layout of a record with these fields. -/
def layout (abi : Abi) (packed : Bool) (typeName : String) (fields : List Shape) :
    Except LayoutError RecordLayout :=
  RecordLayout.compute abi.cap packed typeName fields

theorem ofTag?_tag (abi : Abi) : ofTag? abi.tag = some abi := by
  cases abi <;> decide

theorem tag_of_ofTag? {text : String} {abi : Abi} (h : ofTag? text = some abi) :
    abi.tag = text := by
  simpa using List.find?_some h

end Abi

end NativeLayout
