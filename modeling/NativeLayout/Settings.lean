import NativeLayout.Abi

namespace NativeLayout

/-!
# Settings

* `Settings` — how records and arrays are built where nothing else is said.
* `Settings.ofEnvironment` — the settings that the environment asks for.
-/

/-- How records and arrays are built. -/
structure Settings where
  abi : Abi
  /-- Whether records have no padding. -/
  packed : Bool
  /-- Whether the elements of an array are built when they are first used. -/
  lazy : Bool
  deriving DecidableEq, Repr

namespace Settings

/-- The settings used where none are given. -/
def standard : Settings := { abi := .standard, packed := false, lazy := false }

/-- The words that switch a setting on. -/
def affirmative : List String := ["1", "true", "yes", "on"]

/-- The standard settings with the ABI and the laziness that the environment names. -/
def ofEnvironment (lookup : String → Option String) : Except LayoutError Settings := do
  let abi ← match lookup "STRATA_ABI" with
    | some text => Abi.ofText? text
    | none => .ok standard.abi
  let lazy := match lookup "STRATA_LAZY_ARRAYS" with
    | some text => affirmative.contains (Text.word text)
    | none => standard.lazy
  return { standard with abi, lazy }

/-- The settings with some of them replaced; the ABI is given as a user types it. -/
def override (s : Settings) (abi : Option String) (packed lazy : Option Bool) :
    Except LayoutError Settings := do
  let abi ← match abi with
    | some text => Abi.ofText? text
    | none => .ok s.abi
  return { abi, packed := packed.getD s.packed, lazy := lazy.getD s.lazy }

/-- The settings in one line, with the number of remembered layouts. -/
def describe (s : Settings) (layouts : Nat) : String :=
  s!"StructureConfig \x7b abi: {s.abi.tag}, compressed: {s.packed}, " ++
    s!"lazy_arrays: {s.lazy}, cached_layouts: {layouts} \x7d"

end Settings

end NativeLayout
