import NativeLayout.Node.Record
import NativeLayout.Session.Basic

namespace NativeLayout

/-!
# Blueprints

* `Blueprint` — a description of a structure that is not built yet.
* `Blueprint.build` — the structure, under some configuration.
-/

/-- A description of a structure. -/
inductive Blueprint where
  | leaf (kind : Leaf)
  /-- A record; what is not said about ABI and packing comes from the configuration, and a
  field without an index gets the number of fields in front of it. -/
  | record (typeName : String) (abi : Option String) (packed : Option Bool)
      (fields : List ((Option Nat × String) × Blueprint))
  /-- An array; what is said about laziness counts for everything it builds. -/
  | array (length : Nat) (lazy : Option Bool) (counter : Option String) (element : Blueprint)
      (alternatives : List (Nat × Blueprint))

namespace Blueprint

/-- The ABI of a record: what its blueprint says, or else what the configuration says. -/
def chooseAbi (config : Config) : Option String → Except LayoutError Abi
  | none => .ok config.settings.abi
  | some text => Abi.ofText? text

mutual

/-- The structure that is described.  The children of a record are built and registered one
by one. -/
def build (config : Config) : Blueprint → Except Fault Node
  | .leaf kind => .ok (.ofLeaf kind)
  | .record typeName abi packed fields =>
    match chooseAbi config abi with
    | .error e => .error (.layout e)
    | .ok abi =>
      let head : RecordHead :=
        { typeName, abi, packed := packed.getD config.settings.packed, catalog := config.catalog }
      (buildFields config head 0 [] fields).map (.record .unallocated head)
  | .array length lazy counter element alternatives =>
    let lazy := lazy.getD config.settings.lazy
    let config := { config with settings := { config.settings with lazy } }
    match element.build config with
    | .error fault => .error fault
    | .ok template =>
      match buildAlternatives config alternatives with
      | .error fault => .error fault
      | .ok alternatives => .ok (.newArray length lazy counter template alternatives)

def buildFields (config : Config) (head : RecordHead) (position : Nat)
    (done : List (Field Node)) :
    List ((Option Nat × String) × Blueprint) → Except Fault (List (Field Node))
  | [] => .ok done
  | ((index, name), child) :: rest =>
    match child.build config with
    | .error fault => .error fault
    | .ok child =>
      match Node.register (index.getD position) name child .unallocated head done with
      | .error fault => .error fault
      | .ok done => buildFields config head (position + 1) done rest

def buildAlternatives (config : Config) :
    List (Nat × Blueprint) → Except Fault (List (Nat × Node))
  | [] => .ok []
  | (call, n) :: rest =>
    match n.build config with
    | .error fault => .error fault
    | .ok n =>
      match buildAlternatives config rest with
      | .error fault => .error fault
      | .ok others => .ok ((call, n) :: others)

end

end Blueprint

end NativeLayout
