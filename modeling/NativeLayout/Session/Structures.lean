import NativeLayout.Session.Blueprint
import NativeLayout.Session.Visit

namespace NativeLayout

/-!
# Structures of a session

* `Act.make`, `Act.drop`, `Visit.register` — building and forgetting structures.
* `Visit.resolve`, `Visit.allocate`, `Visit.claim`, `Visit.prepare`, `Visit.place` — the way to
  storage.
* `Act.makeRegion`, `Act.regionOf`, `Act.handles`, `Act.bytes` — the regions they are stored in.
* `Act.configure` — configurations.
-/

/-! ### The way to storage -/

namespace Visit

/-- The structure as it is. -/
def node : Visit Node := read fun node _ => .ok node

/-- The shape of the structure. -/
def resolve : Visit Shape := change Node.resolve

/-- A region of its own for the structure. -/
def allocate : Visit Unit := fun node store =>
  let r := node.allocate store.heap store.shared
  { node := r.1.state
    store := { heap := r.2, shared := r.1.shared }
    result := r.1.result.mapError .fault }

/-- The bytes of a region from an offset on for the structure. -/
def claim (region : Region) (offset : Nat) : Visit Unit := change (Node.claim region offset)

/-- The elements of all arrays in the structure. -/
def prepare : Visit Unit := change Node.prepare

/-- A place for the children of the structure alone. -/
def place (region : Region) (start : Nat) : Visit Unit := change (Node.placeInside region start)

/-- The member type and then the type name of the structure, each asked for on its own. -/
def facade : Visit Facade := change fun node shared =>
  let once := node.asked
  .pure (once.ask (node.ask shared)) once.asked
    { memberType := node.facade.memberType, typeName := once.facade.typeName }

/-- The structure, while each structure in it is asked for its type. -/
def inspect : Visit Node := change fun node shared =>
  .pure (node.askAll shared) node.askedAll node

/-- The definitions of the records in the structure. -/
def definitions : Visit (List (RecordDef × RecordLayout)) :=
  read fun node _ => node.definitions.mapError .fault

end Visit

/-! ### Records -/

/-- A record seen from outside. -/
structure RecordView where
  head : RecordHead
  fieldCount : Nat
  layout : Option RecordLayout
  definition : RecordDef
  deriving DecidableEq, Repr

namespace Visit

/-- A record seen from outside; its fields are asked for their types. -/
def record : Visit RecordView := fun node store =>
  match node with
  | .record status head fields =>
    let asked := Node.askFields fields store.shared
    { node := .record status head asked.1
      store := { store with shared := asked.2 }
      result := .ok
        { head, fieldCount := fields.length, layout := status.plan?
          definition := Node.definition head fields } }
  | node => { node, store, result := .error (.wrongKind .record) }

/-- The offset of a field. -/
def fieldOffset (index : Nat) : Visit (Option Nat) := read fun node _ =>
  match node with
  | .record status _ fields => .ok (Node.fieldOffset? status fields index)
  | _ => .error (.wrongKind .record)

/-- A new field under an index, or behind all others; its index. -/
def register (index : Option Nat) (name : String) (child : Node) : Visit Nat :=
  fun node store =>
    match node with
    | .record status head fields =>
      let index := index.getD (Node.nextIndex fields)
      match Node.register index name child status head fields with
      | .ok fields => { node := .record status head fields, store, result := .ok index }
      | .error e => { node, store, result := .error (.fault e) }
    | node => { node, store, result := .error (.wrongKind .record) }

/-- The type name of the structure, which is asked for it. -/
def typeName : Visit String := change fun node shared =>
  .pure (node.ask shared) node.asked node.facade.typeName

/-- The type name of the field under an index, if the field is what is expected: `expected`
names that kind of structure, and `fits` tells it.  For a change, the field is asked for its
type before it is known to fit. -/
def fieldAs (index : Nat) (expected : String) (fits : Node → Bool) (forChange : Bool) :
    Visit String := fun node store =>
  match node with
  | .record status head fields =>
    match Node.field? fields index with
    | none => { node, store, result := .error (.fault (.outOfRange index fields.length)) }
    | some child =>
      if fits child then
        field (fun f => f.index = index)
          (if forChange then typeName.bind fun _ => typeName else typeName)
          (.record status head fields) store
      else
        field (fun f => f.index = index)
          (typeName.bind fun found => fail (.fault (.typeMismatch expected found)))
          (.record status head fields) store
  | node => { node, store, result := .error (.wrongKind .record) }

end Visit

namespace Act

/-- Builds a structure. -/
def build (config : String) (blueprint : Blueprint) : Act Node := do
  ofFault (blueprint.build (← Act.config config))

/-- Builds a structure and keeps it. -/
def make (name config : String) (blueprint : Blueprint) : Act Unit := do
  keep name (← build config blueprint)

/-- Forgets whatever has a name, configurations apart, and tells whether there was anything. -/
def drop (name : String) : Act Bool := do
  let s ← get
  set { s with
    slots := s.slots.erase name
    regions := s.regions.erase name
    arenas := s.arenas.erase name
    pointers := s.pointers.erase name }
  return (s.slots.find? name).isSome || (s.regions.find? name).isSome ||
    (s.arenas.find? name).isSome || (s.pointers.find? name).isSome

/-- Resolves and allocates a structure, which is lost if that fails. -/
def allocated (name : String) : Act Node := do
  let n ← take name
  let r := (Visit.resolve.bind fun _ => Visit.allocate) n (← get).store
  setStore r.store
  match r.result with
  | .ok _ => keep name r.node; return r.node
  | .error e => throw e

/-! ### Regions -/

/-- Makes a region and keeps it. -/
def makeRegion (name : String) (length align : Nat) : Act Region := do
  let store := (← get).store
  let (region, heap) ← ofLayout (store.heap.allocate length align)
  setStore { store with heap }
  keepRegion name region
  return region

/-- A region that has a name. -/
def regionNamed (name : String) : Act Region := find .region Session.regions name

/-- The region of a structure. -/
def regionOf (path : Path) : Act Region :=
  visit path <| Visit.read fun node _ =>
    match node.placement? with
    | some placement => .ok placement.region
    | none => .error (.missing .region)

/-- How often a region is in use: once for each structure stored in it, each name it has, and
each arena on it. -/
def handles (region : Region) : Act Nat := do
  let s ← get
  let same (r : Region) : Bool := r.number = region.number
  return (s.slots.values.map (Node.storedIn region)).foldl (· + ·) 0 +
    (s.regions.values.filter same).length +
    (s.arenas.values.filter fun a => same a.region).length

/-- Bytes of a region, up to its end. -/
def bytes (region : Region) (start : Nat) (count : Option Nat) : Act (List UInt8) := do
  let count := min (count.getD region.length) (region.length - start)
  return (← get).store.heap.read region start count

/-! ### Configurations -/

/-- Makes a configuration, from another one if `share` names it, and keeps it.  Without
`share` it has a catalog of its own; `catalogOf` names a configuration to take the catalog
from instead. -/
def configure (name : String) (share : Option String) (abi : Option String)
    (packed lazy : Option Bool) (catalogOf : Option String) : Act Config := do
  let base ← match share with
    | some other => config other
    | none =>
      let s ← get
      set { s with catalogs := s.catalogs + 1 }
      pure { settings := .standard, catalog := s.catalogs }
  let settings ← ofLayout (base.settings.override abi packed lazy)
  let catalog ← match catalogOf with
    | some other => pure (← config other).catalog
    | none => pure base.catalog
  let c : Config := { settings, catalog }
  modify fun s => { s with configs := s.configs.insert name c }
  return c

/-- The catalog of a configuration. -/
def catalog (c : Config) : Act Catalog := do
  return (← get).store.shared.catalog c.catalog

/-- Forgets the layouts in the catalog of a configuration. -/
def clearCatalog (c : Config) : Act Unit := do
  let store := (← get).store
  let shared := store.shared
  setStore { store with shared :=
    { shared with catalogs := shared.catalogs.insert c.catalog (shared.catalog c.catalog).clear } }

end Act

end NativeLayout
