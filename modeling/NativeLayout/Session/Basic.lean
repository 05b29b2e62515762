import NativeLayout.Arena
import NativeLayout.Settings
import NativeLayout.Source.Language
import NativeLayout.TypedPointer

namespace NativeLayout

/-!
# Sessions

A session keeps structures, regions, arenas, pointers and configurations under names, with
the memory and everything else that structures share.

* `Session` — what is kept.
* `SessionError` — why a step of a session fails.
* `Act` — a step; a failed one keeps what it changed.
-/

/-- The settings of new structures, and the catalog they take their layouts from. -/
structure Config where
  settings : Settings
  catalog : Nat
  deriving DecidableEq, Repr

/-- What structures use without owning it. -/
structure Store where
  heap : Heap
  shared : Shared

/-- A pointer, and where the chain of steps to it began. -/
structure TrackedPointer where
  pointer : TypedPointer
  start : Nat
  deriving DecidableEq, Repr

/-- The distance from the start of the chain. -/
def TrackedPointer.distance (t : TrackedPointer) : Nat := t.pointer.address - t.start

/-- What a session keeps. -/
structure Session where
  store : Store
  /-- Catalogs are numbered in the order they are made. -/
  catalogs : Nat
  configs : Table String Config
  slots : Table String Node
  regions : Table String Region
  arenas : Table String Arena
  pointers : Table String TrackedPointer

/-- A thing that a name or a path may fail to find. -/
inductive Thing where
  | slot | field | region | arena | config | pointer
  deriving DecidableEq, Repr

/-- How an error names it. -/
def Thing.name : Thing → String
  | .slot => "slot"
  | .field => "field"
  | .region => "buffer"
  | .arena => "arena"
  | .config => "config"
  | .pointer => "typed pointer"

/-- A kind of structure that an operation is for. -/
inductive Kind where
  | record | array | scalars | text | enum | storedEnum | pointer
  deriving DecidableEq, Repr

/-- How an error names it. -/
def Kind.name : Kind → String
  | .record => "struct"
  | .array => "array"
  | .scalars => "scalar"
  | .text => "string"
  | .enum => "enum"
  | .storedEnum => "allocated enum"
  | .pointer => "pointer"

/-- Why a step fails. -/
inductive SessionError where
  | fault (cause : Fault)
  | source (cause : Source.SourceError)
  /-- Nothing has that name. -/
  | missing (thing : Thing)
  /-- The structure is of another kind. -/
  | wrongKind (kind : Kind)
  deriving DecidableEq, Repr

/-- The wording of each cause. -/
def SessionError.message : SessionError → String
  | .fault cause => cause.message
  | .source cause => cause.message
  | .missing thing => thing.name
  | .wrongKind kind => kind.name

/-- A step of a session. -/
abbrev Act (α : Type) := ExceptT SessionError (StateM Session) α

namespace Session

/-- A session with one configuration, under the name `main`, and with its memory behind an
address. -/
def new (settings : Settings) (memory : Nat) : Session where
  store := { heap := .startingAt memory, shared := .empty }
  catalogs := 1
  configs := Table.empty.insert "main" { settings, catalog := 0 }
  slots := .empty
  regions := .empty
  arenas := .empty
  pointers := .empty

end Session

namespace Act

variable {α : Type}

/-- What a table has under a name. -/
def find (thing : Thing) (table : Session → Table String α) (name : String) : Act α := do
  match (table (← get)).find? name with
  | some value => return value
  | none => throw (.missing thing)

/-- A result that may be a fault. -/
def ofFault : Except Fault α → Act α
  | .ok a => pure a
  | .error e => throw (.fault e)

/-- A result that may be a layout failure. -/
def ofLayout : Except LayoutError α → Act α
  | .ok a => pure a
  | .error e => throw (.fault (.layout e))

/-- A configuration. -/
def config (name : String) : Act Config := find .config Session.configs name

/-- An arena. -/
def arena (name : String) : Act Arena := find .arena Session.arenas name

/-- A pointer. -/
def pointer (name : String) : Act TrackedPointer := find .pointer Session.pointers name

/-- Changes the memory and what structures share. -/
def setStore (store : Store) : Act Unit := modify fun s => { s with store }

/-- Keeps a structure under a name. -/
def keep (name : String) (n : Node) : Act Unit :=
  modify fun s => { s with slots := s.slots.insert name n }

/-- Takes a structure out of the session. -/
def take (name : String) : Act Node := do
  let n ← find .slot Session.slots name
  modify fun s => { s with slots := s.slots.erase name }
  return n

/-- Keeps a region under a name. -/
def keepRegion (name : String) (region : Region) : Act Unit :=
  modify fun s => { s with regions := s.regions.insert name region }

/-- Keeps an arena under a name. -/
def keepArena (name : String) (arena : Arena) : Act Unit :=
  modify fun s => { s with arenas := s.arenas.insert name arena }

/-- Keeps a pointer under a name. -/
def keepPointer (name : String) (pointer : TrackedPointer) : Act Unit :=
  modify fun s => { s with pointers := s.pointers.insert name pointer }

end Act

end NativeLayout
