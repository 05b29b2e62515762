import NativeLayout.Node.Basic
import NativeLayout.Node.Outcome

namespace NativeLayout.Node

/-!
# How structures present themselves

An array does not know its elements before it is resolved: asked for its type, it builds an
element from a template, looks at it and forgets it.

* `facade` — the type name and the member type of a structure.
* `ask`, `asked` — what a question for either leaves behind.
* `definition` — the record definition of some fields.
* `definitions` — all records that a structure is made of, each one behind those it uses.
-/

mutual

/-- The type name and the member type of a structure. -/
def facade : Node → Facade
  | .leaf _ kind => { typeName := kind.typeName, memberType := kind.memberType }
  | .record _ head _ => { typeName := head.typeName, memberType := .named head.typeName }
  | .array status head template alternatives _ _ =>
    let element :=
      match status.plan? with
      | some plan => plan.facade
      | none => choose head.calls (facadeAlternatives alternatives) template.facade
    { typeName := element.typeName ++ s!"[{head.length}]"
      memberType := .array element.memberType head.length }

def facadeAlternatives : List (Nat × Node) → List (Nat × Facade)
  | [] => []
  | (call, n) :: rest => (call, n.facade) :: facadeAlternatives rest

end

mutual

/-- The counts after a structure is asked for its type. -/
def ask : Node → Shared → Shared
  | .leaf .., shared => shared
  | .record .., shared => shared
  | .array status head template alternatives _ _, shared =>
    match status.plan? with
    | some _ => shared
    | none =>
      choose head.calls (askAlternatives alternatives) template.ask (shared.count head.counter)

def askAlternatives : List (Nat × Node) → List (Nat × (Shared → Shared))
  | [] => []
  | (call, n) :: rest => (call, n.ask) :: askAlternatives rest

end

/-- The structure after it is asked for its type: an array that is not resolved counts a
call. -/
def asked : Node → Node
  | .array .unallocated head template alternatives staged elements =>
    .array .unallocated { head with calls := head.calls + 1 } template alternatives staged
      elements
  | n => n

/-- Asks each field for its type. -/
def askFields : List (Field Node) → Shared → List (Field Node) × Shared
  | [], shared => ([], shared)
  | f :: rest, shared =>
    let others := askFields rest (f.child.ask shared)
    (f.withChild f.child.asked :: others.1, others.2)

mutual

/-- The structure after each structure in it is asked for its type. -/
def askedAll : Node → Node
  | .leaf status kind => .leaf status kind
  | .record status head fields => .record status head (askedAllFields fields)
  | .array status head template alternatives staged elements =>
    (Node.array status head template alternatives staged (askedAllOptions elements)).asked

def askedAllFields : List (Field Node) → List (Field Node)
  | [] => []
  | ⟨index, name, child⟩ :: rest => ⟨index, name, child.askedAll⟩ :: askedAllFields rest

def askedAllOptions : List (Option Node) → List (Option Node)
  | [] => []
  | none :: rest => none :: askedAllOptions rest
  | some n :: rest => some n.askedAll :: askedAllOptions rest

end

mutual

/-- The counts after each structure in the tree is asked for its type. -/
def askAll : Node → Shared → Shared
  | .leaf .., shared => shared
  | .record _ _ fields, shared => askAllFields fields shared
  | .array status head template alternatives staged elements, shared =>
    askAllOptions elements
      ((Node.array status head template alternatives staged elements).ask shared)

def askAllFields : List (Field Node) → Shared → Shared
  | [], shared => shared
  | ⟨_, _, child⟩ :: rest, shared => askAllFields rest (child.askAll shared)

def askAllOptions : List (Option Node) → Shared → Shared
  | [], shared => shared
  | none :: rest, shared => askAllOptions rest shared
  | some n :: rest, shared => askAllOptions rest (n.askAll shared)

end

/-! ### Record definitions -/

/-- The definition of a record with these fields. -/
def definition (head : RecordHead) (fields : List (Field Node)) : RecordDef where
  name := head.typeName
  members := fields.map fun f => { name := f.name, type := f.child.facade.memberType }

mutual

/-- The records a structure is made of, inner ones first. -/
def records : Node → Except Fault (List (RecordDef × RecordLayout))
  | .leaf .. => .ok []
  | .record status head fields =>
    match status.plan? with
    | none => .error (.illegal .collectDefinitions (.atStage status.stage))
    | some layout =>
      match recordsFields fields with
      | .error fault => .error fault
      | .ok inner => .ok (inner ++ [(definition head fields, layout)])
  | .array status _ _ _ _ _ =>
    match status.plan? with
    | none => .error (.illegal .collectDefinitions (.atStage status.stage))
    | some plan => .ok plan.records

def recordsFields : List (Field Node) → Except Fault (List (RecordDef × RecordLayout))
  | [] => .ok []
  | ⟨_, _, child⟩ :: rest =>
    match child.records with
    | .error fault => .error fault
    | .ok first =>
      match recordsFields rest with
      | .error fault => .error fault
      | .ok others => .ok (first ++ others)

end

/-- The records without those whose name came before. -/
def distinctNames (seen : List String) :
    List (RecordDef × RecordLayout) → List (RecordDef × RecordLayout)
  | [] => []
  | r :: rest =>
    if seen.contains r.1.name then distinctNames seen rest
    else r :: distinctNames (r.1.name :: seen) rest

/-- The records a structure is made of, inner ones first and each name once. -/
def definitions (n : Node) : Except Fault (List (RecordDef × RecordLayout)) :=
  n.records.map (distinctNames [])

end NativeLayout.Node
