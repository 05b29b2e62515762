import NativeLayout.Session.Structures

namespace NativeLayout

/-!
# Arenas of a session

* `Act.makeArena` — a new arena.
* `Act.push` — a structure on the stack of an arena, kept under a name.
* `Act.pop`, `Act.popNode`, `Act.setSafePoint`, `Act.releaseSafePoint` — the stack and its safe
  points.
-/

namespace Act

/-- Makes an arena and keeps it. -/
def makeArena (name : String) (capacity : Nat) : Act Arena := do
  let store := (← get).store
  let (arena, heap) ← ofLayout (Arena.make capacity store.heap)
  setStore { store with heap }
  keepArena name arena
  return arena

/-- Pushes a structure and keeps it; if that fails the structure is lost. -/
def push (arena name : String) (n : Node) : Act Node := do
  let a ← Act.arena arena
  let store := (← get).store
  let p := a.push n store.heap store.shared
  setStore { heap := p.heap, shared := p.outcome.shared }
  keepArena arena p.arena
  ofFault p.outcome.result
  keep name p.outcome.state
  return p.outcome.state

/-- Takes back the newest push. -/
def pop (arena : String) : Act Unit := do
  keepArena arena (← ofFault (← Act.arena arena).pop)

/-- Takes back the newest push, if it is that of a structure; one that is not is asked for
its type. -/
def popNode (arena : String) (path : Path) : Act Unit := do
  let a ← Act.arena arena
  let popped ← visit path <| Visit.change fun node shared =>
    match a.popNode node with
    | .ok a => .pure shared node a
    | .error fault => .fail (node.ask shared) node.asked fault
  keepArena arena popped

/-- Sets a safe point. -/
def setSafePoint (arena : String) : Act SafePoint := do
  let a ← Act.arena arena
  keepArena arena a.setSafePoint
  return a.safePoint

/-- Forgets the newest safe point. -/
def releaseSafePoint (arena : String) : Act SafePoint := do
  let (point, a) ← ofFault (← Act.arena arena).releaseSafePoint
  keepArena arena a
  return point

end Act

end NativeLayout
