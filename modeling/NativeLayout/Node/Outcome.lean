import NativeLayout.Fault
import NativeLayout.Shared

namespace NativeLayout

/-!
# Outcomes

An operation on structures may change them, and what they share, and still fail.

* `Outcome` — what is left behind, with the result.
* `traverse` — an operation on each item of a list, up to the first failure.
-/

/-- What an operation leaves behind, and its result. -/
structure Outcome (σ α : Type) where
  shared : Shared
  state : σ
  result : Except Fault α

namespace Outcome

variable {σ τ α β : Type}

/-- Nothing changes. -/
def pure (shared : Shared) (state : σ) (value : α) : Outcome σ α :=
  { shared, state, result := .ok value }

/-- Nothing more changes. -/
def fail (shared : Shared) (state : σ) (fault : Fault) : Outcome σ α :=
  { shared, state, result := .error fault }

/-- What is left behind, seen as a part of something larger. -/
def mapState (f : σ → τ) (o : Outcome σ α) : Outcome τ α :=
  { shared := o.shared, state := f o.state, result := o.result }

/-- Goes on after a success; a failure stays as it is. -/
def bind (o : Outcome σ α) (next : Shared → σ → α → Outcome σ β) : Outcome σ β :=
  match o.result with
  | .ok value => next o.shared o.state value
  | .error fault => { shared := o.shared, state := o.state, result := .error fault }

theorem bind_eq_of_ok {o : Outcome σ α} {next : Shared → σ → α → Outcome σ β} {value : α}
    (h : o.result = .ok value) : o.bind next = next o.shared o.state value := by
  simp [bind, h]

theorem bind_eq_of_error {o : Outcome σ α} {next : Shared → σ → α → Outcome σ β}
    {fault : Fault} (h : o.result = .error fault) :
    o.bind next = { shared := o.shared, state := o.state, result := .error fault } := by
  simp [bind, h]

end Outcome

/-- An operation on each item in order, up to the first failure. -/
def traverse {σ α : Type} (f : σ → Shared → Outcome σ α) :
    List σ → Shared → Outcome (List σ) (List α)
  | [], shared => .pure shared [] []
  | item :: rest, shared =>
    let first := f item shared
    match first.result with
    | .error fault => .fail first.shared (first.state :: rest) fault
    | .ok value =>
      let others := traverse f rest first.shared
      { shared := others.shared
        state := first.state :: others.state
        result := others.result.map (value :: ·) }

/-- The entry for a call, or else the default. -/
def choose {α : Type} (call : Nat) (alternatives : List (Nat × α)) (default : α) : α :=
  match alternatives.find? fun entry => entry.1 = call with
  | some entry => entry.2
  | none => default

/-- Choosing what call builds which commutes with a change of all that can be built. -/
theorem choose_map {α β : Type} (f : α → β) (call : Nat) (alternatives : List (Nat × α))
    (default : α) :
    choose call (alternatives.map fun entry => (entry.1, f entry.2)) (f default) =
      f (choose call alternatives default) := by
  induction alternatives with
  | nil => rfl
  | cons entry rest ih =>
    simp only [choose, List.map_cons, List.find?_cons] at ih ⊢
    by_cases h : entry.1 = call
    · simp [h]
    · simpa [h] using ih

end NativeLayout
