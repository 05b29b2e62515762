import Mathlib.Data.List.Forall2
import NativeLayout.Node.Outcome
import NativeLayout.Proofs.Coherence

namespace NativeLayout

/-!
# What a run over a list leaves behind

* `Outcome.result_mapState` — rebuilding the state leaves the result.
* `Outcome.ok_of_map` — a result without its value.
* `traverse_forall₂` — what each step does to its item, the run does to the list.
* `traverse_cons_eq_ok` — a run that succeeds, step by step.
* `traverse_ok`, `traverse_forall₂_of_ok` — what each success says of its item, a success of the run
  says of all.
* `traverse_eq_ok_iff` — the values of a run, if those of each step are known.
* `traverse_succeeds` — a run of steps that succeed succeeds.
* `traverse_of_pure` — a run of steps that change nothing changes nothing.
-/

namespace Outcome

variable {σ τ α β : Type}

@[simp] theorem result_mapState (f : σ → τ) (o : Outcome σ α) : (o.mapState f).result = o.result :=
  rfl

/-- A result that is there if a part of it is. -/
theorem ok_of_map {ε : Type} {f : α → β} {r : Except ε α} {b : β} (h : r.map f = .ok b) :
    ∃ a, r = .ok a := by
  cases r with
  | error e => cases h
  | ok a => exact ⟨a, rfl⟩

end Outcome

section traverse

variable {σ α : Type} {f : σ → Shared → Outcome σ α} {items : List σ} {shared : Shared}

/-- A relation that each step puts between its item before and after holds for the whole list;
the items behind a failure are as they were. -/
theorem traverse_forall₂ {R : σ → σ → Prop} (hrefl : ∀ s ∈ items, R s s)
    (hstep : ∀ s ∈ items, ∀ shared : Shared, shared.Coherent →
      (f s shared).shared.Coherent ∧ R s (f s shared).state)
    (hshared : shared.Coherent) :
    (traverse f items shared).shared.Coherent ∧
      List.Forall₂ R items (traverse f items shared).state := by
  induction items generalizing shared with
  | nil => exact ⟨hshared, .nil⟩
  | cons item rest ih =>
    obtain ⟨hfirst, hitem⟩ := hstep item (by simp) shared hshared
    obtain ⟨hothers, hrest⟩ := ih (fun s hs => hrefl s (by simp [hs]))
      (fun s hs => hstep s (by simp [hs])) hfirst
    simp only [traverse]
    split
    next fault hresult =>
      exact ⟨hfirst, .cons hitem (List.forall₂_same.2 fun s hs => hrefl s (by simp [hs]))⟩
    next value hresult => exact ⟨hothers, .cons hitem hrest⟩

/-- A run that succeeds, by its first step and the run over the others. -/
theorem traverse_cons_eq_ok {item : σ} {rest : List σ} {values : List α}
    (h : (traverse f (item :: rest) shared).result = .ok values) : ∃ value others,
      (f item shared).result = .ok value ∧
      (traverse f rest (f item shared).shared).result = .ok others ∧ values = value :: others ∧
      (traverse f (item :: rest) shared).state =
        (f item shared).state :: (traverse f rest (f item shared).shared).state := by
  simp only [traverse] at h ⊢
  cases hfirst : (f item shared).result with
  | error fault =>
    simp only [hfirst] at h
    cases h
  | ok value =>
    simp only [hfirst] at h ⊢
    cases hrest : (traverse f rest (f item shared).shared).result with
    | error fault =>
      rw [hrest] at h
      cases h
    | ok others =>
      rw [hrest] at h
      cases h
      exact ⟨value, others, rfl, rfl, rfl, trivial⟩

/-- What each success says of its item and its value, a success of the run says of all. -/
theorem traverse_ok {Q : σ → α → Prop} {values : List α}
    (hstep : ∀ s ∈ items, ∀ shared : Shared, shared.Coherent →
      (f s shared).shared.Coherent ∧
        ∀ value, (f s shared).result = .ok value → Q (f s shared).state value)
    (hshared : shared.Coherent) (h : (traverse f items shared).result = .ok values) :
    List.Forall₂ Q (traverse f items shared).state values := by
  induction items generalizing shared values with
  | nil => cases h; exact .nil
  | cons item rest ih =>
    obtain ⟨hfirst, hitem⟩ := hstep item (by simp) shared hshared
    obtain ⟨value, others, hvalue, hothers, rfl, hstate⟩ := traverse_cons_eq_ok h
    rw [hstate]
    exact .cons (hitem value hvalue) (ih (fun s hs => hstep s (by simp [hs])) hfirst hothers)

/-- A relation that each success puts between its item before and after, a success of the run puts
between the lists. -/
theorem traverse_forall₂_of_ok {R : σ → σ → Prop} {values : List α}
    (hstep : ∀ s ∈ items, ∀ shared : Shared, shared.Coherent →
      (f s shared).shared.Coherent ∧
        ∀ value, (f s shared).result = .ok value → R s (f s shared).state)
    (hshared : shared.Coherent) (h : (traverse f items shared).result = .ok values) :
    List.Forall₂ R items (traverse f items shared).state := by
  induction items generalizing shared values with
  | nil => exact .nil
  | cons item rest ih =>
    obtain ⟨hfirst, hitem⟩ := hstep item (by simp) shared hshared
    obtain ⟨value, others, hvalue, hothers, -, hstate⟩ := traverse_cons_eq_ok h
    rw [hstate]
    exact .cons (hitem value hvalue) (ih (fun s hs => hstep s (by simp [hs])) hfirst hothers)

/-- If the value of each step depends on its item alone, so do the values of the run. -/
theorem traverse_eq_ok_iff {Q : σ → α → Prop} {values : List α}
    (hstep : ∀ s ∈ items, ∀ shared : Shared, shared.Coherent →
      (f s shared).shared.Coherent ∧ ∀ value, (f s shared).result = .ok value ↔ Q s value)
    (hshared : shared.Coherent) :
    (traverse f items shared).result = .ok values ↔ List.Forall₂ Q items values := by
  induction items generalizing shared values with
  | nil =>
    rw [List.forall₂_nil_left_iff]
    show Except.ok [] = Except.ok values ↔ _
    rw [Except.ok.injEq, eq_comm]
  | cons item rest ih =>
    obtain ⟨hfirst, hitem⟩ := hstep item (by simp) shared hshared
    have hrest (values : List α) :
        (traverse f rest (f item shared).shared).result = .ok values ↔ List.Forall₂ Q rest values :=
      ih (fun s hs => hstep s (by simp [hs])) hfirst
    rw [List.forall₂_cons_left_iff]
    simp only [traverse, ← hitem, ← hrest]
    -- the items behind a failure are not run, and have no values
    cases (f item shared).result with
    | error fault => simp [Outcome.fail]
    | ok value =>
      cases (traverse f rest (f item shared).shared).result with
      | error fault => simp [Except.map]
      | ok others => simp [Except.map, eq_comm]

/-- If every step succeeds, the run does. -/
theorem traverse_succeeds (hstep : ∀ s ∈ items, ∀ shared : Shared, shared.Coherent →
    (f s shared).shared.Coherent ∧ ∃ value, (f s shared).result = .ok value)
    (hshared : shared.Coherent) : ∃ values, (traverse f items shared).result = .ok values := by
  induction items generalizing shared with
  | nil => exact ⟨[], rfl⟩
  | cons item rest ih =>
    obtain ⟨hfirst, value, hvalue⟩ := hstep item (by simp) shared hshared
    obtain ⟨values, hvalues⟩ := ih (fun s hs => hstep s (by simp [hs])) hfirst
    refine ⟨value :: values, ?_⟩
    simp only [traverse, hvalue, hvalues]
    rfl

/-- If no step changes anything, the run does not. -/
theorem traverse_of_pure {value : α}
    (h : ∀ s ∈ items, ∀ shared : Shared, f s shared = .pure shared s value) :
    traverse f items shared = .pure shared items (items.map fun _ => value) := by
  induction items generalizing shared with
  | nil => rfl
  | cons item rest ih =>
    have hrest : traverse f rest shared = .pure shared rest (rest.map fun _ => value) :=
      ih fun s hs => h s (by simp [hs])
    simp only [traverse, h item (by simp), Outcome.pure, hrest]
    rfl

end traverse

end NativeLayout
