import Mathlib.Data.List.Basic
import NativeLayout.Command.Line

namespace NativeLayout.Command

/-!
# Options among the arguments

The arguments are read from left to right, and the first one that cannot be read ends the reading.  All the
same, what is read depends on the options among themselves and on the other arguments among themselves, and
not on how they are mixed.

* `Dashed`, `abiText?`, `fault?` — the options, what is said behind `--abi=`, and the options that are refused.
* `readArguments_of_fault`, `readArguments_of_not_fault` — reading fails at the first refused option; without
  one, the last `--abi=` counts, and all arguments that are no option are left over, in their order.
* `readArguments_eq_filter` — reading the arguments is reading the options alone, with the other arguments put
  beside them.
* `readOptions_anywhere` — the same with the environment, and what both commands make of it.
-/

/-! ### Options -/

/-- Whether an argument starts with two dashes. -/
def Dashed (text : String) : Prop := "--".toList <+: text.toList

instance (text : String) : Decidable (Dashed text) :=
  inferInstanceAs (Decidable ("--".toList <+: text.toList))

/-- The text behind `--abi=`. -/
def abiText? (text : String) : Option String :=
  ("--abi=".toList.isPrefixOf? text.toList).map String.ofList

/-- Whether an argument asks for packing. -/
def AsksPacked (text : String) : Prop := text = "--packed" ∨ text = "--compressed"

instance (text : String) : Decidable (AsksPacked text) :=
  inferInstanceAs (Decidable (text = "--packed" ∨ text = "--compressed"))

/-- Why an option is refused: it names no ABI, or it is unknown. -/
def fault? (text : String) : Option CommandError :=
  match abiText? text with
  | some name =>
    match Abi.ofText? name with
    | .ok _ => none
    | .error e => some (.layout e)
  | none =>
    if Dashed text ∧ ¬ AsksPacked text then some (.usage s!"unknown option `{text}`") else none

/-- The ABI that the last `--abi=` asks for, or the one that is given. -/
def abiAfter (start : Abi) (arguments : List String) : Except LayoutError Abi :=
  match (arguments.filterMap abiText?).getLast? with
  | some name => Abi.ofText? name
  | none => .ok start

/-- An argument asks for an ABI if it is `--abi=` with a name behind it. -/
theorem abiText?_eq_some_iff {text name : String} : abiText? text = some name ↔ text = "--abi=" ++ name := by
  have hchars : ("--abi=" ++ name).toList = "--abi=".toList ++ name.toList := String.toList_append
  rw [abiText?, Option.map_eq_some_iff]
  constructor
  · rintro ⟨rest, hrest, rfl⟩
    rw [List.isPrefixOf?_eq_some_iff_append_eq] at hrest
    apply String.toList_injective
    rw [hchars, ← hrest]
    exact congrArg _ String.toList_ofList.symm
  · rintro rfl
    exact ⟨name.toList, List.isPrefixOf?_eq_some_iff_append_eq.2 hchars.symm, String.ofList_toList⟩

/-- Such an argument is an option. -/
theorem Dashed.of_abiText? {text name : String} (h : abiText? text = some name) : Dashed text := by
  rw [abiText?_eq_some_iff] at h
  subst h
  have hdashes : "--".toList ++ "abi=".toList = "--abi=".toList := by decide
  refine ⟨"abi=".toList ++ name.toList, ?_⟩
  rw [← List.append_assoc, hdashes, ← String.toList_append]

/-- An argument that is no option asks for no ABI. -/
theorem abiText?_eq_none_of_not_dashed {text : String} (h : ¬ Dashed text) : abiText? text = none := by
  cases hname : abiText? text with
  | none => rfl
  | some name => exact absurd (Dashed.of_abiText? hname) h

/-- An argument that asks for packing is an option. -/
theorem AsksPacked.dashed {text : String} (h : AsksPacked text) : Dashed text := by
  rcases h with rfl | rfl <;> decide

/-- It asks for no ABI, so the kinds of options exclude each other. -/
theorem AsksPacked.abiText?_eq_none {text : String} (h : AsksPacked text) : abiText? text = none := by
  rcases h with rfl | rfl <;> decide

/-- The four kinds of arguments. -/
theorem ofText_eq (text : String) :
    Argument.ofText text =
      match abiText? text with
      | some name => .abi name
      | none =>
        if AsksPacked text then .packed else if Dashed text then .unknown text else .positional text := by
  unfold Argument.ofText abiText?
  cases "--abi=".toList.isPrefixOf? text.toList with
  | some rest => rfl
  | none =>
    simp only [List.isPrefixOf_iff_prefix]
    rfl

/-! ### Reading from left to right -/

variable {start : Options} {text name : String} {rest : List String} {abi : Abi} {e : CommandError}
  {arguments : List String}

/-- What is read from an argument in front of others, by its kind. -/
theorem readArguments_cons (start : Options) (text : String) (rest : List String) :
    (∀ name abi, Argument.ofText text = .abi name → Abi.ofText? name = .ok abi →
      readArguments start (text :: rest) = readArguments { start with abi } rest) ∧
    (∀ name cause, Argument.ofText text = .abi name → Abi.ofText? name = .error cause →
      readArguments start (text :: rest) = .error (.layout cause)) ∧
    (Argument.ofText text = .packed →
      readArguments start (text :: rest) = readArguments { start with packed := true } rest) ∧
    (∀ word, Argument.ofText text = .unknown word →
      readArguments start (text :: rest) = .error (.usage s!"unknown option `{word}`")) ∧
    (∀ word, Argument.ofText text = .positional word →
      readArguments start (text :: rest) =
        (readArguments start rest).map fun (options, others) => (options, word :: others)) := by
  refine ⟨fun name abi hkind habi => ?_, fun name cause hkind habi => ?_, fun hkind => ?_, fun word hkind => ?_,
    fun word hkind => ?_⟩
  · simp only [readArguments, hkind, habi]
  · simp only [readArguments, hkind, habi]
  · simp only [readArguments, hkind]
  · simp only [readArguments, hkind]
  · simp only [readArguments, hkind]

/-- A known ABI replaces the one that was asked for before. -/
theorem readArguments_cons_abi (h : abiText? text = some name) (habi : Abi.ofText? name = .ok abi) :
    readArguments start (text :: rest) = readArguments { start with abi } rest := by
  obtain ⟨hread, -⟩ := readArguments_cons start text rest
  exact hread name abi (by simp only [ofText_eq, h]) habi

/-- Packing is asked for, and cannot be taken back. -/
theorem readArguments_cons_packed (h : AsksPacked text) :
    readArguments start (text :: rest) = readArguments { start with packed := true } rest := by
  obtain ⟨-, -, hread, -⟩ := readArguments_cons start text rest
  exact hread (by simp only [ofText_eq, h.abiText?_eq_none, if_pos h])

/-- An argument that is no option is left over, in front of those behind it. -/
theorem readArguments_cons_positional (h : ¬ Dashed text) :
    readArguments start (text :: rest) =
      (readArguments start rest).map fun (options, others) => (options, text :: others) := by
  have hpacked : ¬ AsksPacked text := fun hp => h hp.dashed
  obtain ⟨-, -, -, -, hread⟩ := readArguments_cons start text rest
  exact hread text (by simp only [ofText_eq, abiText?_eq_none_of_not_dashed h, if_neg hpacked, if_neg h])

/-- Reading ends at an option that is refused. -/
theorem readArguments_cons_of_fault (h : fault? text = some e) :
    readArguments start (text :: rest) = .error e := by
  obtain ⟨-, hrefused, -, hunknown, -⟩ := readArguments_cons start text rest
  unfold fault? at h
  -- a name that is no ABI, or a word with dashes that is no option
  cases hname : abiText? text with
  | some name =>
    simp only [hname] at h
    cases habi : Abi.ofText? name with
    | ok abi => simp [habi] at h
    | error cause =>
      simp only [habi, Option.some.injEq] at h
      rw [← h, hrefused name cause (by simp only [ofText_eq, hname]) habi]
  | none =>
    simp only [hname] at h
    split at h
    next hother =>
      obtain rfl := Option.some.inj h
      exact hunknown text (by simp only [ofText_eq, hname, if_neg hother.2, if_pos hother.1])
    next => cases h

/-- The arguments that are not refused. -/
theorem cases_of_fault?_eq_none (h : fault? text = none) :
    (∃ name abi, abiText? text = some name ∧ Abi.ofText? name = .ok abi) ∨ AsksPacked text ∨
      ¬ Dashed text := by
  unfold fault? at h
  cases hname : abiText? text with
  | some name =>
    simp only [hname] at h
    cases habi : Abi.ofText? name with
    | ok abi => exact .inl ⟨name, abi, rfl, habi⟩
    | error cause => simp [habi] at h
  | none =>
    simp only [hname] at h
    split at h
    next => cases h
    -- no option at all, or the one for packing
    next hknown => exact .inr (by tauto)

/-- Reading ends at the first option that is refused, whatever follows it. -/
theorem readArguments_of_fault (h : arguments.findSome? fault? = some e) :
    readArguments start arguments = .error e := by
  -- on the arguments; what is in front of the fault is read whatever it says
  induction arguments generalizing start with
  | nil => cases h
  | cons text rest ih =>
    rw [List.findSome?_cons] at h
    cases hfault : fault? text with
    | some first =>
      simp only [hfault, Option.some.injEq] at h
      rw [← h, readArguments_cons_of_fault hfault]
    | none =>
      simp only [hfault] at h
      obtain ⟨name, abi, hname, habi⟩ | hpacked | hother := cases_of_fault?_eq_none hfault
      · rw [readArguments_cons_abi hname habi, ih h]
      · rw [readArguments_cons_packed hpacked, ih h]
      · rw [readArguments_cons_positional hother, ih h]
        rfl

/-- An ABI that is asked for counts like the one that is given, as long as no other follows. -/
theorem abiAfter_cons_of_some (h : abiText? text = some name) (habi : Abi.ofText? name = .ok abi)
    (given : Abi) : abiAfter given (text :: rest) = abiAfter abi rest := by
  unfold abiAfter
  rw [List.filterMap_cons_some h, List.getLast?_cons]
  cases (rest.filterMap abiText?).getLast? with
  | none => exact habi
  | some last => rfl

/-- Other arguments do not change the ABI. -/
theorem abiAfter_cons_of_none (h : abiText? text = none) (given : Abi) :
    abiAfter given (text :: rest) = abiAfter given rest := by
  unfold abiAfter
  rw [List.filterMap_cons_none h]

/-- Without a refused option the whole list is read. -/
theorem readArguments_of_not_fault (start : Options) (h : arguments.findSome? fault? = none) :
    ∃ abi, abiAfter start.abi arguments = .ok abi ∧
      readArguments start arguments =
        .ok (⟨abi, start.packed || arguments.any (AsksPacked ·)⟩, arguments.filter (¬ Dashed ·)) := by
  -- on the arguments, for every start: what one of them asks for is the start of the rest
  induction arguments generalizing start with
  | nil => exact ⟨start.abi, rfl, by simp [readArguments]⟩
  | cons text rest ih =>
    obtain ⟨hfault, hrest⟩ : fault? text = none ∧ rest.findSome? fault? = none := by
      simpa [List.findSome?_eq_none_iff] using h
    obtain ⟨name, asked, hname, hasked⟩ | hpacked | hother := cases_of_fault?_eq_none hfault
    -- what this argument says is the start for the rest, which may override it
    · have hdashed := Dashed.of_abiText? hname
      have hplain : ¬ AsksPacked text := fun hp => by simp [hp.abiText?_eq_none] at hname
      obtain ⟨abi, habi, hread⟩ := ih { start with abi := asked } hrest
      refine ⟨abi, by rw [abiAfter_cons_of_some hname hasked, habi], ?_⟩
      rw [readArguments_cons_abi hname hasked, hread]
      simp [hdashed, hplain]
    · obtain ⟨abi, habi, hread⟩ := ih { start with packed := true } hrest
      refine ⟨abi, by rw [abiAfter_cons_of_none hpacked.abiText?_eq_none, habi], ?_⟩
      rw [readArguments_cons_packed hpacked, hread]
      simp [hpacked, hpacked.dashed]
    · have hplain : ¬ AsksPacked text := fun hp => hother hp.dashed
      have hnone := abiText?_eq_none_of_not_dashed hother
      obtain ⟨abi, habi, hread⟩ := ih start hrest
      refine ⟨abi, by rw [abiAfter_cons_of_none hnone, habi], ?_⟩
      rw [readArguments_cons_positional hother, hread]
      simp [hother, hplain, Except.map]

/-- Some option asks for packing. -/
theorem any_asksPacked_iff :
    arguments.any (AsksPacked ·) = true ↔ "--packed" ∈ arguments ∨ "--compressed" ∈ arguments := by
  rw [List.any_eq_true]
  simp only [decide_eq_true_eq]
  simp only [AsksPacked, and_or_left, exists_or, exists_eq_right]

/-- Reading succeeds if no argument is refused; this is everything that it then tells. -/
theorem readArguments_eq_ok_iff {options : Options} {others : List String} :
    readArguments start arguments = .ok (options, others) ↔
      (∀ text ∈ arguments, fault? text = none) ∧ abiAfter start.abi arguments = .ok options.abi ∧
      (options.packed = true ↔ start.packed = true ∨ "--packed" ∈ arguments ∨ "--compressed" ∈ arguments) ∧
      others = arguments.filter (¬ Dashed ·) := by
  rw [← List.findSome?_eq_none_iff, ← any_asksPacked_iff, ← Bool.or_eq_true, ← Bool.eq_iff_iff]
  cases hfault : arguments.findSome? fault? with
  | some e => simp [readArguments_of_fault hfault]
  | none =>
    obtain ⟨abi, habi, hread⟩ := readArguments_of_not_fault start hfault
    obtain ⟨asked, packed⟩ := options
    rw [hread, habi]
    simp only [Except.ok.injEq, Prod.mk.injEq, Options.mk.injEq, true_and, and_assoc, eq_comm]

/-- Reading fails if an argument is refused, and with the fault of the first such argument. -/
theorem readArguments_eq_error_iff :
    readArguments start arguments = .error e ↔ arguments.findSome? fault? = some e := by
  cases hfault : arguments.findSome? fault? with
  | some first => simp [readArguments_of_fault hfault]
  | none =>
    obtain ⟨abi, habi, hread⟩ := readArguments_of_not_fault start hfault
    simp [hread]

/-! ### Options anywhere -/

/-- Reading the arguments is reading the options alone, with the other arguments put beside them. -/
theorem readArguments_eq_filter (start : Options) (arguments : List String) :
    readArguments start arguments =
      (readArguments start (arguments.filter (Dashed ·))).map fun (options, _) =>
        (options, arguments.filter (¬ Dashed ·)) := by
  induction arguments generalizing start with
  | nil => rfl
  | cons text rest ih =>
    -- an option heads the filtered list too; any other argument only joins those that are left over
    by_cases hdashed : Dashed text
    · have hoptions : (text :: rest).filter (Dashed ·) = text :: rest.filter (Dashed ·) := by simp [hdashed]
      have hothers : (text :: rest).filter (¬ Dashed ·) = rest.filter (¬ Dashed ·) := by simp [hdashed]
      rw [hoptions, hothers]
      cases hfault : fault? text with
      | some e =>
        rw [readArguments_cons_of_fault hfault, readArguments_cons_of_fault hfault]
        rfl
      | none =>
        obtain ⟨name, abi, hname, habi⟩ | hpacked | hother := cases_of_fault?_eq_none hfault
        · rw [readArguments_cons_abi hname habi, readArguments_cons_abi hname habi, ih]
        · rw [readArguments_cons_packed hpacked, readArguments_cons_packed hpacked, ih]
        · exact absurd hdashed hother
    · have hoptions : (text :: rest).filter (Dashed ·) = rest.filter (Dashed ·) := by simp [hdashed]
      have hothers : (text :: rest).filter (¬ Dashed ·) = text :: rest.filter (¬ Dashed ·) := by
        simp [hdashed]
      rw [hoptions, hothers, readArguments_cons_positional hdashed, ih]
      cases readArguments start (rest.filter (Dashed ·)) <;> rfl

/-- The ABI that the environment asks for, or the standard one. -/
def environmentAbi (lookup : String → Option String) : Except LayoutError Abi :=
  match lookup "STRATA_ABI" with
  | some text => Abi.ofText? text
  | none => .ok .standard

/-- The environment is read first, and the arguments only if it names an ABI or nothing. -/
theorem readOptions_eq (lookup : String → Option String) (arguments : List String) :
    readOptions lookup arguments =
      match environmentAbi lookup with
      | .error cause => .error (.layout cause)
      | .ok abi => readArguments ⟨abi, false⟩ arguments := by
  unfold readOptions environmentAbi Settings.ofEnvironment
  cases lookup "STRATA_ABI" with
  | none => rfl
  | some text =>
    dsimp only
    generalize Abi.ofText? text = named
    cases named <;> rfl

/-- The command that reports a layout. -/
theorem run_layout (lookup : String → Option String) (arguments : List String) :
    run lookup ("layout" :: arguments) = .ofResult (runReport lookup arguments) := by
  rw [run, if_pos rfl]

/-- The command that prints a declaration. -/
theorem run_emit (lookup : String → Option String) (arguments : List String) :
    run lookup ("emit" :: arguments) = .ofResult (runDeclare lookup arguments) := by
  rw [run, if_neg (by decide), if_pos rfl]

/-- It makes no difference where the options stand.  Two lists of arguments with the same options in the
same order and the same other arguments in the same order are read alike, and both commands print the same
for them.  What is read are the last ABI that is asked for, packing if any option asks for it, and the other
arguments; a failure is that of the environment, or else that of the first option that is refused. -/
theorem readOptions_anywhere (lookup : String → Option String) (arguments : List String) :
    (∀ other : List String, other.filter (Dashed ·) = arguments.filter (Dashed ·) →
      other.filter (¬ Dashed ·) = arguments.filter (¬ Dashed ·) →
      readOptions lookup other = readOptions lookup arguments ∧
      ∀ command ∈ ["layout", "emit"],
        run lookup (command :: other) = run lookup (command :: arguments)) ∧
    (∀ options others, readOptions lookup arguments = .ok (options, others) ↔
      ∃ start, environmentAbi lookup = .ok start ∧ (∀ text ∈ arguments, fault? text = none) ∧
        abiAfter start arguments = .ok options.abi ∧
        (options.packed = true ↔ "--packed" ∈ arguments ∨ "--compressed" ∈ arguments) ∧
        others = arguments.filter (¬ Dashed ·)) ∧
    (∀ e, readOptions lookup arguments = .error e ↔
      (∃ cause, environmentAbi lookup = .error cause ∧ e = .layout cause) ∨
      ∃ start, environmentAbi lookup = .ok start ∧ arguments.findSome? fault? = some e) := by
  refine ⟨fun other hoptions hothers => ?_, fun options others => ?_, fun e => ?_⟩
  · -- both readings are told by the options alone and by what is left over
    have hread : readOptions lookup other = readOptions lookup arguments := by
      rw [readOptions_eq, readOptions_eq]
      cases environmentAbi lookup with
      | error cause => rfl
      | ok abi =>
        simp only
        rw [readArguments_eq_filter, hoptions, hothers, ← readArguments_eq_filter]
    refine ⟨hread, fun command hcommand => ?_⟩
    obtain rfl | rfl : command = "layout" ∨ command = "emit" := by simpa using hcommand
    · rw [run_layout, run_layout, runReport, runReport, hread]
    · rw [run_emit, run_emit, runDeclare, runDeclare, hread]
  · rw [readOptions_eq]
    cases environmentAbi lookup with
    | error cause => simp
    | ok start => simp [readArguments_eq_ok_iff]
  · rw [readOptions_eq]
    cases environmentAbi lookup with
    | error cause => simp [eq_comm]
    | ok start => simp [readArguments_eq_error_iff]

/-- Two lists that mix the same options and types differently; the last ABI counts, and of two faults the
first one. -/
theorem readOptions_anywhere_mixed :
    let lookup : String → Option String := fun _ => none
    let arguments := ["--abi=i386", "int", "--packed", "double", "--abi=msvc"]
    let other := ["int", "double", "--abi=i386", "--packed", "--abi=msvc"]
    other.filter (Dashed ·) = arguments.filter (Dashed ·) ∧
    other.filter (¬ Dashed ·) = arguments.filter (¬ Dashed ·) ∧
    run lookup ("layout" :: other) = run lookup ("layout" :: arguments) ∧
    readOptions lookup arguments = .ok (⟨.msvcX64, true⟩, ["int", "double"]) ∧
    readOptions lookup ["int", "--fast", "--abi=vax"] = .error (.usage "unknown option `--fast`") := by
  intro lookup arguments other
  have hoptions : other.filter (Dashed ·) = arguments.filter (Dashed ·) := by decide
  have hothers : other.filter (¬ Dashed ·) = arguments.filter (¬ Dashed ·) := by decide
  obtain ⟨hanywhere, hok, -⟩ := readOptions_anywhere lookup arguments
  -- of the unknown option and the unknown ABI the option comes first
  obtain ⟨-, -, herror⟩ := readOptions_anywhere lookup ["int", "--fast", "--abi=vax"]
  obtain ⟨-, hrun⟩ := hanywhere other hoptions hothers
  have hread : readOptions lookup arguments = .ok (⟨.msvcX64, true⟩, ["int", "double"]) :=
    (hok _ _).2 ⟨.msvcX64, rfl, by decide +kernel, by decide +kernel, by decide, by decide⟩
  exact ⟨hoptions, hothers, hrun "layout" (by simp), hread,
    (herror _).2 (.inr ⟨.msvcX64, rfl, by decide +kernel⟩)⟩

end NativeLayout.Command
