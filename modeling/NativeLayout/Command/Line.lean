import NativeLayout.Command.Declare
import NativeLayout.Command.Report

namespace NativeLayout.Command

/-!
# The command line

* `Reply` — what a run prints and how it ends.
* `run` — the reply to a list of arguments.
-/

/-- What a run prints and how it ends. -/
structure Reply where
  exit : Nat
  stdout : String
  stderr : String
  deriving DecidableEq, Repr

/-- The version that a user is told. -/
def version : String := "0.1.0"

/-- The help page. -/
def helpLines : List String :=
  ["Strata native structure layout engine",
    "",
    "Usage: strata <command> [options]",
    "",
    "Commands:",
    "  layout <type>...                    Print field offsets and padding",
    "  emit <c|rust> <Name> <field:type>... Print a struct definition",
    "  help                                Show this help message",
    "  version                             Show version information",
    "",
    "Options:",
    "  --abi=<abi>    msvc-x64 (default) or sysv-i386",
    "  --packed       No padding, alignment 1",
    "",
    "Types: i8 u8 i16 u16 i32 u32 i64 u64 f32 f64 bool char ptr,",
    "       C aliases (short, int, long, double), `T[N]` arrays, `T*` pointers.",
    "",
    "Environment:",
    "  STRATA_ABI     Default ABI",
    "  RUST_LOG       Enable tracing output (e.g. RUST_LOG=strata_mem=debug)"]

/-- The help page as a text. -/
def help : String := Text.ofLines helpLines

/-- A run that prints a text or the cause of its failure. -/
def Reply.ofResult : Except CommandError String → Reply
  | .ok text => { exit := 0, stdout := text, stderr := "" }
  | .error e => { exit := 1, stdout := "", stderr := s!"error: {e.message}\n" }

/-- The report command. -/
def runReport (lookup : String → Option String) (arguments : List String) :
    Except CommandError String := do
  let (options, types) ← readOptions lookup arguments
  layoutReport options types

/-- The declaration command. -/
def runDeclare (lookup : String → Option String) (arguments : List String) :
    Except CommandError String := do
  let (options, others) ← readOptions lookup arguments
  match others with
  | language :: name :: fields =>
    declareRecord (← ofSource (Source.Language.ofText? language)) name options fields
  | _ => throw (.usage declareUsage)

/-- The reply to the arguments behind the program's name. -/
def run (lookup : String → Option String) : List String → Reply
  | [] => { exit := 0, stdout := help, stderr := "" }
  | command :: arguments =>
    if command = "layout" then .ofResult (runReport lookup arguments)
    else if command = "emit" then .ofResult (runDeclare lookup arguments)
    else if command = "help" ∨ command = "--help" ∨ command = "-h" then
      { exit := 0, stdout := help, stderr := "" }
    else if command = "version" ∨ command = "--version" ∨ command = "-V" then
      { exit := 0, stdout := s!"strata {version}\n", stderr := "" }
    else { exit := 1, stdout := help, stderr := s!"Unknown command: {command}\n\n" }

end NativeLayout.Command
