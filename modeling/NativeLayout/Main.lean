import NativeLayout.Command.Line

/-!
# The program

Reads the arguments and the environment, and prints the reply.
-/

/-- Prints the reply to the arguments. -/
def main (arguments : List String) : IO UInt32 := do
  let abi ← IO.getEnv "STRATA_ABI"
  let lazy ← IO.getEnv "STRATA_LAZY_ARRAYS"
  let lookup (name : String) : Option String :=
    if name = "STRATA_ABI" then abi else if name = "STRATA_LAZY_ARRAYS" then lazy else none
  let reply := NativeLayout.Command.run lookup arguments
  IO.print reply.stdout
  IO.eprint reply.stderr
  return reply.exit.toUInt32
