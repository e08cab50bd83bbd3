import Polish.CommandLine

/-!
The program: it writes what the command line comes to.
-/

open Polish in
def main (args : List String) : IO UInt32 := do
  let outcome := CommandLine.run args
  (← IO.getStdout).putStr outcome.stdout
  (← IO.getStderr).putStr outcome.stderr
  return outcome.code.toUInt32
