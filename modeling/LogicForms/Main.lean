import LogicForms.CommandLine.Program

/-!
# Entry point of the command line program
-/

open LogicForms.CommandLine

/-- Run the program, print what it prints, and return its exit code. The log goes to the error
channel, and so does the reason why no run can start. -/
def main (arguments : List String) : IO UInt32 := do
  match execute arguments with
  | .error e =>
    IO.eprint e.line
    return 1
  | .ok execution =>
    for entry in execution.log do
      IO.eprintln entry.text
    IO.print execution.stdout
    IO.eprint execution.stderr
    return execution.code.toUInt32
