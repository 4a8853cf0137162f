import Rowstore.Demo

/-!
# The command line

Without arguments the program runs the demonstration and prints it.
-/

/-- Print the demonstration, or what went wrong. -/
def main : IO UInt32 := do
  match Rowstore.Demo.transcript with
  | .ok text =>
    IO.print text
    return 0
  | .error cause =>
    IO.eprintln ("Error: " ++ cause.message)
    return 1
