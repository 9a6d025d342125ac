import Passcode.Command

/-! # The program -/

/-- Runs the command and prints what it leaves behind. -/
def main (args : List String) : IO UInt32 := do
  let outcome := Passcode.Command.run args (← IO.getEnv "RUST_LOG")
  for line in outcome.stderr do
    IO.eprintln line
  IO.print outcome.stdout
  return outcome.exit.toUInt32
