import CodeIndex.Command.Script
/-!
# The command line

Runs an action for the project that the standard input describes, one line of JSON after the
other, and prints what the action prints.
-/

def main (arguments : List String) : IO UInt32 := do
  let input ← IO.getStdin
  let mut lines := #[]
  let mut line ← input.getLine
  while !line.isEmpty do
    lines := lines.push line
    line ← input.getLine
  let out := (CodeIndex.Script.ofLines lines.toList).finish arguments
  IO.print out.text
  return out.code.toUInt32
