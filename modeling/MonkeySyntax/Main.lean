import MonkeySyntax.CommandLine

/-!
# MonkeySyntax — the command line

`FILE` is parsed and shown, `--tokens FILE` is only cut into tokens. What is shown is decided in
`CommandLine.lean`.
-/

namespace MonkeySyntax

namespace CommandLine

/-- The bytes of a file, if it can be read. -/
def contentsOf (path : String) : IO (Option ByteArray) := do
  try
    let bytes ← IO.FS.readBinFile path
    pure (some bytes)
  catch _ =>
    pure none

/-- Answers on the file that the arguments name. -/
def execute (arguments : List String) : IO UInt32 := do
  match arguments.filter (· ≠ "--tokens") with
  | [path] =>
    let outcome := run (arguments.contains "--tokens") path (← contentsOf path)
    (← IO.getStdout).putStr outcome.stdout
    (← IO.getStderr).putStr outcome.stderr
    pure outcome.code
  | _ =>
    (← IO.getStderr).putStrLn "usage: monkey [--tokens] FILE"
    pure 2

end CommandLine

end MonkeySyntax

def main (arguments : List String) : IO UInt32 :=
  MonkeySyntax.CommandLine.execute arguments
