import FlowCompiler.Command.Run

/-!
# The command line

Reads the files that the arguments may mean, runs the command and shows what it leaves.
-/

namespace FlowCompiler.Command

/-- The files that arguments may mean: an argument, or what follows an equals sign in one. -/
def candidates (args : List String) : List String :=
  configName :: args.flatMap fun a => [a, String.ofList ((splitValue a.toList).2.getD [])]

/-- The content of a file, if it can be read. -/
def readIfPresent (path : String) : IO (Option (String × String)) := do
  try
    let text ← IO.FS.readFile path
    pure (some (plainName path, text))
  catch _ => pure none

end FlowCompiler.Command

open FlowCompiler in
/-- Runs the command. -/
def main (args : List String) : IO UInt32 := do
  let locale := (← IO.getEnv "LANG").getD ""
  let language := (← IO.getEnv "SOLATRANS_LANG").getD ""
  let files := (← (Command.candidates args).mapM Command.readIfPresent).filterMap id
  let (code, console) := Command.run { locale, language } files args
  (← IO.getStdout).putStr console.out
  (← IO.getStderr).putStr console.err
  for (name, text) in console.files do
    if files.lookup name ≠ some text then IO.FS.writeFile name text
  return UInt32.ofNat code
