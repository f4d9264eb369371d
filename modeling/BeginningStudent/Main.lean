import BeginningStudent.Report

/-!
# The command line

Runs the program in a file, or on standard input when no file is named, and prints its report.
-/

namespace BeginningStudent

structure Options where
  file : Option String
  maxDepth : Nat

namespace Options

/-- Reads the words of the command line. Call stacks grow as they are needed, so their size can be
given but makes no difference. -/
def parse (options : Options) : List String → Except String Options
  | [] => .ok options
  | "--max-depth" :: count :: rest =>
    match count.toNat? with
    | some n => { options with maxDepth := n }.parse rest
    | none => .error ("invalid value '" ++ count ++ "' for '--max-depth'")
  | "--stack-size" :: size :: rest =>
    match size.toNat? with
    | some _ => options.parse rest
    | none => .error ("invalid value '" ++ size ++ "' for '--stack-size'")
  | word :: rest =>
    if word.startsWith "-" || options.file.isSome then
      .error ("unexpected argument '" ++ word ++ "' found")
    else { options with file := some word }.parse rest

end Options

def readProgram : Option String → IO String
  | some file => IO.FS.readFile file
  | none => do (← IO.getStdin).readToEnd

def runCommandLine (options : Options) : IO UInt32 := do
  match ← (readProgram options.file).toBaseIO with
  | .error e =>
    IO.eprintln ("Failed to read the program: " ++ toString e)
    return 1
  | .ok source =>
    (run source options.maxDepth).lines.forM IO.println
    return 0

end BeginningStudent

open BeginningStudent in
def main (arguments : List String) : IO UInt32 :=
  match Options.parse ⟨none, Interpreter.defaultMaxDepth⟩ arguments with
  | .ok options => runCommandLine options
  | .error message => do
    IO.eprintln ("error: " ++ message)
    return 2
