/-
The command line. The tree to scan comes as a manifest on standard input;
the arguments are those of the command. A command line that is not
accepted ends with exit code 2, any other failure with 1.
-/
import DocAudit.Command
import DocAudit.Manifest

namespace DocAudit.Main

/-- Reads the lines of a stream, without their ends. -/
partial def readLines (input : IO.FS.Stream) (lines : List String) : IO (List String) := do
  let line ← input.getLine
  if line.isEmpty then return lines.reverse
  readLines input ((line.dropEndWhile (· == '\n')).toString :: lines)

/-- Runs the command on a tree. -/
def runOn (tree : FileTree) (args : List String) : IO UInt32 := do
  match Command.run CommandLine.usualReader { tree } none args with
  | .ok run =>
      for text in run.writtenErrors Console.uncoloured do
        IO.eprint text
      for text in run.written Console.uncoloured do
        IO.print text
      match run.ending with
      | .ok exitCode => return exitCode.toUInt32
      | .error failure =>
          IO.eprintln failure.message
          return 1
  | .error e =>
      IO.eprintln e.message
      return 2

end DocAudit.Main

def main (args : List String) : IO UInt32 := do
  let lines ← DocAudit.Main.readLines (← IO.getStdin) []
  match DocAudit.Manifest.read lines with
  | .ok tree => DocAudit.Main.runOn tree args
  | .error number =>
      IO.eprintln ("line " ++ toString number ++ " of the manifest is no entry")
      return 2
