import NodeShader.Command.Run

/-!
# The program

The files that a run asks for are read first, and those that it changes are written when it is over. A
run that watches builds again when its document has changed.
-/

namespace NodeShader

/-- Reads files, as far as they are there. -/
def readFiles (paths : List String) : IO Files :=
  paths.foldlM
    (fun files (path : String) => do
      try
        return files.write path (← IO.FS.readBinFile path).toList
      catch _ => return files) {}

/-- Writes a file and makes the directories above it. -/
def writeFile (path : String) (data : List UInt8) : IO Unit := do
  IO.FS.createDirAll (Path.directory path)
  IO.FS.writeBinFile path ⟨data.toArray⟩

/-- Puts what a run leaves behind where it belongs, and says whether the run has failed. -/
def deliver (before : Files) (f : Command.Finished) : IO Bool := do
  for (path, data) in f.run.files.changedSince before do
    writeFile path data
  IO.print f.run.stdout
  for line in f.lines do
    IO.eprintln line
  IO.eprint f.run.usage
  match f.run.failure with
  | some e => do
    IO.eprintln ("Error: " ++ e.message)
    return true
  | none => return false

/-- How long, in milliseconds, a document is left alone before it is looked at again. -/
def restingTime : UInt32 := 100

/-- Builds again whenever the files have changed. -/
partial def watch (arguments : List String) (before : Files) : IO UInt32 := do
  IO.sleep restingTime
  let files ← readFiles (Command.inputPaths arguments)
  if (files.changedSince before).isEmpty then watch arguments before
  else if ← deliver files (Command.run files false arguments) then return 1
  else watch arguments files

end NodeShader

open NodeShader in
def main (arguments : List String) : IO UInt32 := do
  let files ← readFiles (Command.inputPaths arguments)
  if ← deliver files (Command.run files false arguments) then return 1
  else if Command.isWatching arguments then watch arguments files
  else return 0
