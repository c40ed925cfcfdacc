import Timeshare.CommandLine.Program

/-!
# The program among real files

The outer layer: it hands lines and images to the console, and does with its output what a host
does, on the files of the machine.
-/

namespace Timeshare

namespace Main

/-- The fault behind a failed operation on a file. -/
def faultOf : IO.Error → Fault
  | .noFileOrDirectory .. => .notFound
  | .alreadyExists .. => .alreadyExists
  | .inappropriateType _ number _ => if number = 20 then .notADirectory else .isADirectory
  | .invalidArgument _ number details => if number = 36 then .nameTooLong else .other details
  | e => .other (toString e)

def attempt {α : Type} (path : String) (action : IO α) : IO (Except Fault α) := do
  if path.toList.contains '\x00' then return .error .nulInName
  try return .ok (← action)
  catch e => return .error (faultOf e)

/-- The image in a file: as many of its bytes as a memory holds. -/
def readImage (path : String) : IO (Except Fault (List UInt8)) :=
  attempt path do
    let file ← IO.FS.Handle.mk path .read
    return (← file.read wordCount.toUSize).data.toList

def isDirectory (path : String) : IO Bool := (System.mkFilePath [path]).isDir

/-- Makes a directory and, where they are missing, those above it, given by their names, innermost
first. -/
def makeDirectories : List String → IO Unit
  | [] => return
  | path :: above => do
    let accept (e : IO.Error) : IO Unit := do
      unless ← isDirectory path do throw e
    try IO.FS.createDir path
    catch e =>
      if faultOf e = .notFound then
        makeDirectories above
        try IO.FS.createDir path
        catch e => accept e
      else accept e

/-- Writes a record where its placement says. -/
def keepRecord (placement : Placement) (r : Record) : IO (Option Fault) := do
  let path := placement.pathFor r.status.name
  let result ← attempt path do
    if placement ≠ .besideImage then
      makeDirectories (Path.ancestry path).tail
    IO.FS.writeBinFile path r.text.toUTF8
  match result with
  | .ok () => return none
  | .error fault => return some fault

def print (limit : Option Level) (output : Output) : IO Unit := do
  IO.print (Output.said [output])
  IO.eprint (Output.diagnostics limit [output])

/-- Prints a piece of output; a record that it announces is written first. -/
def settle (settings : Settings) (output : Output) : IO Unit := do
  if let some r := output.record? then
    for notice in r.lossNotices (← keepRecord settings.placement r) do
      print settings.logLimit notice
  print settings.logLimit output

/-- The next line of an input with its line feed, empty at the end of the input. -/
partial def readLine (input : IO.FS.Stream) (line : List UInt8) : IO (List UInt8) := do
  match (← input.read 1).data.toList with
  | [] => return line.reverse
  | byte :: _ => if byte = 10 then return (byte :: line).reverse else readLine input (byte :: line)

/-- The next block of a file, empty at its end. A read at the end only takes note of it, so there is
a second one in case the file has grown. -/
def readBlock (file : IO.FS.Handle) : IO (List UInt8) := do
  let block ← file.read Storage.blockSize.toUSize
  if block.isEmpty then return (← file.read Storage.blockSize.toUSize).data.toList
  return block.data.toList

/-- Works through one line. One that asks for what never comes to an end is the last. -/
def feed (settings : Settings) (console : Console) (line : List UInt8) : IO (Console × Flow) := do
  match Lines.text? line with
  | none => return (console, .failed .invalidText)
  | some text =>
    let image ← match Console.wanted? text with
      | none => pure (.error .notFound)
      | some path => readImage path
    match console.interpret (fun _ => image) text with
    | none => return (console, .exit)
    | some (console, outputs, flow) =>
      outputs.forM (settle settings)
      return (console, flow)

def feedAll (settings : Settings) (console : Console) :
    List (List UInt8) → IO (Console × Closing)
  | [] => return (console, .endOfInput)
  | line :: rest => do
    match ← feed settings console line with
    | (console, .proceed) => feedAll settings console rest
    | (console, .exit) => return (console, .exited)
    | (console, .failed fault) => return (console, .failed fault)

/-- Works through an input that comes in blocks. -/
partial def follow (settings : Settings) (next : IO (List UInt8)) (console : Console)
    (unfinished : List UInt8) : IO Closing := do
  let bytes ← next
  if bytes = [] ∧ unfinished = [] then return .endOfInput
  let (lines, rest) :=
    if bytes = [] then ([unfinished], []) else Lines.complete (unfinished ++ bytes)
  match ← feedAll settings console lines with
  | (console, .endOfInput) => follow settings next console rest
  | (_, closing) => return closing

def work (settings : Settings) : IO Closing := do
  match settings.script with
  | none =>
    let input ← IO.getStdin
    follow settings (readLine input []) settings.console []
  | some path =>
    let result ← attempt path do
      let file ← IO.FS.Handle.mk path .read
      follow settings (readBlock file) settings.console []
    match result with
    | .ok closing => return closing
    | .error fault => return .failed fault

/-- Does what the arguments ask for, and gives the exit status. -/
def run (arguments : List String) : IO UInt32 := do
  match Invocation.ofArguments arguments with
  | .start settings =>
    settings.opening.forM (print settings.logLimit)
    let closing ← work settings
    (Settings.ending closing).forM (print settings.logLimit)
    return UInt32.ofNat (Settings.exitStatus closing)
  | invocation =>
    match invocation.run { home := [] } [] with
    | none => return 2
    | some (outcome, _) =>
      IO.print outcome.results
      IO.eprint outcome.diagnostics
      return UInt32.ofNat outcome.status

end Main

end Timeshare

def main (arguments : List String) : IO UInt32 := Timeshare.Main.run arguments
