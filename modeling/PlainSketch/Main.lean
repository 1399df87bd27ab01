import PlainSketch.Tool.Run

/-!
# The command line

Takes a picture of the files that the arguments name, runs the tool on it, and brings the changed
files back.
-/
namespace PlainSketch.Main

/-- The paths that a request may read or write. -/
def touched : Request → List String
  | .version => []
  | .command _ _ p =>
    let outputs := p.rest.map fun path => ((Path.ofString path).withExtension ".ino").render
    (p.rest ++ (p.value? .output).toList ++ outputs).filter (!·.toList.contains '\x00')

/-- The places that a path passes through, from a directory on. -/
def placesFrom (here : Place) : List String → List Place
  | [] => []
  | part :: parts =>
    if Path.isIdle part then placesFrom here parts
    else
      let next := if part == ".." then Files.parent here else here ++ [part]
      next :: placesFrom next parts

def places (path : String) : List Place :=
  if path.toList.head? == some '/' then ["/"] :: placesFrom ["/"] (Path.rawParts path)
  else placesFrom [] (Path.rawParts path)

/-- The name of a place for the system. -/
def systemName : Place → String
  | "/" :: parts => "/" ++ "/".intercalate parts
  | parts => "/".intercalate parts

/-- Adds what the system has at a place. -/
def look (s : Files) (place : Place) : IO Files := do
  let path := (← IO.currentDir) / systemName place
  if ← path.isDir then return { s with directories := place :: s.directories }
  else if ← path.pathExists then return s.put place (← IO.FS.readBinFile path)
  else return s

/-- Writes the files that are not as they were. -/
def bringBack (before after : Files) : IO Unit := do
  for (place, bytes) in after.files do
    if before.get? place != some bytes then
      IO.FS.writeBinFile ((← IO.currentDir) / systemName place) bytes

def usageText : String :=
  "Usage: aesc [-v] (compile FILE [-o FILE] [-b BOARD] [--json] | format FILE [-w] [--check] | " ++
    "symbols FILE [-b BOARD] [--json] | boards)\n"

def report : Outcome → IO UInt32
  | .done code out err => do
    (← IO.getStderr).putStr err
    (← IO.getStdout).putStr out
    return code.toUInt32
  | .usage => do
    (← IO.getStderr).putStr usageText
    return 2
  | .uncaught f => do
    (← IO.getStderr).putStr (f.message ++ "\n")
    return 1

end PlainSketch.Main

open PlainSketch in
def main (args : List String) : IO UInt32 := do
  match Request.ofArgs? args with
  | none => PlainSketch.Main.report .usage
  | some r =>
    let before ← ((PlainSketch.Main.touched r).flatMap PlainSketch.Main.places).foldlM
      PlainSketch.Main.look { files := [] }
    let (outcome, after) := r.run before
    PlainSketch.Main.bringBack before after
    PlainSketch.Main.report outcome
