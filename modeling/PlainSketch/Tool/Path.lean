/-!
# Paths

A path is shown without the parts that lead nowhere: empty ones and single dots. Two dots are kept,
since what they lead to depends on the files.
-/
namespace PlainSketch

structure Path where
  /-- The slashes that an absolute path starts with: two if exactly two were written, else one. -/
  root : String
  parts : List String
deriving DecidableEq, Repr

namespace Path

/-- A part that leads nowhere. -/
def isIdle (part : String) : Bool := part == "" || part == "."

/-- The parts of a path as written, idle ones included. -/
def rawParts (text : String) : List String := (text.toList.splitOn '/').map String.ofList

def ofString (text : String) : Path :=
  let slashes := (text.toList.takeWhile (· == '/')).length
  { root := if slashes == 0 then "" else if slashes == 2 then "//" else "/"
    parts := (rawParts text).filter (!isIdle ·) }

def render (p : Path) : String :=
  let text := p.root ++ "/".intercalate p.parts
  if text.isEmpty then "." else text

/-- A file's name without its last extension. A dot at either end of the name starts none. -/
def stem (name : List Char) : List Char :=
  let ext := name.reverse.takeWhile (· != '.')
  match name.reverse.drop ext.length with
  | _ :: base => if base.isEmpty || ext.isEmpty then name else base.reverse
  | [] => name

/-- The path with another extension, given with its dot. -/
def withExtension (p : Path) (ext : String) : Path :=
  match p.parts.getLast? with
  | none => p
  | some name =>
    { p with parts := p.parts.dropLast ++ [String.ofList (stem name.toList) ++ ext] }

end Path
end PlainSketch
