/-!
# Comments

A comment starts at `#` or `//` outside a string and runs to the end of the line. A double quote
enters or leaves a string unless the character before it is a backslash.
-/
namespace PlainSketch.Line

/-- Code and comment of the rest of a line, given the character before it and whether that place is
inside a string. -/
def splitCommentFrom (before : Option Char) (inString : Bool) :
    List Char → List Char × List Char
  | [] => ([], [])
  | c :: cs =>
    let inString := if c == '"' && before != some '\\' then !inString else inString
    if !inString && (c == '#' || (c == '/' && cs.head? == some '/')) then ([], c :: cs)
    else
      let r := splitCommentFrom (some c) inString cs
      (c :: r.1, r.2)

/-- Code and comment of a line; the comment keeps its marker, and both are as written. -/
def splitComment (line : List Char) : List Char × List Char := splitCommentFrom none false line

/-- The code of a line. -/
def code (line : List Char) : List Char := (splitComment line).1

end PlainSketch.Line
