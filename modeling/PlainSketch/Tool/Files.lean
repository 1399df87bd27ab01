import PlainSketch.Text.Displayed
import PlainSketch.Text.Utf8
import PlainSketch.Tool.Path

/-!
# Files

A store of files, as far as the tool can see them. A place in it is a list of parts from the working
directory: `..` for each directory up, then names; an absolute place has `/` for its first part. The
root and the directories above the working directory are always there.
-/
namespace PlainSketch

/-- A place in a store of files. -/
abbrev Place := List String

structure Files where
  files : List (Place × ByteArray)
  /-- Directories besides those that hold a file. -/
  directories : List Place := []

inductive FileReason where
  | noSuchFile
  | notDirectory
  | isDirectory
  | nameTooLong
  /-- The path has a null character, which no name of a file can have. -/
  | nullByte
deriving DecidableEq, Repr

/-- Why a file could not be read or written. -/
structure FileFault where
  reason : FileReason
  path : String
deriving DecidableEq, Repr

namespace FileFault

def message (f : FileFault) : String :=
  let path := Text.display f.path
  match f.reason with
  | .noSuchFile => s!"[Errno 2] No such file or directory: {path}"
  | .notDirectory => s!"[Errno 20] Not a directory: {path}"
  | .isDirectory => s!"[Errno 21] Is a directory: {path}"
  | .nameTooLong => s!"[Errno 36] File name too long: {path}"
  | .nullByte => "embedded null byte"

end FileFault

namespace Files

def get? (s : Files) (place : Place) : Option ByteArray := s.files.lookup place

/-- The place is a directory. -/
def isDirectory (s : Files) (place : Place) : Bool :=
  place.all (· == "..") || place == ["/"] || s.directories.contains place ||
    s.files.any fun f => place.isPrefixOf f.1 && place != f.1

/-- The files in the working directory and below it. -/
def inside (s : Files) : List (Place × ByteArray) :=
  s.files.filter fun f => f.1.head? != some ".." && f.1.head? != some "/"

/-- Puts a file at a place. -/
def put (s : Files) (place : Place) (bytes : ByteArray) : Files :=
  if (s.get? place).isSome then
    { s with files := s.files.map fun f => if f.1 == place then (place, bytes) else f }
  else { s with files := s.files ++ [(place, bytes)] }

/-- What a path leads to. -/
inductive Node where
  | file (place : Place) (bytes : ByteArray)
  | directory
  /-- Nothing is there, and a file may be put there. -/
  | vacant (place : Place)
  /-- Nothing can be there. -/
  | unreachable (reason : FileReason)

/-- The directory that two dots lead to. Above the working directory there is no name to drop. -/
def parent (here : Place) : Place :=
  match here.getLast? with
  | none => [".."]
  | some ".." => here ++ [".."]
  | some "/" => here
  | some _ => here.dropLast

/-- The most octets that the name of a file may have. -/
def nameLimit : Nat := 255

/-- The most octets that a path may have. -/
def pathLimit : Nat := 4095

/-- Follows the parts of a path from a directory. -/
def follow (s : Files) (here : Place) : List String → Node
  | [] => .directory
  | part :: parts =>
    if Path.isIdle part then follow s here parts
    else if part == ".." then
      if s.isDirectory (parent here) then follow s (parent here) parts
      else .unreachable .noSuchFile
    else if part.utf8ByteSize > nameLimit then .unreachable .nameTooLong
    else
      match s.get? (here ++ [part]) with
      | some bytes =>
        if parts.isEmpty then .file (here ++ [part]) bytes else .unreachable .notDirectory
      | none =>
        if s.isDirectory (here ++ [part]) then follow s (here ++ [part]) parts
        else if parts.isEmpty then .vacant (here ++ [part])
        else .unreachable .noSuchFile

/-- What a path leads to, as written; an empty one leads nowhere. -/
def findWritten (s : Files) (text : String) : Node :=
  if text.toList.contains '\x00' then .unreachable .nullByte
  else if text.isEmpty then .unreachable .noSuchFile
  else if text.utf8ByteSize > pathLimit then .unreachable .nameTooLong
  else
    s.follow (if text.toList.head? == some '/' then ["/"] else []) (Path.rawParts text)

/-- What a path leads to. -/
def find (s : Files) (p : Path) : Node := s.findWritten p.render

/-- The bytes of a file. -/
def read (s : Files) (p : Path) : Except FileFault ByteArray :=
  match s.find p with
  | .file _ bytes => .ok bytes
  | .directory => .error ⟨.isDirectory, p.render⟩
  | .vacant _ => .error ⟨.noSuchFile, p.render⟩
  | .unreachable reason => .error ⟨reason, p.render⟩

/-- Writes a text to a file, which need not exist yet. -/
def write (s : Files) (p : Path) (text : String) : Except FileFault Files :=
  match s.find p with
  | .file place _ | .vacant place => .ok (s.put place text.toUTF8)
  | .directory => .error ⟨.isDirectory, p.render⟩
  | .unreachable reason => .error ⟨reason, p.render⟩

end Files
end PlainSketch
