import Tablespace.File.Error

/-!
# Paths

A path is a text of names with slashes between them. An empty name or a dot
stays where it is, two dots lead back. A slash in front starts from the top, a
slash at the end asks for a directory.
-/

namespace Tablespace

namespace Path

def maxSize : Nat := 4095

def maxNameSize : Nat := 255

def segments (path : String) : List String := path.splitOn "/"

/-- The names of a path, dots among them. -/
def names (path : String) : List String := (segments path).filter (· ≠ "")

def isAbsolute (path : String) : Bool := path.startsWith "/"

def endsInSlash (path : String) : Bool := path.endsWith "/"

def stays (segment : String) : Bool := segment = "" || segment = "."

/-- The segments up to the last one that leads anywhere. -/
def trim (segments : List String) : List String := (segments.reverse.dropWhile stays).reverse

/-- The part of a path in front of its last name, empty when there is none. -/
def parent (path : String) : String :=
  String.intercalate "/" (trim (trim (segments path)).dropLast)

def check (path : String) : Except PathFault Unit :=
  if path.toList.contains '\x00' then .error .nulByte
  else if maxSize < path.utf8ByteSize then .error .nameTooLong
  else if path = "" then .error .notFound
  else .ok ()

end Path

end Tablespace
