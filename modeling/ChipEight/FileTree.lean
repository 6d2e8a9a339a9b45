namespace ChipEight

inductive ReadError
  | notFound
  | notADirectory
  | isADirectory
  | nameTooLong
  /-- The path has a NUL character in it. -/
  | nulInName
  /-- Any other reason, in the words of the file system. -/
  | other (message : String)
deriving DecidableEq, Repr

def ReadError.message : ReadError → String
  | notFound => "No such file or directory (os error 2)"
  | notADirectory => "Not a directory (os error 20)"
  | isADirectory => "Is a directory (os error 21)"
  | nameTooLong => "File name too long (os error 36)"
  | nulInName => "file name contained an unexpected NUL byte"
  | other message => message

abbrev Contents := Except ReadError (List UInt8)

/-- A directory in which a path can begin or to which it can climb. -/
inductive Base
  | root
  /-- The directory a number of levels above the working directory. -/
  | above (levels : Nat)
deriving DecidableEq, Repr

/-- A place in a file tree: a base, and the names that lead down from it, the last one first. -/
structure Place where
  base : Base
  names : List String := []
deriving DecidableEq, Repr

namespace Place

/-- The place one level up. The root is above itself. -/
def up (p : Place) : Place :=
  match p.names, p.base with
  | _ :: names, _ => { p with names := names }
  | [], .above levels => { base := .above (levels + 1) }
  | [], .root => p

/-- The place that a part of a path leads to: an empty part and `.` stay, `..` leads up. -/
def enter (p : Place) (part : String) : Place :=
  if part = "" ∨ part = "." then p
  else if part = ".." then p.up
  else { p with names := part :: p.names }

/-- The place where a path begins. -/
def ofPath (path : String) : Place :=
  if path.startsWith "/" then { base := .root } else { base := .above 0 }

end Place

structure FileTree where
  files : List (Place × List UInt8) := []

namespace FileTree

def parts (path : String) : List String :=
  (path.toList.splitOn '/').map String.ofList

/-- The tree with a file at a path, in place of what was there. A path that does not end in a name
leaves the tree as it is. -/
def insert (t : FileTree) (path : String) (bytes : List UInt8) : FileTree :=
  let parts := parts path
  if parts.getLast? ∈ [none, some "", some ".", some ".."] then t
  else { files := (parts.foldl Place.enter (.ofPath path), bytes) :: t.files }

/-- Whether there is a directory at a place. -/
def hasDirectory (t : FileTree) (p : Place) : Bool :=
  p.names.isEmpty || t.files.any fun (q, _) =>
    q.base = p.base && q.names ≠ p.names && p.names.isSuffixOf q.names

/-- The bytes of the file that the parts of a path lead to from a place. A name of more than 255
bytes leads nowhere. -/
def lookup (t : FileTree) (p : Place) : List String → Contents
  | [] => .error .isADirectory
  | part :: rest =>
    let next := p.enter part
    if 255 < part.utf8ByteSize then .error .nameTooLong
    else if t.hasDirectory next then t.lookup next rest
    else
      match t.files.lookup next with
      | none => .error .notFound
      | some bytes => if rest.isEmpty then .ok bytes else .error .notADirectory

/-- Reads the file at a path. An empty path leads nowhere, and neither does one of more than 4095
bytes. -/
def read (t : FileTree) (path : String) : Contents :=
  if path.toList.contains '\x00' then .error .nulInName
  else if path = "" then .error .notFound
  else if 4095 < path.utf8ByteSize then .error .nameTooLong
  else t.lookup (.ofPath path) (parts path)

end FileTree

end ChipEight
