import Seedbed.Action
import Seedbed.Text.Utf8
/-! Files below a root, and reading one of them as text. A path is made absolute by names alone:
`.` is dropped and `..` goes back by one. -/

namespace Seedbed

namespace Path

def names (path : List Char) : List (List Char) := path.splitOn '/'

/-- Follows one name from a directory. The directory is its names from the last to the first. -/
def step (dir : List (List Char)) (name : List Char) : List (List Char) :=
  if name = [] ∨ name = ['.'] then dir
  else if name = ['.', '.'] then dir.tail
  else name :: dir

def isAbsolute (path : List Char) : Bool := path.head? = some '/'

def follow (dir : List (List Char)) (path : List Char) : List (List Char) :=
  (names path).foldl step (if isAbsolute path then [] else dir)

def ofNames (dir : List (List Char)) : List Char :=
  if dir = [] then ['/'] else dir.reverse.flatMap ('/' :: ·)

/-- The absolute path of a file, found from a working directory by way of a base directory. -/
def resolve (cwd baseDir filename : String) : String :=
  .ofList (ofNames (follow (follow (follow [] cwd.toList) baseDir.toList) filename.toList))

end Path

structure Disk where
  cwd : String
  files : List (String × List UInt8) := []
  directories : List String := []

namespace Disk

/-- A path lies below a directory. -/
def isBelow (path dir : List Char) : Bool :=
  (if dir = ['/'] then dir else dir ++ ['/']).isPrefixOf path && path ≠ ['/']

/-- A directory is one that is named, or one that something else lies below. -/
def isDirectory (d : Disk) (path : List Char) : Bool :=
  let dirs := d.cwd :: d.directories
  path = ['/'] || dirs.any (·.toList = path)
    || (dirs ++ d.files.map (·.1)).any fun p => isBelow p.toList path

def bytes (d : Disk) (path : String) : Except Failure (List UInt8) :=
  if path.toList.contains '\x00' then .error (.nulInPath path)
  else
    match d.files.lookup path with
    | some bs => .ok bs
    | none =>
      if d.isDirectory path.toList then .error (.isDirectory path)
      else if d.files.any fun f => isBelow path.toList f.1.toList then .error (.notDirectory path)
      else .error (.noSuchFile path)

def read (d : Disk) (filename : String) (baseDir : Option String) : Except Fault String :=
  let path := Path.resolve d.cwd (baseDir.getD "") filename
  match d.bytes path with
  | .ok bs => .ok (Utf8.decode bs)
  | .error e =>
    .error ((Fault.notOpened path { filename := some filename, path := some path }).withCause
      (.failure e))

end Disk

end Seedbed
