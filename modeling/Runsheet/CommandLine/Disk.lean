import Runsheet.Playbook.Problem
import Runsheet.Text.Search

/-!
# Disks

Files and folders below a base folder, as a value.  A path is a list of names; a name can only be
followed into a folder, and a file can only be written where its folder is.
-/

namespace Runsheet.CommandLine

/-- A place on a disk: the names that lead to it. -/
abbrev Place := List String

namespace Place

/-- Follows a name: a dot stays where it is, and two dots go back. -/
def follow (p : Place) (name : String) : Place :=
  if name = "" || name = "." then p
  else if name = ".." && p.getLast?.any (fun last => last ≠ "..") then p.dropLast
  else p ++ [name]

/-- The names of a path. -/
def names (path : String) : List String :=
  (Text.splitAll ['/'] path.toList).map String.ofList

/-- The place of a path. -/
def ofPath (path : String) : Place :=
  let start : Place := if path.toList.head? = some '/' then ["/"] else []
  (names path).foldl follow start

/-- Does a path name a folder, whatever is there? -/
def namesFolder (path : String) : Bool :=
  match (names path).getLast? with
  | some last => last = "" || last = "." || last = ".."
  | none => false

end Place

/-- The path of a name in a folder. -/
def joinPath (folder name : String) : String :=
  if name.toList.head? = some '/' then name
  else if folder = "" || folder.toList.getLast? = some '/' then folder ++ name
  else folder ++ "/" ++ name

/-- Files with their texts, and folders. -/
structure Disk where
  files : List (Place × String) := []
  folders : List Place := []
  deriving DecidableEq, Repr

namespace Disk

variable (d : Disk)

/-- The text of the file at a place. -/
def text? (p : Place) : Option String :=
  d.files.lookup p

/-- Is there a folder at a place?  The base and all that is around it are folders, and so is
whatever holds a file or a folder. -/
def isFolder (p : Place) : Bool :=
  p.all (· = "..") || d.folders.any p.isPrefixOf ||
    d.files.any fun file => p.isPrefixOf file.1 && p ≠ file.1

/-- The greatest length of a name, in bytes. -/
def maxName : Nat := 255

/-- What is in the way of following names from a folder; the last name need not be there. -/
def obstacle? (before : Place) : List String → Option FileProblem
  | [] => none
  | name :: rest =>
    let here := before ++ [name]
    if maxName < name.utf8ByteSize then some .nameTooLong
    else if rest = [] then none
    else if (d.text? here).isSome then some .notFolder
    else if d.isFolder here then obstacle? here rest
    else some .absent

/-- The text of the file of a path. -/
def read (path : String) : Except FileProblem String :=
  let p := Place.ofPath path
  match d.obstacle? [] p with
  | some problem => .error problem
  | none =>
    match d.text? p with
    | some text => if Place.namesFolder path then .error .notFolder else .ok text
    | none => if d.isFolder p then .error .isFolder else .error .absent

/-- Is there a file or a folder under a path? -/
def holds (path : String) : Bool :=
  match d.read path with
  | .ok _ | .error .isFolder => true
  | .error _ => false

/-- Writes the file of a path. -/
def write (path text : String) : Except FileProblem Disk :=
  let p := Place.ofPath path
  match d.obstacle? [] p with
  | some problem => .error problem
  | none =>
    if d.isFolder p then .error .isFolder
    else if Place.namesFolder path then
      .error (if (d.text? p).isSome then .notFolder else .isFolder)
    else .ok { d with files := (p, text) :: d.files.filter fun file => file.1 ≠ p }

/-- Makes the folders on the way to a place, from a folder on. -/
def makeFrom (d : Disk) (before : Place) : List String → Except FileProblem Disk
  | [] => .ok d
  | name :: rest =>
    let here := before ++ [name]
    if maxName < name.utf8ByteSize then .error .nameTooLong
    else if (d.text? here).isSome then .error (if rest = [] then .occupied else .notFolder)
    else makeFrom { d with folders := here :: d.folders } here rest

/-- Makes the folder of a path and all folders around it. -/
def makeFolders (path : String) : Except FileProblem Disk :=
  d.makeFrom [] (Place.ofPath path)

/-- The disk with the files of some paths. -/
def ofFiles (files : List (String × String)) : Disk :=
  { files := files.map fun file => (Place.ofPath file.1, file.2) }

end Disk

end Runsheet.CommandLine
