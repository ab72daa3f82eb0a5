/-!
# Files and folders

A disk maps places to files and folders. A place is the list of its names from the
top; the top itself is a folder that always exists. Programs write paths instead: a
written path is followed name by name, where a point stays and two points go up, and
whatever is passed on the way has to be a folder. Operations take written paths and
give none where a file system would refuse them.
-/

namespace TypedModel

/-- What lies at a place. -/
inductive DiskNode where
  /-- A folder. -/
  | folder
  /-- A file with its text. -/
  | file (text : String)
  deriving DecidableEq

/-- Names from the top to a file or folder. -/
abbrev DiskPath := List String

namespace DiskPath

/-- Names between the slashes of a text, last one first in `done`. -/
def split (done : List Char) : List Char → List String
  | [] => [String.ofList done.reverse]
  | '/' :: rest => String.ofList done.reverse :: split [] rest
  | c :: rest => split (c :: done) rest

/-- The names of a written path in order; none for one that no file system takes,
for its length or for a null character in it. -/
def ofText? (text : String) : Option (List String) :=
  if text.utf8ByteSize < 4096 && !text.toList.contains '\x00' then some (split [] text.toList)
  else none

/-- Whether a file or folder can bear a name. -/
def isName (name : String) : Bool :=
  name != "" && name != "." && name != ".." && name.utf8ByteSize ≤ 255

/-- A written path with one more name, with one slash between them. A name that
starts at the top stands for itself. -/
def joinText (folder name : String) : String :=
  if folder = "" || name.toList.head? == some '/' then name
  else if folder.toList.getLast? == some '/' then folder ++ name
  else folder ++ "/" ++ name

end DiskPath

/-- Files and folders by place. -/
structure Disk where
  /-- What lies at each place below the top; each place once. -/
  nodes : List (DiskPath × DiskNode)

namespace Disk

/-- A disk with nothing below the top. -/
def empty : Disk := ⟨[]⟩

/-! ## Places -/

/-- What lies at a place. -/
def get? (d : Disk) (place : DiskPath) : Option DiskNode :=
  if place = [] then some .folder else d.nodes.lookup place

/-- Whether a folder lies at a place. -/
def isFolder (d : Disk) (place : DiskPath) : Bool := d.get? place == some .folder

/-- Puts a file or folder at a place. -/
def put (d : Disk) (place : DiskPath) (node : DiskNode) : Disk :=
  ⟨(place, node) :: d.nodes.filter fun n => n.1 != place⟩

/-- Where one name of a written path leads from a place. -/
def step (d : Disk) (place : DiskPath) (name : String) : Option DiskPath :=
  if d.isFolder place then
    match name with
    | "" | "." => some place
    | ".." => some place.dropLast
    | _ => if (d.get? (place ++ [name])).isSome then some (place ++ [name]) else none
  else none

/-- The place of an existing file or folder. -/
def locate (d : Disk) (path : String) : Option DiskPath := do
  (← DiskPath.ofText? path).foldlM d.step []

/-- The place for a file with the given names, counted from a place: its folder
exists, and it is no folder itself. -/
def filePlace (d : Disk) (place : DiskPath) : List String → Option DiskPath
  | [] => none
  | [name] =>
    if d.isFolder place && DiskPath.isName name && !d.isFolder (place ++ [name]) then
      some (place ++ [name])
    else none
  | name :: rest =>
    match d.step place name with
    | some next => d.filePlace next rest
    | none => none

/-! ## Operations -/

/-- Whether a file or folder exists. -/
def contains (d : Disk) (path : String) : Bool := (d.locate path).isSome

/-- Text of a file. -/
def read (d : Disk) (path : String) : Option String :=
  match (d.locate path).bind d.get? with
  | some (.file text) => some text
  | _ => none

/-- Writes a file into an existing folder. -/
def write (d : Disk) (path : String) (text : String) : Option Disk := do
  let place ← d.filePlace [] (← DiskPath.ofText? path)
  some (d.put place (.file text))

/-- The folder that given names lead to from a folder, those missing being made,
and whether it is there in the end. -/
def makeFoldersFrom (d : Disk) (place : DiskPath) : List String → Disk × Bool
  | [] => (d, d.isFolder place)
  | name :: rest =>
    match d.step place name with
    | some next => d.makeFoldersFrom next rest
    | none =>
      if d.isFolder place && DiskPath.isName name then
        (d.put (place ++ [name]) .folder).makeFoldersFrom (place ++ [name]) rest
      else (d, false)

/-- Makes a folder with all folders on the way, and tells whether it is there in the
end. Where a file is in the way, the folders before it stay. -/
def makeFolders (d : Disk) (path : String) : Disk × Bool :=
  match DiskPath.ofText? path with
  | some names => d.makeFoldersFrom [] names
  | none => (d, false)

/-- Removes a file, or a folder with all that lies below it. -/
def remove (d : Disk) (path : String) : Option Disk :=
  (d.locate path).map fun place => ⟨d.nodes.filter fun n => !place.isPrefixOf n.1⟩

/-- Name of a place that lies directly in a folder. -/
def childName? (folder place : DiskPath) : Option String :=
  if place.dropLast = folder then place.getLast? else none

/-- Names of what lies directly in a folder. -/
def names (d : Disk) (path : String) : Option (List String) :=
  match d.locate path with
  | some folder =>
    if d.isFolder folder then some (d.nodes.filterMap fun n => childName? folder n.1) else none
  | none => none

end Disk

end TypedModel
