import KeyLayout.Files.Reading

namespace KeyLayout

/-! A tree of files around one working directory.  Unless entries say otherwise, the
directories above it and the root are empty. -/

/-- The parts that lead to a place without detours: down from the working directory, with
the parts for parents only at the front, or down from the root. -/
abbrev Place := List Text

namespace Place

def parentPart : Text := ".."

def root : Place := [[Path.separator]]

def ofRoot : PathRoot → Place
  | .relative => []
  | _ => root

/-- The working directory, or one above it. -/
def isAncestor (place : Place) : Bool :=
  place.all (· = parentPart)

/-- One part further.  The root is its own parent. -/
def step (place : Place) (part : Text) : Place :=
  if part ≠ parentPart then place ++ [part]
  else if place = root then root
  else if place.isAncestor then place ++ [parentPart]
  else place.dropLast

/-- Where a path leads if there is a directory at every step. -/
def ofPath (path : Path) : Place :=
  path.parts.foldl step (ofRoot path.root)

end Place

inductive FileNode where
  | file (bytes : List UInt8)
  | directory
  deriving DecidableEq

/-- Files and directories by their places.  The directories on the way to an entry need
no entries. -/
structure FileTree where
  entries : List (Place × FileNode) := []

namespace FileTree

/-- Names longer than this many bytes are refused, and so are paths. -/
def longestName : Nat := 255

def longestPath : Nat := 4095

/-- The length of a part of a path that can be encoded. -/
def byteLength (part : Text) : Nat :=
  (part.filterMap CodePoint.nameBytes?).flatten.length

def node? (tree : FileTree) (place : Place) : Option FileNode :=
  match tree.entries.lookup place with
  | some node => some node
  | none =>
      if place = Place.root ∨ place.isAncestor ∨
          tree.entries.any (place.isPrefixOf ·.1) then
        some .directory
      else
        none

/-- From one place to another, part by part.  Every place on the way has to be a
directory; at the last one nothing has to be. -/
def walk (tree : FileTree) : Place → List Text → Except FileFault Place
  | place, [] => .ok place
  | place, part :: rest =>
      match tree.node? place with
      | none => .error .missing
      | some (.file _) => .error .notDirectory
      | some .directory =>
          if byteLength part > longestName then .error .longName
          else tree.walk (place.step part) rest

def locate (tree : FileTree) (path : Path) : Except OpenError Place :=
  match path.encode with
  | .error error => .error (.unnamable (.surrogates error))
  | .ok bytes =>
      if bytes.contains 0 then .error (.unnamable .nullByte)
      else if bytes.length > longestPath then .error (.refused .longName path.toText)
      else (tree.walk (Place.ofRoot path.root) path.parts).mapError (.refused · path.toText)

def status (tree : FileTree) (path : Path) : PathStatus :=
  match tree.locate path with
  | .error (.unnamable fault) => .unnamable fault
  | .error (.refused fault _) => .absent fault
  | .ok place =>
      match tree.node? place with
      | none => .absent .missing
      | some (.file bytes) => .file bytes
      | some .directory => .directory

def files (tree : FileTree) : Files Id where
  status := tree.status

/-- The tree with the node at the place, instead of what was there. -/
def put (tree : FileTree) (place : Place) (node : FileNode) : FileTree :=
  ⟨(place, node) :: tree.entries.filter (·.1 ≠ place)⟩

/-- The tree with a directory at every step of the parts where nothing is yet. -/
def makeDirectories (tree : FileTree) : Place → List Text → FileTree
  | _, [] => tree
  | place, part :: rest =>
      let next := place.step part
      let extended := if (tree.node? next).isSome then tree else tree.put next .directory
      extended.makeDirectories next rest

/-- The tree with the node at the path, and with the directories that lead to it. -/
def add (tree : FileTree) (path : Path) (node : FileNode) : FileTree :=
  (tree.makeDirectories (.ofRoot path.root) path.parts.dropLast).put (.ofPath path) node

/-- The tree with a file that is made, or overwritten, in an existing directory. -/
def write (tree : FileTree) (path : Path) (bytes : List UInt8) : Except OpenError FileTree :=
  match tree.locate path with
  | .error error => .error error
  | .ok place =>
      if tree.node? place = some .directory then .error (.refused .isDirectory path.toText)
      else .ok (tree.put place (.file bytes))

end FileTree

end KeyLayout
