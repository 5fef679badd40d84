import LambdaArrow.Command.Fault
import LambdaArrow.Table

/-! Files and folders held in memory. A location is the list of names from the top. A path is followed
    name by name, and every name but the first is looked up in a folder that must be there. What is there
    may still be refused: a folder that must not be entered, a file that cannot be read, a disk that takes
    no more bytes. -/

namespace LambdaArrow

/-- The names that lead from the top to a place. -/
abbrev Location := List Text

/-- What is at a place. A sink takes any bytes and holds none. -/
inductive Node where
  | folder
  | file (bytes : ByteArray)
  | sink

/-- What a place may be asked for: to lead on, to give its bytes, or to take new ones. -/
inductive Access where
  | enter
  | read
  | write (bytes : ByteArray)

/-- Files and folders by location, the folder that paths start from, and what is refused, with the reason. -/
structure FileTree where
  nodes : Table Location Node
  home : Location
  refusal? : Access → Location → Option Fault

namespace FileTree

/-- What is at a location. -/
def node? (tree : FileTree) (location : Location) : Option Node := tree.nodes.find? location

/-- Goes on unless the access is refused. -/
def allow (tree : FileTree) (access : Access) (location : Location) : Except Fault Unit :=
  match tree.refusal? access location with
  | none => .ok ()
  | some fault => .error fault

/-- Follows one name from a location, which must be a folder. Above the top is the top. -/
def follow (tree : FileTree) (location : Location) (name : Text) : Except Fault Location :=
  match tree.node? location with
  | none => .error .notFound
  | some (.file _) | some .sink => .error .notFolder
  | some .folder => do
    tree.allow .enter location
    return if Path.isHere name then location
      else if Path.isAbove name then location.dropLast
      else location ++ [name]

/-- Where a path starts. -/
def start (tree : FileTree) (path : Text) : Location :=
  if path.head? = some '/' then [] else tree.home

/-- Where a path leads. -/
def locate (tree : FileTree) (path : Text) : Except Fault Location :=
  (Path.names path).foldlM tree.follow (tree.start path)

/-- The bytes of the file at a path. -/
def read (tree : FileTree) (path : Text) : Except Fault ByteArray := do
  let location ← tree.locate path
  match tree.node? location with
  | none => .error .notFound
  | some node =>
    tree.allow .read location
    match node with
    | .folder => .error .isFolder
    | .file bytes => .ok bytes
    | .sink => .ok ByteArray.empty

/-- Where a file at a path would be. Its folder must be there, and the path must not end like the path of
    a folder. -/
def locateFile (tree : FileTree) (path : Text) : Except Fault Location :=
  match (Path.names path).reverse.dropWhile (· = []) with
  | [] => .error .isFolder
  | name :: above => do
    let folder ← above.reverse.foldlM tree.follow (tree.start path)
    let location ← tree.follow folder name
    if path.getLast? = some '/' then .error .isFolder else .ok location

/-- Puts something at a location. -/
def put (tree : FileTree) (location : Location) (node : Node) : FileTree :=
  { tree with nodes := tree.nodes.insert location node }

/-- Gives the file at a path new bytes; the file need not be there before. -/
def write (tree : FileTree) (path : Text) (bytes : ByteArray) : Except Fault FileTree := do
  let location ← tree.locateFile path
  match tree.node? location with
  | some .folder => .error .isFolder
  | found =>
    tree.allow (.write bytes) location
    match found with
    | some .sink => .ok tree
    | _ => .ok (tree.put location (.file bytes))

/-! ### Setting up a tree and looking at it -/

/-- Makes a folder and every folder above it. -/
def addFolder (tree : FileTree) (location : Location) : FileTree :=
  let above := (List.range (location.length + 1)).map location.take
  above.foldl (fun tree folder => tree.put folder .folder) tree

/-- Makes a sink and every folder above it. -/
def addSink (tree : FileTree) (location : Location) : FileTree :=
  (tree.addFolder location.dropLast).put location .sink

/-- The folders of the programs. -/
def programFolders : List Location := [["bin".toList], ["usr".toList, "bin".toList]]

/-- A tree with the folder that paths start from, the folders of the programs, and the sink. Nothing is
    refused. -/
def bare (home : Location) : FileTree :=
  (programFolders.foldl addFolder (addFolder ⟨Table.empty, home, fun _ _ => none⟩ home)).addSink
    ["dev".toList, "null".toList]

/-- Makes a file, or a folder where the path ends in a slash, and every folder above it. -/
def plant (tree : FileTree) (path : Text) (bytes : ByteArray) : FileTree :=
  let location := tree.home ++ (Path.names path).filter (· ≠ [])
  if path.getLast? = some '/' then tree.addFolder location
  else (tree.addFolder location.dropLast).put location (.file bytes)

/-- The bytes of the file at a location. -/
def fileAt? (tree : FileTree) (location : Location) : Option ByteArray :=
  match tree.node? location with
  | some (.file bytes) => some bytes
  | _ => none

/-- The files in the starting folder that are new or have other bytes than before, by their paths. -/
def changes (before after : FileTree) : List (Text × ByteArray) :=
  after.nodes.keys.filterMap fun location => do
    let bytes ← after.fileAt? location
    let names ← after.home.isPrefixOf? location
    if before.fileAt? location == some bytes then none else some (['/'].intercalate names, bytes)

end FileTree

end LambdaArrow
