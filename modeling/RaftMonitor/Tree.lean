import RaftMonitor.SortedMap
import RaftMonitor.Text

namespace RaftMonitor.LogCabin

inductive Status
  | ok
  | invalidArgument
  | lookupError
  | typeError
  | conditionNotMet
  deriving DecidableEq, Repr

structure Result where
  status : Status
  error : Text
  deriving DecidableEq

def Result.ok : Result := ⟨.ok, []⟩

/-- What `format` prints of a string that it is given by its `c_str`. -/
def cStr (s : Text) : Text := s.takeWhile (· ≠ '\x00')

/-- `Internal::Directory`: two maps from names to children. Of a `File` there is its contents. -/
inductive Directory where
  | mk (directories : List (Text × Directory)) (files : List (Text × Text))

namespace Directory

def new : Directory := mk [] []

def directories : Directory → List (Text × Directory)
  | mk directories _ => directories

def files : Directory → List (Text × Text)
  | mk _ files => files

def getChildren (d : Directory) : List Text :=
  d.directories.map (fun e => e.1 ++ ['/']) ++ d.files.map (·.1)

def lookupDirectory (d : Directory) (name : Text) : Option Directory :=
  SortedMap.find d.directories name

def lookupFile (d : Directory) (name : Text) : Option Text := SortedMap.find d.files name

def putDirectory (d : Directory) (name : Text) (child : Directory) : Directory :=
  mk (SortedMap.insert d.directories name child) d.files

def putFile (d : Directory) (name : Text) (contents : Text) : Directory :=
  mk d.directories (SortedMap.insert d.files name contents)

def makeDirectory (d : Directory) (name : Text) : Option (Directory × Directory) :=
  if (d.lookupFile name).isSome then none
  else
    let child := (d.lookupDirectory name).getD new
    some (d.putDirectory name child, child)

def removeDirectory (d : Directory) (name : Text) : Directory :=
  mk (SortedMap.erase d.directories name) d.files

/-- The directory after the call; the file that is returned is an empty one if it is new. -/
def makeFile (d : Directory) (name : Text) : Option Directory :=
  if (d.lookupDirectory name).isSome then none
  else some (d.putFile name ((d.lookupFile name).getD []))

def removeFile (d : Directory) (name : Text) : Directory :=
  mk d.directories (SortedMap.erase d.files name)

/-- What an assignment through a pointer does to the directory that holds everything: the
pointer is given by the names on the way to the directory it points to. -/
def assign : Directory → List Text → Directory → Directory
  | _, [], e => e
  | d, name :: names, e => match d.lookupDirectory name with
    | some child => d.putDirectory name (child.assign names e)
    | none => d

end Directory

structure Path where
  result : Result
  symbolic : Text
  parents : List Text
  target : Text

/-- One character of the loop that splits a path: the components so far, and `word`. -/
def Path.next (s : List Text × Text) (c : Char) : List Text × Text :=
  if c = '/' then if s.2 ≠ [] then (s.1 ++ [s.2], []) else s
  else (s.1, s.2 ++ [c])

/-- What is left of `word` after the loop is one more component. -/
def Path.finish (s : List Text × Text) : List Text := if s.2 ≠ [] then s.1 ++ [s.2] else s.1

def Path.new (symbolic : Text) : Path :=
  if ¬['/'] <+: symbolic then
    { result := ⟨.invalidArgument, "'".toList ++ cStr symbolic ++ "' is not a valid path".toList⟩
      symbolic := symbolic
      parents := []
      target := [] }
  else
    let parents := Path.finish (symbolic.foldl Path.next (["root".toList], []))
    { result := .ok
      symbolic := symbolic
      parents := parents.dropLast
      target := parents.getLastD [] }

/-- The parents up to and including the one with index `last`, without "root". -/
def Path.parentsThrough (path : Path) (last : ℕ) : Text :=
  let names := (path.parents.take (last + 1)).drop 1
  if names = [] then ['/'] else names.flatMap ('/' :: ·)

def Path.parentMissing (path : Path) (i : ℕ) : Result :=
  ⟨.lookupError, "Parent ".toList ++ cStr (path.parentsThrough i) ++ " of ".toList ++
    cStr path.symbolic ++ " does not exist".toList⟩

def Path.parentIsFile (path : Path) (i : ℕ) : Result :=
  ⟨.typeError, "Parent ".toList ++ cStr (path.parentsThrough i) ++ " of ".toList ++
    cStr path.symbolic ++ " is a file".toList⟩

/-- The errors of the operations that are about the path as a whole. -/
def Path.fails (path : Path) (status : Status) (what : Text) : Result :=
  ⟨status, cStr path.symbolic ++ what⟩

structure Tree where
  superRoot : Directory

namespace Tree

def new : Tree :=
  ⟨match Directory.new.makeDirectory "root".toList with
    | some (superRoot, _) => superRoot
    | none => Directory.new⟩

/-- The loop of `normalLookup`, from the parent with index `i` on. It ends with the directory
that `*parent` points to. -/
def normalLookup (path : Path) : ℕ → Directory → List Text → Except Result Directory
  | _, current, [] => .ok current
  | i, current, name :: names => match current.lookupDirectory name with
    | some next => normalLookup path (i + 1) next names
    | none =>
      if current.lookupFile name = none then .error (path.parentMissing i)
      else .error (path.parentIsFile i)

/-- The loop of `mkdirLookup`, which creates missing directories on its way. The directory it is
given is returned as it is afterwards, with the parent that was found. -/
def mkdirLookup (path : Path) : ℕ → Directory → List Text → Directory × Except Result Directory
  | _, current, [] => (current, .ok current)
  | i, current, name :: names => match current.makeDirectory name with
    | some (current, next) =>
      let r := mkdirLookup path (i + 1) next names
      (current.putDirectory name r.1, r.2)
    | none => (current, .error (path.parentIsFile i))

def makeDirectory (t : Tree) (symbolicPath : Text) : Tree × Result :=
  let path := Path.new symbolicPath
  if path.result.status ≠ .ok then (t, path.result)
  else match mkdirLookup path 0 t.superRoot path.parents with
    | (superRoot, .error result) => (⟨superRoot⟩, result)
    | (superRoot, .ok parent) => match parent.makeDirectory path.target with
      | none => (⟨superRoot⟩, path.fails .typeError " already exists but is a file".toList)
      | some (parent, _) => (⟨superRoot.assign path.parents parent⟩, .ok)

def listDirectory (t : Tree) (symbolicPath : Text) : Result × List Text :=
  let path := Path.new symbolicPath
  if path.result.status ≠ .ok then (path.result, [])
  else match normalLookup path 0 t.superRoot path.parents with
    | .error result => (result, [])
    | .ok parent => match parent.lookupDirectory path.target with
      | some targetDir => (.ok, targetDir.getChildren)
      | none =>
        if parent.lookupFile path.target = none then
          (path.fails .lookupError " does not exist".toList, [])
        else (path.fails .typeError " is a file".toList, [])

def removeDirectory (t : Tree) (symbolicPath : Text) : Tree × Result :=
  let path := Path.new symbolicPath
  if path.result.status ≠ .ok then (t, path.result)
  else match normalLookup path 0 t.superRoot path.parents with
    | .error result => if result.status = .lookupError then (t, .ok) else (t, result)
    | .ok parent => match parent.lookupDirectory path.target with
      | none =>
        if parent.lookupFile path.target = none then (t, .ok)
        else (t, path.fails .typeError " is a file".toList)
      | some _ =>
        let removed := parent.removeDirectory path.target
        -- the parent is `superRoot` itself if the path is that of the root directory
        if path.parents = [] then match removed.makeDirectory path.target with
          | some (parent, _) => (⟨t.superRoot.assign path.parents parent⟩, .ok)
          | none => (⟨t.superRoot.assign path.parents removed⟩, .ok)
        else (⟨t.superRoot.assign path.parents removed⟩, .ok)

def write (t : Tree) (symbolicPath contents : Text) : Tree × Result :=
  let path := Path.new symbolicPath
  if path.result.status ≠ .ok then (t, path.result)
  else match normalLookup path 0 t.superRoot path.parents with
    | .error result => (t, result)
    | .ok parent => match parent.makeFile path.target with
      | none => (t, path.fails .typeError " is a directory".toList)
      | some parent =>
        (⟨t.superRoot.assign path.parents (parent.putFile path.target contents)⟩, .ok)

def read (t : Tree) (symbolicPath : Text) : Result × Text :=
  let path := Path.new symbolicPath
  if path.result.status ≠ .ok then (path.result, [])
  else match normalLookup path 0 t.superRoot path.parents with
    | .error result => (result, [])
    | .ok parent => match parent.lookupFile path.target with
      | some contents => (.ok, contents)
      | none =>
        if (parent.lookupDirectory path.target).isSome then
          (path.fails .typeError " is a directory".toList, [])
        else (path.fails .lookupError " does not exist".toList, [])

def removeFile (t : Tree) (symbolicPath : Text) : Tree × Result :=
  let path := Path.new symbolicPath
  if path.result.status ≠ .ok then (t, path.result)
  else match normalLookup path 0 t.superRoot path.parents with
    | .error result => if result.status = .lookupError then (t, .ok) else (t, result)
    | .ok parent =>
      if (parent.lookupDirectory path.target).isSome then
        (t, path.fails .typeError " is a directory".toList)
      else (⟨t.superRoot.assign path.parents (parent.removeFile path.target)⟩, .ok)

def checkCondition (t : Tree) (path contents : Text) : Result :=
  let (readResult, actualContents) := t.read path
  if readResult.status ≠ .ok then
    ⟨.conditionNotMet, "Could not read value at path '".toList ++ cStr path ++ "': ".toList ++
      cStr readResult.error⟩
  else if contents ≠ actualContents then
    ⟨.conditionNotMet, "Path '".toList ++ cStr path ++ "' has value '".toList ++
      cStr actualContents ++ "', not '".toList ++ cStr contents ++ "' as required".toList⟩
  else .ok

end Tree

structure TreeCondition where
  path : Text
  contents : Text
  deriving DecidableEq

structure ReadWriteTree where
  condition : Option TreeCondition
  makeDirectory : Option Text
  removeDirectory : Option Text
  write : Option (Text × Text)
  removeFile : Option Text
  deriving DecidableEq

structure ReadOnlyTree where
  condition : Option TreeCondition
  listDirectory : Option Text
  read : Option Text
  deriving DecidableEq

structure ReadWriteTree.Response where
  status : Status
  error : Option Text
  deriving DecidableEq

structure ReadOnlyTree.Response where
  status : Status
  error : Option Text
  children : List Text
  contents : Option Text
  deriving DecidableEq

namespace Tree

def condition (t : Tree) : Option TreeCondition → Result
  | some c => t.checkCondition c.path c.contents
  | none => .ok

/-- The error is set unless the status is `OK`. -/
def errorOf (result : Result) : Option Text :=
  if result.status ≠ .ok then some result.error else none

/-- The operations that a request may ask for; `none` is a `PANIC`. -/
def readWriteOp (t : Tree) (request : ReadWriteTree) : Option (Tree × Result) :=
  if let some path := request.makeDirectory then some (t.makeDirectory path)
  else if let some path := request.removeDirectory then some (t.removeDirectory path)
  else if let some (path, contents) := request.write then some (t.write path contents)
  else if let some path := request.removeFile then some (t.removeFile path)
  else none

def readWriteTreeRPC (t : Tree) (request : ReadWriteTree) :
    Option (Tree × ReadWriteTree.Response) :=
  let result := t.condition request.condition
  let done := if result.status ≠ .ok then some (t, result) else t.readWriteOp request
  done.map fun (t, result) => (t, ⟨result.status, errorOf result⟩)

def readOnlyTreeRPC (t : Tree) (request : ReadOnlyTree) : Option ReadOnlyTree.Response :=
  let result := t.condition request.condition
  if result.status ≠ .ok then some ⟨result.status, errorOf result, [], none⟩
  else if let some path := request.listDirectory then
    let (result, children) := t.listDirectory path
    some ⟨result.status, errorOf result, children, none⟩
  else if let some path := request.read then
    let (result, contents) := t.read path
    some ⟨result.status, errorOf result, [], some contents⟩
  else none

/-- A request of either kind, with those parts of its response that do not depend on how the
tree is laid out: the status, and what was read. -/
def serve (t : Tree) : ReadOnlyTree ⊕ ReadWriteTree → Option (Tree × Status × Option Text)
  | .inl request => (t.readOnlyTreeRPC request).map fun r => (t, r.status, r.contents)
  | .inr request => (t.readWriteTreeRPC request).map fun r => (r.1, r.2.status, none)

end Tree

end RaftMonitor.LogCabin
