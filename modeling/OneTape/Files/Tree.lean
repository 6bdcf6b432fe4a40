import OneTape.Files.Access

namespace OneTape.Files

inductive Tree where
  | file (content : ByteArray)
  | directory (entries : List (String × Tree))

namespace Tree

def empty : Tree := directory []

def isDirectory : Tree → Bool
  | directory _ => true
  | file _ => false

def entries : Tree → List (String × Tree)
  | directory es => es
  | file _ => []

def names (path : String) : List String := path.splitOn "/"

/-- A directory that is there already is kept when an empty one is to be placed. -/
def placeAt (new : Tree) : List String → Tree → Tree
  | [], old => if new.isDirectory && new.entries.isEmpty && old.isDirectory then old else new
  | name :: rest, old =>
    let placed := placeAt new rest ((old.entries.lookup name).getD empty)
    directory ((old.entries.filter (·.1 != name)) ++ [(name, placed)])

def resolve (names : List String) : List String :=
  names.foldl (fun path name =>
    if name = "" ∨ name = "." then path
    else if name = ".." then path.dropLast
    else path ++ [name]) []

/-- The directories that the path leaves again are made too. -/
def place (root : Tree) (path : String) (new : Tree) : Tree :=
  let names := names path
  let visited := (List.range names.length).map fun n => resolve (names.take n)
  placeAt new (resolve names) (visited.foldl (fun tree path => placeAt empty path tree) root)

def follow : List Tree → List String → Except Fault Tree
  | [], _ => .error .notFound
  | t :: _, [] => .ok t
  | t :: parents, name :: rest =>
    match t with
    | file _ => .error .notDirectory
    | directory es =>
      if name = "" ∨ name = "." then follow (t :: parents) rest
      else if name = ".." then follow (if parents.isEmpty then [t] else parents) rest
      else match es.lookup name with
        | none => .error .notFound
        | some u => follow (u :: t :: parents) rest

def find (root : Tree) (path : String) : Except Fault Tree :=
  if path = "" then .error .notFound
  else if path.startsWith "/" then follow [empty] (names path)
  else follow [root, empty] (names path)

def access (root : Tree) : Access where
  read path := do
    match ← root.find path with
    | file content => return content
    | directory _ => throw .isDirectory
  list path := do
    match ← root.find path with
    | file _ => throw .notDirectory
    | directory es => return es.map fun (name, t) => .ok ⟨name, t.isDirectory⟩

end Tree

end OneTape.Files
