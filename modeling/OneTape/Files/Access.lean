
namespace OneTape.Files

inductive Fault where
  | notFound
  | notDirectory
  | isDirectory
  | invalidText
  | other (text : String)
deriving DecidableEq, Repr

def Fault.message : Fault → String
  | notFound => "No such file or directory (os error 2)"
  | notDirectory => "Not a directory (os error 20)"
  | isDirectory => "Is a directory (os error 21)"
  | invalidText => "stream did not contain valid UTF-8"
  | other text => text

structure Entry where
  name : String
  isDirectory : Bool
deriving DecidableEq, Repr

structure Access where
  read : String → Except Fault ByteArray
  list : String → Except Fault (List (Except Fault Entry))

def Access.readText (files : Access) (path : String) : Except Fault String :=
  match files.read path with
  | .error fault => .error fault
  | .ok bytes =>
    match String.fromUTF8? bytes with
    | none => .error .invalidText
    | some text => .ok text

def join (directory name : String) : String :=
  if directory.endsWith "/" then directory ++ name else directory ++ "/" ++ name

/-- What follows the last dot of a file name, none if there is no dot but the first character. -/
def extension? (name : String) : Option String :=
  let reversed := name.toList.reverse
  let tail := reversed.takeWhile (· ≠ '.')
  if tail.length + 1 < reversed.length then some (String.ofList tail.reverse) else none

end OneTape.Files
