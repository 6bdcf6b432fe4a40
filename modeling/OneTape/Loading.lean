import OneTape.Catalog
import OneTape.Execution
import OneTape.Files.Access

namespace OneTape

inductive Failure where
  | description (error : Description.Error)
  | execution (error : StepLimitExceeded)
  | unreadableFile (path : String) (fault : Files.Fault)
  | unreadableDirectory (path : String) (fault : Files.Fault)
  | unreadableEntry (fault : Files.Fault)
  | unknownMachine (name : String)
deriving DecidableEq, Repr

namespace Failure

def message : Failure → String
  | description e => "Description parsing error: " ++ e.message
  | execution e => "Execution error: " ++ e.message
  | unreadableFile path fault =>
    "File error: Failed to read file " ++ path ++ ": " ++ fault.message
  | unreadableDirectory path fault =>
    "File error: Failed to read directory " ++ path ++ ": " ++ fault.message
  | unreadableEntry fault => "File error: Failed to read directory entry: " ++ fault.message
  | unknownMachine name => "Unknown built-in machine: " ++ name

def causes : Failure → List String
  | description e => [e.message]
  | execution e => [e.message]
  | _ => []

end Failure

namespace Machine

def load (text : String) : Except Failure Machine :=
  match ofText text with
  | .error e => .error (.description e)
  | .ok m => .ok m

def loadFile (files : Files.Access) (path : String) : Except Failure Machine :=
  match files.readText path with
  | .error fault => .error (.unreadableFile path fault)
  | .ok text => load text

def builtin (name : String) : Except Failure Machine :=
  match Catalog.machine? name with
  | none => .error (.unknownMachine name)
  | some m => .ok m

def fileExtension : String := "tm"

def isDescription (e : Files.Entry) : Bool :=
  !e.isDirectory && Files.extension? e.name == some fileExtension

def loadEntry (files : Files.Access) (directory : String) :
    Except Files.Fault Files.Entry → Option (Except Failure (String × Machine))
  | .error fault => some (.error (.unreadableEntry fault))
  | .ok e =>
    if isDescription e then
      let path := Files.join directory e.name
      some ((loadFile files path).map (path, ·))
    else none

/-- The machines of a directory in the order of their paths, and behind them the failures. -/
def loadDirectory (files : Files.Access) (directory : String) :
    List (Except Failure (String × Machine)) :=
  match files.list directory with
  | .error fault => [.error (.unreadableDirectory directory fault)]
  | .ok entries =>
    let results := entries.filterMap (loadEntry files directory)
    let loaded := results.filterMap fun | .ok r => some r | .error _ => none
    let failures := results.filterMap fun | .ok _ => none | .error e => some e
    (loaded.mergeSort (·.1 ≤ ·.1)).map .ok ++ failures.map .error

end Machine

end OneTape
