import OneTape.Description.Draft

namespace OneTape.Catalog

def onesZerosOne : String :=
  "A, B, C, D, E, F, G\n" ++
  "init A\n" ++
  "accept C, F\n" ++
  "A:\n" ++
  "\t1, 1, >, B\n" ++
  "B:\n" ++
  "\t1, 1, >, C\n" ++
  "\t0, 0, >, D\n" ++
  "C:\n" ++
  "\t0, 0, >, D\n" ++
  "\t1, 1, >, G\n" ++
  "D:\n" ++
  "\t0, 0, >, D\n" ++
  "\t1, 1, >, E\n" ++
  "E:\n" ++
  "\t_, _, S, F\n" ++
  "G:\n" ++
  "\t0, 0, >, D\n" ++
  "\t1, 1, >, G\n" ++
  "\t_, _, S, F\n"

def evenOnes : String :=
  "even, odd\n" ++
  "init even\n" ++
  "accept even\n" ++
  "even:\n" ++
  "\t0, 0, >, even\n" ++
  "\t1, 1, >, odd\n" ++
  "odd:\n" ++
  "\t0, 0, >, odd\n" ++
  "\t1, 1, >, even\n"

def binaryIncrement : String :=
  "right, carry, done\n" ++
  "init right\n" ++
  "accept done\n" ++
  "right:\n" ++
  "\t0, 0, >, right\n" ++
  "\t1, 1, >, right\n" ++
  "\t_, _, <, carry\n" ++
  "carry:\n" ++
  "\t1, 0, <, carry\n" ++
  "\t0, 1, S, done\n" ++
  "\t_, 1, S, done\n"

def busyBeaver2 : String :=
  "A, B, H\n" ++
  "init A\n" ++
  "accept H\n" ++
  "A:\n" ++
  "\t_, 1, >, B\n" ++
  "\t1, 1, <, B\n" ++
  "B:\n" ++
  "\t_, 1, <, A\n" ++
  "\t1, 1, >, H\n"

def descriptions : List (String × String) :=
  [("ones-zeros-one", onesZerosOne),
    ("even-ones", evenOnes),
    ("binary-increment", binaryIncrement),
    ("busy-beaver-2", busyBeaver2)]

def machines : List (String × Machine) :=
  descriptions.filterMap fun (name, text) => (Machine.ofText text).toOption.map (name, ·)

def names : List String := machines.map Prod.fst

def source? (name : String) : Option String := descriptions.lookup name

def machine? (name : String) : Option Machine := machines.lookup name

structure Summary where
  name : String
  initial : String
  stateCount : Nat
  ruleCount : Nat
  accepting : List String
deriving DecidableEq, Repr

def summarize (name : String) (m : Machine) : Summary where
  name := name
  initial := m.initialName
  stateCount := m.states.size
  ruleCount := m.states.foldl (fun n q => n + q.rules.size) 0
  accepting := m.acceptingStates.map State.name

def summary? (name : String) : Option Summary := (machine? name).map (summarize name)

end OneTape.Catalog
