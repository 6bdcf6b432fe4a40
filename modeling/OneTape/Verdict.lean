import OneTape.Execution

namespace OneTape

inductive Verdict where
  | accepted
  | rejected
deriving DecidableEq, Repr

namespace Verdict

def ofBool (b : Bool) : Verdict := if b then accepted else rejected

def isAccepted (v : Verdict) : Bool := v == accepted

def word : Verdict → String
  | accepted => "Accepted"
  | rejected => "Rejected"

def text : Verdict → String
  | accepted => "ACCEPTED"
  | rejected => "REJECTED"

end Verdict

namespace Machine

def verdict (m : Machine) (r : Report) : Verdict := .ofBool (m.isAcceptingId r.finalStateId)

def judge (m : Machine) (row : List Symbol) (fuel : Nat) : Option (Report × Verdict) :=
  (m.run row fuel).map fun r => (r, m.verdict r)

end Machine

end OneTape
