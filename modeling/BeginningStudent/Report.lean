import BeginningStudent.Session

/-!
# Reports

The lines that the run of a program prints: the values of its expressions, and then either the
error that ended it or a summary of its tests.
-/

namespace BeginningStudent

def testSummary (count : Nat) : String :=
  if count = 1 then "The test passed!"
  else if count = 2 then "Both tests passed!"
  else "All " ++ toString count ++ " tests passed!"

namespace Result

/-- The last line of a report, which is missing when there is neither an error nor a test. -/
def closing : Result → List String
  | ⟨_, _, some e⟩ => [e.message]
  | ⟨_, 0, none⟩ => []
  | ⟨_, passed, none⟩ => [testSummary passed]

def lines (r : Result) : List String := r.values.map Value.text ++ r.closing

def isFatal (r : Result) : Bool := r.error.any Error.isFatal

end Result

def run (source : String) (maxDepth : Nat) : Result := ((Session.start maxDepth).step source).2

example : (run "(define (f x) (* x x)) (f 3) (check-expect (f 2) 4)" 10).lines =
    ["9", "The test passed!"] := by decide +kernel
example : (run "1 (/ 1 0) 2" 10).lines = ["1", "/: division by zero"] := by decide +kernel
example : (run "(define (f x) (f x)) (f 1)" 50).lines =
    ["out of memory: the program recursed too deeply"] := by decide +kernel

end BeginningStudent
