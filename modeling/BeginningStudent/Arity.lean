/-!
# Arities

How many arguments a callable takes, and the wording of a wrong number of them.
-/

namespace BeginningStudent

inductive Arity where
  | exactly (n : Nat)
  | atLeast (n : Nat)
deriving DecidableEq, Repr

def plural (n : Nat) (noun : String) : String :=
  if n = 1 then toString n ++ " " ++ noun else toString n ++ " " ++ noun ++ "s"

namespace Arity

def accepts : Arity → Nat → Bool
  | .exactly n, found => found == n
  | .atLeast n, found => n ≤ found

def fewText (found : Nat) : String := if found = 0 then "none" else "only " ++ toString found

def message (name : String) (arity : Arity) (found : Nat) : String :=
  name ++ ": expects " ++ match arity with
    | .exactly n =>
      if n = 0 then "no arguments, but found " ++ plural found "argument"
      else if found < n then plural n "argument" ++ ", but found " ++ fewText found
      else "only " ++ plural n "argument" ++ ", but found " ++ toString found
    | .atLeast n => "at least " ++ plural n "argument" ++ ", but found " ++ fewText found

example : message "f" (.exactly 0) 1 = "f: expects no arguments, but found 1 argument" := by
  decide +kernel
example : message "+" (.atLeast 2) 1 = "+: expects at least 2 arguments, but found only 1" := by
  decide +kernel

end Arity
end BeginningStudent
