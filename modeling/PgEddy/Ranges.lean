import PgEddy.Arithmetic

/-!
# The function `range`

`range(start, end, step)` counts in machine integers, and takes its step before it looks whether the end is passed.
-/

namespace PgEddy

variable {ch : Chrono} (build : Build)

/-- The condition of the loop. -/
def inRange (e st cur : Int64) : Bool := (0 < st && cur ≤ e) || (st < 0 && e ≤ cur)

/-- The loop, for a number of rounds. Without an answer it goes on. -/
def rangeLoop (e st : Int64) : Nat → Int64 → List Json → Option (Exec (List Json))
  | fuel, cur, result =>
    if inRange e st cur then
      match fuel with
      | 0 => none
      | fuel + 1 =>
        match build.int (cur.toInt + st.toInt) with
        | .ok next => rangeLoop e st fuel next (result ++ [Value.jsonInt cur])
        | .error f => some (.error f)
    else some (.ok result)

/-- The arguments: the start, the end, and a step that is one if it is left out. -/
def rangeArgs (args : List (Exec (Value ch))) : Exec (Value ch × Value ch × Value ch) :=
  match args with
  | [s, e] => do return (← s, ← e, .int 1)
  | [s, e, st] => do return (← s, ← e, ← st)
  | _ => .error (.error "range() takes 2 or 3 arguments")

/-- The function on its arguments, for a number of rounds of the loop. -/
def range (fuel : Nat) (args : List (Exec (Value ch))) : Option (Exec (Value ch)) :=
  match rangeArgs args with
  | .error f => some (.error f)
  | .ok (start, end_, step) =>
    match start, end_, step with
    | .int s, .int e, .int st =>
      if st = 0 then some (.error (.error "range() step cannot be 0"))
      else (rangeLoop build e st fuel s []).map fun result => do return .json (.array (← result))
    | .null, _, _ => some (.ok .null)
    | _, .null, _ => some (.ok .null)
    | _, _, .null => some (.ok .null)
    | start, end_, step =>
      some (.error (.error ("TypeError: expected Integer arguments for range(), got (" ++ start.valueTypeName ++ ", " ++
        end_.valueTypeName ++ ", " ++ step.valueTypeName ++ ")")))

end PgEddy
