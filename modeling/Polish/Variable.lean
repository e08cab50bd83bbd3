/-!
The three variables of an expression, and the points that give them values.
-/

namespace Polish

inductive Variable where | x | y | z
  deriving DecidableEq

namespace Variable

def name : Variable → String
  | x => "x"
  | y => "y"
  | z => "z"

/-- The variable of a name: the three names are all there are, in lower case. -/
def ofName? (text : String) : Option Variable := [x, y, z].find? fun v => v.name = text

theorem ofName?_eq_some {text : String} {v : Variable} : ofName? text = some v ↔ text = v.name := by
  constructor
  · intro h
    have hn := List.find?_some (p := fun v : Variable => decide (v.name = text)) h
    exact (of_decide_eq_true hn).symm
  · rintro rfl
    cases v <;> decide

end Variable

/-- A value for each variable. -/
structure Point where
  x : Float
  y : Float
  z : Float

/-- The coordinate that belongs to a variable. -/
def Point.value (p : Point) : Variable → Float
  | .x => p.x
  | .y => p.y
  | .z => p.z

end Polish
