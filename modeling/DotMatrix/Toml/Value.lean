/-!
# TOML values

A table remembers where it came from, because that decides whether it may still be extended. Of a
float or a date only the kind is kept, as no setting reads more of one.
-/

namespace DotMatrix.Toml

inductive Origin where
  /-- The root, or a table with a header of its own. -/
  | header
  /-- Made on the way to another header. -/
  | parent
  /-- Made by a dotted key. -/
  | dotted
  /-- Written in braces, and complete where it was written. -/
  | inline
deriving DecidableEq

inductive Value where
  | string (s : String)
  | integer (n : Int)
  | float
  | boolean (b : Bool)
  | date
  | array (items : List Value)
  | table (origin : Origin) (entries : List (String × Value))
  /-- The tables that the headers in double brackets made, in order. -/
  | tables (elements : List (List (String × Value)))

abbrev Entries := List (String × Value)

namespace Entries

def get? (t : Entries) (key : String) : Option Value :=
  match t with
  | [] => none
  | (k, v) :: rest => if k = key then some v else get? rest key

/-- The value takes the place of the one with its key, or comes last. -/
def put (t : Entries) (key : String) (v : Value) : Entries :=
  match t with
  | [] => [(key, v)]
  | (k, w) :: rest => if k = key then (k, v) :: rest else (k, w) :: put rest key v

end Entries
end DotMatrix.Toml
