import DotMatrix.Toml.Value

/-!
# Building tables

Keys with dots and headers lead through tables, which are made where they are missing. A table with
a header of its own, or one in braces, is complete: no dotted key leads into it. A key is written
once.
-/

namespace DotMatrix.Toml

/-- What a path may lead through, and as what missing tables are made. -/
structure Route where
  made : Origin
  enters : Origin → Bool

def Route.dottedKey : Route :=
  ⟨.dotted, fun o => o == .parent || o == .dotted⟩

def Route.toHeader : Route :=
  ⟨.parent, fun o => o != .inline⟩

/-- Changes the table at the end of a path. A list of tables stands for its last one. -/
def alter (route : Route) (f : Origin → Entries → Option Entries) (origin : Origin)
    (t : Entries) : List String → Option Entries
  | [] => f origin t
  | key :: path =>
    match t.get? key with
    | none => (alter route f route.made [] path).map fun s => t.put key (.table route.made s)
    | some (.table o s) =>
      if route.enters o then
        (alter route f o s path).map fun s => t.put key (.table o s)
      else none
    | some (.tables ss) =>
      (alter route f .header (ss.getLastD []) path).map fun s =>
        t.put key (.tables (ss.dropLast ++ [s]))
    | some _ => none

def insertNew (t : Entries) (key : String) (v : Value) : Option Entries :=
  match t.get? key with
  | none => some (t.put key v)
  | some _ => none

/-- A line `path.key = v`. Behind dots the table has to be one that dotted keys made. -/
structure Pair where
  path : List String
  key : String
  value : Value

def insertPair (t : Entries) (p : Pair) : Option Entries :=
  let place := fun origin s =>
    if !p.path.isEmpty && origin != .dotted then none else insertNew s p.key p.value
  alter Route.dottedKey place .header t p.path

def insertPairs (t : Entries) (ps : List Pair) : Option Entries :=
  ps.foldlM insertPair t

def inlineTable? (ps : List Pair) : Option Value :=
  (insertPairs [] ps).map (.table .inline)

/-- A header and the pairs below it. -/
structure Section where
  /-- The header stands in double brackets. -/
  repeated : Bool
  path : List String
  key : String
  pairs : List Pair

/-- A header takes over a table that was made on the way to another one. -/
def defineTable (ps : List Pair) (key : String) (t : Entries) : Option Entries :=
  match t.get? key with
  | none => (insertPairs [] ps).map fun s => t.put key (.table .header s)
  | some (.table .parent s) => (insertPairs s ps).map fun s => t.put key (.table .header s)
  | some _ => none

def appendTable (ps : List Pair) (key : String) (t : Entries) : Option Entries :=
  match t.get? key with
  | none => (insertPairs [] ps).map fun s => t.put key (.tables [s])
  | some (.tables ss) => (insertPairs [] ps).map fun s => t.put key (.tables (ss ++ [s]))
  | some _ => none

def insertSection (t : Entries) (s : Section) : Option Entries :=
  let place := if s.repeated then appendTable s.pairs s.key else defineTable s.pairs s.key
  alter Route.toHeader (fun _ => place) .header t s.path

def build? (pairs : List Pair) (sections : List Section) : Option Entries :=
  (insertPairs [] pairs).bind fun t => sections.foldlM insertSection t

end DotMatrix.Toml
