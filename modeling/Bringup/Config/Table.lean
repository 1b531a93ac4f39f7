namespace Bringup.Config

/-- A property holds one signed integer, or cells of 32 bits each. -/
inductive Value where
  | int (n : Int32)
  | cells (words : List UInt32)
  deriving DecidableEq, Repr

namespace Value

/-- An integer is a single cell with the same bits. -/
def words : Value → List UInt32
  | int n => [n.toUInt32]
  | cells words => words

def int? : Value → Option Int32
  | int n => some n
  | cells words => words.head?.map UInt32.toInt32

/-- Overwrite the front of `buffer`, as far as both reach, and count the cells written. A lone
integer has no place in an empty buffer, while an array of cells may fill nothing. -/
def copyTo (buffer : List UInt32) (v : Value) : Option Nat × List UInt32 :=
  match v, buffer with
  | int _, [] => (none, buffer)
  | _, _ =>
      let count := min v.words.length buffer.length
      (some count, v.words.take count ++ buffer.drop count)

end Value

structure Property where
  name : String
  value : Value
  deriving DecidableEq, Repr

/-- A node is named by its slash-separated path from the root. -/
structure Node where
  path : String
  properties : List Property
  deriving DecidableEq, Repr

/-- A board description. Among nodes of one path, and among properties of one name, the first
is the one that counts. -/
structure Table where
  nodes : List Node
  deriving DecidableEq, Repr

namespace Table

def empty : Table := ⟨[]⟩

def find? (t : Table) (path name : String) : Option Value := do
  let node ← t.nodes.find? (·.path == path)
  let property ← node.properties.find? (·.name == name)
  return property.value

def int? (t : Table) (path name : String) : Option Int32 :=
  (t.find? path name).bind Value.int?

/-- How many cells went into the caller's buffer, and what it holds afterwards. Where no property
is found the buffer comes back as it was. -/
def fill (t : Table) (path name : String) (buffer : List UInt32) : Option Nat × List UInt32 :=
  match t.find? path name with
  | none => (none, buffer)
  | some v => v.copyTo buffer

/-- A filled buffer and the count of its cells, for callers who have no use for it otherwise. -/
def cells? (t : Table) (path name : String) (buffer : List UInt32) :
    Option (Nat × List UInt32) :=
  let (count, filled) := t.fill path name buffer
  count.map (·, filled)

def hasNode (t : Table) (path : String) : Bool := t.nodes.any (·.path == path)

end Table

end Bringup.Config
