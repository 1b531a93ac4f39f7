import Bringup.Config.Table

namespace Bringup.Rail

/-- The node above all rails. -/
def node : String := "voltage-regulators"

structure Settings where
  voltage : Option Int32
  enable : Option Int32
  mode : Option Int32
  deriving DecidableEq, Repr

/-- Longest path of a rail's node, in bytes of UTF-8. -/
def pathCapacity : Nat := 40

def path? (name : String) : Option String :=
  let path := node ++ "/" ++ name
  if path.utf8ByteSize ≤ pathCapacity then some path else none

/-- Settings of the rail called `name`, if it has a node. -/
def Settings.ofTable? (t : Config.Table) (name : String) : Option Settings := do
  let path ← path? name
  guard (t.hasNode path)
  return {
    voltage := t.int? path "axp228,vol"
    enable := t.int? path "axp228,on"
    mode := t.int? path "axp228,work_mode" }

end Bringup.Rail
