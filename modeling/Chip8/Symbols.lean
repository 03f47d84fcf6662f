/-! Symbol tables: names with addresses, in the order of definition. A name that is set again keeps its
place; an address is called by the last name that has it. -/

namespace Chip8

abbrev Symbols := List (String × Int)

namespace Symbols

def set (name : String) (address : Int) : Symbols → Symbols
  | [] => [(name, address)]
  | entry :: rest =>
    if entry.1 = name then (name, address) :: rest else entry :: set name address rest

def ofPairs (pairs : List (String × Int)) : Symbols :=
  pairs.foldl (fun table p => table.set p.1 p.2) []

def address? (table : Symbols) (name : String) : Option Int := table.lookup name

/-- The last name of an address. -/
def nameAt? (table : Symbols) (address : Int) : Option String :=
  (table.reverse.find? fun entry => entry.2 == address).map (·.1)

end Symbols

end Chip8
