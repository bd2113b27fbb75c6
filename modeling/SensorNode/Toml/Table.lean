/-
TOML values and the tables of a document under construction. A table remembers how it came to be, because that decides
who may still add to it: a header completes a table that was only implied, dotted keys extend a table made by dotted
keys, and an inline table is closed.
-/
namespace SensorNode.Toml

/-- how a table came to be -/
inductive Origin
  /-- named by a header -/
  | header
  /-- on the way to a table named by a header -/
  | implied
  /-- by a dotted key -/
  | dotted
  /-- written in braces -/
  | inline
  deriving DecidableEq, Repr

inductive Item
  | string (s : String)
  | integer (n : Int)
  | float (x : Float)
  | boolean (b : Bool)
  /-- a date, a time or both; which one does not matter here -/
  | datetime
  | array (items : List Item)
  | table (origin : Origin) (entries : List (String × Item))
  /-- the tables of a repeated header, the entries of each -/
  | tables (elements : List (List (String × Item)))
  deriving Inhabited

abbrev Entries := List (String × Item)

namespace Entries

def find? (entries : Entries) (key : String) : Option Item :=
  (List.find? (fun e => e.1 = key) entries).map Prod.snd

/-- puts `item` under `key`, in the old place if there is one -/
def set (entries : Entries) (key : String) (item : Item) : Entries :=
  if entries.any fun e => e.1 = key then entries.map fun e => if e.1 = key then (key, item) else e
  else entries ++ [(key, item)]

/-- A change at the end of a path of keys. Missing tables on the way are made, as dotted ones for a dotted key and as
implied ones for a header; a dotted key does not enter a table that a header has named, nothing enters an inline table,
and a repeated table is entered at its last element, by a dotted key too. -/
def update (dotted : Bool) (change : Origin → Entries → Option Entries) :
    List String → Origin → Entries → Option Entries
  | [], origin, entries => change origin entries
  | key :: path, _, entries =>
    match find? entries key with
    | none => do
      let origin := if dotted then Origin.dotted else Origin.implied
      let inner ← update dotted change path origin []
      return set entries key (.table origin inner)
    | some (.table origin inner) =>
      if origin = .inline ∨ (dotted ∧ origin = .header) then none
      else do
        let inner ← update dotted change path origin inner
        return set entries key (.table origin inner)
    | some (.tables elements) =>
      match elements.getLast? with
      | none => none
      | some last => do
        let last ← update dotted change path .header last
        return set entries key (.tables (elements.dropLast ++ [last]))
    | some _ => none

/-- adds a key that is not there yet -/
def add (key : String) (item : Item) (entries : Entries) : Option Entries :=
  match find? entries key with
  | none => some (entries ++ [(key, item)])
  | some _ => none

/-- adds a value under a dotted key: the table it stands in must have been made by dotted keys -/
def addDotted (path : List String) (key : String) (item : Item) (entries : Entries) : Option Entries :=
  update true (fun origin inner => if path ≠ [] ∧ origin ≠ .dotted then none else add key item inner) path .header
    entries

/-- opens the table of a header: a new one, or one that was only implied -/
def openTable (path : List String) (key : String) (root : Entries) : Option Entries :=
  update false (fun _ parent =>
    match find? parent key with
    | none => some (set parent key (.table .header []))
    | some (.table .implied inner) => some (set parent key (.table .header inner))
    | some _ => none) path .header root

/-- opens one more table of a repeated header -/
def openElement (path : List String) (key : String) (root : Entries) : Option Entries :=
  update false (fun _ parent =>
    match find? parent key with
    | none => some (set parent key (.tables [[]]))
    | some (.tables elements) => some (set parent key (.tables (elements ++ [[]])))
    | some _ => none) path .header root

end Entries

end SensorNode.Toml
