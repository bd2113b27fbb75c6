/-
TOML documents: values, key/value lines and headers, put together into the table of the whole text.
-/
import SensorNode.Toml.Lexeme

namespace SensorNode.Toml

mutual

/-- a value that may nest `depth` deeper; every step into it costs one unit of `fuel` -/
def value (depth : Nat) : Nat → Read Item
  | 0, _ => none
  | fuel + 1, cs =>
    match cs with
    | [] => none
    | '[' :: rest =>
      match depth with
      | 0 => none
      | depth + 1 => (arrayItems depth fuel rest).map fun r => (.array r.1, r.2)
    | '{' :: rest =>
      match depth with
      | 0 => none
      | depth + 1 =>
        match skipSpace rest with
        | '}' :: rest => some (.table .inline [], rest)
        | rest => (inlineEntries depth fuel [] rest).map fun r => (.table .inline r.1, r.2)
    | 't' :: 'r' :: 'u' :: 'e' :: rest => some (.boolean true, rest)
    | 'f' :: 'a' :: 'l' :: 's' :: 'e' :: rest => some (.boolean false, rest)
    | c :: _ =>
      if c = '"' ∨ c = '\'' then (string? cs).map fun r => (.string r.1, r.2)
      else
        match datetime? cs with
        | none => none
        | some (some rest) => some (.datetime, rest)
        | some none =>
          match float? cs with
          | none => none
          | some (some r) => some r
          | some none => integer? cs

/-- the items of an array behind its bracket; a comma may follow the last -/
def arrayItems (depth : Nat) : Nat → Read (List Item)
  | 0, _ => none
  | fuel + 1, cs =>
    match skipLines cs.length cs with
    | ']' :: rest => some ([], rest)
    | cs =>
      match value depth fuel cs with
      | none => none
      | some (v, rest) =>
        match skipLines rest.length rest with
        | ',' :: rest => (arrayItems depth fuel rest).map fun r => (v :: r.1, r.2)
        | ']' :: rest => some ([v], rest)
        | _ => none

/-- the entries of an inline table behind its brace, at least one; no comma follows the last -/
def inlineEntries (depth : Nat) : Nat → Entries → Read Entries
  | 0, _, _ => none
  | fuel + 1, entries, cs =>
    match key? cs with
    | some ((path, key), '=' :: rest) =>
      match value depth fuel (skipSpace rest) with
      | none => none
      | some (v, rest) =>
        match Entries.addDotted path key v entries with
        | none => none
        | some entries =>
          match skipSpace rest with
          | ',' :: rest => inlineEntries depth fuel entries rest
          | '}' :: rest => some (entries, rest)
          | _ => none
    | _ => none

end

/-- a document so far: its table, and the header that lines belong to -/
structure Draft where
  root : Entries
  header : Option (List String × String)

/-- the line `path.key = item` under the present header -/
def Draft.put (d : Draft) (path : List String) (key : String) (item : Item) : Option Draft :=
  let change := Entries.addDotted path key item
  match d.header with
  | none => (change d.root).map fun root => { d with root }
  | some (above, name) =>
    (Entries.update false (fun _ entries => change entries) (above ++ [name]) .header d.root).map
      fun root => { d with root }

/-- one line, and the text behind it -/
def Draft.line (d : Draft) (cs : List Char) : Option (Draft × List Char) :=
  match skipSpace cs with
  | '[' :: '[' :: rest =>
    match key? rest with
    | some ((path, key), ']' :: ']' :: rest) => do
      let rest ← endOfLine? rest
      let root ← Entries.openElement path key d.root
      return (⟨root, some (path, key)⟩, rest)
    | _ => none
  | '[' :: rest =>
    match key? rest with
    | some ((path, key), ']' :: rest) => do
      let rest ← endOfLine? rest
      let root ← Entries.openTable path key d.root
      return (⟨root, some (path, key)⟩, rest)
    | _ => none
  | cs =>
    match key? cs with
    | some ((path, key), '=' :: rest) => do
      let (item, rest) ← value (depthLimit - 1) (2 * rest.length + 2) (skipSpace rest)
      let rest ← endOfLine? rest
      let d ← d.put path key item
      return (d, rest)
    | _ => none

/-- all lines; each takes at least one character -/
def Draft.lines : Nat → Draft → List Char → Option Entries
  | 0, _, _ => none
  | fuel + 1, d, cs =>
    match skipLines cs.length cs with
    | [] => some d.root
    | cs =>
      match d.line cs with
      | some (d, rest) => Draft.lines fuel d rest
      | none => none

/-- the entries of a whole text; a byte order mark in front is skipped -/
def parse? (text : String) : Option Entries :=
  let cs := match text.toList with
    | '\ufeff' :: rest => rest
    | cs => cs
  Draft.lines (cs.length + 1) ⟨[], none⟩ cs

end SensorNode.Toml
