import CompassAdapters.Ruby.Hash
import CompassAdapters.Ruby.Text

/-! `parse.rb`: what the command line tools print as a table is read back as hashes. -/
namespace CompassAdapters.Openstack
open Ruby

/-- A row by its columns. A key or a value may be `nil`. -/
abbrev Row := Hash (Option String) (Option String)

/-- `obj[key]`. -/
def value (obj : Row) (key : Option String) : Option String := (obj.get? key).join

/-- `line.split('|').map { |x| x.strip }` without the first one. -/
def columns (line : List Char) : List String :=
  ((Text.split '|' line).map fun x => String.ofList (Text.strip x)).tail

/-- Each value goes to the index that the size of the hash stands for. -/
def newobj (indicies cols : List String) : Row :=
  cols.foldl (fun obj val => obj.store indicies[obj.entries.length]? (some val)) Hash.empty

/-- The body of the loop over the lines, with `indicies` and `ret`. -/
def readLine (st : List String × List Row) (line : List Char) : List String × List Row :=
  if ['+', '-', '-'].isPrefixOf line || line.isEmpty then st
  else
    let cols := columns line
    if st.1 = [] then (cols, st.2) else (st.1, st.2 ++ [newobj st.1 cols])

/-- A table of properties is one hash. -/
def flatten (indicies : List String) (ret : List Row) : List Row :=
  if indicies = ["Property", "Value"] then
    [ret.foldl (fun obj x => obj.store (value x (some "Property")) (value x (some "Value")))
      Hash.empty]
  else ret

/-- `split(/$/)` cuts before the end of a line, and `strip` takes that end away. -/
def prettytableToArray : Option String → List Row
  | none => []
  | some table =>
    let st := ((table.toList.splitOn '\n').map Text.strip).foldl readLine ([], [])
    flatten st.1 st.2

end CompassAdapters.Openstack
