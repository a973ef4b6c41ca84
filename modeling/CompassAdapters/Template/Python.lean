import Mathlib.Data.Int.Notation
import Mathlib.Data.Nat.Notation

/-! The operations of Python 2 on strings that templates use. -/
namespace Python

def isSpace (c : Char) : Bool :=
  c == ' ' || c == '\t' || c == '\n' || c == '\r' || c == Char.ofNat 11 || c == Char.ofNat 12

/-- `s.strip()`. -/
def strip (s : String) : String :=
  String.ofList ((s.toList.dropWhile isSpace).reverse.dropWhile isSpace).reverse

/-- `s.split(c)`. -/
def split (c : Char) (s : String) : List String := (s.toList.splitOnP (· == c)).map String.ofList

/-- `a, b = s.split(c, 1)`, an error without the character. -/
def splitOnce (c : Char) (s : String) : Option (String × String) :=
  match s.toList.dropWhile (· != c) with
  | [] => none
  | _ :: rest => some (String.ofList (s.toList.takeWhile (· != c)), String.ofList rest)

/-- `s[:-1]`. -/
def dropLast (s : String) : String := String.ofList s.toList.dropLast

/-- `s.endswith(c)`. -/
def endsWith (s : String) (c : Char) : Bool := s.toList.getLast? == some c

def digits (ds : List Char) : Option ℕ :=
  if ds.isEmpty then none
  else if ds.all Char.isDigit then some (Nat.ofDigitChars 10 ds 0)
  else none

/-- `int(s)`. -/
def int (s : String) : Option ℤ :=
  match (strip s).toList with
  | '-' :: ds => (digits ds).map fun n => -(n : ℤ)
  | '+' :: ds => (digits ds).map fun n => (n : ℤ)
  | ds => (digits ds).map fun n => (n : ℤ)

end Python
