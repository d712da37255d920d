import WordAssembler.Decimal.Shortest
import WordAssembler.Text.Quoted

namespace WordAssembler

/-- A structured value. Integers are exact and apart from the numbers written
with a point or an exponent. An object keeps its members in order. -/
inductive Json
  | null
  | bool (value : Bool)
  | int (value : Int)
  | float (value : Binary64)
  | text (value : Text)
  | list (items : List Json)
  | object (members : List (Text × Json))

namespace Json

/-- The kind of a value, as messages name it. -/
def kindName : Json → String
  | .null => "NoneType"
  | .bool _ => "bool"
  | .int _ => "int"
  | .float _ => "float"
  | .text _ => "str"
  | .list _ => "list"
  | .object _ => "dict"

def member? (name : Text) (members : List (Text × Json)) : Option Json :=
  members.lookup name

/-- Members with one more, which takes the place of an earlier member of the
same name. -/
def insertMember (members : List (Text × Json)) (name : Text) (value : Json) :
    List (Text × Json) :=
  if (member? name members).isSome then
    members.map fun (n, v) => if n = name then (n, value) else (n, v)
  else members ++ [(name, value)]

mutual
def display : Json → String
  | .null => "None"
  | .bool true => "True"
  | .bool false => "False"
  | .int n => toString n
  | .float x => x.render
  | .text s => quoted s
  | .list items => "[" ++ String.intercalate ", " (displayItems items) ++ "]"
  | .object members => "\x7b" ++ String.intercalate ", " (displayMembers members) ++ "\x7d"

def displayItems : List Json → List String
  | [] => []
  | item :: rest => item.display :: displayItems rest

def displayMembers : List (Text × Json) → List String
  | [] => []
  | (name, value) :: rest => (quoted name ++ ": " ++ value.display) :: displayMembers rest
end

end Json

end WordAssembler
