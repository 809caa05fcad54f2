import CurlCode.Json.Token

/-!
Reading a JSON text. The reader takes one token after another and keeps the containers
that are open on a stack, so the nesting is the height of the stack.

An object that starts with the key `numberKey` is a number in disguise: the key's value
has to be the text of a numeral, and no second member may follow.
-/
namespace CurlCode.Json

/-- The key of an object that stands for a number. -/
def numberKey : String := "$serde_json::private::Number"

/-- Containers nest less than this deep. -/
def nestingLimit : Nat := 128

/-- An open container with what it holds so far, last one first. -/
inductive Frame where
  | array (items : List Json)
  /-- An object that waits for the value of a key. -/
  | object (members : List Member) (key : String)
  deriving Repr

inductive Reader where
  /-- A value has to follow. -/
  | value (stack : List Frame)
  /-- Just after `[`. -/
  | firstItem (stack : List Frame)
  /-- After an item of an array. -/
  | afterItem (items : List Json) (stack : List Frame)
  /-- Just after an opening brace. -/
  | firstKey (stack : List Frame)
  /-- After the comma between members. -/
  | nextKey (members : List Member) (stack : List Frame)
  | colon (members : List Member) (key : String) (stack : List Frame)
  /-- After a member of an object. -/
  | afterMember (members : List Member) (stack : List Frame)
  | done (v : Json)
  deriving Repr

namespace Reader

/-- Hand a complete value to the container it stands in. -/
def supply (v : Json) : List Frame → Reader
  | [] => .done v
  | .array items :: stack => .afterItem (v :: items) stack
  | .object members key :: stack => .afterMember ((key, v) :: members) stack

/-- The value of an object with these members, in order. A key that comes again replaces
the value in place. -/
def objectOf? : List Member → Option Json
  | (key, v) :: rest =>
    if key = numberKey then
      match v, rest with
      | .string s, [] => (Numeral.ofText? s.toList).map .number
      | _, _ => none
    else some (.object (rest.foldl (fun ms m => putMember m.1 m.2 ms) [(key, v)]))
  | [] => some (.object [])

/-- A token where a value may begin. -/
def readValue (t : Token) (stack : List Frame) : Option Reader :=
  match t with
  | .null => some (supply .null stack)
  | .bool b => some (supply (.bool b) stack)
  | .number n => some (supply (.number n) stack)
  | .string s => some (supply (.string s) stack)
  | .leftBracket => if stack.length + 1 < nestingLimit then some (.firstItem stack) else none
  | .leftBrace => if stack.length + 1 < nestingLimit then some (.firstKey stack) else none
  | _ => none

def step (r : Reader) (t : Token) : Option Reader :=
  match r, t with
  | .value stack, t => readValue t stack
  | .firstItem stack, .rightBracket => some (supply (.array []) stack)
  | .firstItem stack, t => readValue t (.array [] :: stack)
  | .afterItem items stack, .comma => some (.value (.array items :: stack))
  | .afterItem items stack, .rightBracket => some (supply (.array items.reverse) stack)
  | .firstKey stack, .rightBrace => some (supply (.object []) stack)
  | .firstKey stack, .string key => some (.colon [] key stack)
  | .nextKey members stack, .string key => some (.colon members key stack)
  | .colon members key stack, .colon => some (.value (.object members key :: stack))
  | .afterMember members stack, .comma => some (.nextKey members stack)
  | .afterMember members stack, .rightBrace =>
    (objectOf? members.reverse).map fun v => supply v stack
  | _, _ => none

end Reader

/-- The value that a sequence of tokens spells. -/
def ofTokens? (ts : List Token) : Option Json :=
  match ts.foldlM Reader.step (.value []) with
  | some (.done v) => some v
  | _ => none

def parse? (s : String) : Option Json := (Token.ofText? s.toList).bind ofTokens?

end CurlCode.Json
