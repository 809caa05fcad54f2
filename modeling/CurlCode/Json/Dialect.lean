import CurlCode.Json.Value
import CurlCode.Source

/-!
JSON values in the literal syntax of some language. A container that is not empty is
spread over lines: each item on its own, one step deeper than the brackets.
-/
namespace CurlCode.Json

structure Dialect where
  objectOpen : String
  objectClose : String
  emptyObject : String
  arrayOpen : String
  arrayClose : String
  emptyArray : String
  keySeparator : String
  null : String
  yes : String
  no : String
  /-- The last item takes a comma too. -/
  trailingComma : Bool
  indent : String
  deriving DecidableEq, Repr

namespace Dialect

def indentation (d : Dialect) (depth : Nat) : Fragment :=
  .text (String.join (List.replicate depth d.indent))

/-- What ends an item's line. -/
def lineEnd (d : Dialect) (last : Bool) : Fragment :=
  .text (if last && !d.trailingComma then "\n" else ",\n")

end Dialect

mutual

/-- The literal for a value whose brackets stand `depth` steps from the margin. -/
def source (d : Dialect) (depth : Nat) : Json → Source
  | .null => [d.null]
  | .bool b => [if b then d.yes else d.no]
  | .number n => [String.ofList n.text]
  | .string s => [.literal s]
  | .array [] => [d.emptyArray]
  | .array (v :: vs) =>
    .concat [[d.arrayOpen, "\n"], itemsSource d depth (v :: vs),
      [d.indentation depth, d.arrayClose]]
  | .object [] => [d.emptyObject]
  | .object (m :: ms) =>
    .concat [[d.objectOpen, "\n"], membersSource d depth (m :: ms),
      [d.indentation depth, d.objectClose]]

def itemsSource (d : Dialect) (depth : Nat) : List Json → Source
  | [] => []
  | v :: vs =>
    d.indentation (depth + 1) ::
      (source d (depth + 1) v ++ d.lineEnd vs.isEmpty :: itemsSource d depth vs)

def membersSource (d : Dialect) (depth : Nat) : List Member → Source
  | [] => []
  | (key, v) :: ms =>
    d.indentation (depth + 1) :: .literal key :: .text d.keySeparator ::
      (source d (depth + 1) v ++ d.lineEnd ms.isEmpty :: membersSource d depth ms)

end

end CurlCode.Json
