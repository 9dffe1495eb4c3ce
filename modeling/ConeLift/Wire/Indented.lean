import ConeLift.Decimal.Layout
import ConeLift.Text.Quoted
import ConeLift.Wire.Value

namespace ConeLift.Value

def realText (x : Float) : String :=
  if x.isNaN then "NaN"
  else if x.isInf then (if x < 0 then "-Infinity" else "Infinity")
  else Decimal.exactText x

def newline (level : Nat) : String := "\n" ++ String.ofList (List.replicate (2 * level) ' ')

def bracket (open' close : String) (level : Nat) (items : List String) : String :=
  if items.isEmpty then open' ++ close
  else
    open' ++ newline (level + 1) ++ (("," ++ newline (level + 1)).intercalate items) ++
      newline level ++ close

mutual

def indentedAt (level : Nat) : Value → String
  | .null => "null"
  | .bool b => if b then "true" else "false"
  | .int i => toString i
  | .real x => realText x
  | .text s => Text.quoted s
  | .list xs => bracket "[" "]" level (indentedItems (level + 1) xs)
  | .record fs => bracket "\x7b" "\x7d" level (indentedFields (level + 1) fs)

def indentedItems (level : Nat) : List Value → List String
  | [] => []
  | x :: xs => indentedAt level x :: indentedItems level xs

def indentedFields (level : Nat) : List (String × Value) → List String
  | [] => []
  | (name, x) :: fs =>
    (Text.quoted name ++ ": " ++ indentedAt level x) :: indentedFields level fs

end

def indented (v : Value) : String := indentedAt 0 v

end ConeLift.Value
