import Mathlib.Data.List.Defs

/-!
# JSON values

A parsed JSON text and the accessors of such a value: each of them gives nothing
at a value of another kind.
-/

/-- A JSON value; an object has each of its keys once. -/
inductive JsonTree where
  | null
  | boolean (value : Bool)
  | integer (value : Int)
  | float (text : String)
  | string (value : String)
  | array (items : List JsonTree)
  | object (entries : List (String × JsonTree))

namespace JsonTree

/-- The value of a key of an object. -/
def get : JsonTree → String → Option JsonTree
  | object entries, key =>
      (entries.find? (fun entry => entry.1 = key)).map Prod.snd
  | _, _ => none

/-- The value of a key, or null if there is none. -/
def index (value : JsonTree) (key : String) : JsonTree :=
  (value.get key).getD null

def asStr : JsonTree → Option String
  | string value => some value
  | _ => none

def asArray : JsonTree → Option (List JsonTree)
  | array items => some items
  | _ => none

/-- An integer that fits into 64 bits without a sign. -/
def asU64 : JsonTree → Option Nat
  | integer value =>
      if 0 ≤ value ∧ value ≤ 18446744073709551615 then
        some value.toNat
      else
        none
  | _ => none

/-- The body of a JSON-RPC call. -/
def rpcCall (method : String) (params : List JsonTree) : JsonTree :=
  object [
    ("jsonrpc", string "2.0"),
    ("id", integer 1),
    ("method", string method),
    ("params", array params)]

end JsonTree
