import MaterialGraph.Json.Basic
import MaterialGraph.Table

/-!
Reading values of known shape out of JSON values. Every reader yields nothing
when the value has another shape.
-/

namespace MaterialGraph.Json

def text? : Json → Option String
  | text t => t
  | _ => none

def bool? : Json → Option Bool
  | bool b => some b
  | _ => none

def int? (lo hi : Int) : Json → Option Int
  | int v => if lo ≤ v ∧ v ≤ hi then some v else none
  | _ => none

def int64? : Json → Option Int :=
  int? (-0x8000000000000000) 0x7fffffffffffffff

def uint64? (v : Json) : Option Nat :=
  (int? 0 0xffffffffffffffff v).map Int.toNat

def byte? (v : Json) : Option UInt8 :=
  (int? 0 255 v).map fun i => UInt8.ofNat i.toNat

/-- An enumeration value is its name, or an object whose one key is its name and
whose one value is null. -/
def enum? {α : Type} (ofName? : String → Option α) : Json → Option α
  | text (some s) => ofName? s
  | object [(some s, null)] => ofName? s
  | _ => none

def list? {α : Type} (read : Json → Option α) : Json → Option (List α)
  | array items => items.mapM read
  | _ => none

/-- The last value of a key wins. -/
def table? {α : Type} (read : Json → Option α) : Json → Option (Table α)
  | object members => do
    let entries ← members.mapM fun (m : Option String × Json) => do
      let key ← m.1
      let value ← read m.2
      some (key, value)
    some (Table.ofList entries)
  | _ => none

/-- The members of a record by name, without the unknown ones. -/
def knownMembers? (fields : List String) (lenient : Bool) :
    List (Option String × Json) → Option (List (String × Json))
  | [] => some []
  | (none, _) :: _ => none
  | (some k, v) :: rest => do
    let members ← knownMembers? fields lenient rest
    if fields.contains k then
      if (members.lookup k).isSome then none else some ((k, v) :: members)
    else if lenient then some members else none

/-- The fields of a record that are given. A record is an object in which a known
key occurs at most once, or an array of the fields in their order without some
of the last ones. Unknown keys are refused unless the record is lenient. -/
def record? (fields : List String) (lenient : Bool) : Json → Option (List (String × Json))
  | object members => knownMembers? fields lenient members
  | array items => if items.length ≤ fields.length then some (fields.zip items) else none
  | _ => none

/-- A field that must be given. -/
def required? {α : Type} (r : List (String × Json)) (field : String)
    (read : Json → Option α) : Option α :=
  (r.lookup field).bind read

/-- A field that takes a value of its own when it is not given. -/
def withDefault? {α : Type} (r : List (String × Json)) (field : String) (default : α)
    (read : Json → Option α) : Option α :=
  match r.lookup field with
  | none => some default
  | some v => read v

/-- A field that may be missing or null. -/
def optional? {α : Type} (r : List (String × Json)) (field : String)
    (read : Json → Option α) : Option (Option α) :=
  match r.lookup field with
  | none => some none
  | some null => some none
  | some v => (read v).map some

end MaterialGraph.Json
