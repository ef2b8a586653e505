import MaterialGraph.Json.Token

/-!
Reading JSON text. The reader takes one token at a time and keeps the values
that are still open on a stack, so a document may nest to any depth.
-/

namespace MaterialGraph.Json

/-- An open array or object with its values so far, last first; the object waits
for the value of the key. -/
inductive Frame
  | array (items : List Json)
  | object (members : List (Option String × Json)) (key : Option String)

/-- What may come next, with the values that are open around it. -/
inductive State
  | value (stack : List Frame)
  | firstItem (stack : List Frame)
  | firstKey (stack : List Frame)
  | nextKey (members : List (Option String × Json)) (stack : List Frame)
  | colon (members : List (Option String × Json)) (key : Option String) (stack : List Frame)
  | afterItem (items : List Json) (stack : List Frame)
  | afterMember (members : List (Option String × Json)) (stack : List Frame)
  | complete (value : Json)

namespace State

/-- A finished value goes to the innermost open array or object. -/
def deliver (v : Json) : List Frame → State
  | [] => complete v
  | .array items :: stack => afterItem (v :: items) stack
  | .object members key :: stack => afterMember ((key, v) :: members) stack

def stepValue (stack : List Frame) : Token → Option State
  | .openArray => some (firstItem stack)
  | .openObject => some (firstKey stack)
  | .scalar v => some (deliver v stack)
  | _ => none

def stepKey (members : List (Option String × Json)) (stack : List Frame) : Token → Option State
  | .scalar (.text key) => some (colon members key stack)
  | _ => none

def step : State → Token → Option State
  | value stack, t => stepValue stack t
  | firstItem stack, .closeArray => some (deliver (.array []) stack)
  | firstItem stack, t => stepValue (.array [] :: stack) t
  | firstKey stack, .closeObject => some (deliver (.object []) stack)
  | firstKey stack, t => stepKey [] stack t
  | nextKey members stack, t => stepKey members stack t
  | colon members key stack, .colon => some (value (.object members key :: stack))
  | afterItem items stack, .comma => some (value (.array items :: stack))
  | afterItem items stack, .closeArray => some (deliver (.array items.reverse) stack)
  | afterMember members stack, .comma => some (nextKey members stack)
  | afterMember members stack, .closeObject => some (deliver (.object members.reverse) stack)
  | _, _ => none

/-- Takes every token of a text. -/
def resume (st : State) (s : List Char) : Option State :=
  match s.dropWhile Token.isSpace, (List.dropWhile_suffix (l := s) Token.isSpace).length_le with
  | [], _ => some st
  | c :: rest, hle =>
    match h : Token.read? (c :: rest) with
    | none => none
    | some (t, rest') =>
      match st.step t with
      | none => none
      | some st' =>
        have := Nat.lt_of_lt_of_le (Token.read?_shorter h) hle
        resume st' rest'
termination_by s.length

end State

/-- The value of a text that holds one value and blanks around it. -/
def parse? (s : String) : Option Json :=
  match (State.value []).resume s.toList with
  | some (.complete v) => some v
  | _ => none

end MaterialGraph.Json
