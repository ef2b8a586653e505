import MaterialGraph.Json.Basic

/-!
Writing JSON text without blanks. Quotes, backslashes and control characters
are escaped, and every other character stands for itself.
-/

namespace MaterialGraph.Json

def hexDigit (n : Nat) : Char :=
  if n < 10 then Char.ofNat ('0'.toNat + n) else Char.ofNat ('a'.toNat + (n - 10))

def escape (c : Char) : List Char :=
  match c with
  | '"' => ['\\', '"']
  | '\\' => ['\\', '\\']
  | '\x08' => ['\\', 'b']
  | '\x0c' => ['\\', 'f']
  | '\n' => ['\\', 'n']
  | '\r' => ['\\', 'r']
  | '\t' => ['\\', 't']
  | c =>
    if c.toNat < 0x20 then
      ['\\', 'u', '0', '0', hexDigit (c.toNat / 16), hexDigit (c.toNat % 16)]
    else [c]

/-- An unreadable text has no written form and is written as an empty one. -/
def printText (t : Option String) : List Char :=
  '"' :: (t.getD "").toList.flatMap escape ++ ['"']

mutual

def print : Json → List Char
  | null => "null".toList
  | bool true => "true".toList
  | bool false => "false".toList
  | int v => (toString v).toList
  | real literal => literal.toList
  | text t => printText t
  | array [] => ['[', ']']
  | array (v :: items) => '[' :: print v ++ printItems items
  | object [] => ['\x7b', '\x7d']
  | object ((k, v) :: members) =>
    '\x7b' :: printText k ++ ':' :: print v ++ printMembers members

def printItems : List Json → List Char
  | [] => [']']
  | v :: items => ',' :: print v ++ printItems items

def printMembers : List (Option String × Json) → List Char
  | [] => ['\x7d']
  | (k, v) :: members => ',' :: printText k ++ ':' :: print v ++ printMembers members

end

def render (v : Json) : String :=
  String.ofList (print v)

end MaterialGraph.Json
