import MaterialGraph.Text.Hidden

/-!
Quoted texts: a text between double quotes in which quotes, backslashes and
hidden characters are escaped and every other character stands for itself.
-/

namespace MaterialGraph.Text

/-- A hidden character without a short escape is written by its code point,
in hexadecimal without leading zeros. -/
def escape (c : Char) : List Char :=
  match c with
  | '"' => ['\\', '"']
  | '\\' => ['\\', '\\']
  | '\t' => ['\\', 't']
  | '\r' => ['\\', 'r']
  | '\n' => ['\\', 'n']
  | '\x00' => ['\\', '0']
  | c =>
    if isHidden c then ['\\', 'u', '\x7b'] ++ Nat.toDigits 16 c.toNat ++ ['\x7d'] else [c]

def quote (s : String) : String :=
  String.ofList ('"' :: s.toList.flatMap escape ++ ['"'])

end MaterialGraph.Text
