/-!
The scalar, vector and sampler types that pins carry.
-/

namespace MaterialGraph

inductive BasicType
  | float | float2 | float3 | float4
  | half | half2 | half3 | half4
  | fixed | fixed2 | fixed3 | fixed4
  | sampler2D | samplerCube
deriving DecidableEq, Inhabited

namespace BasicType

/-- In the order of the numeric type tags. -/
def all : List BasicType :=
  [float, float2, float3, float4, half, half2, half3, half4,
    fixed, fixed2, fixed3, fixed4, sampler2D, samplerCube]

/-- The name of the type in shader text. -/
def name : BasicType → String
  | float => "FLOAT"
  | float2 => "FLOAT2"
  | float3 => "FLOAT3"
  | float4 => "FLOAT4"
  | half => "HALF"
  | half2 => "HALF2"
  | half3 => "HALF3"
  | half4 => "HALF4"
  | fixed => "FIXED"
  | fixed2 => "FIXED2"
  | fixed3 => "FIXED3"
  | fixed4 => "FIXED4"
  | sampler2D => "sampler2D"
  | samplerCube => "samplerCUBE"

def isSampler : BasicType → Bool
  | sampler2D | samplerCube => true
  | _ => false

/-- The case of ASCII letters does not matter in a tag. -/
def foldCase (tag : String) : List Char :=
  tag.toList.map Char.toLower

/-- A scalar may be written with its width, as in `float1`. -/
def dropUnitWidth (tag : List Char) : List Char :=
  if tag.getLast? = some '1' then tag.dropLast else tag

/-- The type that a pin's textual tag names. -/
def parse? (tag : String) : Option BasicType :=
  all.find? fun t => foldCase t.name == dropUnitWidth (foldCase tag)

/-- The type that a pin's numeric tag names. -/
def ofIndex? (index : Int) : Option BasicType :=
  if index < 0 then none else all[index.toNat]?

/-- The spellings of a type as an enumeration value, its name first. -/
def spellings : BasicType → List String
  | float => ["FLOAT", "float", "float1"]
  | float2 => ["FLOAT2", "float2"]
  | float3 => ["FLOAT3", "float3"]
  | float4 => ["FLOAT4", "float4"]
  | half => ["HALF", "half", "half1"]
  | half2 => ["HALF2", "half2"]
  | half3 => ["HALF3", "half3"]
  | half4 => ["HALF4", "half4"]
  | fixed => ["FIXED", "fixed", "fixed1"]
  | fixed2 => ["FIXED2", "fixed2"]
  | fixed3 => ["FIXED3", "fixed3"]
  | fixed4 => ["FIXED4", "fixed4"]
  | sampler2D => ["sampler2D", "sampler2d"]
  | samplerCube => ["samplerCUBE", "samplerCube", "samplercube"]

def ofSpelling? (s : String) : Option BasicType :=
  all.find? fun t => t.spellings.contains s

theorem mem_all (t : BasicType) : t ∈ all := by
  cases t <;> decide

end BasicType

end MaterialGraph
