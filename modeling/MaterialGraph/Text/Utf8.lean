/-!
Texts as bytes.
-/

namespace MaterialGraph.Text

def toBytes (s : String) : List UInt8 :=
  s.toUTF8.data.toList

/-- The text that some bytes encode, if they encode one. -/
def ofBytes? (bytes : List UInt8) : Option String :=
  String.fromUTF8? ⟨bytes.toArray⟩

theorem ofBytes?_toBytes (s : String) : ofBytes? (toBytes s) = some s := by
  simp only [ofBytes?, toBytes, String.fromUTF8?, String.toUTF8_eq_toByteArray,
    Array.toArray_toList, dif_pos s.isValidUTF8]
  rfl

/-- Only the bytes of a text are read as that text. -/
theorem toBytes_of_ofBytes? {bytes : List UInt8} {s : String} (h : ofBytes? bytes = some s) :
    toBytes s = bytes := by
  unfold ofBytes? String.fromUTF8? at h
  split at h
  · obtain rfl := Option.some.inj h
    rfl
  · contradiction

end MaterialGraph.Text
