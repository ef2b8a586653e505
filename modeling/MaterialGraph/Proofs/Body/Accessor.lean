import MaterialGraph.Body.Accessor
import MaterialGraph.Proofs.Mapping.Counts
import MaterialGraph.Proofs.Mapping.Slots
import MaterialGraph.Proofs.PassGraph.Usage
import MaterialGraph.Proofs.Text.Number

/-!
How numbered values are read: the texts around the number, and the count that the
number is below. Main statement: every leaf in use has a text, which is that of a
numbered value, or one of four texts without a number; sprite skins alone have none.
The number is below the count of its kind if a byte can hold that count.
-/

namespace MaterialGraph

inductive Accessor
  | texture | texCoord | normal | tangent | bitangent | vertexColor
  | lightDiffuseColor | lightSpecularColor | lightPos | lightVec | lightHalfVec
  | lightVertex | lightTanVec | lightTanHalfVec
deriving DecidableEq, Inhabited

namespace Accessor

def all : List Accessor :=
  [texture, texCoord, normal, tangent, bitangent, vertexColor,
    lightDiffuseColor, lightSpecularColor, lightPos, lightVec, lightHalfVec,
    lightVertex, lightTanVec, lightTanHalfVec]

/-- What stands before the number. -/
def opening : Accessor → String
  | texture => "UNIFORM(t"
  | texCoord => "IN(tc"
  | normal => "normalize(IN(nm"
  | tangent => "IN(tan"
  | bitangent => "IN(bitan"
  | vertexColor => "IN(vertexColor"
  | lightDiffuseColor | lightSpecularColor | lightPos => "UNIFORM(light"
  | lightVec | lightHalfVec | lightTanVec | lightTanHalfVec => "normalize(IN(light"
  | lightVertex => "IN(light"

/-- What stands after the number. -/
def closing : Accessor → String
  | texture | texCoord | tangent | bitangent | vertexColor => ")"
  | normal => "))"
  | lightDiffuseColor => "_diffuseColor)"
  | lightSpecularColor => "_specularColor)"
  | lightPos => "_pos)"
  | lightVec => "_vec))"
  | lightHalfVec => "_halfvec))"
  | lightVertex => "_vpos)"
  | lightTanVec => "_tanvec))"
  | lightTanHalfVec => "_tanhalfvec))"

/-- The text that reads the value of a number. -/
def text (a : Accessor) (k : Nat) : String :=
  a.opening ++ toString k ++ a.closing

/-- The define that counts the values. -/
def count : Accessor → String
  | texture => "TEXTURES"
  | texCoord => "TEXCOORDS"
  | normal => "NORMALS"
  | tangent => "TANGENTS"
  | bitangent => "BITANGENTS"
  | vertexColor => "COLORS"
  | _ => "LIGHTS"

/-- The stream whose arrays are the values, where these are counted in a byte. -/
def stream? : Accessor → Option VertexStream
  | normal => some .normals
  | tangent => some .tangents
  | vertexColor => some .vertexColor
  | _ => none

def ofSource? : MaterialSource → Option Accessor
  | .texture | .framebuffer => some texture
  | .texCoord => some texCoord
  | .normal => some normal
  | .tangent => some tangent
  | .bitangent => some bitangent
  | .vertexColor => some vertexColor
  | .lightDiffuseColor => some lightDiffuseColor
  | .lightSpecularColor => some lightSpecularColor
  | .lightPos => some lightPos
  | .lightVec => some lightVec
  | .lightHalfVec => some lightHalfVec
  | .lightVertex => some lightVertex
  | .lightTanVec => some lightTanVec
  | .lightTanHalfVec => some lightTanHalfVec
  | .color | .specularColor | .specularExponent | .vertex | .spriteSkin => none

/-- The texts of leaves that are read without a number. -/
def unnumbered : List String :=
  ["U_color", "U_scolor", "U_scolor.w", "IN(position)"]

variable {a b : Accessor} {j k : Nat}

theorem mem_all (a : Accessor) : a ∈ all := by
  cases a <;> decide

theorem opening_unique (h : a.opening.toList <+: b.opening.toList) :
    a.opening = b.opening := by
  have hall : ∀ a ∈ all, ∀ b ∈ all, a.opening.toList <+: b.opening.toList →
      a.opening = b.opening := by decide
  exact hall a (mem_all a) b (mem_all b) h

theorem eq_of_opening_closing (hopening : a.opening = b.opening)
    (hclosing : a.closing = b.closing) : a = b := by
  have hall : ∀ a ∈ all, ∀ b ∈ all, a.opening = b.opening → a.closing = b.closing → a = b := by
    decide
  exact hall a (mem_all a) b (mem_all b) hopening hclosing

theorem takeWhile_closing (a : Accessor) : a.closing.toList.takeWhile Char.isDigit = [] := by
  cases a <;> decide

theorem toList_text (a : Accessor) (k : Nat) :
    (a.text k).toList = a.opening.toList ++ (Nat.toDigits 10 k ++ a.closing.toList) :=
  toList_numbered a.opening a.closing k

/-- Number and kind can be told from the text. -/
theorem text_injective (h : a.text k = b.text j) : a = b ∧ k = j := by
  have hlist : (a.text k).toList = (b.text j).toList := congrArg String.toList h
  rw [toList_text, toList_text] at hlist
  have hopening : a.opening = b.opening := by
    have ha : a.opening.toList <+: b.opening.toList ++ (Nat.toDigits 10 j ++ b.closing.toList) :=
      hlist ▸ List.prefix_append ..
    rcases List.prefix_or_prefix_of_prefix ha (List.prefix_append ..) with hab | hba
    · exact opening_unique hab
    · exact (opening_unique hba).symm
  rw [hopening] at hlist
  obtain ⟨hnumber, hclosing⟩ := toDigits_append_inj (takeWhile_closing a) (takeWhile_closing b)
    (List.append_cancel_left hlist)
  exact ⟨eq_of_opening_closing hopening (String.toList_inj.1 hclosing), hnumber⟩

/-- A text that starts in no accessor's way is none. -/
theorem ne_text {s : String} (h : ∀ a ∈ all, ¬a.opening.toList <+: s.toList) (a : Accessor)
    (k : Nat) : s ≠ a.text k := by
  rintro rfl
  refine h a (mem_all a) ?_
  rw [toList_text]
  exact List.prefix_append ..

theorem text_not_mem_unnumbered (a : Accessor) (k : Nat) : a.text k ∉ unnumbered := by
  intro hmem
  have hnone : ∀ s ∈ unnumbered, ∀ a ∈ all, ¬a.opening.toList <+: s.toList := by decide
  exact ne_text (hnone _ hmem) a k rfl

end Accessor

/-- Whether the values of a kind are not too many for what counts them. -/
def Mapping.Counts (m : Mapping) (a : Accessor) : Prop :=
  ∀ stream, a.stream? = some stream → (m.streamIndices stream).length ≤ 255

namespace Accessors

/-- The number that a leaf is read by. -/
def number? (A : Accessors) (l : Leaf) : Option Nat :=
  match l.source with
  | .texture => A.mapping.textureUnit? .texture l.index
  | .framebuffer => A.mapping.textureUnit? .framebuffer l.index
  | .texCoord => (A.texCoords.register? l.index).map UInt8.toNat
  | .normal | .tangent | .bitangent | .vertexColor =>
    (A.usage.indices l.source).position? l.index
  | _ => some l.index.toNat

/-- A leaf with a number is read by it. -/
theorem text_of_number? {A : Accessors} {l : Leaf} {a : Accessor} {k : Nat}
    (ha : Accessor.ofSource? l.source = some a) (hk : A.number? l = some k) :
    A.text l = .ok (a.text k) := by
  obtain ⟨source, index⟩ := l
  cases source
  all_goals cases ha
  all_goals simp only [number?, Option.some.injEq] at hk
  all_goals simp only [text, slotted, light, direction, varying, uniform, hk, Accessor.text,
    Accessor.opening, Accessor.closing, String.append_assoc]
  all_goals first | rfl | (subst hk; rfl)

theorem text_of_number?_none {A : Accessors} {l : Leaf} {a : Accessor}
    (ha : Accessor.ofSource? l.source = some a) (hk : A.number? l = none) :
    A.text l = .error (.fault (.unmappedLeaf l)) := by
  obtain ⟨source, index⟩ := l
  cases source
  all_goals cases ha
  all_goals simp only [number?, reduceCtorEq] at hk
  all_goals simp only [text, slotted, hk]

/-- Leaves without a number are read by four texts, but for sprite skins. -/
theorem text_of_ofSource?_none {l : Leaf} (A : Accessors)
    (h : Accessor.ofSource? l.source = none) :
    (∃ s ∈ Accessor.unnumbered, A.text l = .ok s) ∨ l.source = .spriteSkin ∧
      A.text l = .error (.compile (.unaddressableSource .spriteSkin)) := by
  obtain ⟨source, index⟩ := l
  cases source
  case color => exact .inl ⟨"U_color", by decide, rfl⟩
  case specularColor => exact .inl ⟨"U_scolor", by decide, rfl⟩
  case specularExponent => exact .inl ⟨"U_scolor.w", by decide, rfl⟩
  case vertex => exact .inl ⟨"IN(position)", by decide, rfl⟩
  case spriteSkin => exact .inr ⟨rfl, rfl⟩
  all_goals cases h

/-- The texts that leaves are read by. -/
theorem text_eq_ok {A : Accessors} {l : Leaf} {s : String} (h : A.text l = .ok s) :
    (∃ (a : Accessor) (k : Nat), s = a.text k) ∨ s ∈ Accessor.unnumbered := by
  cases ha : Accessor.ofSource? l.source with
  | some a =>
    cases hk : A.number? l with
    | some k => exact .inl ⟨a, k, Except.ok.inj (h.symm.trans (text_of_number? ha hk))⟩
    | none => cases h.symm.trans (text_of_number?_none ha hk)
  | none =>
    rcases text_of_ofSource?_none A ha with ⟨s', hs', htext⟩ | ⟨-, hskin⟩
    · rw [Except.ok.inj (h.symm.trans htext)]
      exact .inr hs'
    · cases h.symm.trans hskin

variable {m b : Mapping} {u : Usage} {pass : Pass} {v : Variant} {limits limits' : Limits}
  {material : Material} {t : TexCoordTable} {l : Leaf}

/-- How many values of a kind a pass has. -/
def counted (u : Usage) (m : Mapping) : Accessor → Nat
  | .texture => m.textures.length
  | .texCoord => m.registers.length
  | .normal => m.streamCount .normals
  | .tangent => m.streamCount .tangents
  | .bitangent => u.count .bitangent
  | .vertexColor => m.streamCount .vertexColor
  | _ => u.lightCount

/-- Within limits that a configuration may give, every count is exact. -/
theorem counts_of_check (hl : limits.check = .ok ()) (hbase : Mapping.base u pass v limits = .ok b)
    (hfull : Mapping.full b u material limits' = .ok (m, t)) (a : Accessor) : m.Counts a := by
  intro stream hstream
  have hne : stream ≠ .texCoords := by
    rintro rfl
    cases a <;> cases hstream
  rw [Mapping.streamIndices_full hfull hne]
  exact Mapping.countable_base hl hbase stream

theorem number?_texture (hbase : Mapping.base u pass v limits = .ok b)
    (hfull : Mapping.full b u material limits' = .ok (m, t)) (source : TextureSource) {i : UInt8}
    (hi : i ∈ u.indices (match source with
      | .texture => .texture
      | .framebuffer => .framebuffer)) :
    ∃ unit < m.textures.length, m.textureUnit? source i = some unit := by
  apply Mapping.exists_textureUnit?
  rw [Mapping.textures_full hfull, Mapping.textures_base hbase]
  cases source with
  | texture => exact List.mem_append_left _ (List.mem_map_of_mem hi)
  | framebuffer => exact List.mem_append_right _ (List.mem_map_of_mem hi)

theorem position?_lt {s : IndexSet} {i : UInt8} (hi : i ∈ s) :
    ∃ k < s.size, s.position? i = some k :=
  ⟨s.toList.idxOf i, List.idxOf_lt_length_of_mem hi, IndexSet.idxOf?_of_mem hi⟩

/-- A stream has an array for every index in use, and is counted if a byte is enough. -/
theorem size_le_streamCount (hbase : Mapping.base u pass v limits = .ok b)
    (hfull : Mapping.full b u material limits' = .ok (m, t)) (s : NumberedSource)
    (hm : (m.streamIndices s.stream).length ≤ 255) :
    (u.indices s.source).size ≤ m.streamCount s.stream := by
  have hstream : s.stream ≠ .texCoords := by cases s <;> decide
  rw [(Mapping.counted_full hbase hfull).streamCount_eq hm,
    Mapping.streamIndices_full hfull hstream, Mapping.streamIndices_base hbase]
  by_cases hforces : u.forces v s
  · rw [if_pos hforces, IndexSet.toList_insert_zero]
    by_cases hzero : 0 ∈ u.indices s.source
    · rw [if_pos hzero]
      exact Nat.le_refl _
    · rw [if_neg hzero, List.length_cons]
      exact Nat.le_succ _
  · rw [if_neg hforces]
    exact Nat.le_refl _

/-- A leaf in use has a number, which is below the count of its kind if that is exact. -/
theorem exists_number? (hbase : Mapping.base u pass v limits = .ok b)
    (hfull : Mapping.full b u material limits' = .ok (m, t)) (hl : u.Has l) {a : Accessor}
    (ha : Accessor.ofSource? l.source = some a) :
    ∃ k, (Accessors.mk u m t).number? l = some k ∧ (m.Counts a → k < counted u m a) := by
  obtain ⟨source, index⟩ := l
  have hposition := position?_lt hl
  cases source
  all_goals cases ha
  case texture =>
    obtain ⟨k, hlt, hk⟩ := number?_texture hbase hfull .texture hl
    exact ⟨k, hk, fun _ => hlt⟩
  case framebuffer =>
    obtain ⟨k, hlt, hk⟩ := number?_texture hbase hfull .framebuffer hl
    exact ⟨k, hk, fun _ => hlt⟩
  case texCoord =>
    obtain ⟨hregisters, htable⟩ := Mapping.registers_full hfull
    obtain ⟨e, -, hregister, hcanonical, -⟩ := TexCoordTable.entry_of_mem htable hl
    refine ⟨e.register.toNat, by rw [number?, hregister]; rfl, fun _ => ?_⟩
    rw [counted, hregisters]
    exact (List.getElem?_eq_some_iff.1 hcanonical).1
  case normal =>
    obtain ⟨k, hlt, hk⟩ := hposition
    exact ⟨k, hk, fun hm =>
      Nat.lt_of_lt_of_le hlt (size_le_streamCount hbase hfull .normal (hm _ rfl))⟩
  case tangent =>
    obtain ⟨k, hlt, hk⟩ := hposition
    exact ⟨k, hk, fun hm =>
      Nat.lt_of_lt_of_le hlt (size_le_streamCount hbase hfull .tangent (hm _ rfl))⟩
  case vertexColor =>
    obtain ⟨k, hlt, hk⟩ := hposition
    exact ⟨k, hk, fun hm =>
      Nat.lt_of_lt_of_le hlt (size_le_streamCount hbase hfull .vertexColor (hm _ rfl))⟩
  case bitangent =>
    obtain ⟨k, hlt, hk⟩ := hposition
    exact ⟨k, hk, fun _ => hlt⟩
  all_goals exact ⟨index.toNat, rfl, fun _ => Usage.lt_lightCount rfl hl⟩

/-- Every leaf in use has a text, but for sprite skins. -/
theorem text_cases (hbase : Mapping.base u pass v limits = .ok b)
    (hfull : Mapping.full b u material limits' = .ok (m, t)) (hl : u.Has l) :
    (∃ a k, (Accessors.mk u m t).text l = .ok (a.text k) ∧ (m.Counts a → k < counted u m a)) ∨
      (∃ s ∈ Accessor.unnumbered, (Accessors.mk u m t).text l = .ok s) ∨
      l.source = .spriteSkin ∧ (Accessors.mk u m t).text l =
        .error (.compile (.unaddressableSource .spriteSkin)) := by
  cases ha : Accessor.ofSource? l.source with
  | some a =>
    obtain ⟨k, hk, hlt⟩ := exists_number? hbase hfull hl ha
    exact .inl ⟨a, k, text_of_number? ha hk, hlt⟩
  | none => exact .inr (text_of_ofSource?_none _ ha)

end Accessors

end MaterialGraph
