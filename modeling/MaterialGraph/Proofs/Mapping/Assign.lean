import Mathlib.Algebra.GroupWithZero.Nat
import MaterialGraph.Mapping.Assign
import MaterialGraph.Proofs.Mapping.TexCoord

/-!
What a mapping holds once it is assigned: the arrays of each stream are the
indices the stream is bound for, and the registers those of the usage.
-/

namespace MaterialGraph.Mapping

variable {m b : Mapping} {u : Usage} {pass : Pass} {v : Variant} {l : Limits}
  {material : Material} {t : TexCoordTable}

theorem attributes_pushAttributes (m : Mapping) (stream : VertexStream) (indices : List UInt8) :
    (m.pushAttributes stream indices).attributes =
      m.attributes ++ indices.map (AttributeArray.mk stream) := by
  induction indices generalizing m with
  | nil => simp [pushAttributes]
  | cons i rest ih =>
    rw [pushAttributes, List.foldl_cons, ← pushAttributes, ih]
    simp [pushAttribute]

theorem attributes_pushTextures (m : Mapping) (source : TextureSource) (indices : List UInt8) :
    (m.pushTextures source indices).attributes = m.attributes := by
  induction indices generalizing m with
  | nil => rfl
  | cons i rest ih =>
    rw [pushTextures, List.foldl_cons, ← pushTextures, ih]
    rfl

theorem registers_pushAttributes (m : Mapping) (stream : VertexStream) (indices : List UInt8) :
    (m.pushAttributes stream indices).registers = m.registers := by
  induction indices generalizing m with
  | nil => rfl
  | cons i rest ih =>
    rw [pushAttributes, List.foldl_cons, ← pushAttributes, ih]
    rfl

theorem attributes_pushStreams (streams : List (VertexStream × IndexSet)) (m : Mapping) :
    (streams.foldl (fun m s => m.pushAttributes s.1 s.2.toList) m).attributes =
      m.attributes ++ streams.flatMap fun s => s.2.toList.map (AttributeArray.mk s.1) := by
  induction streams generalizing m with
  | nil => simp
  | cons s rest ih =>
    rw [List.foldl_cons, ih, attributes_pushAttributes, List.flatMap_cons, List.append_assoc]

/-- A base mapping is within the limits and holds the textures and streams of the usage. -/
theorem base_eq_ok (h : base u pass v l = .ok b) :
    u.lightBeyond? l.maxLights = none ∧
      u.count .texture + u.count .framebuffer ≤ l.maxTextures ∧
      ((u.streams pass v).map fun s => s.2.size).sum ≤ l.maxAttribArrays ∧
      b = (u.streams pass v).foldl (fun m s => m.pushAttributes s.1 s.2.toList)
        (((default : Mapping).pushTextures .texture (u.indices .texture).toList).pushTextures
          .framebuffer (u.indices .framebuffer).toList) := by
  simp only [base] at h
  split at h
  · cases h
  · next hlights =>
    split at h
    · cases h
    · next htextures =>
      split at h
      · cases h
      · next hattributes =>
        cases h
        rw [← List.sum_eq_foldl_nat] at hattributes
        exact ⟨hlights, Nat.le_of_not_lt htextures, Nat.le_of_not_lt hattributes, rfl⟩

/-- A base mapping has an array for every index of every stream. -/
theorem attributes_base (h : base u pass v l = .ok b) :
    b.attributes = (u.streams pass v).flatMap fun s => s.2.toList.map (AttributeArray.mk s.1) := by
  obtain ⟨-, -, -, rfl⟩ := base_eq_ok h
  rw [attributes_pushStreams, attributes_pushTextures, attributes_pushTextures]
  rfl

theorem length_attributes_base_le (h : base u pass v l = .ok b) :
    b.attributes.length ≤ l.maxAttribArrays := by
  obtain ⟨-, -, hle, -⟩ := base_eq_ok h
  rw [attributes_base h, List.length_flatMap]
  simp only [List.length_map]
  exact hle

/-- A full mapping adds to a base the registers of the usage and their channels, and
is within the limit of arrays. -/
theorem full_eq_ok (h : full b u material l = .ok (m, t)) :
    TexCoordTable.ofUsage u material l = .ok t ∧
      b.attributes.length + (channels material t.canonicals).size ≤ l.maxAttribArrays ∧
      m = { b with registers := t.canonicals }.pushAttributes .texCoords
        (channels material t.canonicals).toList := by
  unfold full at h
  cases ht : TexCoordTable.ofUsage u material l with
  | error e => simp [ht, bind, Except.bind] at h
  | ok table =>
    simp only [ht, bind, Except.bind] at h
    split at h
    · cases h
    · next hle =>
      simp only [Except.ok.injEq, Prod.mk.injEq] at h
      obtain ⟨rfl, rfl⟩ := h
      exact ⟨rfl, Nat.le_of_not_lt hle, rfl⟩

theorem registers_full (h : full b u material l = .ok (m, t)) :
    m.registers = t.canonicals ∧ TexCoordTable.ofUsage u material l = .ok t := by
  obtain ⟨ht, -, rfl⟩ := full_eq_ok h
  exact ⟨registers_pushAttributes .., ht⟩

theorem attributes_full (h : full b u material l = .ok (m, t)) :
    m.attributes = b.attributes ++
      (channels material t.canonicals).toList.map (AttributeArray.mk .texCoords) := by
  obtain ⟨-, -, rfl⟩ := full_eq_ok h
  exact attributes_pushAttributes ..

theorem length_attributes_full_le (h : full b u material l = .ok (m, t)) :
    m.attributes.length ≤ l.maxAttribArrays := by
  obtain ⟨-, hle, -⟩ := full_eq_ok h
  rw [attributes_full h, List.length_append, List.length_map]
  exact hle

end MaterialGraph.Mapping
