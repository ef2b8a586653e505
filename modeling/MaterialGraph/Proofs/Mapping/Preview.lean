import MaterialGraph.Body.Accessor
import MaterialGraph.Proofs.Mapping.Assign
import MaterialGraph.Proofs.Mapping.Slots

/-!
Mappings of previews. A pass decides on nothing but whether a sprite skin is bound,
and the arrays of the skin stand behind those of all other streams of the base.
Main statements: the base mapping of a preview is that of any other pass without its
sprite skin, and taking a stream away commutes with adding a material.
-/

namespace MaterialGraph

theorem VertexStream.tag_lt (stream : VertexStream) : (stream.tag : Nat) < 6 :=
  stream.tag.isLt

namespace Mapping

/-- The mapping without the arrays of a stream. -/
def without (m : Mapping) (stream : VertexStream) : Mapping :=
  { m with
    attributes := m.attributes.filter (·.stream != stream)
    streamCounts := m.streamCounts.set stream.tag 0 stream.tag_lt }

variable {m b : Mapping} {u : Usage} {pass : Pass} {v : Variant} {material : Material} {l : Limits}
  {t : TexCoordTable} {stream other : VertexStream}

theorem without_pushAttribute_self (m : Mapping) (stream : VertexStream) (i : UInt8) :
    (m.pushAttribute stream i).without stream = m.without stream := by
  simp [without, pushAttribute]

theorem without_pushAttribute_of_ne (m : Mapping) (h : other ≠ stream) (i : UInt8) :
    (m.pushAttribute other i).without stream = (m.without stream).pushAttribute other i := by
  have htag : (stream.tag : Nat) ≠ other.tag := fun heq =>
    h (VertexStream.tag_injective (Fin.ext heq)).symm
  have hcount : (m.streamCounts.set stream.tag 0)[other.tag] = m.streamCounts[other.tag] :=
    Vector.getElem_set_ne _ _ htag
  have hkept : [AttributeArray.mk other i].filter (·.stream != stream) = [⟨other, i⟩] := by
    simp [h]
  simp only [without, pushAttribute, List.filter_append, hcount, hkept]
  rw [Vector.set_comm _ _ htag.symm]

theorem without_pushAttributes_self (m : Mapping) (stream : VertexStream) (indices : List UInt8) :
    (m.pushAttributes stream indices).without stream = m.without stream := by
  induction indices generalizing m with
  | nil => rfl
  | cons i rest ih =>
    rw [pushAttributes, List.foldl_cons, ← pushAttributes, ih, without_pushAttribute_self]

theorem without_pushAttributes_of_ne (m : Mapping) (h : other ≠ stream) (indices : List UInt8) :
    (m.pushAttributes other indices).without stream =
      (m.without stream).pushAttributes other indices := by
  induction indices generalizing m with
  | nil => rfl
  | cons i rest ih =>
    rw [pushAttributes, List.foldl_cons, ← pushAttributes, ih, without_pushAttribute_of_ne m h]
    rfl

theorem without_pushTextures (m : Mapping) (source : TextureSource) (indices : List UInt8)
    (stream : VertexStream) :
    (m.pushTextures source indices).without stream =
      (m.without stream).pushTextures source indices := by
  induction indices generalizing m with
  | nil => rfl
  | cons i rest ih =>
    rw [pushTextures, List.foldl_cons, ← pushTextures, ih]
    rfl

/-- Streams that are not taken away are bound as before. -/
theorem without_pushStreams (streams : List (VertexStream × IndexSet))
    (h : ∀ s ∈ streams, s.1 ≠ stream) (m : Mapping) :
    (streams.foldl (fun m s => m.pushAttributes s.1 s.2.toList) m).without stream =
      streams.foldl (fun m s => m.pushAttributes s.1 s.2.toList) (m.without stream) := by
  induction streams generalizing m with
  | nil => rfl
  | cons s rest ih =>
    rw [List.foldl_cons, List.foldl_cons, ih fun s' hs' => h s' (List.mem_cons_of_mem _ hs'),
      without_pushAttributes_of_ne m (h s List.mem_cons_self)]

theorem without_default (stream : VertexStream) : (default : Mapping).without stream = default := by
  cases stream <;> rfl

end Mapping

namespace Usage

/-- The streams but the sprite skin, which no pass decides on. -/
def plainStreams (u : Usage) (v : Variant) : List (VertexStream × IndexSet) :=
  (u.streams .preview v).dropLast

theorem ne_spriteSkin_of_mem_plainStreams (u : Usage) (v : Variant) :
    ∀ s ∈ u.plainStreams v, s.1 ≠ .spriteSkin := by
  simp [plainStreams, streams]

/-- A pass only decides on the indices of the sprite skin, which come last. -/
theorem streams_eq (u : Usage) (pass : Pass) (v : Variant) :
    ∃ skins, u.streams pass v = u.plainStreams v ++ [(.spriteSkin, skins)] :=
  ⟨_, rfl⟩

theorem streams_preview (u : Usage) (v : Variant) :
    u.streams .preview v = u.plainStreams v ++ [(.spriteSkin, .empty)] := rfl

end Usage

namespace Mapping

variable {m b : Mapping} {u : Usage} {pass : Pass} {v : Variant} {material : Material} {l : Limits}
  {t : TexCoordTable} {stream : VertexStream}

/-- A usage within the limits has its textures and streams bound. -/
theorem base_of_within (hlights : u.lightBeyond? l.maxLights = none)
    (htextures : u.count .texture + u.count .framebuffer ≤ l.maxTextures)
    (hattributes : ((u.streams pass v).map fun s => s.2.size).sum ≤ l.maxAttribArrays) :
    base u pass v l = .ok ((u.streams pass v).foldl (fun m s => m.pushAttributes s.1 s.2.toList)
      (((default : Mapping).pushTextures .texture (u.indices .texture).toList).pushTextures
        .framebuffer (u.indices .framebuffer).toList)) := by
  simp only [base, hlights, ← List.sum_eq_foldl_nat]
  rw [if_neg (Nat.not_lt.2 htextures), if_neg (Nat.not_lt.2 hattributes)]

/-- A preview is mapped wherever another pass is, to the same slots but the sprite skin. -/
theorem base_preview (h : base u pass v l = .ok b) :
    base u .preview v l = .ok (b.without .spriteSkin) := by
  obtain ⟨hlights, htextures, hattributes, rfl⟩ := base_eq_ok h
  obtain ⟨skins, hstreams⟩ := u.streams_eq pass v
  have hsum : ((u.streams .preview v).map fun s => s.2.size).sum ≤ l.maxAttribArrays := by
    rw [hstreams, List.map_append, List.sum_append] at hattributes
    rw [u.streams_preview, List.map_append, List.sum_append]
    exact Nat.le_trans (Nat.add_le_add_left (Nat.zero_le _) _) hattributes
  rw [base_of_within hlights htextures hsum, hstreams, u.streams_preview, List.foldl_append,
    List.foldl_append]
  simp only [List.foldl_cons, List.foldl_nil, without_pushAttributes_self,
    without_pushStreams _ (u.ne_spriteSkin_of_mem_plainStreams v), without_pushTextures,
    without_default]
  rfl

/-- A material adds the same to a mapping without a stream. -/
theorem full_without (hne : stream ≠ .texCoords) (h : full b u material l = .ok (m, t)) :
    full (b.without stream) u material l = .ok (m.without stream, t) := by
  obtain ⟨htable, hle, rfl⟩ := full_eq_ok h
  have hlength : (b.without stream).attributes.length ≤ b.attributes.length :=
    List.length_filter_le _ _
  rw [without_pushAttributes_of_ne _ hne.symm, full, htable]
  exact if_neg (by omega)

end Mapping

/-- The text that reads a leaf does not depend on the attribute arrays. -/
theorem Accessors.text_without (u : Usage) (m : Mapping) (t : TexCoordTable)
    (stream : VertexStream) : (mk u (m.without stream) t).text = (mk u m t).text := by
  funext leaf
  obtain ⟨source, index⟩ := leaf
  cases source <;> rfl

end MaterialGraph
