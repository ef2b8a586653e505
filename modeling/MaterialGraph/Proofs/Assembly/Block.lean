import MaterialGraph.Proofs.Assembly.Defines
import MaterialGraph.Proofs.Assembly.Expansion
import MaterialGraph.Proofs.Text.Line

/-!
The define block by its lines. Names and values of defines are texts without a line feed,
so a define is a line. Main statement: the lines of the block are its defines, and none of
them is a directive.
-/

namespace MaterialGraph

variable {p : Plan} {gles : Bool}

namespace Define

variable {d : Define} {ds : List Define} {name value : String} {n : Nat}

/-- Whether neither the name nor the value of a define ends a line. -/
def SingleLine (d : Define) : Prop :=
  '\n' ∉ d.name.toList ∧ '\n' ∉ (d.value.getD "").toList

instance (d : Define) : Decidable d.SingleLine :=
  inferInstanceAs (Decidable (_ ∧ _))

section Lines

theorem toList_render (d : Define) : d.render.toList =
    "#define ".toList ++ d.name.toList ++ (d.value.elim "" fun v => " " ++ v).toList ++ ['\r'] ++
      ['\n'] := by
  simp [render]

theorem SingleLine.isLine_render (h : d.SingleLine) : Text.IsLine d.render.toList := by
  have hvalue : '\n' ∉ (d.value.elim "" fun v => " " ++ v).toList := by
    cases hv : d.value with
    | none => decide
    | some v => simpa [hv] using h.2
  refine ⟨_, ?_, toList_render d⟩
  simp only [List.mem_append, not_or]
  exact ⟨⟨⟨by decide, h.1⟩, hvalue⟩, by decide⟩

theorem closed_render (d : Define) : Text.Closed d.render.toList := by
  rw [toList_render]
  exact Text.closed_append_feed _

/-- What starts a define is no blank and starts no directive. -/
theorem plain_render (d : Define) : Include.Plain d.render.toList := by
  rintro name ⟨lead, gap, tail, hlead, -, -, hline⟩
  have hstart : d.render.toList = '#' :: 'd' :: ("efine ".toList ++ (d.name.toList ++
      ((d.value.elim "" fun v => " " ++ v).toList ++ ['\r', '\n']))) := by
    simp [toList_render]
  rw [hstart] at hline
  cases lead with
  | nil => simp at hline
  | cons c lead =>
    obtain rfl : '#' = c := (List.cons.inj hline).1
    exact absurd (hlead '#' List.mem_cons_self) (by decide)

end Lines

section SingleLine

theorem feed_notMem_numbered {opening closing : String} (hopening : '\n' ∉ opening.toList)
    (hclosing : '\n' ∉ closing.toList) (n : Nat) :
    '\n' ∉ (opening ++ toString n ++ closing).toList := by
  simp only [String.toList_append, List.mem_append, not_or]
  exact ⟨⟨hopening, notMem_toString (by decide) n⟩, hclosing⟩

theorem singleLine_flag (h : '\n' ∉ name.toList) : (flag name).SingleLine :=
  ⟨h, List.not_mem_nil⟩

theorem singleLine_of_mem_count (h : '\n' ∉ name.toList) (hd : d ∈ count name n) :
    d.SingleLine := by
  unfold count at hd
  split at hd
  · cases hd
  · rw [List.mem_singleton.1 hd]
    exact ⟨h, notMem_toString (by decide) n⟩

theorem singleLine_of_mem_flagIf {condition : Bool} (h : '\n' ∉ name.toList)
    (hd : d ∈ flagIf condition name) : d.SingleLine := by
  unfold flagIf at hd
  split at hd
  · rw [List.mem_singleton.1 hd]
    exact singleLine_flag h
  · cases hd

theorem singleLine_of_mem_ofTextureUnit {unit : Nat} {t : TextureUnit}
    (hd : d ∈ ofTextureUnit p unit t) : d.SingleLine := by
  have htype (type : BasicType) : '\n' ∉ type.name.toList := by cases type <;> decide
  have hprecision (q : Precision) : '\n' ∉ q.qualifier.toList := by cases q <;> decide
  simp only [ofTextureUnit, List.mem_cons, List.not_mem_nil, or_false] at hd
  rcases hd with rfl | rfl
  · exact ⟨feed_notMem_numbered (by decide) (by decide) unit, htype _⟩
  · exact ⟨feed_notMem_numbered (by decide) (by decide) unit, hprecision _⟩

theorem singleLine_of_mem_ofRegister {m : Material} {register : Nat} {index : UInt8}
    (hd : d ∈ ofRegister m register index) : d.SingleLine := by
  have hname {suffix : String} (hsuffix : '\n' ∉ suffix.toList) :
      '\n' ∉ ("TEXCOORD" ++ toString register ++ "_" ++ suffix).toList := by
    rw [String.toList_append, List.mem_append, not_or]
    exact ⟨feed_notMem_numbered (by decide) (by decide) register, hsuffix⟩
  rcases List.mem_append.1 hd with hfirst | hreflect
  · rcases List.mem_cons.1 hfirst with rfl | hmods
    · exact ⟨hname (by decide), notMem_toString (by decide) _⟩
    · obtain ⟨t, -, ht⟩ := List.mem_flatMap.1 hmods
      exact singleLine_of_mem_flagIf (hname (by cases t <;> decide)) ht
  · exact singleLine_of_mem_flagIf (hname (by decide)) hreflect

theorem singleLine_of_mem (hd : d ∈ p.defines gles) : d.SingleLine := by
  rcases origin_of_mem hd with hstage | hprecision | ⟨name, hname, n, hcount⟩ | ⟨unit, t, hunit⟩ |
    ⟨register, index, hregister⟩ | hgles | hvariant
  · have hall : ∀ stage, ∀ d ∈ ofStage stage, d.SingleLine := by
      intro stage
      cases stage <;> decide
    exact hall p.stage d hstage
  · have hall : ∀ precision, ∀ d ∈ ofPrecision precision, d.SingleLine := by
      intro precision
      cases precision <;> decide
    exact hall p.precision d hprecision
  · have hall : ∀ name ∈ countNames, '\n' ∉ name.toList := by decide
    exact singleLine_of_mem_count (hall name hname) hcount
  · exact singleLine_of_mem_ofTextureUnit hunit
  · exact singleLine_of_mem_ofRegister hregister
  · exact singleLine_of_mem_flagIf (by decide) hgles
  · rcases List.mem_append.1 hvariant with h | h <;> exact singleLine_of_mem_flagIf (by decide) h

end SingleLine

end Define

namespace Plan

theorem toList_defineBlock (p : Plan) (gles : Bool) :
    (p.defineBlock gles).toList = (p.defines gles).flatMap fun d => d.render.toList := by
  rw [defineBlock, String.toList_join, List.flatMap_map]

theorem lines_defineBlock (p : Plan) (gles : Bool) :
    Text.lines (p.defineBlock gles).toList = (p.defines gles).map fun d => d.render.toList := by
  rw [toList_defineBlock, List.flatMap_def]
  refine Text.lines_flatten (List.forall_mem_map.2 fun d hd => ?_)
  exact (Define.singleLine_of_mem hd).isLine_render

theorem closed_defineBlock (p : Plan) (gles : Bool) :
    Text.Closed (p.defineBlock gles).toList := by
  rw [toList_defineBlock, List.flatMap_def]
  refine Text.closed_flatten fun s hs => ?_
  obtain ⟨d, -, rfl⟩ := List.mem_map.1 hs
  exact Define.closed_render d

/-- No line of a define block is a directive. -/
theorem plain_of_mem_lines_defineBlock {line : List Char}
    (h : line ∈ Text.lines (p.defineBlock gles).toList) : Include.Plain line := by
  rw [lines_defineBlock] at h
  obtain ⟨d, -, rfl⟩ := List.mem_map.1 h
  exact Define.plain_render d

end Plan

end MaterialGraph
