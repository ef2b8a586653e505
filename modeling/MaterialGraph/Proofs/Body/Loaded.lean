import MaterialGraph.Proofs.Body.Accessor
import MaterialGraph.Proofs.Body.Progress

/-!
Bodies of passes that were loaded and mapped. Main statement: such a pass has a
body unless it reads a sprite skin, and then that is what the failure is about.
-/

namespace MaterialGraph.Body

open PassGraph

variable {resolver : Resolver} {d : Document} {pass : Pass} {r : Registry} {p : PassGraph}
  {v : Variant} {limits limits' : Limits} {material : Material} {b m : Mapping} {t : TexCoordTable}

/-- A sound pass that is mapped reads leaves of its usage, which have texts. -/
theorem text_of_liveLeaf (h : p.Sound) (hbase : Mapping.base p.usage p.pass v limits = .ok b)
    (hfull : b.full p.usage material limits' = .ok (m, t)) {l : Leaf} (hl : p.LiveLeaf l) :
    (l.source ≠ .spriteSkin → ∃ s, (Accessors.mk p.usage m t).text l = .ok s) ∧
      ∀ f, (Accessors.mk p.usage m t).text l = .error f →
        l.source = .spriteSkin ∧ f = .compile (.unaddressableSource .spriteSkin) := by
  have hhas : p.usage.Has l := (PassGraph.has_usage_iff h.toLinked).2 hl
  rcases Accessors.text_cases hbase hfull hhas with
    ⟨a, k, htext, -⟩ | ⟨s, -, htext⟩ | ⟨hsource, htext⟩
  · exact ⟨fun _ => ⟨_, htext⟩, fun f hf => by cases htext.symm.trans hf⟩
  · exact ⟨fun _ => ⟨s, htext⟩, fun f hf => by cases htext.symm.trans hf⟩
  · exact ⟨fun hne => absurd hsource hne,
      fun f hf => ⟨hsource, (Except.error.inj (htext.symm.trans hf)).symm⟩⟩

/-- Whatever a sound pass that is mapped fails on is a sprite skin. -/
theorem eq_of_ofPass_error (h : p.Sound) (hbase : Mapping.base p.usage p.pass v limits = .ok b)
    (hfull : b.full p.usage material limits' = .ok (m, t)) {f : Failure}
    (hf : ofPass p (Accessors.mk p.usage m t).text = .error f) :
    f = .compile (.unaddressableSource .spriteSkin) := by
  rcases ofPass_cases h (Accessors.mk p.usage m t).text with
    ⟨body, hbody, -⟩ | ⟨l, f', hl, htext, hbody⟩
  · cases hbody.symm.trans hf
  · obtain ⟨-, heq⟩ := (text_of_liveLeaf h hbase hfull hl).2 f' htext
    exact (Except.error.inj (hf.symm.trans hbody)).trans heq

/-- The body of a loaded pass that is mapped fails only on sprite skins. -/
theorem ofPass_of_loaded (hload : loaded resolver d pass r = .ok (some p))
    (hbase : Mapping.base p.usage p.pass v limits = .ok b)
    (hfull : b.full p.usage material limits' = .ok (m, t)) :
    ((∃ body, ofPass p (Accessors.mk p.usage m t).text = .ok body) ↔
      ∀ l, p.LiveLeaf l → l.source ≠ .spriteSkin) ∧
    ∀ f, ofPass p (Accessors.mk p.usage m t).text = .error f →
      f = .compile (.unaddressableSource .spriteSkin) := by
  obtain ⟨-, hsound⟩ := PassGraph.sound_of_loaded hload
  rcases ofPass_cases hsound (Accessors.mk p.usage m t).text with
    ⟨body, hbody, htexts, -⟩ | ⟨l, f, hl, htext, hbody⟩
  · refine ⟨⟨fun _ l hl hskin => ?_, fun _ => ⟨body, hbody⟩⟩, fun f hf => by
      cases hbody.symm.trans hf⟩
    obtain ⟨s, hs⟩ := htexts l hl
    obtain ⟨source, index⟩ := l
    cases hskin
    cases hs
  · obtain ⟨hskin, rfl⟩ := (text_of_liveLeaf hsound hbase hfull hl).2 f htext
    refine ⟨⟨fun ⟨body, hok⟩ => (by cases hbody.symm.trans hok), fun hnone => ?_⟩, fun f hf => ?_⟩
    · exact absurd hskin (hnone l hl)
    · exact (Except.error.inj (hbody.symm.trans hf)).symm

def skinnedInputs : Table Document.WrittenBinding :=
  Table.empty.insert "c" { source := some "sprite_skin" }

/-- A document with a single node, which reads a sprite skin and gives the color. -/
def skinned : Document where
  name := "skinned"
  nodes := Table.empty.insert "tint" ⟨"Tint", skinnedInputs⟩
  passes := Table.empty.insert "Default" { color := some { node := some "tint" } }

/-- The nodes of the document before they are wired. -/
def unskinned : Graph :=
  ⟨[.ofType "tint" tintType]⟩

def skinnedPass : PassGraph where
  pass := .default
  graph := ⟨[⟨"tint", tintType, [.leaf ⟨.spriteSkin, 0⟩], [[]]⟩]⟩
  color := .output ⟨0, 0⟩

/-- The nodes of such a document once they are wired. -/
def tintGraph (l : Leaf) : Graph :=
  ⟨[⟨"tint", tintType, [.leaf l], [[]]⟩]⟩

section Tint

variable {b : Document.WrittenBinding} {l : Leaf} (hb : b.classify = .ok (.leaf l))
include hb

theorem wireInputs_tint (nodes : List Document.WrittenNode) :
    wireInputs nodes [] 0 (.ofType "tint" tintType) (Table.empty.insert "c" b)
      tintType.inputs.zipIdx ⟨unskinned, []⟩ = .ok ⟨tintGraph l, []⟩ := by
  have hget : (Table.empty.insert "c" b).get? "c" = some b := rfl
  have hleaf (site : String) : wireBinding nodes [] site b ⟨unskinned, []⟩ =
      .ok (.leaf l, ⟨unskinned, []⟩) := by
    rw [wireBinding, classify, hb]
    rfl
  change wireInputs _ _ _ _ _ [(⟨"c", .float4, none, 0⟩, 0)] _ = _
  rw [wireInputs, hget]
  simp only [hleaf]
  change wireInputs _ _ _ _ _ [] _ = _
  rw [wireInputs]
  rfl

theorem wireNode_tint : wireNode [⟨"Tint", Table.empty.insert "c" b⟩] [0] 0 ⟨unskinned, []⟩ =
    .ok ⟨tintGraph l, [0]⟩ := by
  rw [wireNode]
  change Except.map _ (wireInputs _ [] 0 (.ofType "tint" tintType) (Table.empty.insert "c" b)
    tintType.inputs.zipIdx ⟨unskinned, []⟩) = _
  rw [wireInputs_tint hb]
  rfl

/-- The load of a pass that gives the color of a node which reads a leaf. -/
theorem run_load_tint {d : Document} {pass : Pass}
    (hnodes : d.nodes = Table.empty.insert "tint" ⟨"Tint", Table.empty.insert "c" b⟩)
    (hpass : d.pass? pass = some tintPass) :
    (PassGraph.load (ResourceTable.resolver {}) d pass).run tintTypes =
      (.ok (some { pass := pass, graph := tintGraph l, color := .output ⟨0, 0⟩ }), tintTypes) := by
  have hrun : (instantiate (ResourceTable.resolver {}) d.name d.nodes.entries .empty).run
      tintTypes = (.ok unskinned, tintTypes) := by
    rw [hnodes]
    rfl
  have hnode (site : String) : wireBinding d.nodes.values [0] site { node := some "tint" }
      ⟨unskinned, []⟩ = .ok (.output ⟨0, 0⟩, ⟨tintGraph l, [0]⟩) := by
    rw [wireBinding, hnodes]
    change Except.map _ (wireNode [⟨"Tint", Table.empty.insert "c" b⟩] [0] 0 _) = _
    rw [wireNode_tint hb]
    rfl
  have hcolor : wireOutput d pass tintPass .color ⟨unskinned, []⟩ =
      .ok (.output ⟨0, 0⟩, ⟨tintGraph l, [0]⟩) := by
    change (Outcome.during _ (wireBinding _ [0] _ _ _) >>= _) = _
    rw [hnode]
    rfl
  have hwire : wireOutputs d pass tintPass unskinned =
      .ok { pass := pass, graph := tintGraph l, color := .output ⟨0, 0⟩ } := by
    change (wireOutput d pass tintPass .color ⟨unskinned, []⟩ >>= _) = _
    rw [hcolor]
    rfl
  have hempty : tintPass.isEmpty = false := rfl
  unfold PassGraph.load
  simp only [hpass, hempty, Bool.false_eq_true, if_false]
  rw [Loading.run_bind_of_ok hrun, hwire]
  rfl

end Tint

theorem skinned_loaded :
    loaded (ResourceTable.resolver {}) skinned .default tintTypes = .ok (some skinnedPass) := by
  have hleaf : Document.WrittenBinding.classify { source := some "sprite_skin" } =
      .ok (.leaf ⟨.spriteSkin, 0⟩) := rfl
  exact congrArg Prod.fst (run_load_tint hleaf (d := skinned) rfl rfl)

theorem visits_tint (pass : Pass) (l : Leaf) :
    PassGraph.visits { pass := pass, graph := tintGraph l, color := .output ⟨0, 0⟩ } = [0] := by
  have hproducers : ((tintGraph l).node? 0).elim [] Node.producers = [] := rfl
  have hwalk : (tintGraph l).walk [0] [0] = [0] := by simp [Graph.walk, hproducers]
  change (tintGraph l).walk [0] [0] ++ [] = _
  rw [hwalk]
  rfl

theorem skinned_usage : skinnedPass.usage = .ofLeaves [⟨.spriteSkin, 0⟩] := by
  have hvisits : skinnedPass.visits = [0] := visits_tint .default ⟨.spriteSkin, 0⟩
  unfold PassGraph.usage PassGraph.inputLeaves
  rw [hvisits]
  rfl

theorem ofPass_of_loaded_skinned :
    ∃ m t, ofPass skinnedPass (Accessors.mk skinnedPass.usage m t).text =
      .error (.compile (.unaddressableSource .spriteSkin)) := by
  obtain ⟨b, hbase⟩ : ∃ b, Mapping.base skinnedPass.usage .default {} {} = .ok b := by
    rw [skinned_usage]
    exact ⟨_, rfl⟩
  obtain ⟨⟨m, t⟩, hfull⟩ : ∃ e, b.full skinnedPass.usage {} {} = .ok e := by
    rw [skinned_usage] at hbase ⊢
    cases hbase
    exact ⟨_, rfl⟩
  have hcolor : skinnedPass.output .color = .output ⟨0, 0⟩ := rfl
  have hlive : skinnedPass.LiveLeaf ⟨.spriteSkin, 0⟩ :=
    .inr ⟨0, _, PassGraph.live_of_output hcolor, rfl, List.mem_singleton_self _⟩
  obtain ⟨hiff, herror⟩ := ofPass_of_loaded skinned_loaded hbase hfull
  refine ⟨m, t, ?_⟩
  cases hbody : ofPass skinnedPass (Accessors.mk skinnedPass.usage m t).text with
  | ok body => exact absurd rfl (hiff.1 ⟨body, hbody⟩ _ hlive)
  | error f => rw [herror f hbody]

end MaterialGraph.Body
