import MaterialGraph.Proofs.Assembly.Defines
import MaterialGraph.Proofs.Shader.Spread

/-!
What the body of a pass reads by number and what the defines of its stages count.
Main statement: every number that a pass of a loaded shader reads by is below the
count that the defines give for its kind, unless the kind is that of a stream with
more arrays than a byte can count. Only limits that no configuration gives let a
stream have so many.
-/

namespace MaterialGraph

/-- Whether some defines count `n` values of a kind, among them that of a number. -/
def Define.Declares (ds : List Define) (a : Accessor) (k n : Nat) : Prop :=
  passing (fun name => name = a.count) ds = [valued a.count (toString n)] ∧ k < n

theorem Define.declares_of_lt {p : Plan} {a : Accessor} {k : Nat}
    (h : k < Accessors.counted p.usage p.mapping a) (gles : Bool) :
    Declares (p.defines gles) a k (Accessors.counted p.usage p.mapping a) := by
  refine ⟨?_, h⟩
  rw [counts_defines, count, if_neg]
  omega

/-- A count that is zero is left out. -/
theorem Define.passing_count_of_zero {p : Plan} {a : Accessor}
    (h : Accessors.counted p.usage p.mapping a = 0) (gles : Bool) :
    passing (fun name => name = a.count) (p.defines gles) = [] := by
  rw [counts_defines, h]
  rfl

namespace Accessors

variable {u : Usage} {b m : Mapping} {pass : Pass} {v : Variant} {l l' : Limits}
  {material : Material} {t : TexCoordTable} {leaf : Leaf} {a : Accessor} {k : Nat}

/-- The number that a leaf in use is read by is below the count of its kind, if a byte
can hold that count. -/
theorem lt_counted_of_text (hbase : Mapping.base u pass v l = .ok b)
    (hfull : Mapping.full b u material l' = .ok (m, t)) (hm : m.Counts a) (hleaf : u.Has leaf)
    (htext : (Accessors.mk u m t).text leaf = .ok (a.text k)) : k < counted u m a := by
  rcases text_cases hbase hfull hleaf with ⟨a', k', hnumbered, hlt⟩ | ⟨s, hs, hplain⟩ | ⟨-, hskin⟩
  · have hsame : a'.text k' = a.text k := Except.ok.inj (hnumbered.symm.trans htext)
    obtain ⟨rfl, rfl⟩ := Accessor.text_injective hsame
    exact hlt hm
  · have hsame : s = a.text k := Except.ok.inj (hplain.symm.trans htext)
    exact absurd (hsame ▸ hs) (Accessor.text_not_mem_unnumbered a k)
  · cases hskin.symm.trans htext

theorem counted_lights (h : a.count = "LIGHTS") (u : Usage) (m : Mapping) :
    counted u m a = u.lightCount := by
  cases a
  all_goals first | rfl | exact absurd h (by decide)

end Accessors

namespace Shader

variable {resolver : Resolver} {d : Document} {v : Variant} {l l' : Limits} {r r' : Registry}
  {s : Shader} {p : ShaderPass} {pass : Pass} {material : Material} {m : Mapping}
  {t : TexCoordTable}

/-- Every number that the leaves and the body of a pass are read by is declared, if its
kind is one that is counted exactly, and no more lights than the limit allows. Every kind
is counted exactly within limits that a configuration may give. -/
theorem accessors_declared (hload : (load resolver l d v).run r = (.ok s, r'))
    (hp : s.pass? pass = some p) (hmap : s.mappings material pass l' = .ok (m, t))
    (materialText : String) (stage : Stage) (gles : Bool) :
    let defines := (Compiler.plan s p material m materialText stage).defines gles
    let Declared (a : Accessor) (k : Nat) : Prop :=
      ∃ n, Define.Declares defines a k n ∧ (a.count = "LIGHTS" → n ≤ l.maxLights)
    (∀ leaf a k, p.usage.Has leaf → (Accessors.mk p.usage m t).text leaf = .ok (a.text k) →
      m.Counts a → Declared a k) ∧
    (∀ body, s.body material pass l' = .ok body →
      ∀ c ∈ body, ∀ a k, .text (a.text k) ∈ c.operands → m.Counts a → Declared a k) ∧
    (l.check = .ok () → ∀ a, m.Counts a) := by
  intro defines Declared
  obtain ⟨hsound, husage, hbase⟩ := analysed_of_load hload p (mem_of_pass? hp)
  have hfull : p.mapping.full p.usage material l' = .ok (m, t) := mappings_eq_ok hp hmap
  have hdeclared : ∀ leaf a k, p.usage.Has leaf →
      (Accessors.mk p.usage m t).text leaf = .ok (a.text k) → m.Counts a → Declared a k := by
    intro leaf a k hleaf htext hm
    have hlt : k < Accessors.counted p.usage m a :=
      Accessors.lt_counted_of_text hbase hfull hm hleaf htext
    let plan := Compiler.plan s p material m materialText stage
    refine ⟨_, Define.declares_of_lt (p := plan) hlt gles, fun hlight => ?_⟩
    obtain ⟨hwithin, -⟩ := Mapping.base_eq_ok hbase
    rw [Accessors.counted_lights hlight]
    exact Usage.lightCount_le hwithin
  refine ⟨hdeclared, fun body hbody c hc a k hmem hm => ?_,
    fun hl a => Accessors.counts_of_check hl hbase hfull a⟩
  have hpass := body_eq_ok hp hmap hbody
  rcases Body.ofPass_cases hsound (Accessors.mk p.usage m t).text with
    ⟨body', hbody', -, hreadable⟩ | ⟨leaf, f, -, -, herror⟩
  · obtain rfl : body' = body := Except.ok.inj (hbody'.symm.trans hpass)
    -- A body reads leaves, and white where no color is written, which has no number.
    rcases hreadable c hc _ hmem with hwhite | ⟨leaf, hlive, htext⟩
    · have hnone : ∀ a ∈ Accessor.all,
          ¬a.opening.toList <+: "PRECISION_COLOR_TYPE(1.0, 1.0, 1.0, 1.0)".toList := by decide
      exact absurd (Operand.text.inj hwhite).symm (Accessor.ne_text hnone a k)
    · have hleaf : p.usage.Has leaf := by
        rw [husage]
        exact (PassGraph.has_usage_iff hsound.toLinked).2 hlive
      exact hdeclared leaf a k hleaf htext hm
  · cases herror.symm.trans hpass

def litBinding : Document.WrittenBinding :=
  { source := some "light_vec", index := some 1 }

def litOutputs : Document.WrittenPass :=
  { color := some litBinding }

/-- A document whose only pass gives the direction of light 1 as its color. -/
def lit : Document where
  name := "lit"
  passes := Table.empty.insert "Fullbright" litOutputs

def litPass : ShaderPass where
  graph := { pass := .fullbright, graph := .empty, color := .leaf ⟨.lightVec, 1⟩ }
  usage := .ofLeaves [⟨.lightVec, 1⟩]
  mapping := ({} : Mapping).pushAttribute .vertices 0

def litShader : Shader where
  document := lit
  variant := {}
  types := .empty
  passes := [litPass]

theorem run_load_lit :
    (PassGraph.load (ResourceTable.resolver {}) lit .fullbright).run .empty =
      (.ok (some litPass.graph), .empty) := by
  have hcolor (site : String) : PassGraph.wireBinding [] [] site litBinding ⟨.empty, []⟩ =
      .ok (.leaf ⟨.lightVec, 1⟩, ⟨.empty, []⟩) := by
    rw [PassGraph.wireBinding]
    rfl
  have houtput : PassGraph.wireOutput lit .fullbright litOutputs .color ⟨.empty, []⟩ =
      .ok (.leaf ⟨.lightVec, 1⟩, ⟨.empty, []⟩) := by
    change (Outcome.during _ (PassGraph.wireBinding [] [] _ _ _) >>= _) = _
    rw [hcolor]
    rfl
  have hwire : PassGraph.wireOutputs lit .fullbright litOutputs .empty = .ok litPass.graph := by
    change (PassGraph.wireOutput lit .fullbright _ .color ⟨.empty, []⟩ >>= _) = _
    rw [houtput]
    rfl
  change (Loading.ofOutcome (PassGraph.wireOutputs lit .fullbright _ .empty) >>= _ :
    Loading _).run _ = _
  rw [hwire]
  rfl

theorem load_lit :
    (load (ResourceTable.resolver {}) {} lit {}).run .empty = (.ok litShader, .empty) :=
  load_of_single (p := litPass) (v := {}) rfl (by decide) (by decide) run_load_lit rfl

theorem accessors_declared_lit :
    ∃ m t, litShader.mappings {} .fullbright {} = .ok (m, t) ∧
      litShader.body {} .fullbright {} = .ok [.assign .color (.text (Accessor.text .lightVec 1))] ∧
      ∃ n ≤ 4, Define.Declares ((Compiler.plan litShader litPass {} m "" .fragment).defines false)
        .lightVec 1 n := by
  obtain ⟨⟨m, t⟩, hmap⟩ : ∃ e, litShader.mappings {} .fullbright {} = .ok e := ⟨_, rfl⟩
  have hp : litShader.pass? .fullbright = some litPass := rfl
  have hbody : litShader.body {} .fullbright {} =
      .ok [.assign .color (.text (Accessor.text .lightVec 1))] := rfl
  obtain ⟨-, hdeclared, hcounts⟩ := accessors_declared load_lit hp hmap "" .fragment false
  obtain ⟨n, hn, hlight⟩ := hdeclared _ hbody _ List.mem_cons_self .lightVec 1
    List.mem_cons_self (hcounts rfl _)
  exact ⟨m, t, hmap, hbody, n, hlight rfl, hn⟩

/-- Vertex colors of all 256 indices are read, and none of them is declared. -/
theorem colors_not_declared : ∃ s p r' m t body,
    (load (ResourceTable.resolver {}) .ample
      (PassGraph.spread ⟨.vertexColor, 0⟩ (everyIndex .vertexColor)) {}).run
        (PassGraph.spreadTypes 256) = (.ok s, r') ∧
    s.pass? .fullbright = some p ∧ s.mappings {} .fullbright .ample = .ok (m, t) ∧
    s.body {} .fullbright .ample = .ok body ∧
    .assign .depth (.text "IN(vertexColor0)") ∈ body ∧
    ∀ stage gles n, ¬Define.Declares ((Compiler.plan s p {} m "" stage).defines gles)
      .vertexColor 0 n := by
  obtain ⟨s, p, r', m, t, body, hload, hp, -, hmap, hbody, hhas, hdepth⟩ :=
    exists_load_everyIndex (ResourceTable.resolver {}) ⟨.vertexColor, 0⟩ (by decide)
      .vertexColor (by decide) {} {}
  obtain ⟨-, -, hbase⟩ := analysed_of_load hload p (mem_of_pass? hp)
  have hzero : m.streamCount .vertexColor = 0 :=
    Mapping.streamCount_eq_zero (s := .vertexColor) hbase (mappings_eq_ok hp hmap) hhas
  have hnumber : (Accessors.mk p.usage m t).number? ⟨.vertexColor, 0⟩ = some 0 :=
    IndexSet.position?_zero (hhas 0)
  have htext : (Accessors.mk p.usage m t).text ⟨.vertexColor, 0⟩ = .ok "IN(vertexColor0)" :=
    Accessors.text_of_number? (a := .vertexColor) rfl hnumber
  refine ⟨s, p, r', m, t, body, hload, hp, hmap, hbody, hdepth _ htext, fun stage gles n h => ?_⟩
  have hnone := Define.passing_count_of_zero (p := Compiler.plan s p {} m "" stage)
    (a := .vertexColor) hzero gles
  cases hnone.symm.trans h.1

end Shader

end MaterialGraph
