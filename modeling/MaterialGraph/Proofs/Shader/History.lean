import Mathlib.Data.List.DropRight
import MaterialGraph.Proofs.Loading
import MaterialGraph.Proofs.Table
import MaterialGraph.Shader.Cache

/-!
Histories of requests to one compiler, which keeps its registry of node types and
a cache of shaders from request to request. Main statement: what is kept changes
no answer, and the cache holds the shaders loaded into it since it was cleared.
-/

namespace MaterialGraph

open Loading

section Transparent

variable (resolver : Resolver) (l : Limits)

namespace Shader

theorem transparent_loadPasses (d : Document) (v : Variant) (passes : List Pass) :
    Transparent resolver (Shader.loadPasses resolver d v l passes) := by
  induction passes with
  | nil => exact transparent_pure resolver []
  | cons pass rest ih =>
    refine transparent_bind (PassGraph.transparent_load resolver d pass) fun p => ?_
    cases p with
    | none => exact ih
    | some p =>
      refine transparent_bind (transparent_ofOutcome resolver _) fun sp => ?_
      refine transparent_bind ih fun others => ?_
      exact transparent_pure resolver (sp :: others)

theorem transparent_load (d : Document) (v : Variant) :
    Transparent resolver (Shader.load resolver l d v) := by
  refine transparent_bind (transparent_loadPasses resolver l d _ Pass.all) fun passes => ?_
  split
  · exact transparent_throw resolver _
  · exact transparent_pure resolver _

theorem transparent_fetch (name : String) (v : Variant) :
    Transparent resolver (Shader.fetch resolver l name v) := by
  refine transparent_bind (transparent_ofOutcome resolver _) fun text? => ?_
  cases text? with
  | none => exact transparent_throw resolver _
  | some text =>
    refine transparent_bind (transparent_ofOutcome resolver _) fun d => ?_
    exact transparent_load resolver l d v

end Shader

end Transparent

/-- What a compiler is asked for: a shader by its name or from a document, a
shader through the cache, or an empty cache. -/
inductive Request
  | shader (name : String) (v : Variant)
  | document (d : Document) (v : Variant)
  | cached (name : String) (m : Material)
  | clear
deriving DecidableEq

/-- What is kept from request to request. -/
structure Session where
  registry : Registry := .empty
  cache : ShaderCache := {}
deriving DecidableEq

/-- A request with its answer. Emptying the cache answers with no shader. -/
abbrev Answered := Request × Outcome (Option Shader)

namespace Session

variable (resolver : Resolver) (l : Limits)

def step (s : Session) : Request → Outcome (Option Shader) × Session
  | .shader name v =>
    let (answer, r) := (Shader.fetch resolver l name v).run s.registry
    (answer.map some, { s with registry := r })
  | .document d v =>
    let (answer, r) := (Shader.load resolver l d v).run s.registry
    (answer.map some, { s with registry := r })
  | .cached name m =>
    match (s.cache.load resolver l name m).run s.registry with
    | (.ok (shader, cache), r) => (.ok (some shader), ⟨r, cache⟩)
    | (.error f, r) => (.error f, { s with registry := r })
  | .clear => (.ok none, { s with cache := s.cache.clear })

/-- Answers requests one after the other. -/
def run (s : Session) : List Request → List Answered × Session
  | [] => ([], s)
  | q :: rest =>
    let (answer, s) := s.step resolver l q
    let (log, s) := run s rest
    ((q, answer) :: log, s)

/-- The answer of a compiler that was asked for nothing before. -/
def alone (q : Request) : Outcome (Option Shader) :=
  (Session.step resolver l {} q).1

/-- The answered requests that come after the cache was last emptied. -/
def sinceClear (log : List Answered) : List Answered :=
  log.rtakeWhile fun e => e.1 ≠ .clear

variable {resolver l} {s : Session} {name : String} {v : Variant} {shader : Shader}
  {log : List Answered}

/-- What a session is after some answered requests. -/
structure Coherent (resolver : Resolver) (l : Limits) (log : List Answered) (s : Session) :
    Prop where
  answers : ∀ e ∈ log, e.2 = alone resolver l e.1
  faithful : s.registry.Faithful resolver
  nodup : (s.cache.entries.map Prod.fst).Nodup
  mem_iff : ∀ name v shader, ((name, v), shader) ∈ s.cache.entries ↔
    ∃ m : Material, m.variant = v ∧ (.cached name m, .ok (some shader)) ∈ sinceClear log

theorem Coherent.initial (resolver : Resolver) (l : Limits) : Coherent resolver l [] {} where
  answers e he := absurd he List.not_mem_nil
  faithful := .empty resolver
  nodup := List.nodup_nil
  mem_iff name v shader := by
    constructor
    · intro h
      exact absurd h List.not_mem_nil
    · rintro ⟨m, -, h⟩
      exact absurd h List.not_mem_nil

theorem sinceClear_append_clear (log : List Answered) (answer : Outcome (Option Shader)) :
    sinceClear (log ++ [(.clear, answer)]) = [] := by
  rw [sinceClear, List.rtakeWhile_concat_neg _ _ _ (by simp)]

theorem sinceClear_append (log : List Answered) {e : Answered} (he : e.1 ≠ .clear) :
    sinceClear (log ++ [e]) = sinceClear log ++ [e] := by
  rw [sinceClear, List.rtakeWhile_concat_pos _ _ _ (by simpa using he), sinceClear]

theorem mem_of_sinceClear {e : Answered} (he : e ∈ sinceClear log) : e ∈ log :=
  (List.rtakeWhile_suffix _ _).subset he

/-- An activity answers on a faithful registry as it does on the empty one. -/
theorem answer_eq {α : Type} {x : Loading α} (hx : Transparent resolver x) {r : Registry}
    (hr : r.Faithful resolver) :
    (x.run r).1 = (x.run .empty).1 ∧ (x.run r).2.Faithful resolver := by
  obtain ⟨answer, hx⟩ := hx
  have hempty := hx .empty (.empty resolver)
  obtain ⟨hanswer, hfaithful⟩ := hx r hr
  exact ⟨hanswer.trans hempty.1.symm, hfaithful⟩

theorem step_cached_of_get? {m : Material} (h : s.cache.get? name m.variant = some shader) :
    s.step resolver l (.cached name m) = (.ok (some shader), s) := by
  have hrun : (s.cache.load resolver l name m).run s.registry =
      (.ok (shader, s.cache), s.registry) := by
    unfold ShaderCache.load
    rw [h]
    rfl
  rw [step, hrun]

/-- With nothing in the cache, a shader is loaded as without one, and kept. -/
theorem step_cached_of_none {m : Material} (h : s.cache.get? name m.variant = none) :
    s.step resolver l (.cached name m) =
      match (Shader.fetch resolver l name m.variant).run s.registry with
      | (.ok shader, r) =>
        (.ok (some shader), ⟨r, ⟨s.cache.entries ++ [((name, m.variant), shader)]⟩⟩)
      | (.error f, r) => (.error f, { s with registry := r }) := by
  have hload : s.cache.load resolver l name m =
      Shader.fetch resolver l name m.variant >>= fun shader =>
        pure (shader, ⟨s.cache.entries ++ [((name, m.variant), shader)]⟩) := by
    unfold ShaderCache.load
    rw [h]
  rw [step, hload]
  rcases hrun : (Shader.fetch resolver l name m.variant).run s.registry with ⟨answer, r⟩
  cases answer with
  | error f => rw [run_bind_of_error hrun]
  | ok shader =>
    rw [run_bind_of_ok hrun]
    rfl

/-- Alone, a shader asked for through the cache is the one of its name. -/
theorem alone_cached (name : String) (m : Material) :
    alone resolver l (.cached name m) = alone resolver l (.shader name m.variant) := by
  have hnone : ({} : Session).cache.get? name m.variant = none := rfl
  rw [alone, step_cached_of_none hnone, alone, step]
  rcases (Shader.fetch resolver l name m.variant).run ({} : Session).registry with ⟨answer, r⟩
  cases answer with
  | error f => rfl
  | ok shader => rfl

namespace Coherent

variable (h : Coherent resolver l log s)
include h

/-- Nothing is to be added to the cache for a request that failed, that was not
made to it, or whose shader it has. -/
theorem keep {q : Request} {answer : Outcome (Option Shader)} {r : Registry}
    (hanswer : answer = alone resolver l q) (hr : r.Faithful resolver) (hclear : q ≠ .clear)
    (hcache : ∀ name m shader, q = .cached name m → answer = .ok (some shader) →
      ((name, m.variant), shader) ∈ s.cache.entries) :
    Coherent resolver l (log ++ [(q, answer)]) { s with registry := r } where
  answers e he := by
    rcases List.mem_append.1 he with hold | hnew
    · exact h.answers e hold
    · rw [List.mem_singleton.1 hnew]
      exact hanswer
  faithful := hr
  nodup := h.nodup
  mem_iff name v shader := by
    rw [sinceClear_append log hclear, h.mem_iff]
    constructor
    · rintro ⟨m, hm, hmem⟩
      exact ⟨m, hm, List.mem_append_left _ hmem⟩
    · rintro ⟨m, rfl, hmem⟩
      rcases List.mem_append.1 hmem with hold | hnew
      · exact ⟨m, rfl, hold⟩
      · have heq := List.mem_singleton.1 hnew
        cases heq
        exact (h.mem_iff ..).1 (hcache name m shader rfl rfl)

/-- A shader that was loaded into the cache is kept under its name and variant. -/
theorem insert {m : Material} {r : Registry}
    (hanswer : .ok (some shader) = alone resolver l (.cached name m))
    (hr : r.Faithful resolver) (hnone : s.cache.get? name m.variant = none) :
    Coherent resolver l (log ++ [(.cached name m, .ok (some shader))])
      ⟨r, ⟨s.cache.entries ++ [((name, m.variant), shader)]⟩⟩ where
  answers e he := by
    rcases List.mem_append.1 he with hold | hnew
    · exact h.answers e hold
    · rw [List.mem_singleton.1 hnew]
      exact hanswer
  faithful := hr
  nodup := by
    have hfresh : (name, m.variant) ∉ s.cache.entries.map Prod.fst := by
      intro hmem
      obtain ⟨e, he, heq⟩ := List.mem_map.1 hmem
      have hne := List.lookup_eq_none_iff.1 hnone e he
      exact bne_iff_ne.1 hne heq.symm
    rw [List.map_append, List.nodup_append]
    refine ⟨h.nodup, List.pairwise_singleton _ _, ?_⟩
    intro key hkey other hother heq
    have hnew : key = (name, m.variant) := heq.trans (List.mem_singleton.1 hother)
    rw [hnew] at hkey
    exact hfresh hkey
  mem_iff other v shader' := by
    rw [sinceClear_append log (by simp), List.mem_append, h.mem_iff]
    constructor
    · rintro (⟨m', rfl, hmem⟩ | hmem)
      · exact ⟨m', rfl, List.mem_append_left _ hmem⟩
      · have heq := List.mem_singleton.1 hmem
        cases heq
        exact ⟨m, rfl, List.mem_append_right _ List.mem_cons_self⟩
    · rintro ⟨m', rfl, hmem⟩
      rcases List.mem_append.1 hmem with hold | hnew
      · exact .inl ⟨m', rfl, hold⟩
      · have heq := List.mem_singleton.1 hnew
        cases heq
        exact .inr List.mem_cons_self

theorem clear : Coherent resolver l (log ++ [(.clear, .ok none)])
    { s with cache := s.cache.clear } where
  answers e he := by
    rcases List.mem_append.1 he with hold | hnew
    · exact h.answers e hold
    · rw [List.mem_singleton.1 hnew]
      rfl
  faithful := h.faithful
  nodup := List.nodup_nil
  mem_iff name v shader := by
    rw [sinceClear_append_clear]
    constructor
    · intro hmem
      exact absurd hmem List.not_mem_nil
    · rintro ⟨m, -, hmem⟩
      exact absurd hmem List.not_mem_nil

/-- What the cache has for a name and a variant is the answer of a fresh compiler. -/
theorem alone_of_get? {m : Material} (hget : s.cache.get? name m.variant = some shader) :
    .ok (some shader) = alone resolver l (.cached name m) := by
  obtain ⟨before, after, heq, -⟩ := List.lookup_eq_some_iff.1 hget
  have hentry : ((name, m.variant), shader) ∈ s.cache.entries := by
    rw [heq]
    exact List.mem_append_right _ List.mem_cons_self
  obtain ⟨m', hvariant, hmem⟩ := (h.mem_iff ..).1 hentry
  have hanswer := h.answers _ (mem_of_sinceClear hmem)
  rw [alone_cached, ← hvariant, ← alone_cached]
  exact hanswer

theorem step_cached (name : String) (m : Material) :
    Coherent resolver l (log ++ [(.cached name m, (s.step resolver l (.cached name m)).1)])
      (s.step resolver l (.cached name m)).2 := by
  cases hget : s.cache.get? name m.variant with
  | some shader =>
    rw [step_cached_of_get? hget]
    refine h.keep (h.alone_of_get? hget) h.faithful (by simp) ?_
    intro name' m' shader' hq hok
    cases hq
    cases hok
    obtain ⟨before, after, heq, -⟩ := List.lookup_eq_some_iff.1 hget
    rw [heq]
    exact List.mem_append_right _ List.mem_cons_self
  | none =>
    rw [step_cached_of_none hget]
    obtain ⟨hanswer, hfaithful⟩ := answer_eq (Shader.transparent_fetch resolver l name m.variant)
      h.faithful
    have halone : alone resolver l (.cached name m) =
        ((Shader.fetch resolver l name m.variant).run s.registry).1.map some := by
      rw [alone_cached, hanswer]
      rfl
    rcases hrun : (Shader.fetch resolver l name m.variant).run s.registry with ⟨answer, r⟩
    rw [hrun] at halone hfaithful
    cases answer with
    | error f => exact h.keep halone.symm hfaithful (by simp) (by simp)
    | ok shader => exact h.insert halone.symm hfaithful hget

/-- Answering one more request keeps a session coherent. -/
theorem step (q : Request) :
    Coherent resolver l (log ++ [(q, (s.step resolver l q).1)]) (s.step resolver l q).2 := by
  cases q with
  | shader name v =>
    obtain ⟨hanswer, hfaithful⟩ := answer_eq (Shader.transparent_fetch resolver l name v) h.faithful
    refine h.keep ?_ hfaithful (by simp) (by simp)
    exact congrArg (Except.map some) hanswer
  | document d v =>
    obtain ⟨hanswer, hfaithful⟩ := answer_eq (Shader.transparent_load resolver l d v) h.faithful
    refine h.keep ?_ hfaithful (by simp) (by simp)
    exact congrArg (Except.map some) hanswer
  | cached name m => exact h.step_cached name m
  | clear => exact h.clear

theorem run (history : List Request) :
    Coherent resolver l (log ++ (s.run resolver l history).1) (s.run resolver l history).2 := by
  induction history generalizing log s with
  | nil =>
    rw [Session.run, List.append_nil]
    exact h
  | cons q rest ih =>
    have hstep := ih (h.step q)
    rw [List.append_assoc] at hstep
    exact hstep

end Coherent

theorem run_requests (s : Session) (history : List Request) :
    (s.run resolver l history).1.map Prod.fst = history := by
  induction history generalizing s with
  | nil => rfl
  | cons q rest ih => exact congrArg (q :: ·) (ih _)

/-- A failure leaves the cache as it was. -/
theorem cache_of_step_error {q : Request} {f : Failure}
    (h : (s.step resolver l q).1 = .error f) : (s.step resolver l q).2.cache = s.cache := by
  cases q with
  | shader name v => rfl
  | document d v => rfl
  | cached name m =>
    cases hget : s.cache.get? name m.variant with
    | some shader => rw [step_cached_of_get? hget]
    | none =>
      rw [step_cached_of_none hget] at h ⊢
      generalize (Shader.fetch resolver l name m.variant).run s.registry = outcome at h ⊢
      obtain ⟨answer, r⟩ := outcome
      cases answer with
      | error g => rfl
      | ok shader => cases h
  | clear => cases h

/-- Every request of a history is answered as a fresh compiler would answer it. The
registry has types as their descriptions say. The cache has one entry for each name
and variant that was loaded through it since it was cleared, and a further request
that fails adds none. -/
theorem run_caches_transparently (resolver : Resolver) (l : Limits) (history : List Request) :
    let (log, s) := Session.run resolver l {} history
    log = history.map (fun q => (q, alone resolver l q)) ∧
      (∀ e ∈ s.registry.entries, ∃ text, resolver.resolve .nodeType e.1 = .ok (some text) ∧
        NodeType.parse e.1 text = .ok e.2) ∧
      (s.cache.entries.map Prod.fst).Nodup ∧
      (∀ name v shader, ((name, v), shader) ∈ s.cache.entries ↔
        ∃ m : Material, m.variant = v ∧
          (.cached name m, .ok (some shader)) ∈ sinceClear log) ∧
      ∀ q f, (s.step resolver l q).1 = .error f →
        (s.step resolver l q).2.cache = s.cache := by
  have hcoherent := (Coherent.initial resolver l).run history
  have hrequests := @run_requests resolver l {} history
  rcases hrun : Session.run resolver l {} history with ⟨log, s⟩
  rw [hrun, List.nil_append] at hcoherent
  rw [hrun] at hrequests
  refine ⟨?_, ?_, hcoherent.nodup, hcoherent.mem_iff, fun q f => cache_of_step_error⟩
  · have hlog : log = log.map fun e => (e.1, alone resolver l e.1) := by
      conv_lhs => rw [← List.map_id log]
      apply List.map_congr_left
      intro e he
      exact Prod.ext rfl (hcoherent.answers e he)
    rw [hlog, ← hrequests, List.map_map]
    rfl
  · intro e he
    exact Registry.fetch_eq_ok (hcoherent.faithful e.1 e.2 (Table.get?_eq_some_iff.2 he))

end Session

end MaterialGraph
