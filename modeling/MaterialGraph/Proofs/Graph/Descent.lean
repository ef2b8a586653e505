import MaterialGraph.Proofs.Graph.Reach

/-!
The walk against the wires as a recursion. It goes along the inputs of a node, meets
the leaves, and walks through a producer before it comes to the next input. In which
order it takes the inputs is a parameter. Main statements: the walk ends in one way, what
it meets in all is the same for every order, and the walk with a stack is the
recursion that takes the leaves first and then the producers, the last one first.
-/

namespace MaterialGraph

/-- What a walk comes to at an input: a leaf with the pin that it feeds, or a producer. -/
inductive Stop
  | leaf (leaf : Leaf) (pin : Pin)
  | node (id : Nat)
deriving DecidableEq

namespace Node

/-- What the inputs are bound to, in the order of the inputs. -/
def stops (n : Node) : List Stop :=
  (n.inputs.zip n.type.inputs).filterMap fun
    | (.leaf l, pin) => some (.leaf l pin)
    | (.output ref, _) => some (.node ref.node)
    | (.unbound, _) => none

/-- The leaves in the order of the inputs, and then the producers in the opposite order. -/
def stopsLeavesFirst (n : Node) : List Stop :=
  n.leaves.map (fun e => .leaf e.1 e.2) ++ n.producers.reverse.map .node

/-- An order lists what the inputs of a node are bound to. -/
structure Lists (n : Node) (stops : List Stop) : Prop where
  leaf_iff : ∀ l pin, .leaf l pin ∈ stops ↔ (l, pin) ∈ n.leaves
  node_iff : ∀ id, .node id ∈ stops ↔ id ∈ n.producers

/-- A node has as many inputs as its type has pins, so no producer is left out. -/
theorem lists_stops {n : Node} (h : n.inputs.length = n.type.inputs.length) :
    n.Lists n.stops where
  leaf_iff l pin := by
    unfold stops leaves
    rw [List.mem_filterMap, List.mem_filterMap]
    refine exists_congr fun e => and_congr_right fun _ => ?_
    obtain ⟨b, pin'⟩ := e
    cases b <;> simp
  node_iff id := by
    have hinputs : n.inputs = (n.inputs.zip n.type.inputs).map Prod.fst := by
      rw [List.map_fst_zip (Nat.le_of_eq h)]
    unfold stops producers
    rw [hinputs, List.filterMap_map, ← hinputs, List.mem_filterMap, List.mem_filterMap]
    refine exists_congr fun e => and_congr_right fun _ => ?_
    obtain ⟨b, pin⟩ := e
    cases b <;> simp

theorem lists_stopsLeavesFirst (n : Node) : n.Lists n.stopsLeavesFirst where
  leaf_iff l pin := by simp [stopsLeavesFirst]
  node_iff id := by simp [stopsLeavesFirst]

end Node

namespace Graph

/-- What a walk comes to inside a node. -/
def stopsAt (g : Graph) (order : Node → List Stop) (id : Nat) : List Stop :=
  (g.node? id).elim [] order

/-- An order lists what the inputs of every node of the graph are bound to. -/
def Lists (g : Graph) (order : Node → List Stop) : Prop :=
  ∀ id n, g.node? id = some n → n.Lists (order n)

theorem WellWired.lists_stops {g : Graph} (h : g.WellWired) : g.Lists Node.stops :=
  fun _ _ hn => Node.lists_stops (h.inputs_length hn)

theorem lists_stopsLeavesFirst (g : Graph) : g.Lists Node.stopsLeavesFirst :=
  fun _ n _ => n.lists_stopsLeavesFirst

namespace Lists

variable {g : Graph} {order : Node → List Stop} {a b : Nat}

theorem node_mem_iff (h : g.Lists order) : .node a ∈ g.stopsAt order b ↔ g.Feeds a b := by
  rw [← mem_producers_iff, stopsAt]
  cases hn : g.node? b with
  | none => simp
  | some n => exact (h b n hn).node_iff a

theorem leaf_mem_iff (h : g.Lists order) {l : Leaf} {pin : Pin} :
    .leaf l pin ∈ g.stopsAt order b ↔ ∃ n, g.node? b = some n ∧ (l, pin) ∈ n.leaves := by
  rw [stopsAt]
  cases hn : g.node? b with
  | none => simp
  | some n => simpa using (h b n hn).leaf_iff l pin

end Lists

/-- The leaves that a walk meets along some stops, with the nodes that may be entered
before it and after it. A node is entered once, and is walked through at once. -/
inductive Meets (g : Graph) (order : Node → List Stop) :
    List Nat → List Stop → List (Leaf × Pin) → List Nat → Prop
  | nil (unvisited : List Nat) : Meets g order unvisited [] [] unvisited
  | leaf {unvisited left : List Nat} {rest : List Stop} {met : List (Leaf × Pin)}
      (l : Leaf) (pin : Pin) (hrest : Meets g order unvisited rest met left) :
      Meets g order unvisited (.leaf l pin :: rest) ((l, pin) :: met) left
  | pass {unvisited left : List Nat} {id : Nat} {rest : List Stop} {met : List (Leaf × Pin)}
      (hid : id ∉ unvisited) (hrest : Meets g order unvisited rest met left) :
      Meets g order unvisited (.node id :: rest) met left
  | enter {unvisited between left : List Nat} {id : Nat} {rest : List Stop}
      {inside met : List (Leaf × Pin)} (hid : id ∈ unvisited)
      (hinside : Meets g order (unvisited.erase id) (g.stopsAt order id) inside between)
      (hrest : Meets g order between rest met left) :
      Meets g order unvisited (.node id :: rest) (inside ++ met) left

namespace Meets

variable {g : Graph} {order : Node → List Stop} {unvisited left left' : List Nat}
  {stops rest : List Stop} {met met' : List (Leaf × Pin)}

theorem append (h : Meets g order unvisited stops met left)
    (hrest : Meets g order left rest met' left') :
    Meets g order unvisited (stops ++ rest) (met ++ met') left' := by
  induction h with
  | nil => exact hrest
  | leaf l pin _ ih => exact .leaf l pin (ih hrest)
  | pass hid _ ih => exact .pass hid (ih hrest)
  | enter hid hinside _ _ ih =>
    rw [List.append_assoc]
    exact .enter hid hinside (ih hrest)

theorem split (h : Meets g order unvisited (stops ++ rest) met left) :
    ∃ first between second, Meets g order unvisited stops first between ∧
      Meets g order between rest second left ∧ met = first ++ second := by
  induction stops generalizing unvisited met with
  | nil => exact ⟨[], unvisited, met, .nil unvisited, h, rfl⟩
  | cons stop stops ih =>
    cases h with
    | leaf l pin hrest =>
      obtain ⟨first, between, second, hfirst, hsecond, rfl⟩ := ih hrest
      exact ⟨_, between, second, .leaf l pin hfirst, hsecond, rfl⟩
    | pass hid hrest =>
      obtain ⟨first, between, second, hfirst, hsecond, rfl⟩ := ih hrest
      exact ⟨first, between, second, .pass hid hfirst, hsecond, rfl⟩
    | @enter _ _ _ _ _ inside _ hid hinside hrest =>
      obtain ⟨first, between, second, hfirst, hsecond, rfl⟩ := ih hrest
      refine ⟨inside ++ first, between, second, .enter hid hinside hfirst, hsecond, ?_⟩
      rw [List.append_assoc]

/-- Leaves are met where they stand. -/
theorem leaves (h : Meets g order unvisited rest met left) (es : List (Leaf × Pin)) :
    Meets g order unvisited (es.map (fun e => .leaf e.1 e.2) ++ rest) (es ++ met) left := by
  induction es with
  | nil => exact h
  | cons e es ih => exact .leaf e.1 e.2 ih

theorem unique (h : Meets g order unvisited stops met left)
    (h' : Meets g order unvisited stops met' left') : met = met' ∧ left = left' := by
  induction h generalizing met' left' with
  | nil =>
    cases h'
    exact ⟨rfl, rfl⟩
  | leaf l pin _ ih =>
    cases h' with
    | leaf _ _ hrest =>
      obtain ⟨rfl, rfl⟩ := ih hrest
      exact ⟨rfl, rfl⟩
  | pass hid _ ih =>
    cases h' with
    | pass _ hrest => exact ih hrest
    | enter hmem => exact absurd hmem hid
  | enter hid _ _ ihinside ihrest =>
    cases h' with
    | pass hnot => exact absurd hid hnot
    | enter _ hinside hrest =>
      obtain ⟨rfl, rfl⟩ := ihinside hinside
      obtain ⟨rfl, rfl⟩ := ihrest hrest
      exact ⟨rfl, rfl⟩

theorem sublist (h : Meets g order unvisited stops met left) : left.Sublist unvisited := by
  induction h with
  | nil => exact .refl _
  | leaf _ _ _ ih => exact ih
  | pass _ _ ih => exact ih
  | enter _ _ _ ihinside ihrest => exact (ihrest.trans ihinside).trans List.erase_sublist

/-- The walk ends, as every node that it enters leaves fewer to enter. -/
theorem total (g : Graph) (order : Node → List Stop) (unvisited : List Nat) (stops : List Stop) :
    ∃ met left, Meets g order unvisited stops met left := by
  induction hlength : unvisited.length using Nat.strongRecOn generalizing unvisited stops with
  | _ k ih =>
  have hfewer : ∀ left : List Nat, left.length < k → ∀ stops,
      ∃ met left', Meets g order left stops met left' :=
    fun left hlt stops => ih left.length hlt left stops rfl
  induction stops with
  | nil => exact ⟨[], unvisited, .nil unvisited⟩
  | cons stop rest ihrest =>
    obtain ⟨met, left, hrest⟩ := ihrest
    cases stop with
    | leaf l pin => exact ⟨_, left, .leaf l pin hrest⟩
    | node id =>
      by_cases hid : id ∈ unvisited
      · have herase : (unvisited.erase id).length < k := by
          have hpos := List.length_pos_of_mem hid
          rw [List.length_erase_of_mem hid]
          omega
        obtain ⟨inside, between, hinside⟩ := hfewer _ herase (g.stopsAt order id)
        have hbetween := hinside.sublist.length_le
        obtain ⟨met', left', hrest'⟩ := hfewer between (by omega) rest
        exact ⟨_, left', .enter hid hinside hrest'⟩
      · exact ⟨met, left, .pass hid hrest⟩

/-- What is met stands at the start or in a node that the walk was led to. -/
theorem of_mem {P : Nat → Prop} (h : Meets g order unvisited stops met left)
    (hstep : ∀ id, P id → ∀ a, .node a ∈ g.stopsAt order id → P a)
    (hstops : ∀ id, .node id ∈ stops → P id) {e : Leaf × Pin} (he : e ∈ met) :
    .leaf e.1 e.2 ∈ stops ∨ ∃ id, P id ∧ .leaf e.1 e.2 ∈ g.stopsAt order id := by
  induction h with
  | nil => cases he
  | leaf l pin _ ih =>
    rcases List.mem_cons.1 he with rfl | he
    · exact .inl List.mem_cons_self
    · have hmem := ih (fun id hid => hstops id (List.mem_cons_of_mem _ hid)) he
      exact hmem.imp_left (List.mem_cons_of_mem _)
  | pass _ _ ih =>
    have hmem := ih (fun id hid => hstops id (List.mem_cons_of_mem _ hid)) he
    exact hmem.imp_left (List.mem_cons_of_mem _)
  | @enter _ _ _ id _ _ _ _ _ _ ihinside ihrest =>
    have hP : P id := hstops id List.mem_cons_self
    rcases List.mem_append.1 he with he | he
    · rcases ihinside (hstep id hP) he with hmem | hmem
      · exact .inr ⟨id, hP, hmem⟩
      · exact .inr hmem
    · have hmem := ihrest (fun a ha => hstops a (List.mem_cons_of_mem _ ha)) he
      exact hmem.imp_left (List.mem_cons_of_mem _)

/-- A walk does not depend on the order inside nodes that it is not led to. -/
theorem congr {P : Nat → Prop} {order' : Node → List Stop}
    (h : Meets g order unvisited stops met left)
    (hstep : ∀ id, P id → ∀ a, .node a ∈ g.stopsAt order id → P a)
    (hstops : ∀ id, .node id ∈ stops → P id)
    (horder : ∀ id, P id → g.stopsAt order id = g.stopsAt order' id) :
    Meets g order' unvisited stops met left := by
  induction h with
  | nil => exact .nil _
  | leaf l pin _ ih => exact .leaf l pin (ih fun id hid => hstops id (List.mem_cons_of_mem _ hid))
  | pass hnot _ ih => exact .pass hnot (ih fun id hid => hstops id (List.mem_cons_of_mem _ hid))
  | @enter _ _ _ id _ _ _ hid _ _ ihinside ihrest =>
    have hP : P id := hstops id List.mem_cons_self
    have hinside := ihinside (hstep id hP)
    rw [horder id hP] at hinside
    exact .enter hid hinside (ihrest fun a ha => hstops a (List.mem_cons_of_mem _ ha))

/-- Whether a walk that met some leaves and left some nodes has been at a stop. -/
def Been (met : List (Leaf × Pin)) (left : List Nat) : Stop → Prop
  | .leaf l pin => (l, pin) ∈ met
  | .node id => id ∉ left

theorem Been.mono {stop : Stop} (h : Been met left stop) (hmet : met ⊆ met')
    (hleft : left' ⊆ left) : Been met' left' stop := by
  cases stop with
  | leaf l pin => exact hmet h
  | node id => exact fun hid => h (hleft hid)

/-- A walk that is over has been at its stops and at those inside the nodes it entered. -/
structure Exhausts (g : Graph) (order : Node → List Stop) (unvisited : List Nat)
    (stops : List Stop) (met : List (Leaf × Pin)) (left : List Nat) : Prop where
  stops : ∀ stop ∈ stops, Been met left stop
  inside : ∀ id ∈ unvisited, id ∉ left → ∀ stop ∈ g.stopsAt order id, Been met left stop

namespace Exhausts

variable {between : List Nat} {inside : List (Leaf × Pin)} {id : Nat}

theorem leaf (h : Exhausts g order unvisited rest met left) (l : Leaf) (pin : Pin) :
    Exhausts g order unvisited (.leaf l pin :: rest) ((l, pin) :: met) left := by
  have hmono : ∀ stop, Been met left stop → Been ((l, pin) :: met) left stop := fun stop hstop =>
    hstop.mono (List.subset_cons_self (l, pin) met) (List.Subset.refl left)
  refine ⟨fun stop hstop => ?_, fun id hid hleft stop hstop => ?_⟩
  · rcases List.mem_cons.1 hstop with rfl | hstop
    · exact List.mem_cons_self
    · exact hmono stop (h.stops stop hstop)
  · exact hmono stop (h.inside id hid hleft stop hstop)

theorem pass (h : Exhausts g order unvisited rest met left) (hid : id ∉ left) :
    Exhausts g order unvisited (.node id :: rest) met left where
  stops stop hstop := by
    rcases List.mem_cons.1 hstop with rfl | hstop
    · exact hid
    · exact h.stops stop hstop
  inside := h.inside

theorem enter (h : Exhausts g order (unvisited.erase id) (g.stopsAt order id) inside between)
    (hrest : Exhausts g order between rest met left) (hleft : left ⊆ between) (hid : id ∉ left) :
    Exhausts g order unvisited (.node id :: rest) (inside ++ met) left := by
  have hfirst : ∀ stop, Been inside between stop → Been (inside ++ met) left stop :=
    fun stop hstop => hstop.mono (List.subset_append_left inside met) hleft
  have hsecond : ∀ stop, Been met left stop → Been (inside ++ met) left stop := fun stop hstop =>
    hstop.mono (List.subset_append_right inside met) (List.Subset.refl left)
  refine ⟨fun stop hstop => ?_, fun a ha hnot stop hstop => ?_⟩
  · rcases List.mem_cons.1 hstop with rfl | hstop
    · exact hid
    · exact hsecond stop (hrest.stops stop hstop)
  · by_cases heq : a = id
    · rw [heq] at hstop
      exact hfirst stop (h.stops stop hstop)
    · by_cases hbetween : a ∈ between
      · exact hsecond stop (hrest.inside a hbetween hnot stop hstop)
      · have herase := (List.mem_erase_of_ne heq).2 ha
        exact hfirst stop (h.inside a herase hbetween stop hstop)

end Exhausts

theorem exhausts (h : Meets g order unvisited stops met left) (hnodup : unvisited.Nodup) :
    Exhausts g order unvisited stops met left := by
  induction h with
  | nil =>
    exact ⟨fun _ hstop => absurd hstop List.not_mem_nil, fun _ hid hleft => absurd hid hleft⟩
  | leaf l pin _ ih => exact (ih hnodup).leaf l pin
  | pass hid hrest ih => exact (ih hnodup).pass fun hleft => hid (hrest.sublist.subset hleft)
  | @enter unvisited _ _ id _ _ _ _ hinside hrest ihinside ihrest =>
    have herase : (unvisited.erase id).Nodup := hnodup.erase id
    refine (ihinside herase).enter (ihrest (herase.sublist hinside.sublist))
      hrest.sublist.subset fun hleft => ?_
    exact hnodup.not_mem_erase ((hrest.sublist.trans hinside.sublist).subset hleft)

end Meets

/-- The leaves at the inputs of a node. -/
def leavesAt (g : Graph) (id : Nat) : List (Leaf × Pin) :=
  (g.node? id).elim [] Node.leaves

theorem stopsAt_leavesFirst (g : Graph) (id : Nat) :
    g.stopsAt Node.stopsLeavesFirst id =
      (g.leavesAt id).map (fun e => .leaf e.1 e.2) ++
        ((g.node? id).elim [] Node.producers).reverse.map .node := by
  unfold stopsAt leavesAt
  cases g.node? id with
  | none => rfl
  | some n => rfl

theorem erase_filter_contains {unvisited : List Nat} (h : unvisited.Nodup) (id : Nat)
    (visited : List Nat) :
    (unvisited.erase id).filter (fun a => !visited.contains a) =
      unvisited.filter fun a => !(id :: visited).contains a := by
  rw [h.erase_eq_filter, List.filter_filter]
  refine List.filter_congr fun a _ => ?_
  by_cases heq : a = id <;> simp [heq]

/-- The walk with a stack enters the nodes in the order in which the recursion does. -/
theorem meets_walk (g : Graph) (unvisited stack : List Nat) (h : unvisited.Nodup) :
    g.Meets Node.stopsLeavesFirst unvisited (stack.map .node)
      ((g.walk unvisited stack).flatMap g.leavesAt)
      (unvisited.filter fun id => !(g.walk unvisited stack).contains id) := by
  induction unvisited, stack using walk.induct g with
  | case1 unvisited =>
    have hleft : unvisited.filter (fun id => !([] : List Nat).contains id) = unvisited :=
      List.filter_eq_self.2 fun _ _ => rfl
    rw [walk, hleft]
    exact .nil unvisited
  | case2 unvisited id rest hid _ _ ih =>
    rw [walk, dif_pos hid, ← erase_filter_contains h]
    have hstack := ih (h.erase id)
    rw [List.map_append] at hstack
    obtain ⟨first, between, second, hproducers, hrest, heq⟩ := hstack.split
    rw [List.flatMap_cons, heq, ← List.append_assoc]
    refine .enter hid ?_ hrest
    rw [stopsAt_leavesFirst]
    exact hproducers.leaves (g.leavesAt id)
  | case3 unvisited id rest hid ih =>
    rw [walk, dif_neg hid]
    exact .pass hid (ih h)

theorem meets_walkFrom (g : Graph) (unvisited starts : List Nat) (h : unvisited.Nodup) :
    ∃ left, g.Meets Node.stopsLeavesFirst unvisited (starts.map .node)
      ((g.walkFrom unvisited starts).flatMap g.leavesAt) left := by
  induction starts generalizing unvisited with
  | nil => exact ⟨unvisited, .nil unvisited⟩
  | cons start rest ih =>
    have hstart := meets_walk g unvisited [start] h
    obtain ⟨left, hrest⟩ := ih _ (h.filter _)
    rw [walkFrom, List.flatMap_append]
    exact ⟨left, hstart.append hrest⟩

end Graph

end MaterialGraph
