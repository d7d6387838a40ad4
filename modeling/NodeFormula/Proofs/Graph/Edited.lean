import NodeFormula.Proofs.Graph.Paths
import NodeFormula.Proofs.Result
/-!
# NodeFormula — edits keep a graph well formed

One statement for each way an edit changes a graph: a node is changed without its
sockets, a node is added or removed, an input gets a link, a node becomes active, the
interface grows. `wellFormed_of_withInterface` starts every history of edits.
-/

namespace NodeFormula

open Relation

/-- Two nodes that differ in names, place and constants only. -/
structure Node.Alike (a b : Node) : Prop where
  id : a.id = b.id
  kind : a.kind = b.kind
  inputs : a.inputs.map Socket.spec = b.inputs.map Socket.spec
  outputs : a.outputs = b.outputs

namespace Node.Alike

variable {a b : Node}

theorem refl (a : Node) : a.Alike a := ⟨rfl, rfl, rfl, rfl⟩

theorem trans {c : Node} (h : a.Alike b) (h' : b.Alike c) : a.Alike c :=
  ⟨h.id.trans h'.id, h.kind.trans h'.kind, h.inputs.trans h'.inputs, h.outputs.trans h'.outputs⟩

theorem fits (h : a.Alike b) (hb : b.Fits) (hd : ∀ s ∈ a.inputs, s.default.type = s.type) :
    a.Fits where
  entry_iff := by rw [h.kind, h.id]; exact hb.entry_iff
  exit_iff := by rw [h.kind, h.id]; exact hb.exit_iff
  inputs := by rw [h.kind, h.id, h.inputs]; exact hb.inputs
  outputs := by rw [h.kind, h.id, h.outputs]; exact hb.outputs
  defaults := hd

theorem inputs_spec (h : a.Alike b) (index : Nat) :
    (a.inputs[index]?).map Socket.spec = (b.inputs[index]?).map Socket.spec := by
  rw [← List.getElem?_map, ← List.getElem?_map, h.inputs]

theorem inputs_names (h : a.Alike b) : a.inputs.map Socket.name = b.inputs.map Socket.name := by
  have hname : Socket.name = SocketSpec.name ∘ Socket.spec := rfl
  rw [hname, ← List.map_map, ← List.map_map, h.inputs]

end Node.Alike

/-- A constant in an input changes nothing that links see. -/
theorem Graph.putDefault_alike (index : Nat) (v : Value) (node : Node) :
    (Graph.putDefault index v node).Alike node := by
  refine ⟨rfl, rfl, ?_, rfl⟩
  refine List.ext_getElem? fun k => ?_
  simp only [Graph.putDefault, List.getElem?_map, List.getElem?_modify]
  cases node.inputs[k]? with
  | none => rfl
  | some s => by_cases hk : index = k <;> simp [hk, Socket.spec]

/-- And it fits its socket. -/
theorem Graph.putDefault_defaults {index : Nat} {v : Value} {node : Node} (h : node.Fits) :
    ∀ s ∈ (Graph.putDefault index v node).inputs, s.default.type = s.type := by
  intro s hs
  obtain ⟨k, hk⟩ := List.mem_iff_getElem?.1 hs
  simp only [Graph.putDefault, List.getElem?_modify] at hk
  obtain ⟨old, hold, rfl⟩ := Option.map_eq_some_iff.1 hk
  by_cases hik : index = k
  · simp [hik]
  · simpa [hik] using h.defaults old (List.mem_of_getElem? hold)

namespace Graph

variable {g g' : Graph} {n m : NodeId}

/-! ## Changing a node -/

theorem inputSockets_updateNode {f : Node → Node} (hf : KeepsId f) :
    (g.updateNode n f).inputSockets =
      ((g.node? entry).map fun node => (if entry = n then f node else node).outputs).getD [] := by
  simp only [inputSockets, node?_updateNode hf, Option.map_map, Function.comp_def]

theorem outputSockets_updateNode {f : Node → Node} (hf : KeepsId f) :
    (g.updateNode n f).outputSockets =
      ((g.node? exit).map fun node => (if exit = n then f node else node).inputs).getD [] := by
  simp only [outputSockets, node?_updateNode hf, Option.map_map, Function.comp_def]

theorem map_id_updateNode {f : Node → Node} (hf : KeepsId f) :
    (g.updateNode n f).nodes.map Node.id = g.nodes.map Node.id := by
  simp only [Graph.updateNode, List.map_map]
  refine List.map_congr_left fun node _ => ?_
  by_cases h : node.id = n
  · simp [h, hf node]
  · simp [h]

theorem id_lt_updateNode {f : Node → Node} (hf : KeepsId f)
    (hlt : ∀ node ∈ g.nodes, node.id < g.nextNode) :
    ∀ node ∈ (g.updateNode n f).nodes, node.id < g.nextNode := by
  intro node hnode
  have hmem : node.id ∈ g.nodes.map Node.id := map_id_updateNode hf ▸ List.mem_map_of_mem hnode
  obtain ⟨old, hold, hid⟩ := List.mem_map.1 hmem
  exact hid ▸ hlt old hold

theorem fits_updateNode {f : Node → Node} (hfits : ∀ node ∈ g.nodes, node.Fits)
    (hf : ∀ node ∈ g.nodes, node.id = n → (f node).Fits) :
    ∀ node ∈ (g.updateNode n f).nodes, node.Fits := by
  intro node hnode
  obtain ⟨old, hold, rfl⟩ := List.mem_map.1 hnode
  by_cases h : old.id = n
  · rw [if_pos h]
    exact hf old hold h
  · rw [if_neg h]
    exact hfits old hold

/-- **A change of a node that takes away no socket keeps a graph well formed**, if the
node still fits its kind and the names of the interface stay distinct. -/
theorem WellFormed.updateNode (hg : g.WellFormed) {f : Node → Node} (hkeeps : KeepsId f)
    (hin : ∀ (node : Node) (index : Nat) (s : Socket), node.inputs[index]? = some s →
      ∃ s', (f node).inputs[index]? = some s')
    (hout : ∀ (node : Node) (index : Nat) (s : Socket), node.outputs[index]? = some s →
      ∃ s', (f node).outputs[index]? = some s')
    (hfits : ∀ node ∈ g.nodes, node.id = n → (f node).Fits)
    (hinputs : ((g.updateNode n f).inputSockets.map Socket.name).Nodup)
    (houtputs : ((g.updateNode n f).outputSockets.map Socket.name).Nodup) :
    (g.updateNode n f).WellFormed := by
  refine
    { ids_nodup := by rw [map_id_updateNode hkeeps]; exact hg.ids_nodup
      id_lt := id_lt_updateNode hkeeps hg.id_lt
      fits := fits_updateNode hg.fits hfits
      hasEntry := by rw [hasNode_updateNode hkeeps]; exact hg.hasEntry
      hasExit := by rw [hasNode_updateNode hkeeps]; exact hg.hasExit
      input_names := hinputs
      output_names := houtputs
      link_ids := hg.link_ids
      link_lt := hg.link_lt
      sources := ?_
      targets := ?_
      targets_nodup := hg.targets_nodup
      acyclic := hg.acyclic
      active := fun m hm => by rw [hasNode_updateNode hkeeps]; exact hg.active m hm }
  · intro l hl
    obtain ⟨s, hs⟩ := hg.sources l hl
    obtain ⟨node, hnode, hsock⟩ := outputSocket_eq_ok.1 hs
    by_cases h : l.source.node = n
    · obtain ⟨s', hs'⟩ := hout node l.source.index s hsock
      exact ⟨s', outputSocket_eq_ok.2
        ⟨f node, by rw [node?_updateNode hkeeps, hnode]; simp [h], hs'⟩⟩
    · exact ⟨s, outputSocket_eq_ok.2
        ⟨node, by rw [node?_updateNode hkeeps, hnode]; simp [h], hsock⟩⟩
  · intro l hl
    obtain ⟨s, hs⟩ := hg.targets l hl
    obtain ⟨node, hnode, hsock⟩ := inputSocket_eq_ok.1 hs
    by_cases h : l.target.node = n
    · obtain ⟨s', hs'⟩ := hin node l.target.index s hsock
      exact ⟨s', inputSocket_eq_ok.2
        ⟨f node, by rw [node?_updateNode hkeeps, hnode]; simp [h], hs'⟩⟩
    · exact ⟨s, inputSocket_eq_ok.2
        ⟨node, by rw [node?_updateNode hkeeps, hnode]; simp [h], hsock⟩⟩

/-- **A change that links do not see keeps a graph well formed.** -/
theorem WellFormed.updateNode_of_alike (hg : g.WellFormed) {f : Node → Node}
    (hf : ∀ node, (f node).Alike node)
    (hd : ∀ node ∈ g.nodes, ∀ s ∈ (f node).inputs, s.default.type = s.type) :
    (g.updateNode n f).WellFormed := by
  have hkeeps : KeepsId f := fun node => (hf node).id
  refine hg.updateNode hkeeps ?_ ?_ ?_ ?_ ?_
  · intro node index s hs
    have hspec := (hf node).inputs_spec index
    rw [hs] at hspec
    obtain ⟨s', hs', -⟩ := Option.map_eq_some_iff.1 hspec
    exact ⟨s', hs'⟩
  · intro node index s hs
    exact ⟨s, by rw [(hf node).outputs]; exact hs⟩
  · intro node hnode _
    exact (hf node).fits (hg.fits node hnode) (hd node hnode)
  · have hsame : (g.updateNode n f).inputSockets = g.inputSockets := by
      rw [inputSockets_updateNode hkeeps, inputSockets]
      congr 2
      funext node
      by_cases h : entry = n
      · rw [if_pos h, (hf node).outputs]
      · rw [if_neg h]
    rw [hsame]
    exact hg.input_names
  · have hsame : (g.updateNode n f).outputSockets.map Socket.name
        = g.outputSockets.map Socket.name := by
      rw [outputSockets_updateNode hkeeps, outputSockets]
      cases g.node? exit with
      | none => rfl
      | some node =>
        by_cases h : exit = n
        · simpa [if_pos h] using (hf node).inputs_names
        · simp [if_neg h]
    rw [hsame]
    exact hg.output_names

/-- A change of names, place or owner. -/
theorem WellFormed.updateNode_of_inputs (hg : g.WellFormed) {f : Node → Node}
    (hf : ∀ node, (f node).Alike node) (hin : ∀ node, (f node).inputs = node.inputs) :
    (g.updateNode n f).WellFormed := by
  refine hg.updateNode_of_alike hf fun node hnode s hs => ?_
  rw [hin node] at hs
  exact (hg.fits node hnode).defaults s hs

theorem WellFormed.putDefault (hg : g.WellFormed) (i : InputRef) (v : Value) :
    (g.updateNode i.node (Graph.putDefault i.index v)).WellFormed :=
  hg.updateNode_of_alike (putDefault_alike i.index v) fun node hnode =>
    putDefault_defaults (hg.fits node hnode)

theorem WellFormed.setActive (hg : g.WellFormed) (n : Option NodeId) :
    (g.setActive n).WellFormed :=
  { hg with
    active := by
      intro m hm
      simp only [Graph.setActive, Option.filter_eq_some_iff] at hm
      exact hm.2 }

/-! ## Adding and removing nodes -/

theorem WellFormed.entry_lt (hg : g.WellFormed) : entry < g.nextNode := hg.lt_nextNode hg.hasEntry

theorem WellFormed.exit_lt (hg : g.WellFormed) : exit < g.nextNode := hg.lt_nextNode hg.hasExit

theorem map_spec_freshSockets (specs : List SocketSpec) :
    (freshSockets specs).map Socket.spec = specs := by
  simp only [freshSockets, List.map_map]
  exact List.map_id _

theorem default_type_freshSockets {specs : List SocketSpec} :
    ∀ s ∈ freshSockets specs, s.default.type = s.type := by
  intro s hs
  obtain ⟨spec, -, rfl⟩ := List.mem_map.1 hs
  exact Value.type_zero spec.type

/-- A new node fits its kind. -/
theorem WellFormed.madeNode_fits (hg : g.WellFormed) {kind : NodeKind}
    (hk : kind.isInterface = false) (place : Place) : (g.madeNode kind place).Fits where
  entry_iff := by
    refine ⟨fun h => ?_, fun h => absurd h (Nat.ne_of_gt hg.entry_lt)⟩
    rw [show kind = .groupInput from h] at hk
    exact absurd hk (by decide)
  exit_iff := by
    refine ⟨fun h => ?_, fun h => absurd h (Nat.ne_of_gt hg.exit_lt)⟩
    rw [show kind = .groupOutput from h] at hk
    exact absurd hk (by decide)
  inputs _ := map_spec_freshSockets kind.inputs
  outputs _ := map_spec_freshSockets kind.outputs
  defaults := default_type_freshSockets

/-- What was there is found as before after a node is added. -/
theorem WellFormed.node?_insertNode_of_hasNode (hg : g.WellFormed) (kind : NodeKind)
    (place : Place) (h : g.hasNode m) : (g.insertNode kind place).2.node? m = g.node? m := by
  rw [node?_insertNode hg, if_neg (Nat.ne_of_lt (hg.lt_nextNode h))]

theorem WellFormed.insertNode (hg : g.WellFormed) {kind : NodeKind}
    (hk : kind.isInterface = false) (place : Place) : (g.insertNode kind place).2.WellFormed := by
  have hold : ∀ {m}, g.hasNode m → (g.insertNode kind place).2.node? m = g.node? m :=
    fun h => hg.node?_insertNode_of_hasNode kind place h
  have hhas : ∀ {m}, g.hasNode m → (g.insertNode kind place).2.hasNode m := by
    intro m h
    rw [hasNode, hold h]
    exact h
  refine
    { ids_nodup := ?_
      id_lt := ?_
      fits := ?_
      hasEntry := hhas hg.hasEntry
      hasExit := hhas hg.hasExit
      input_names := by simpa only [inputSockets, hold hg.hasEntry] using hg.input_names
      output_names := by simpa only [outputSockets, hold hg.hasExit] using hg.output_names
      link_ids := hg.link_ids
      link_lt := hg.link_lt
      sources := ?_
      targets := ?_
      targets_nodup := hg.targets_nodup
      acyclic := hg.acyclic
      active := fun m hm => hhas (hg.active m hm) }
  · change ((g.nodes ++ [g.madeNode kind place]).map Node.id).Nodup
    rw [List.map_append, List.nodup_append]
    refine ⟨hg.ids_nodup, List.nodup_singleton _, ?_⟩
    intro a ha b hb
    obtain ⟨node, hnode, rfl⟩ := List.mem_map.1 ha
    rw [List.mem_singleton.1 hb]
    exact Nat.ne_of_lt (hg.id_lt node hnode)
  · intro node hnode
    change node.id < g.nextNode + 1
    rcases List.mem_append.1 hnode with h | h
    · exact Nat.lt_succ_of_lt (hg.id_lt node h)
    · rw [List.mem_singleton.1 h]
      exact Nat.lt_succ_self _
  · intro node hnode
    rcases List.mem_append.1 hnode with h | h
    · exact hg.fits node h
    · rw [List.mem_singleton.1 h]
      exact hg.madeNode_fits hk place
  · intro l hl
    rw [outputSocket_congr (hold (hg.hasNode_source hl))]
    exact hg.sources l hl
  · intro l hl
    rw [inputSocket_congr (hold (hg.hasNode_target hl))]
    exact hg.targets l hl

/-- Fewer links make fewer paths. -/
theorem Linked.mono (h : ∀ l ∈ g.links, l ∈ g'.links) (hmn : g.Linked m n) : g'.Linked m n := by
  obtain ⟨l, hl, hs, ht⟩ := hmn
  exact ⟨l, h l hl, hs, ht⟩

theorem transGen_linked_mono (h : ∀ l ∈ g.links, l ∈ g'.links) (hmn : TransGen g.Linked m n) :
    TransGen g'.Linked m n :=
  TransGen.mono (fun _ _ => Linked.mono h) m n hmn

theorem WellFormed.without (hg : g.WellFormed) (hentry : n ≠ entry) (hexit : n ≠ exit) :
    (g.without n).WellFormed := by
  have hold : ∀ {m}, m ≠ n → (g.without n).node? m = g.node? m := by
    intro m hm
    rw [node?_without, if_neg hm]
  have hhas : ∀ {m}, m ≠ n → g.hasNode m → (g.without n).hasNode m := by
    intro m hm h
    rw [hasNode, hold hm]
    exact h
  refine
    { ids_nodup := hg.ids_nodup.sublist (List.filter_sublist.map _)
      id_lt := fun node h => hg.id_lt node (List.mem_of_mem_filter h)
      fits := fun node h => hg.fits node (List.mem_of_mem_filter h)
      hasEntry := hhas hentry.symm hg.hasEntry
      hasExit := hhas hexit.symm hg.hasExit
      input_names := by simpa only [inputSockets, hold hentry.symm] using hg.input_names
      output_names := by simpa only [outputSockets, hold hexit.symm] using hg.output_names
      link_ids := hg.link_ids.sublist (List.filter_sublist.map _)
      link_lt := fun l h => hg.link_lt l (List.mem_of_mem_filter h)
      sources := ?_
      targets := ?_
      targets_nodup := hg.targets_nodup.sublist (List.filter_sublist.map _)
      acyclic := ?_
      active := ?_ }
  · intro l hl
    obtain ⟨hmem, hsource, -⟩ := mem_links_without.1 hl
    rw [outputSocket_congr (hold hsource)]
    exact hg.sources l hmem
  · intro l hl
    obtain ⟨hmem, -, htarget⟩ := mem_links_without.1 hl
    rw [inputSocket_congr (hold htarget)]
    exact hg.targets l hmem
  · intro m hm
    refine hg.acyclic m (transGen_linked_mono (fun l hl => ?_) hm)
    exact (mem_links_without.1 hl).1
  · intro m hm
    change (if g.active = some n then none else g.active) = some m at hm
    by_cases hn : g.active = some n
    · simp [hn] at hm
    · rw [if_neg hn] at hm
      exact hhas (fun h => hn (h ▸ hm)) (hg.active m hm)

/-! ## Linking -/

theorem mem_links_relinked {source : OutputRef} {target : InputRef} {l : Link} :
    l ∈ (g.relinked source target).links ↔
      (l ∈ g.links ∧ l.target ≠ target) ∨ l = ⟨g.nextLink, source, target⟩ := by
  simp [relinked]

/-- A path through the new link goes from its source's ancestry to its target. -/
theorem linked_relinked {source : OutputRef} {target : InputRef}
    (h : (g.relinked source target).Linked m n) :
    g.Linked m n ∨ (m = source.node ∧ n = target.node) := by
  obtain ⟨l, hl, rfl, rfl⟩ := h
  rcases mem_links_relinked.1 hl with ⟨hmem, -⟩ | rfl
  · exact Or.inl ⟨l, hmem, rfl, rfl⟩
  · exact Or.inr ⟨rfl, rfl⟩

/-- **A link whose target does not lead to its source closes no cycle.** -/
theorem acyclic_relinked {source : OutputRef} {target : InputRef}
    (hacyclic : ∀ n, ¬ TransGen g.Linked n n)
    (hfeeds : ¬ ReflTransGen g.Linked target.node source.node) :
    ∀ n, ¬ TransGen (g.relinked source target).Linked n n := by
  -- a path of the new graph is one of the old graph, or passes the new link
  have hsplit : ∀ m n, TransGen (g.relinked source target).Linked m n →
      TransGen g.Linked m n ∨
        (ReflTransGen g.Linked m source.node ∧ ReflTransGen g.Linked target.node n) := by
    intro m n h
    induction h with
    | single hstep =>
      rcases linked_relinked hstep with h | ⟨rfl, rfl⟩
      · exact Or.inl (TransGen.single h)
      · exact Or.inr ⟨ReflTransGen.refl, ReflTransGen.refl⟩
    | tail _ hstep ih =>
      rcases linked_relinked hstep with h | ⟨rfl, rfl⟩
      · rcases ih with ih | ⟨h1, h2⟩
        · exact Or.inl (ih.tail h)
        · exact Or.inr ⟨h1, h2.tail h⟩
      · rcases ih with ih | ⟨h1, -⟩
        · exact Or.inr ⟨ih.to_reflTransGen, ReflTransGen.refl⟩
        · exact Or.inr ⟨h1, ReflTransGen.refl⟩
  intro n hn
  rcases hsplit n n hn with h | ⟨h1, h2⟩
  · exact hacyclic n h
  · exact hfeeds (h2.trans h1)

theorem WellFormed.relinked (hg : g.WellFormed) {source : OutputRef} {target : InputRef}
    (hsource : ∃ s, g.outputSocket source = .ok s) (htarget : ∃ s, g.inputSocket target = .ok s)
    (hfeeds : g.feeds target.node source.node = false) : (g.relinked source target).WellFormed := by
  have hnot : ¬ ReflTransGen g.Linked target.node source.node := by
    rw [← feeds_iff, hfeeds]
    exact Bool.false_ne_true
  refine
    { hg with
      link_ids := ?_
      link_lt := ?_
      sources := ?_
      targets := ?_
      targets_nodup := ?_
      acyclic := acyclic_relinked hg.acyclic hnot }
  · change ((g.links.filter (fun l => l.target != target) ++
      [(⟨g.nextLink, source, target⟩ : Link)]).map Link.id).Nodup
    rw [List.map_append, List.nodup_append]
    refine ⟨hg.link_ids.sublist (List.filter_sublist.map _), List.nodup_singleton _, ?_⟩
    intro a ha b hb
    obtain ⟨l, hl, rfl⟩ := List.mem_map.1 ha
    rw [List.mem_singleton.1 hb]
    exact Nat.ne_of_lt (hg.link_lt l (List.mem_of_mem_filter hl))
  · intro l hl
    change l.id < g.nextLink + 1
    rcases mem_links_relinked.1 hl with ⟨hmem, -⟩ | rfl
    · exact Nat.lt_succ_of_lt (hg.link_lt l hmem)
    · exact Nat.lt_succ_self _
  · intro l hl
    rcases mem_links_relinked.1 hl with ⟨hmem, -⟩ | rfl
    · exact hg.sources l hmem
    · exact hsource
  · intro l hl
    rcases mem_links_relinked.1 hl with ⟨hmem, -⟩ | rfl
    · exact hg.targets l hmem
    · exact htarget
  · change ((g.links.filter (fun l => l.target != target) ++
      [(⟨g.nextLink, source, target⟩ : Link)]).map Link.target).Nodup
    rw [List.map_append, List.nodup_append]
    refine ⟨hg.targets_nodup.sublist (List.filter_sublist.map _), List.nodup_singleton _, ?_⟩
    intro a ha b hb
    obtain ⟨l, hl, rfl⟩ := List.mem_map.1 ha
    rw [List.mem_singleton.1 hb]
    simpa using (List.mem_filter.1 hl).2

/-! ## The interface -/

/-- The interface nodes alone are a well-formed graph. -/
theorem wellFormed_empty : empty.WellFormed where
  ids_nodup := by decide
  id_lt := by decide
  fits := by
    have hall : ∀ n ∈ empty.nodes, (n.kind = .groupInput ↔ n.id = entry) ∧
        (n.kind = .groupOutput ↔ n.id = exit) ∧ n.inputs = [] ∧ n.outputs = [] ∧
        n.kind.inputs = [] ∧ n.kind.outputs = [] := by decide
    intro n hn
    obtain ⟨hentry, hexit, hin, hout, hkin, hkout⟩ := hall n hn
    refine ⟨hentry, hexit, fun _ => ?_, fun _ => ?_, fun s hs => ?_⟩
    · rw [hin, hkin]; rfl
    · rw [hout, hkout]; rfl
    · rw [hin] at hs; exact absurd hs List.not_mem_nil
  hasEntry := by decide
  hasExit := by decide
  input_names := by decide
  output_names := by decide
  link_ids := by decide
  link_lt := by decide
  sources l hl := absurd hl List.not_mem_nil
  targets l hl := absurd hl List.not_mem_nil
  targets_nodup := by decide
  acyclic n h := by
    obtain ⟨m, -, l, hl, -⟩ := TransGen.tail'_iff.1 h
    exact absurd hl List.not_mem_nil
  active n h := absurd h (by simp [empty, insertNode])

/-- A name that no socket has stays out of the names. -/
theorem findSocket?_eq_none {name : String} {sockets : List Socket} :
    findSocket? name sockets = none ↔ name ∉ sockets.map Socket.name := by
  rw [findSocket?]
  cases h : sockets.findIdx? (·.name == name) with
  | none =>
    simp only [Option.bind_eq_bind, Option.bind_none, true_iff]
    intro hmem
    obtain ⟨s, hs, rfl⟩ := List.mem_map.1 hmem
    exact absurd (List.findIdx?_eq_none_iff.1 h s hs) (by simp)
  | some index =>
    obtain ⟨hlt, hname, -⟩ := List.findIdx?_eq_some_iff_getElem.1 h
    simp only [beq_iff_eq] at hname
    simp only [Option.bind_eq_bind, Option.bind_some, List.getElem?_eq_getElem hlt]
    simp only [reduceCtorEq, Option.pure_def, false_iff, not_not]
    exact List.mem_map.2 ⟨_, List.getElem_mem hlt, hname⟩

theorem nodup_names_append {sockets : List Socket} {name : String} {type : SocketType}
    (hnodup : (sockets.map Socket.name).Nodup) (hnew : name ∉ sockets.map Socket.name) :
    ((sockets ++ [Socket.fresh name type]).map Socket.name).Nodup := by
  rw [List.map_append, List.nodup_append]
  refine ⟨hnodup, List.nodup_singleton _, ?_⟩
  intro a ha b hb hab
  rw [hab, List.mem_singleton.1 hb] at ha
  exact hnew ha

theorem getElem?_append_fresh {sockets : List Socket} {index : Nat} {s : Socket}
    (h : sockets[index]? = some s) (more : List Socket) : (sockets ++ more)[index]? = some s := by
  rw [List.getElem?_append_left (List.getElem?_eq_some_iff.1 h).1, h]

theorem WellFormed.newInput (hg : g.WellFormed) {name : String} {type : SocketType}
    {o : OutputRef} (h : g.newInput name type = .ok (o, g')) : g'.WellFormed := by
  obtain ⟨hnew, -, -, rfl⟩ := newInput_eq_ok.1 h
  have hnone : findSocket? name g.inputSockets = none := by
    simpa [input?] using hnew
  have hkeeps : KeepsId fun n : Node => { n with outputs := n.outputs ++ [.fresh name type] } :=
    fun _ => rfl
  obtain ⟨source, hsource⟩ := hasNode_iff.1 hg.hasEntry
  refine hg.updateNode hkeeps (fun _ _ s hs => ⟨s, hs⟩)
    (fun _ _ s hs => ⟨s, getElem?_append_fresh hs _⟩) ?_ ?_ ?_
  · intro node hnode hid
    have hfits := hg.fits node hnode
    exact ⟨hfits.entry_iff, hfits.exit_iff, hfits.inputs, fun hne => absurd hid hne,
      hfits.defaults⟩
  · have hnames := hg.input_names
    rw [inputSockets_updateNode hkeeps]
    simp only [inputSockets, hsource, Option.map_some, Option.getD_some, if_true] at hnames hnone ⊢
    exact nodup_names_append hnames (findSocket?_eq_none.1 hnone)
  · rw [outputSockets_updateNode hkeeps]
    simpa only [if_neg (by decide : ¬ exit = entry), outputSockets] using hg.output_names

theorem WellFormed.newOutput (hg : g.WellFormed) {name : String} {type : SocketType}
    {i : InputRef} (h : g.newOutput name type = .ok (i, g')) : g'.WellFormed := by
  obtain ⟨hnew, -, -, rfl⟩ := newOutput_eq_ok.1 h
  have hnone : findSocket? name g.outputSockets = none := by
    simpa [output?] using hnew
  have hkeeps : KeepsId fun n : Node => { n with inputs := n.inputs ++ [.fresh name type] } :=
    fun _ => rfl
  obtain ⟨sink, hsink⟩ := hasNode_iff.1 hg.hasExit
  refine hg.updateNode hkeeps (fun _ _ s hs => ⟨s, getElem?_append_fresh hs _⟩)
    (fun _ _ s hs => ⟨s, hs⟩) ?_ ?_ ?_
  · intro node hnode hid
    have hfits := hg.fits node hnode
    refine ⟨hfits.entry_iff, hfits.exit_iff, fun hne => absurd hid hne, hfits.outputs, ?_⟩
    intro s hs
    rcases List.mem_append.1 hs with hs | hs
    · exact hfits.defaults s hs
    · rw [List.mem_singleton.1 hs]
      exact Value.type_zero type
  · rw [inputSockets_updateNode hkeeps]
    simpa only [if_neg (by decide : ¬ entry = exit), inputSockets] using hg.input_names
  · have hnames := hg.output_names
    rw [outputSockets_updateNode hkeeps]
    simp only [outputSockets, hsink, Option.map_some, Option.getD_some, if_true]
      at hnames hnone ⊢
    exact nodup_names_append hnames (findSocket?_eq_none.1 hnone)

/-- What holds at first and is kept by each step holds at the end of a run. -/
theorem foldlM_keeps {α ε : Type} {f : Graph → α → Except ε Graph} {P : Graph → Prop}
    (hstep : ∀ g a g', P g → f g a = .ok g' → P g') {xs : List α} (h : P g)
    (hrun : xs.foldlM f g = .ok g') : P g' := by
  induction xs generalizing g with
  | nil =>
    cases hrun
    exact h
  | cons a xs ih =>
    rw [List.foldlM_cons] at hrun
    obtain ⟨next, ha, hrest⟩ := bind_eq_ok hrun
    exact ih (hstep g a next h ha) hrest

/-- **What an interface is made of.** A property of the empty graph that new inputs and
outputs keep holds of every graph with an interface and nothing else. -/
theorem withInterface_keeps {P : Graph → Prop} {inputs outputs : List (String × SocketType)}
    (hempty : P empty)
    (hinput : ∀ g name type o g', P g → g.newInput name type = .ok (o, g') → P g')
    (houtput : ∀ g name type i g', P g → g.newOutput name type = .ok (i, g') → P g')
    (h : withInterface inputs outputs = .ok g) : P g := by
  obtain ⟨mid, hin, h⟩ := bind_eq_ok h
  refine foldlM_keeps (fun g x g' hg hx => ?_) (foldlM_keeps (fun g x g' hg hx => ?_) hempty hin) h
  · cases hnew : g.newOutput x.1 x.2 with
    | error e => simp [hnew, Except.map] at hx
    | ok r =>
      simp only [hnew, Except.map, Except.ok.injEq] at hx
      exact houtput g x.1 x.2 r.1 g' hg (by rw [hnew, ← hx])
  · cases hnew : g.newInput x.1 x.2 with
    | error e => simp [hnew, Except.map] at hx
    | ok r =>
      simp only [hnew, Except.map, Except.ok.injEq] at hx
      exact hinput g x.1 x.2 r.1 g' hg (by rw [hnew, ← hx])

theorem wellFormed_of_withInterface {inputs outputs : List (String × SocketType)}
    (h : withInterface inputs outputs = .ok g) : g.WellFormed :=
  withInterface_keeps wellFormed_empty (fun _ _ _ _ _ hg hnew => hg.newInput hnew)
    (fun _ _ _ _ _ hg hnew => hg.newOutput hnew) h

end Graph

end NodeFormula
