import NodeFormula.Proofs.Graph.Edited
/-!
# NodeFormula — what is taken away

`Graph.unlink` removes a link. `Graph.removeSocket` removes a socket of the interface
with its links; the sockets behind it move up by one, and their links follow. So the
links of the new graph are renumbered ones of the old graph, some left out: they keep
their identifiers and the nodes they join (`Link.ends`), and the new position of a
socket holds what the old one held (`getElem?_eraseIdx_shiftIndex`).
-/

namespace NodeFormula

open Relation

/-- A link without the positions of its sockets. -/
def Link.ends (l : Link) : LinkId × NodeId × NodeId := (l.id, l.source.node, l.target.node)

namespace Graph

variable {g g' : Graph} {n m : NodeId}

/-! ## Positions -/

/-- A socket other than the removed one is found at its shifted position. -/
theorem getElem?_eraseIdx_shiftIndex {α : Type} (xs : List α) {removed index : Nat}
    (h : index ≠ removed) : (xs.eraseIdx removed)[shiftIndex removed index]? = xs[index]? := by
  rw [List.getElem?_eraseIdx, shiftIndex]
  by_cases hlt : removed < index
  · have hback : index - 1 + 1 = index := by omega
    rw [if_pos hlt, if_neg (by omega), hback]
  · rw [if_neg hlt, if_pos (by omega)]

theorem shiftIndex_inj {removed i j : Nat} (hi : i ≠ removed) (hj : j ≠ removed)
    (h : shiftIndex removed i = shiftIndex removed j) : i = j := by
  unfold shiftIndex at h
  split at h <;> split at h <;> omega

/-! ## Links that are left out -/

/-- A graph with one node changed and other links. -/
def redrawn (g : Graph) (n : NodeId) (f : Node → Node) (links : List Link) : Graph :=
  { g.updateNode n f with links }

theorem node?_redrawn {f : Node → Node} (hf : KeepsId f) (links : List Link) :
    (g.redrawn n f links).node? m =
      (g.node? m).map fun node => if m = n then f node else node :=
  node?_updateNode hf n m

theorem node?_redrawn_self {f : Node → Node} (hf : KeepsId f) (links : List Link) {node : Node}
    (h : g.node? n = some node) : (g.redrawn n f links).node? n = some (f node) := by
  rw [node?_redrawn hf, h, Option.map_some, if_pos rfl]

theorem node?_redrawn_of_ne {f : Node → Node} (hf : KeepsId f) (links : List Link) (h : m ≠ n) :
    (g.redrawn n f links).node? m = g.node? m := by
  rw [node?_redrawn hf]
  cases g.node? m with
  | none => rfl
  | some node => rw [Option.map_some, if_neg h]

theorem hasNode_redrawn {f : Node → Node} (hf : KeepsId f) (links : List Link) :
    (g.redrawn n f links).hasNode m = g.hasNode m :=
  hasNode_updateNode hf

theorem Linked.of_ends (hends : (g'.links.map Link.ends).Sublist (g.links.map Link.ends))
    (hmn : g'.Linked m n) : g.Linked m n := by
  obtain ⟨l, hl, rfl, rfl⟩ := hmn
  obtain ⟨old, hold, hsame⟩ := List.mem_map.1 (hends.subset (List.mem_map_of_mem hl))
  simp only [Link.ends, Prod.mk.injEq] at hsame
  exact ⟨old, hold, hsame.2.1, hsame.2.2⟩

theorem map_id_sublist_of_ends {links links' : List Link}
    (hends : (links'.map Link.ends).Sublist (links.map Link.ends)) :
    (links'.map Link.id).Sublist (links.map Link.id) := by
  have hid : Link.id = Prod.fst ∘ Link.ends := rfl
  rw [hid, ← List.map_map, ← List.map_map]
  exact hends.map _

/-- **A graph stays well formed when a node changes and links are left out or
renumbered**, if the links that remain join sockets of the changed graph and no two of
them lead into one input. -/
theorem WellFormed.redrawn (hg : g.WellFormed) {f : Node → Node} {links : List Link}
    (hkeeps : KeepsId f) (hends : (links.map Link.ends).Sublist (g.links.map Link.ends))
    (hfits : ∀ node ∈ g.nodes, node.id = n → (f node).Fits)
    (hinputs : ((g.redrawn n f links).inputSockets.map Socket.name).Nodup)
    (houtputs : ((g.redrawn n f links).outputSockets.map Socket.name).Nodup)
    (hsources : ∀ l ∈ links, ∃ s, (g.redrawn n f links).outputSocket l.source = .ok s)
    (htargets : ∀ l ∈ links, ∃ s, (g.redrawn n f links).inputSocket l.target = .ok s)
    (hnodup : (links.map Link.target).Nodup) : (g.redrawn n f links).WellFormed := by
  have hids := map_id_sublist_of_ends hends
  refine
    { ids_nodup := ?_
      id_lt := id_lt_updateNode hkeeps hg.id_lt
      fits := fits_updateNode hg.fits hfits
      hasEntry := by rw [hasNode_redrawn hkeeps]; exact hg.hasEntry
      hasExit := by rw [hasNode_redrawn hkeeps]; exact hg.hasExit
      input_names := hinputs
      output_names := houtputs
      link_ids := hg.link_ids.sublist hids
      link_lt := ?_
      sources := hsources
      targets := htargets
      targets_nodup := hnodup
      acyclic := fun m hm => hg.acyclic m (TransGen.mono (fun _ _ => Linked.of_ends hends) m m hm)
      active := fun m hm => by rw [hasNode_redrawn hkeeps]; exact hg.active m hm }
  · change ((g.updateNode n f).nodes.map Node.id).Nodup
    rw [map_id_updateNode hkeeps]
    exact hg.ids_nodup
  · intro l hl
    obtain ⟨old, hold, hid⟩ := List.mem_map.1 (hids.subset (List.mem_map_of_mem hl))
    rw [← hid]
    exact hg.link_lt old hold

theorem unlink_eq_ok {id : LinkId} :
    g.unlink id = .ok g' ↔
      (∃ l ∈ g.links, l.id = id) ∧ g' = { g with links := g.links.filter (·.id != id) } := by
  have hany : g.links.any (·.id == id) = true ↔ ∃ l ∈ g.links, l.id = id := by simp
  rw [unlink_eq]
  by_cases h : ∃ l ∈ g.links, l.id = id
  · rw [if_pos (hany.2 h), Except.ok.injEq, eq_comm]
    exact (and_iff_right h).symm
  · rw [if_neg (mt hany.1 h)]
    simp [h]

/-- Links may go. -/
theorem WellFormed.filter_links (hg : g.WellFormed) (keep : Link → Bool) :
    { g with links := g.links.filter keep }.WellFormed :=
  { hg with
    link_ids := hg.link_ids.sublist (List.filter_sublist.map _)
    link_lt := fun l hl => hg.link_lt l (List.mem_of_mem_filter hl)
    sources := fun l hl => hg.sources l (List.mem_of_mem_filter hl)
    targets := fun l hl => hg.targets l (List.mem_of_mem_filter hl)
    targets_nodup := hg.targets_nodup.sublist (List.filter_sublist.map _)
    acyclic := fun m hm => hg.acyclic m
      (transGen_linked_mono (fun _ hl => List.mem_of_mem_filter hl) hm) }

theorem WellFormed.unlink (hg : g.WellFormed) {id : LinkId} (h : g.unlink id = .ok g') :
    g'.WellFormed := by
  obtain ⟨-, rfl⟩ := unlink_eq_ok.1 h
  exact hg.filter_links _

/-! ## Sockets that are removed -/

theorem nodup_names_eraseIdx {sockets : List Socket} (index : Nat)
    (h : (sockets.map Socket.name).Nodup) : ((sockets.eraseIdx index).map Socket.name).Nodup :=
  h.sublist ((List.eraseIdx_sublist _ _).map _)

/-- Renumbering links changes none of their ends. -/
theorem ends_sublist {p : Link → Bool} {f : Link → Link} (hf : ∀ l, (f l).ends = l.ends) :
    (((g.links.filter p).map f).map Link.ends).Sublist (g.links.map Link.ends) := by
  have hcomp : Link.ends ∘ f = Link.ends := funext hf
  rw [List.map_map, hcomp]
  exact List.filter_sublist.map _

/-! A removed input of the graph is an output of its entry: sources of links move. -/

/-- The source of a link after the output of the entry at `index` is gone. -/
def dropSource (index : Nat) (l : Link) : Link :=
  if l.source.node = entry then
    { l with source := ⟨entry, shiftIndex index l.source.index⟩ }
  else l

theorem ends_dropSource (index : Nat) (l : Link) : (dropSource index l).ends = l.ends := by
  unfold dropSource
  split
  · rename_i h
    simp only [Link.ends, h]
  · rfl

theorem target_dropSource (index : Nat) (l : Link) : (dropSource index l).target = l.target := by
  unfold dropSource
  split <;> rfl

theorem keepsId_eraseOutput (index : Nat) :
    KeepsId fun n : Node => { n with outputs := n.outputs.eraseIdx index } := fun _ => rfl

theorem dropInput_eq (g : Graph) (index : Nat) :
    g.dropInput index =
      g.redrawn entry (fun n => { n with outputs := n.outputs.eraseIdx index })
        ((g.links.filter fun l => !(l.source.node == entry && l.source.index == index)).map
          (dropSource index)) := rfl

theorem node?_dropInput_of_ne (index : Nat) (h : m ≠ entry) :
    (g.dropInput index).node? m = g.node? m :=
  node?_redrawn_of_ne (keepsId_eraseOutput index) _ h

theorem inputSockets_dropInput (hentry : g.hasNode entry) (index : Nat) :
    (g.dropInput index).inputSockets = g.inputSockets.eraseIdx index := by
  obtain ⟨node, hnode⟩ := hasNode_iff.1 hentry
  rw [dropInput_eq, inputSockets, inputSockets, node?_redrawn_self (keepsId_eraseOutput index) _ hnode, hnode]
  rfl

/-- No node loses an input. -/
theorem inputSocket_dropInput {i : InputRef} {s : Socket} (index : Nat)
    (hs : g.inputSocket i = .ok s) : (g.dropInput index).inputSocket i = .ok s := by
  obtain ⟨node, hnode, hsock⟩ := inputSocket_eq_ok.1 hs
  refine inputSocket_eq_ok.2 ?_
  rw [dropInput_eq, node?_redrawn (keepsId_eraseOutput index), hnode]
  refine ⟨_, rfl, ?_⟩
  split <;> exact hsock

/-- The source of a link is found where it has moved to. -/
theorem outputSocket_dropSource {l : Link} {index : Nat} (hne : l.source ≠ ⟨entry, index⟩)
    {s : Socket} (hs : g.outputSocket l.source = .ok s) :
    (g.dropInput index).outputSocket (dropSource index l).source = .ok s := by
  obtain ⟨node, hnode, hsock⟩ := outputSocket_eq_ok.1 hs
  refine outputSocket_eq_ok.2 ?_
  unfold dropSource
  by_cases hentry : l.source.node = entry
  · have hindex : l.source.index ≠ index := by
      intro hindex
      exact hne (by rw [← hentry, ← hindex])
    rw [hentry] at hnode
    rw [if_pos hentry]
    exact ⟨_, node?_redrawn_self (keepsId_eraseOutput index) _ hnode,
      (getElem?_eraseIdx_shiftIndex _ hindex).trans hsock⟩
  · rw [if_neg hentry]
    exact ⟨node, (node?_dropInput_of_ne index hentry).trans hnode, hsock⟩

theorem WellFormed.dropInput (hg : g.WellFormed) (index : Nat) :
    (g.dropInput index).WellFormed := by
  rw [dropInput_eq]
  refine hg.redrawn (keepsId_eraseOutput index) (ends_sublist (ends_dropSource index)) ?_ ?_ ?_ ?_ ?_ ?_
  · intro node hnode hid
    have hfits := hg.fits node hnode
    exact ⟨hfits.entry_iff, hfits.exit_iff, hfits.inputs, fun hne => absurd hid hne,
      hfits.defaults⟩
  · rw [← dropInput_eq, inputSockets_dropInput hg.hasEntry]
    exact nodup_names_eraseIdx index hg.input_names
  · rw [← dropInput_eq, outputSockets_congr (node?_dropInput_of_ne index (by decide))]
    exact hg.output_names
  · intro l hl
    obtain ⟨old, hkept, rfl⟩ := List.mem_map.1 hl
    obtain ⟨hold, hother⟩ := List.mem_filter.1 hkept
    obtain ⟨s, hs⟩ := hg.sources old hold
    refine ⟨s, outputSocket_dropSource (fun heq => ?_) hs⟩
    simp [heq] at hother
  · intro l hl
    obtain ⟨old, hkept, rfl⟩ := List.mem_map.1 hl
    obtain ⟨s, hs⟩ := hg.targets old (List.mem_of_mem_filter hkept)
    rw [target_dropSource]
    exact ⟨s, inputSocket_dropInput index hs⟩
  · have hcomp : Link.target ∘ dropSource index = Link.target := funext (target_dropSource index)
    rw [List.map_map, hcomp]
    exact hg.targets_nodup.sublist (List.filter_sublist.map _)

/-! A removed output of the graph is an input of its exit: targets of links move. -/

/-- The target of a link after the input of the exit at `index` is gone. -/
def dropTarget (index : Nat) (l : Link) : Link :=
  if l.target.node = exit then
    { l with target := ⟨exit, shiftIndex index l.target.index⟩ }
  else l

theorem ends_dropTarget (index : Nat) (l : Link) : (dropTarget index l).ends = l.ends := by
  unfold dropTarget
  split
  · rename_i h
    simp only [Link.ends, h]
  · rfl

theorem source_dropTarget (index : Nat) (l : Link) : (dropTarget index l).source = l.source := by
  unfold dropTarget
  split <;> rfl

/-- Inputs that were different stay different. -/
theorem target_eq_of_dropTarget {index : Nat} {l k : Link} (hl : l.target ≠ ⟨exit, index⟩)
    (hk : k.target ≠ ⟨exit, index⟩)
    (h : (dropTarget index l).target = (dropTarget index k).target) : l.target = k.target := by
  obtain ⟨id, source, ⟨node, i⟩⟩ := l
  obtain ⟨id', source', ⟨node', j⟩⟩ := k
  unfold dropTarget at h
  by_cases hn : node = exit
  · by_cases hn' : node' = exit
    · subst hn hn'
      simp only [if_true, InputRef.mk.injEq, true_and] at h
      have hi : i ≠ index := fun hi => hl (by rw [hi])
      have hj : j ≠ index := fun hj => hk (by rw [hj])
      rw [shiftIndex_inj hi hj h]
    · simp only [if_pos hn, if_neg hn', InputRef.mk.injEq] at h
      exact absurd h.1.symm hn'
  · by_cases hn' : node' = exit
    · simp only [if_neg hn, if_pos hn', InputRef.mk.injEq] at h
      exact absurd h.1 hn
    · simpa only [if_neg hn, if_neg hn'] using h

theorem keepsId_eraseInput (index : Nat) :
    KeepsId fun n : Node => { n with inputs := n.inputs.eraseIdx index } := fun _ => rfl

theorem dropOutput_eq (g : Graph) (index : Nat) :
    g.dropOutput index =
      g.redrawn exit (fun n => { n with inputs := n.inputs.eraseIdx index })
        ((g.links.filter fun l => !(l.target.node == exit && l.target.index == index)).map
          (dropTarget index)) := rfl

theorem node?_dropOutput_of_ne (index : Nat) (h : m ≠ exit) :
    (g.dropOutput index).node? m = g.node? m :=
  node?_redrawn_of_ne (keepsId_eraseInput index) _ h

theorem outputSockets_dropOutput (hexit : g.hasNode exit) (index : Nat) :
    (g.dropOutput index).outputSockets = g.outputSockets.eraseIdx index := by
  obtain ⟨node, hnode⟩ := hasNode_iff.1 hexit
  rw [dropOutput_eq, outputSockets, outputSockets, node?_redrawn_self (keepsId_eraseInput index) _ hnode, hnode]
  rfl

/-- No node loses an output. -/
theorem outputSocket_dropOutput {o : OutputRef} {s : Socket} (index : Nat)
    (hs : g.outputSocket o = .ok s) : (g.dropOutput index).outputSocket o = .ok s := by
  obtain ⟨node, hnode, hsock⟩ := outputSocket_eq_ok.1 hs
  refine outputSocket_eq_ok.2 ?_
  rw [dropOutput_eq, node?_redrawn (keepsId_eraseInput index), hnode]
  refine ⟨_, rfl, ?_⟩
  split <;> exact hsock

/-- The target of a link is found where it has moved to. -/
theorem inputSocket_dropTarget {l : Link} {index : Nat} (hne : l.target ≠ ⟨exit, index⟩)
    {s : Socket} (hs : g.inputSocket l.target = .ok s) :
    (g.dropOutput index).inputSocket (dropTarget index l).target = .ok s := by
  obtain ⟨node, hnode, hsock⟩ := inputSocket_eq_ok.1 hs
  refine inputSocket_eq_ok.2 ?_
  unfold dropTarget
  by_cases hexit : l.target.node = exit
  · have hindex : l.target.index ≠ index := by
      intro hindex
      exact hne (by rw [← hexit, ← hindex])
    rw [hexit] at hnode
    rw [if_pos hexit]
    exact ⟨_, node?_redrawn_self (keepsId_eraseInput index) _ hnode,
      (getElem?_eraseIdx_shiftIndex _ hindex).trans hsock⟩
  · rw [if_neg hexit]
    exact ⟨node, (node?_dropOutput_of_ne index hexit).trans hnode, hsock⟩

theorem WellFormed.dropOutput (hg : g.WellFormed) (index : Nat) :
    (g.dropOutput index).WellFormed := by
  have hother : ∀ l ∈ g.links.filter fun l => !(l.target.node == exit && l.target.index == index),
      l.target ≠ ⟨exit, index⟩ := by
    intro l hl htarget
    have hkept := (List.mem_filter.1 hl).2
    simp [htarget] at hkept
  rw [dropOutput_eq]
  refine hg.redrawn (keepsId_eraseInput index) (ends_sublist (ends_dropTarget index)) ?_ ?_ ?_ ?_ ?_ ?_
  · intro node hnode hid
    have hfits := hg.fits node hnode
    exact ⟨hfits.entry_iff, hfits.exit_iff, fun hne => absurd hid hne, hfits.outputs,
      fun s hs => hfits.defaults s (List.mem_of_mem_eraseIdx hs)⟩
  · rw [← dropOutput_eq, inputSockets_congr (node?_dropOutput_of_ne index (by decide))]
    exact hg.input_names
  · rw [← dropOutput_eq, outputSockets_dropOutput hg.hasExit]
    exact nodup_names_eraseIdx index hg.output_names
  · intro l hl
    obtain ⟨old, hkept, rfl⟩ := List.mem_map.1 hl
    obtain ⟨s, hs⟩ := hg.sources old (List.mem_of_mem_filter hkept)
    rw [source_dropTarget]
    exact ⟨s, outputSocket_dropOutput index hs⟩
  · intro l hl
    obtain ⟨old, hkept, rfl⟩ := List.mem_map.1 hl
    obtain ⟨s, hs⟩ := hg.targets old (List.mem_of_mem_filter hkept)
    exact ⟨s, inputSocket_dropTarget (hother old hkept) hs⟩
  · -- inputs that were different stay so when they move
    have hkept := hg.targets_nodup.sublist
      ((List.filter_sublist (p := fun l => !(l.target.node == exit && l.target.index == index))
        (l := g.links)).map Link.target)
    rw [List.map_map]
    refine List.Nodup.map_on (fun l hl k hk h => ?_) (List.Nodup.of_map _ hkept)
    exact List.inj_on_of_nodup_map hkept hl hk
      (target_eq_of_dropTarget (hother l hl) (hother k hk) h)

theorem WellFormed.removeSocket (hg : g.WellFormed) {name : String}
    (h : g.removeSocket name = .ok g') : g'.WellFormed := by
  rw [removeSocket_eq] at h
  split at h
  · cases h
    exact hg.dropInput _
  · split at h
    · cases h
      exact hg.dropOutput _
    · cases h

end Graph

end NodeFormula
