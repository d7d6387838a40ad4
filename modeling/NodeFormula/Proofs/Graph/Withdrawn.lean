import NodeFormula.Proofs.Graph.Evaluation
import NodeFormula.Proofs.Graph.History
/-!
# NodeFormula — a graph without a socket of its interface

The sockets of the interface are known by name, and their positions change when a socket in front
of them goes. Under their names the links that remain are those that were there
(`namedLinks_dropInput`, `namedLinks_dropOutput`), and an output that the removed socket did not
reach has the value that it had (`evaluate_dropInput`, `evaluate_dropOutput`).
`removeSocket_keeps` says so of the operation.
-/

namespace NodeFormula

open Relation

/-- An end of a link. Sockets of the interface have a name for a position. -/
inductive Port where
  | named (name : Option String)
  | placed (node : NodeId) (index : Nat)
  deriving DecidableEq

/-- A link between ports. -/
structure NamedLink where
  id : LinkId
  source : Port
  target : Port
  deriving DecidableEq

namespace Graph

/-- The output of the entry or of another node. -/
def sourcePort (g : Graph) (o : OutputRef) : Port :=
  if o.node = entry then .named ((g.inputSockets.map Socket.name)[o.index]?)
  else .placed o.node o.index

/-- The input of the exit or of another node. -/
def targetPort (g : Graph) (i : InputRef) : Port :=
  if i.node = exit then .named ((g.outputSockets.map Socket.name)[i.index]?)
  else .placed i.node i.index

/-- **The links under the names of the interface.** -/
def namedLinks (g : Graph) : List NamedLink :=
  g.links.map fun l => ⟨l.id, g.sourcePort l.source, g.targetPort l.target⟩

/-- The nodes that are not of the interface. -/
def innerNodes (g : Graph) : List Node := g.nodes.filter fun n => n.id != entry && n.id != exit

/-- Links lead from an output to an input, through any number of nodes. -/
def Reaches (g : Graph) (o : OutputRef) (i : InputRef) : Prop :=
  ∃ l ∈ g.links, l.source = o ∧ (l.target = i ∨ g.Behind i l.target.node)

variable {g g' : Graph} {sockets : List Socket} {s : Socket} {removed index : Nat}
  {name t : String} {inputs : String → Option Value}

/-! ## Sockets by name -/

/-- Names that differ are at one position each. -/
theorem name_eq_iff (hnames : (sockets.map Socket.name).Nodup) (hs : sockets[removed]? = some s) :
    (sockets.map Socket.name)[index]? = some s.name ↔ index = removed := by
  have hname : (sockets.map Socket.name)[removed]? = some s.name := by
    rw [List.getElem?_map, hs]
    rfl
  constructor
  · intro h
    obtain ⟨hlt, -⟩ := List.getElem?_eq_some_iff.1 h
    exact (List.getElem?_inj hlt hnames).1 (h.trans hname.symm)
  · rintro rfl
    exact hname

/-- The other sockets are those of other names. -/
theorem eraseIdx_eq_filter (hnames : (sockets.map Socket.name).Nodup)
    (hs : sockets[removed]? = some s) :
    sockets.eraseIdx removed = sockets.filter (·.name != s.name) := by
  induction sockets generalizing removed with
  | nil => rfl
  | cons a sockets ih =>
    rw [List.map_cons, List.nodup_cons] at hnames
    cases removed with
    | zero =>
      cases hs
      rw [List.eraseIdx_cons_zero, List.filter_cons_of_neg (by simp), List.filter_eq_self.2]
      intro b hb
      rw [bne_iff_ne]
      intro heq
      exact hnames.1 (heq ▸ List.mem_map_of_mem hb)
    | succ removed =>
      rw [List.getElem?_cons_succ] at hs
      have hne : a.name ≠ s.name := fun heq =>
        hnames.1 (heq ▸ List.mem_map_of_mem (List.mem_of_getElem? hs))
      rw [List.eraseIdx_cons_succ, ih hnames.2 hs, List.filter_cons, if_pos (bne_iff_ne.2 hne)]

theorem findSocket?_eq_some_iff {type : SocketType} (hnames : (sockets.map Socket.name).Nodup) :
    findSocket? name sockets = some (index, type) ↔
      ∃ s, sockets[index]? = some s ∧ s.name = name ∧ s.type = type := by
  refine ⟨findSocket?_eq_some, ?_⟩
  rintro ⟨s, hs, rfl, rfl⟩
  cases hfind : findSocket? s.name sockets with
  | none =>
    exact absurd (List.mem_map_of_mem (List.mem_of_getElem? hs)) (findSocket?_eq_none.1 hfind)
  | some x =>
    obtain ⟨index', type⟩ := x
    obtain ⟨s', hs', hname, rfl⟩ := findSocket?_eq_some hfind
    obtain rfl : index' = index := (name_eq_iff hnames hs).1 (by
      rw [List.getElem?_map, hs', Option.map_some, hname])
    rw [hs] at hs'
    cases hs'
    rfl

/-- Another name is found at the position that has moved. -/
theorem findSocket?_eraseIdx (hnames : (sockets.map Socket.name).Nodup)
    (hs : sockets[removed]? = some s) (ht : t ≠ s.name) :
    findSocket? t (sockets.eraseIdx removed) =
      (findSocket? t sockets).map fun x => (shiftIndex removed x.1, x.2) := by
  cases hfind : findSocket? t sockets with
  | none =>
    rw [Option.map_none, findSocket?_eq_none]
    exact fun hmem => findSocket?_eq_none.1 hfind (((List.eraseIdx_sublist _ _).map _).subset hmem)
  | some x =>
    obtain ⟨index, type⟩ := x
    obtain ⟨s', hs', rfl, rfl⟩ := findSocket?_eq_some hfind
    have hne : index ≠ removed := by
      rintro rfl
      rw [hs] at hs'
      cases hs'
      exact ht rfl
    rw [Option.map_some, findSocket?_eq_some_iff (nodup_names_eraseIdx removed hnames)]
    exact ⟨s', (getElem?_eraseIdx_shiftIndex _ hne).trans hs', rfl, rfl⟩

/-! ## What a removal leaves alone -/

theorem innerNodes_redrawn {n : NodeId} {f : Node → Node} (hf : KeepsId f) (links : List Link)
    (hn : n = entry ∨ n = exit) : (g.redrawn n f links).innerNodes = g.innerNodes := by
  have hinner : ∀ node : Node, node.id = n → (node.id != entry && node.id != exit) = false := by
    rintro node hid
    rcases hn with rfl | rfl <;> simp [hid]
  change (g.nodes.map fun node => if node.id = n then f node else node).filter _ = g.nodes.filter _
  induction g.nodes with
  | nil => rfl
  | cons node nodes ih =>
    rw [List.map_cons, List.filter_cons, List.filter_cons, ih]
    by_cases hid : node.id = n
    · rw [if_pos hid, hf node, hinner node hid]
      rfl
    · rw [if_neg hid]

/-- The entry without one of its outputs. -/
theorem WellFormed.interface_dropInput (hg : g.WellFormed) (removed : Nat) :
    (g.dropInput removed).inputSockets = g.inputSockets.eraseIdx removed ∧
      (∀ n, n ≠ entry → (g.dropInput removed).node? n = g.node? n) ∧
      (g.dropInput removed).innerNodes = g.innerNodes :=
  ⟨inputSockets_dropInput hg.hasEntry removed, fun _ => node?_dropInput_of_ne removed,
    innerNodes_redrawn (keepsId_eraseOutput removed) _ (Or.inl rfl)⟩

/-- The exit without one of its inputs. -/
theorem WellFormed.interface_dropOutput (hg : g.WellFormed) (removed : Nat) :
    (g.dropOutput removed).outputSockets = g.outputSockets.eraseIdx removed ∧
      (∀ n, n ≠ exit → (g.dropOutput removed).node? n = g.node? n) ∧
      (g.dropOutput removed).innerNodes = g.innerNodes :=
  ⟨outputSockets_dropOutput hg.hasExit removed, fun _ => node?_dropOutput_of_ne removed,
    innerNodes_redrawn (keepsId_eraseInput removed) _ (Or.inr rfl)⟩

theorem links_dropInput (g : Graph) (removed : Nat) : (g.dropInput removed).links =
    (g.links.filter (·.source != ⟨entry, removed⟩)).map (dropSource removed) := by
  rw [dropInput_eq]
  refine congrArg (List.map _) (List.filter_congr fun l _ => ?_)
  obtain ⟨id, ⟨n, i⟩, target⟩ := l
  rw [Bool.eq_iff_iff]
  simp [imp_iff_not_or]

theorem links_dropOutput (g : Graph) (removed : Nat) : (g.dropOutput removed).links =
    (g.links.filter (·.target != ⟨exit, removed⟩)).map (dropTarget removed) := by
  rw [dropOutput_eq]
  refine congrArg (List.map _) (List.filter_congr fun l _ => ?_)
  obtain ⟨id, source, ⟨n, i⟩⟩ := l
  rw [Bool.eq_iff_iff]
  simp [imp_iff_not_or]

/-! ## Links under their names -/

/-- **Without an input the links are those of the other sockets.** -/
theorem WellFormed.namedLinks_dropInput (hg : g.WellFormed)
    (hs : g.inputSockets[removed]? = some s) :
    (g.dropInput removed).namedLinks = g.namedLinks.filter (·.source != .named (some s.name)) := by
  obtain ⟨hinputs, hothers, -⟩ := hg.interface_dropInput removed
  have houtputs := outputSockets_congr (hothers exit (by decide))
  have hfilter : g.links.filter (·.source != ⟨entry, removed⟩) =
      g.links.filter ((·.source != Port.named (some s.name)) ∘
        fun l => NamedLink.mk l.id (g.sourcePort l.source) (g.targetPort l.target)) := by
    refine List.filter_congr fun l _ => ?_
    obtain ⟨id, ⟨n, i⟩, target⟩ := l
    rw [Function.comp_apply, sourcePort, Bool.eq_iff_iff]
    by_cases hentry : n = entry
    · simp [hentry, ← name_eq_iff hg.input_names hs]
    · simp [hentry]
  rw [namedLinks, namedLinks, List.filter_map, ← hfilter, links_dropInput, List.map_map]
  refine List.map_congr_left fun l hl => ?_
  have hkept := (List.mem_filter.1 hl).2
  obtain ⟨id, ⟨n, i⟩, target⟩ := l
  simp only [Function.comp_apply, dropSource, sourcePort, targetPort, hinputs, houtputs]
  by_cases hentry : n = entry
  · have hne : i ≠ removed := by simpa [hentry] using hkept
    simp [hentry, getElem?_eraseIdx_shiftIndex _ hne]
  · simp [hentry]

/-- **Without an output the links are those of the other sockets.** -/
theorem WellFormed.namedLinks_dropOutput (hg : g.WellFormed)
    (hs : g.outputSockets[removed]? = some s) :
    (g.dropOutput removed).namedLinks = g.namedLinks.filter (·.target != .named (some s.name)) := by
  obtain ⟨houtputs, hothers, -⟩ := hg.interface_dropOutput removed
  have hinputs := inputSockets_congr (hothers entry (by decide))
  have hfilter : g.links.filter (·.target != ⟨exit, removed⟩) =
      g.links.filter ((·.target != Port.named (some s.name)) ∘
        fun l => NamedLink.mk l.id (g.sourcePort l.source) (g.targetPort l.target)) := by
    refine List.filter_congr fun l _ => ?_
    obtain ⟨id, source, ⟨n, i⟩⟩ := l
    rw [Function.comp_apply, targetPort, Bool.eq_iff_iff]
    by_cases hexit : n = exit
    · simp [hexit, ← name_eq_iff hg.output_names hs]
    · simp [hexit]
  rw [namedLinks, namedLinks, List.filter_map, ← hfilter, links_dropOutput, List.map_map]
  refine List.map_congr_left fun l hl => ?_
  have hkept := (List.mem_filter.1 hl).2
  obtain ⟨id, source, ⟨n, i⟩⟩ := l
  simp only [Function.comp_apply, dropTarget, sourcePort, targetPort, hinputs, houtputs]
  by_cases hexit : n = exit
  · have hne : i ≠ removed := by simpa [hexit] using hkept
    simp [hexit, getElem?_eraseIdx_shiftIndex _ hne]
  · simp [hexit]

/-! ## Values of the other outputs -/

/-- The place of an output when an output of the entry is gone. -/
def movedOutput (removed : Nat) (o : OutputRef) : OutputRef :=
  if o.node = entry then ⟨entry, shiftIndex removed o.index⟩ else o

/-- The place of an input when an input of the exit is gone. -/
def movedInput (removed : Nat) (i : InputRef) : InputRef :=
  if i.node = exit then ⟨exit, shiftIndex removed i.index⟩ else i

theorem source_dropSource (removed : Nat) (l : Link) :
    (dropSource removed l).source = movedOutput removed l.source := by
  rw [dropSource, movedOutput]
  split <;> rfl

theorem target_dropTarget (removed : Nat) (l : Link) :
    (dropTarget removed l).target = movedInput removed l.target := by
  rw [dropTarget, movedInput]
  split <;> rfl

/-- The link into an input, unless it comes from the input of the graph that is gone. -/
theorem WellFormed.incoming?_dropInput (hg : g.WellFormed) {i : InputRef}
    (h : ∀ l, g.incoming? i = some l → l.source ≠ ⟨entry, removed⟩) :
    (g.dropInput removed).incoming? i = (g.incoming? i).map (dropSource removed) := by
  refine Option.ext fun l' => ?_
  rw [(hg.dropInput removed).incoming?_eq_some, Option.map_eq_some_iff, links_dropInput,
    List.mem_map]
  constructor
  · rintro ⟨⟨l, hl, rfl⟩, htarget⟩
    rw [target_dropSource] at htarget
    exact ⟨l, hg.incoming?_eq_some.2 ⟨List.mem_of_mem_filter hl, htarget⟩, rfl⟩
  · rintro ⟨l, hl, rfl⟩
    obtain ⟨hmem, htarget⟩ := hg.incoming?_eq_some.1 hl
    exact ⟨⟨l, List.mem_filter.2 ⟨hmem, bne_iff_ne.2 (h l hl)⟩, rfl⟩,
      (target_dropSource removed l).trans htarget⟩

/-- The link into an input that is still there. -/
theorem WellFormed.incoming?_dropOutput (hg : g.WellFormed) {i : InputRef}
    (hi : i ≠ ⟨exit, removed⟩) :
    (g.dropOutput removed).incoming? (movedInput removed i) =
      (g.incoming? i).map (dropTarget removed) := by
  refine Option.ext fun l' => ?_
  rw [(hg.dropOutput removed).incoming?_eq_some, Option.map_eq_some_iff, links_dropOutput,
    List.mem_map]
  constructor
  · rintro ⟨⟨l, hl, rfl⟩, htarget⟩
    obtain ⟨hmem, hkept⟩ := List.mem_filter.1 hl
    rw [← target_dropTarget removed ⟨l.id, l.source, i⟩] at htarget
    exact ⟨l, hg.incoming?_eq_some.2
      ⟨hmem, target_eq_of_dropTarget (bne_iff_ne.1 hkept) hi htarget⟩, rfl⟩
  · rintro ⟨l, hl, rfl⟩
    obtain ⟨hmem, rfl⟩ := hg.incoming?_eq_some.1 hl
    exact ⟨⟨l, List.mem_filter.2 ⟨hmem, bne_iff_ne.2 hi⟩, rfl⟩, target_dropTarget removed l⟩

/-- **An output that a removed input does not reach keeps its value.** -/
theorem WellFormed.evaluate_dropInput (hg : g.WellFormed)
    (hreach : ∀ i type, g.output? t = some (i, type) → ¬ g.Reaches ⟨entry, removed⟩ i) :
    (g.dropInput removed).evaluate inputs t = g.evaluate inputs t := by
  obtain ⟨hinputs, hothers, -⟩ := hg.interface_dropInput removed
  have hout : (g.dropInput removed).output? t = g.output? t := by
    rw [output?, output?, outputSockets_congr (hothers exit (by decide))]
  cases hname : g.output? t with
  | none => simp only [evaluate, hout, hname]
  | some x =>
    obtain ⟨i, type⟩ := x
    have hreach := hreach i type hname
    obtain ⟨hexit, -⟩ := output?_eq_some hname
    -- behind the output nothing is linked from the input that goes
    have hsource : ∀ j l, j = i ∨ g.Behind i j.node → g.incoming? j = some l →
        l.source ≠ ⟨entry, removed⟩ := by
      intro j l hj hl hremoved
      obtain ⟨hmem, rfl⟩ := hg.incoming?_eq_some.1 hl
      exact hreach ⟨l, hmem, hremoved, hj⟩
    have hlink : ∀ j, j = i ∨ g.Behind i j.node →
        ((g.dropInput removed).incoming? j).map Link.source =
          (g.incoming? j).map fun l => movedOutput removed l.source := by
      intro j hj
      rw [hg.incoming?_dropInput fun l hl => hsource j l hj hl, Option.map_map]
      exact congrArg (Option.map · _) (funext (source_dropSource removed))
    have hplace : g.Renumbers (g.dropInput removed) (movedOutput removed)
        fun o => o ≠ ⟨entry, removed⟩ ∧ g.Behind i o.node :=
      { closed := fun o index l ho _ hl =>
          ⟨hsource ⟨o.node, index⟩ l (Or.inr ho.2) hl, hg.behind_source ho.2 hl⟩
        given := fun index s ho hs => by
          have hne : index ≠ removed := fun heq => ho.1 (by rw [heq])
          refine ⟨shiftIndex removed index, if_pos rfl, ?_⟩
          rw [outputSocket_entry (hg.dropInput removed).hasEntry, hinputs,
            getElem?_eraseIdx_shiftIndex _ hne]
          exact (outputSocket_entry hg.hasEntry).1 hs
        nodes := fun o node _ hne hnode =>
          ⟨if_neg hne, node, (hothers o.node hne).trans hnode, rfl, rfl⟩
        links := fun o index ho _ => hlink ⟨o.node, index⟩ (Or.inr ho.2) }
    refine hg.evaluate_renumbered (hg.dropInput removed) hname (hout.trans hname) hplace
      (fun s hs => ?_) (hlink i (Or.inl rfl)) fun l hl =>
        ⟨hsource i l (Or.inl rfl) hl, l, hl, .refl⟩
    exact (inputSocket_congr (hothers i.node (by rw [hexit]; decide))).trans hs

/-- Nothing is linked from the exit. -/
theorem WellFormed.source_ne_exit (hg : g.WellFormed) {l : Link} (hl : l ∈ g.links) :
    l.source.node ≠ exit := by
  intro hexit
  obtain ⟨s, hs⟩ := hg.sources l hl
  obtain ⟨node, hnode, hsock⟩ := outputSocket_eq_ok.1 hs
  obtain ⟨hmem, hid⟩ := mem_of_node? hnode
  have hfits := hg.fits node hmem
  have houtputs := hfits.outputs (by rw [hid, hexit]; decide)
  rw [hfits.exit_iff.2 (hid.trans hexit)] at houtputs
  rw [List.map_eq_nil_iff.1 houtputs] at hsock
  cases hsock

theorem inputSocket_exit {index : Nat} (hexit : g.hasNode exit) :
    g.inputSocket ⟨exit, index⟩ = .ok s ↔ g.outputSockets[index]? = some s := by
  obtain ⟨node, hnode⟩ := hasNode_iff.1 hexit
  rw [inputSocket_eq_ok, outputSockets, hnode]
  simp

/-- **The outputs of other names keep their values.** -/
theorem WellFormed.evaluate_dropOutput (hg : g.WellFormed)
    (hs : g.outputSockets[removed]? = some s) (ht : t ≠ s.name) :
    (g.dropOutput removed).evaluate inputs t = g.evaluate inputs t := by
  obtain ⟨houtputs, hothers, -⟩ := hg.interface_dropOutput removed
  have hout : (g.dropOutput removed).output? t =
      (g.output? t).map fun x => (movedInput removed x.1, x.2) := by
    rw [output?, output?, houtputs, findSocket?_eraseIdx hg.output_names hs ht, Option.map_map,
      Option.map_map]
    rfl
  cases hname : g.output? t with
  | none =>
    rw [hname] at hout
    simp only [evaluate, hout, hname, Option.map_none]
  | some x =>
    obtain ⟨⟨n, index⟩, type⟩ := x
    rw [hname] at hout
    obtain ⟨rfl, s', hs', rfl, -⟩ := output?_eq_some hname
    rw [inputSocket_exit hg.hasExit] at hs'
    have hindex : index ≠ removed := by
      rintro rfl
      rw [hs] at hs'
      cases hs'
      exact ht rfl
    have hlink : ∀ j, j ≠ ⟨exit, removed⟩ →
        ((g.dropOutput removed).incoming? (movedInput removed j)).map Link.source =
          (g.incoming? j).map Link.source := by
      intro j hj
      rw [hg.incoming?_dropOutput hj, Option.map_map]
      exact congrArg (Option.map · _) (funext (source_dropTarget removed))
    have hplace : g.Renumbers (g.dropOutput removed) id fun o => o.node ≠ exit :=
      { closed := fun o index l _ _ hl => hg.source_ne_exit (hg.incoming?_eq_some.1 hl).1
        given := fun index s _ hs =>
          ⟨index, rfl, (outputSocket_congr (hothers entry (by decide))).trans hs⟩
        nodes := fun o node ho _ hnode => ⟨rfl, node, (hothers o.node ho).trans hnode, rfl, rfl⟩
        links := fun o index ho _ => by
          have hlink := hlink ⟨o.node, index⟩ fun heq => ho (congrArg InputRef.node heq)
          rwa [movedInput, if_neg ho] at hlink }
    refine hg.evaluate_renumbered (hg.dropOutput removed) hname hout hplace (fun s hs => ?_)
      (hlink ⟨exit, index⟩ fun heq => hindex (congrArg InputRef.index heq)) fun l hl =>
        hg.source_ne_exit (hg.incoming?_eq_some.1 hl).1
    change (g.dropOutput removed).inputSocket ⟨exit, shiftIndex removed index⟩ = .ok s
    rw [inputSocket_exit (hg.dropOutput removed).hasExit, houtputs,
      getElem?_eraseIdx_shiftIndex _ hindex]
    exact (inputSocket_exit hg.hasExit).1 hs

/-! ## The operation -/

/-- The socket that is removed: the input of the name, or else the output. -/
theorem removeSocket_cases (h : g.removeSocket name = .ok g') :
    (∃ removed type s, g.input? name = some (⟨entry, removed⟩, type) ∧
        g.inputSockets[removed]? = some s ∧ s.name = name ∧ g' = g.dropInput removed) ∨
      g.input? name = none ∧ ∃ removed type s, g.output? name = some (⟨exit, removed⟩, type) ∧
        g.outputSockets[removed]? = some s ∧ s.name = name ∧ g' = g.dropOutput removed := by
  rw [removeSocket_eq] at h
  split at h
  · rename_i o type hinput
    obtain ⟨⟨removed, type'⟩, hfind, heq⟩ := Option.map_eq_some_iff.1 hinput
    cases heq
    cases h
    obtain ⟨s, hs, hname, -⟩ := findSocket?_eq_some hfind
    exact Or.inl ⟨removed, type, s, hinput, hs, hname, rfl⟩
  · rename_i hinput
    split at h
    · rename_i i type houtput
      obtain ⟨⟨removed, type'⟩, hfind, heq⟩ := Option.map_eq_some_iff.1 houtput
      cases heq
      cases h
      obtain ⟨s, hs, hname, -⟩ := findSocket?_eq_some hfind
      exact Or.inr ⟨hinput, removed, type, s, houtput, hs, hname, rfl⟩
    · cases h

/-- **Removing a socket of the interface keeps all else.** The inner nodes are the same. An input
of the name goes with its links, all others stay under the names of their sockets, and an output
that the input did not reach keeps its value. Only where there is no such input, the output of the
name goes with its links, and the other outputs keep their values. -/
theorem removeSocket_keeps (hg : g.WellFormed) (h : g.removeSocket name = .ok g') :
    g'.innerNodes = g.innerNodes ∧
    (∀ o type, g.input? name = some (o, type) →
      g'.inputSockets = g.inputSockets.filter (·.name != name) ∧
      g'.outputSockets = g.outputSockets ∧
      g'.namedLinks = g.namedLinks.filter (·.source != .named (some name)) ∧
      ∀ t, (∀ i type, g.output? t = some (i, type) → ¬ g.Reaches o i) →
        ∀ inputs, g'.evaluate inputs t = g.evaluate inputs t) ∧
    (g.input? name = none → (g.output? name).isSome ∧
      g'.inputSockets = g.inputSockets ∧
      g'.outputSockets = g.outputSockets.filter (·.name != name) ∧
      g'.namedLinks = g.namedLinks.filter (·.target != .named (some name)) ∧
      ∀ t, t ≠ name → ∀ inputs, g'.evaluate inputs t = g.evaluate inputs t) := by
  rcases removeSocket_cases h with ⟨removed, type, s, hinput, hs, rfl, rfl⟩ |
    ⟨hinput, removed, type, s, houtput, hs, rfl, rfl⟩
  · obtain ⟨hinputs, hothers, hinner⟩ := hg.interface_dropInput removed
    refine ⟨hinner, fun o type ho => ?_, fun hnone => ?_⟩
    · rw [hinput] at ho
      cases ho
      exact ⟨hinputs.trans (eraseIdx_eq_filter hg.input_names hs),
        outputSockets_congr (hothers exit (by decide)), hg.namedLinks_dropInput hs,
        fun t hreach inputs => hg.evaluate_dropInput hreach⟩
    · rw [hinput] at hnone
      cases hnone
  · obtain ⟨houtputs, hothers, hinner⟩ := hg.interface_dropOutput removed
    refine ⟨hinner, fun o type ho => ?_, fun _ => ?_⟩
    · rw [hinput] at ho
      cases ho
    · exact ⟨by rw [houtput]; rfl, inputSockets_congr (hothers entry (by decide)),
        houtputs.trans (eraseIdx_eq_filter hg.output_names hs), hg.namedLinks_dropOutput hs,
        fun t ht inputs => hg.evaluate_dropOutput hs ht⟩

/-- The inputs `x` and `y`, and outputs of the same names. Both outputs take `y`, and a node takes both
inputs. -/
def shared : Graph :=
  history [.newInput "x" .float, .newInput "y" .float, .newOutput "x" .float, .newOutput "y" .float,
    .createNode .clamp, .link ⟨entry, 0⟩ ⟨2, 0⟩, .link ⟨entry, 1⟩ ⟨2, 1⟩,
    .link ⟨entry, 1⟩ ⟨exit, 0⟩, .link ⟨entry, 1⟩ ⟨exit, 1⟩]

/-- The input `x` goes and the output stays, with its value. -/
theorem removeSocket_keeps_shared : ∃ g', shared.removeSocket "x" = .ok g' ∧
    g'.outputSockets = shared.outputSockets ∧
    g'.namedLinks = [⟨1, .named (some "y"), .placed 2 1⟩,
      ⟨2, .named (some "y"), .named (some "x")⟩, ⟨3, .named (some "y"), .named (some "y")⟩] ∧
    ∀ inputs, g'.evaluate inputs "x" = shared.evaluate inputs "x" := by
  have hinput : shared.input? "x" = some (⟨entry, 0⟩, .float) := by decide +kernel
  have houtput : shared.output? "x" = some (⟨exit, 0⟩, .float) := by decide +kernel
  have hremoved : shared.removeSocket "x" = .ok (shared.dropInput 0) := by
    rw [removeSocket_eq, hinput]
  have hwf : shared.WellFormed := wellFormed_history _
  have hlinks : ∀ l ∈ shared.links,
      (l.source = ⟨entry, 0⟩ → l.target.node = 2) ∧ l.source.node = entry := by decide +kernel
  obtain ⟨-, hkeeps, -⟩ := removeSocket_keeps hwf hremoved
  obtain ⟨-, houtputs, hnamed, hevaluate⟩ := hkeeps _ _ hinput
  refine ⟨_, hremoved, houtputs, hnamed.trans (by decide +kernel), hevaluate "x" ?_⟩
  rintro i type hi ⟨l, hl, hsource, htarget⟩
  rw [houtput] at hi
  cases hi
  have hnode := (hlinks l hl).1 hsource
  rcases htarget with htarget | ⟨k, hk, hpath⟩
  · rw [htarget] at hnode
    cases hnode
  · -- nothing is linked from the node that takes `x`
    rw [hnode] at hpath
    rcases hpath.cases_head with heq | ⟨m, ⟨l', hl', hfrom, -⟩, -⟩
    · rw [(hlinks k (hwf.incoming?_eq_some.1 hk).1).2] at heq
      cases heq
    · rw [(hlinks l' hl').2] at hfrom
      cases hfrom

end Graph

end NodeFormula
