import NodeFormula.Proofs.Pass.Found
/-!
# NodeFormula — a node and the operands it was asked for with

A node meets its operands when every input is linked from the socket that it was given, or
holds the constant that it was given and is linked from nowhere (`Graph.Meets`). Whether
`findOrCreate` makes a node or finds one that is linked as asked, the node it gives meets its
operands (`findOrCreate_fits`): links are made with the node, and constants are refreshed. No
property of the constants is needed, since a constant that is kept equals the one asked for.
-/

namespace NodeFormula

/-- Two constants are the same, or compare as equal. -/
def Value.Same (v w : Value) : Prop := v = w ∨ (v == w) = true

namespace Graph

/-- **A node meets its operands.** -/
structure Meets (g : Graph) (n : NodeId) (args : List Operand) : Prop where
  sockets : ∀ (j : Nat) o, args[j]? = some (.socket o) →
    ∃ l, g.incoming? ⟨n, j⟩ = some l ∧ l.source = o
  literals : ∀ (j : Nat) v, args[j]? = some (.literal v) → g.incoming? ⟨n, j⟩ = none ∧
    ∃ s, g.inputSocket ⟨n, j⟩ = .ok s ∧ s.default.Same (v.convert s.type)

/-- **A graph has the node of a tag**, linked from the operands. It is new or had the tag
before, and the links of the other nodes are as they were. -/
structure Gains (g : Graph) (t : Tag) (kind : NodeKind) (args : List Operand) (n : NodeId)
    (g' : Graph) : Prop where
  wf : g'.WellFormed
  face : n ≠ entry ∧ n ≠ exit
  node : ∃ node, g'.node? n = some node ∧ node.tag = some t ∧ node.name = t.text ∧
    node.kind = kind
  wired : g'.Wired n args
  old : ∀ node, g.node? n = some node → node.tag = some t
  others : ∀ m, m ≠ n → g'.node? m = g.node? m
  links : ∀ i : InputRef, i.node ≠ n → g'.incoming? i = g.incoming? i

/-- The node has the sockets of its kind. -/
theorem Gains.exists_node {g g' : Graph} {t : Tag} {kind : NodeKind} {args : List Operand}
    {n : NodeId} (h : g.Gains t kind args n g') : ∃ node, g'.node? n = some node ∧
      node.tag = some t ∧ node.name = t.text ∧ node.inputs.map Socket.spec = kind.inputs ∧
      node.outputs.map Socket.spec = kind.outputs ∧ node.kind = kind := by
  obtain ⟨node, hnode, htag, hname, hkind⟩ := h.node
  obtain ⟨hmem, hid⟩ := mem_of_node? hnode
  have hfits := h.wf.fits node hmem
  exact ⟨node, hnode, htag, hname, hkind ▸ hfits.inputs (hid ▸ h.face.2),
    hkind ▸ hfits.outputs (hid ▸ h.face.1), hkind⟩

end Graph

namespace Pass

open Graph

variable {p q : Pass} {n : NodeId} {t : Tag} {kind : NodeKind} {args : List Operand} {k : Nat}

theorem Placed.gains (h : Placed p t kind args n q) : p.graph.Gains t kind args n q.graph where
  wf := h.wf
  face := h.face
  node := by
    obtain ⟨node, hnode, htag, hname, hkind, -⟩ := h.node
    exact ⟨node, hnode, htag, hname, hkind⟩
  wired := h.wired
  old := h.old
  others := h.others
  links := h.links

/-! ## Constants that are refreshed -/

/-- The inputs of a node below `k` hold the constants among the operands, or equal ones. Its
other properties, the other nodes and the links are as they were. -/
structure Retuned (p : Pass) (n : NodeId) (args : List Operand) (k : Nat) (q : Pass) : Prop where
  wf : q.graph.WellFormed
  node : ∀ a, p.graph.node? n = some a → ∃ b, q.graph.node? n = some b ∧ b.Revised a ∧
    ∀ (j : Nat) v s, j < k → args[j]? = some (.literal v) → b.inputs[j]? = some s →
      s.default.Same (v.convert s.type)
  others : ∀ m, m ≠ n → q.graph.node? m = p.graph.node? m
  links : q.graph.links = p.graph.links
  touched : q.touched = p.touched
  derived : q.derived = p.derived
  cache : q.cache = p.cache

namespace Retuned

theorem refl (hp : p.graph.WellFormed) : Retuned p n args 0 p where
  wf := hp
  node a ha := ⟨a, ha, .refl a, fun _ _ _ h => absurd h (Nat.not_lt_zero _)⟩
  others _ _ := rfl
  links := rfl
  touched := rfl
  derived := rfl
  cache := rfl

/-- An input that is linked, or holds its constant or an equal one. -/
theorem keep (h : Retuned p n args k q) {x : Operand} (hk : args[k]? = some x)
    (hheld : ∀ v s, x = .literal v → q.graph.inputSocket ⟨n, k⟩ = .ok s →
      s.default.Same (v.convert s.type)) : Retuned p n args (k + 1) q :=
  { h with
    node := fun a ha => by
      obtain ⟨b, hb, hrev, hconst⟩ := h.node a ha
      refine ⟨b, hb, hrev, fun j v s hj hv hs => ?_⟩
      rcases Nat.lt_succ_iff_lt_or_eq.1 hj with hj | rfl
      · exact hconst j v s hj hv hs
      · rw [hk] at hv
        cases hv
        exact hheld v s rfl (inputSocket_eq_ok.2 ⟨b, hb, hs⟩) }

/-- An input that is given its constant. -/
theorem put (h : Retuned p n args k q) {v : Value} (hk : args[k]? = some (.literal v))
    {s : Socket} (hs : q.graph.inputSocket ⟨n, k⟩ = .ok s) :
    Retuned p n args (k + 1)
      { q with graph := q.graph.updateNode n (putDefault k (v.convert s.type)) } := by
  have hkeeps : KeepsId (putDefault k (v.convert s.type)) := fun _ => rfl
  refine { h with wf := h.wf.putDefault ⟨n, k⟩ _, node := ?_, others := ?_ }
  · intro a ha
    obtain ⟨b, hb, hrev, hconst⟩ := h.node a ha
    obtain ⟨b', hb', hsock⟩ := inputSocket_eq_ok.1 hs
    rw [hb] at hb'
    cases hb'
    refine ⟨putDefault k (v.convert s.type) b, by simp [node?_updateNode hkeeps, hb],
      .trans ⟨putDefault_alike k _ b, rfl, rfl⟩ hrev, fun j w s' hj hw hs' => ?_⟩
    rw [getElem?_putDefault] at hs'
    by_cases hkj : k = j
    · subst hkj
      rw [hk] at hw
      cases hw
      rw [show b.inputs[k]? = some s from hsock, Option.map_some, if_pos rfl] at hs'
      cases hs'
      exact Or.inl (Value.convert_convert v s.type)
    · simp only [if_neg hkj, Option.map_id'] at hs'
      exact hconst j w s' (by omega) hw hs'
  · intro m hm
    simp [node?_updateNode hkeeps, hm, h.others m hm]

/-- A new owner is no constant. -/
theorem updateNode (h : Retuned p n args k q) {f : Node → Node}
    (hf : ∀ node, (f node).Revised node) (hin : ∀ node, (f node).inputs = node.inputs) :
    Retuned p n args k { q with graph := q.graph.updateNode n f } := by
  have hkeeps : KeepsId f := fun node => (hf node).id
  refine
    { h with
      wf := h.wf.updateNode_of_inputs (fun node => (hf node).toAlike) hin
      node := fun a ha => ?_
      others := fun m hm => by simp [node?_updateNode hkeeps, hm, h.others m hm] }
  obtain ⟨b, hb, hrev, hconst⟩ := h.node a ha
  refine ⟨f b, by simp [node?_updateNode hkeeps, hb], (hf b).trans hrev, ?_⟩
  rw [hin]
  exact hconst

end Retuned

section

variable {a : Node} (ha : p.graph.node? n = some a)
  (hin : a.inputs.map Socket.spec = kind.inputs) (hlen : args.length = kind.inputs.length)
  (hfits : Fits kind args)

include ha hin hlen hfits

/-- One constant is refreshed. -/
theorem hold_retunes {v : Value} (hk : args[k]? = some (.literal v)) :
    Ensures (Retuned p n args k) (hold ⟨n, k⟩ v) (fun _ => Retuned p n args (k + 1))
      fun _ _ => False := by
  have hsocket : ∀ q, Retuned p n args k q → ∃ s, q.graph.inputSocket ⟨n, k⟩ = .ok s ∧
      coerce q.graph ⟨n, k⟩ v = .ok (v.convert s.type) := by
    intro q hq
    obtain ⟨b, hb, hrev, -⟩ := hq.node a ha
    obtain ⟨s, hs, hfit⟩ := exists_socket_of_revised hb hrev hin hlen hfits hk
    exact ⟨s, hs, coerce_eq_ok hs (hfit v rfl)⟩
  refine Ensures.bind (Q := fun w q => Retuned p n args k q ∧
    ∃ s, q.graph.inputSocket ⟨n, k⟩ = .ok s ∧ w = v.convert s.type)
    (Ensures.read (fun q w hq hr => ?_) fun q e hq hr => ?_) fun w => ?_
  · obtain ⟨s, hs, hcoerce⟩ := hsocket q hq
    rw [hcoerce] at hr
    cases hr
    exact ⟨hq, s, hs, rfl⟩
  · obtain ⟨s, -, hcoerce⟩ := hsocket q hq
    rw [hcoerce] at hr
    cases hr
  refine Ensures.get fun q ⟨hq, s, hs, hw⟩ => ?_
  subst hw
  split
  · rename_i hsame
    refine Ensures.pure fun q' hq' => ?_
    subst hq'
    refine hq.keep hk fun w s' hw hs' => ?_
    cases hw
    rw [hs] at hs'
    cases hs'
    exact Or.inr (by simpa [default?, hs, Except.toOption] using hsame)
  · refine Ensures.bind (Q := fun _ => Retuned p n args (k + 1))
      (Ensures.edit_succeeds fun q' hq' => ?_) fun _ => Ensures.pure fun _ h => h
    subst hq'
    exact ⟨_, setDefault_convert v hs, hq.put hk hs⟩

omit k in
/-- **Refreshing puts every constant in its place**, or keeps one that equals it. -/
theorem refresh_retunes :
    Ensures (Retuned p n args 0) (refresh n 0 args) (fun _ => Retuned p n args args.length)
      fun _ _ => False :=
  Ensures.refresh (P := fun k _ => Retuned p n args k)
    (fun _ _ hk _ _ h => h.keep hk fun _ _ heq => by cases heq)
    fun _ _ hk _ => hold_retunes ha hin hlen hfits hk

end

/-! ## The node that is given -/

/-- **A pass has the node of a tag**, and the node holds the constants among the operands. -/
structure Fitted (p : Pass) (t : Tag) (kind : NodeKind) (args : List Operand) (n : NodeId)
    (q : Pass) : Prop where
  gains : p.graph.Gains t kind args n q.graph
  held : ∀ (j : Nat) v, args[j]? = some (.literal v) →
    ∃ s, q.graph.inputSocket ⟨n, j⟩ = .ok s ∧ s.default.Same (v.convert s.type)
  touched : ∀ m, m ∈ q.touched ↔ m = n ∨ m ∈ p.touched
  derived : q.derived = p.derived
  cached : ∀ t' m, (t', m) ∈ q.cache → (t' = t ∧ m = n) ∨ (t', m) ∈ p.cache

theorem Fitted.meets (h : Fitted p t kind args n q) : q.graph.Meets n args where
  sockets j o hj := by
    obtain ⟨l, hl, hsource⟩ := Option.map_eq_some_iff.1 ((h.gains.wired j _ hj).trans rfl)
    exact ⟨l, hl, hsource⟩
  literals j v hj := ⟨Option.map_eq_none_iff.1 ((h.gains.wired j _ hj).trans rfl), h.held j v hj⟩

/-- An input for each operand. -/
theorem exists_input {g : Graph} {node : Node} (hnode : g.node? n = some node)
    (hin : node.inputs.map Socket.spec = kind.inputs) (hlen : args.length = kind.inputs.length)
    {j : Nat} {x : Operand} (hj : args[j]? = some x) : ∃ s, g.inputSocket ⟨n, j⟩ = .ok s ∧
      node.inputs[j]? = some s := by
  have hlt : j < node.inputs.length := by
    rw [← List.length_map (f := Socket.spec), hin, ← hlen]
    exact (List.getElem?_eq_some_iff.1 hj).1
  have hs := List.getElem?_eq_getElem hlt
  exact ⟨_, inputSocket_eq_ok.2 ⟨node, hnode, hs⟩, hs⟩

theorem Placed.fitted (h : Placed p t kind args n q) (hlen : args.length = kind.inputs.length) :
    Fitted p t kind args n q where
  gains := h.gains
  held j v hj := by
    obtain ⟨node, hnode, -, -, -, hconst, -⟩ := h.node
    obtain ⟨node', hnode', -, -, hin, -⟩ := h.gains.exists_node
    rw [hnode] at hnode'
    cases hnode'
    obtain ⟨s, hsocket, hs⟩ := exists_input hnode hin hlen hj
    exact ⟨s, hsocket, Or.inl (hconst j v s hj hs)⟩
  touched := h.touched
  derived := h.derived
  cached := h.cached

/-- **A node is used again with its constants refreshed.** It is touched, and nothing else
comes of it. -/
theorem reuse_retunes (hp : p.graph.WellFormed) {a : Node} (ha : p.graph.node? n = some a)
    (hkind : a.kind = kind) (hface : n ≠ entry ∧ n ≠ exit)
    (hlen : args.length = kind.inputs.length) (hfits : Fits kind args) :
    Ensures (· = p) (reuse n args) (fun m q => m = n ∧
      Retuned p n args args.length { q with touched := p.touched } ∧
      ∀ m, m ∈ q.touched ↔ m = n ∨ m ∈ p.touched) fun _ _ => False := by
  obtain ⟨hmem, hid⟩ := mem_of_node? ha
  have hin : a.inputs.map Socket.spec = kind.inputs := by
    rw [(hp.fits a hmem).inputs (hid ▸ hface.2), hkind]
  refine Ensures.bind ((refresh_retunes ha hin hlen hfits).weaken
    (fun q hq => by subst hq; exact .refl hp) (fun _ _ h => h) fun _ _ h => h) fun changed => ?_
  refine Ensures.bind (Q := fun _ => Retuned p n args args.length)
    (Ensures.edit_succeeds fun q hq => ?_) fun _ => ?_
  · obtain ⟨b, hb, -⟩ := hq.node a ha
    exact ⟨_, modifyNode_eq_ok.2 ⟨hasNode_iff.2 ⟨b, hb⟩, rfl⟩,
      hq.updateNode (f := fun node => { node with automated := true })
        (fun _ => ⟨⟨rfl, rfl, rfl, rfl⟩, rfl, rfl⟩) fun _ => rfl⟩
  let Used (q : Pass) : Prop := Retuned p n args args.length { q with touched := p.touched } ∧
    ∀ m, m ∈ q.touched ↔ m = n ∨ m ∈ p.touched
  refine Ensures.bind (Q := fun _ => Used) (Ensures.modify fun q hq => ?_) fun _ => ?_
  · refine ⟨{ hq with touched := rfl }, fun m => ?_⟩
    change m ∈ (if q.touched.contains n then q.touched else n :: q.touched) ↔ _
    rw [hq.touched]
    exact mem_touch
  · exact Ensures.bind (Q := fun _ => Used)
      (Ensures.record fun q hq => ⟨{ hq.1 with }, hq.2⟩) fun _ => Ensures.pure fun _ h => ⟨rfl, h⟩

/-- **A node that is linked as asked is used again** and meets its operands. -/
theorem reuse_fits (hp : p.graph.WellFormed) {a : Node} (ha : p.graph.node? n = some a)
    (htag : a.tag = some t) (hname : a.name = t.text) (hkind : a.kind = kind)
    (hface : n ≠ entry ∧ n ≠ exit) (hwired : p.graph.Wired n args)
    (hlen : args.length = kind.inputs.length) (hfits : Fits kind args) :
    Ensures (· = p) (reuse n args) (fun m q => m = n ∧ Fitted p t kind args n q)
      fun _ _ => False := by
  refine (reuse_retunes hp ha hkind hface hlen hfits).weaken (fun _ h => h) (fun m q h => ?_)
    fun _ _ h => h
  obtain ⟨rfl, hq, htouched⟩ := h
  obtain ⟨hmem, hid⟩ := mem_of_node? ha
  have hin : a.inputs.map Socket.spec = kind.inputs := by
    rw [(hp.fits a hmem).inputs (hid ▸ hface.2), hkind]
  obtain ⟨b, hb, hrev, hconst⟩ := hq.node a ha
  have hincoming : ∀ i, q.graph.incoming? i = p.graph.incoming? i := by
    intro i
    rw [incoming?, hq.links]
    rfl
  refine ⟨rfl,
    { gains :=
        { wf := hq.wf
          face := hface
          node := ⟨b, hb, hrev.tag.trans htag, hrev.name.trans hname, hrev.kind.trans hkind⟩
          wired := fun j x hx => by
            rw [hincoming]
            exact hwired j x hx
          old := fun node hnode => by rw [ha] at hnode; cases hnode; exact htag
          others := hq.others
          links := fun i _ => hincoming i }
      held := fun j v hj => ?_
      touched := htouched
      derived := hq.derived
      cached := fun t' m hm => Or.inr (hq.cache ▸ hm) }⟩
  obtain ⟨s, hs, -⟩ := exists_socket_of_revised hb hrev hin hlen hfits hj
  obtain ⟨b', hb', hsock⟩ := inputSocket_eq_ok.1 hs
  rw [hb] at hb'
  cases hb'
  exact ⟨s, hs, hconst j v s (List.getElem?_eq_some_iff.1 hj).1 hj hsock⟩

/-- **`findOrCreate` gives a node that meets its operands** when a node that has the tag has
the kind and the links that are asked for. -/
theorem findOrCreate_fits (hp : p.graph.WellFormed)
    (hcached : ∀ t n, (t, n) ∈ p.cache → ∃ node, p.graph.node? n = some node ∧ node.tag = some t)
    (hk : kind.isInterface = false) (hlen : args.length = kind.inputs.length)
    (hfits : Fits kind args)
    (hsockets : ∀ o, .socket o ∈ args → ∃ s, p.graph.outputSocket o = .ok s)
    (hfound : ∀ n a, p.graph.node? n = some a → a.tag = some t →
      (n ≠ entry ∧ n ≠ exit) ∧ a.kind = kind ∧ a.name = t.text ∧ p.graph.Wired n args) :
    Ensures (· = p) (findOrCreate t kind args) (fun n q => Fitted p t kind args n q ∧
      ((∃ a, p.graph.node? n = some a ∧ a.tag = some t) ∨
        ∀ m a, p.graph.node? m = some a → a.tag ≠ some t)) fun _ _ => False := by
  refine findOrCreate_of_find hp hcached hlen (fun hnone => ?_) fun n a ha htag => ?_
  · exact (create_places hp hk hlen hfits hsockets).weaken (fun _ h => h)
      (fun n p' h => ⟨h.fitted hlen, Or.inr hnone⟩) fun _ _ h => h
  · obtain ⟨hface, hkind, hname, hwired⟩ := hfound n a ha htag
    refine ⟨hkind, (reuse_fits (p := { p with cache := (t, n) :: p.cache }) hp ha htag hname hkind
      hface hwired hlen hfits).weaken (fun _ h => h) (fun m p' h => ?_) fun _ _ h => h⟩
    obtain ⟨rfl, hfitted⟩ := h
    exact ⟨{ hfitted with cached := fun t' k hmem => mem_cache_of_found (hfitted.cached t' k hmem) },
      Or.inl ⟨a, ha, htag⟩⟩

end Pass

end NodeFormula
