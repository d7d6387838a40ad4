import NodeFormula.Proofs.Build.Accounted
/-!
# NodeFormula — a pass on its course

While a draft is built, the graph of the pass stays charted: a tagged node is one of this
draft that the pass has touched, or one that an earlier build planned (`OnPlan`). An operand
stands for a sketch when it has the sketch's identity, type and outcomes (`Stands`); it goes
on doing so, since nodes that the pass has touched change no more (`Grown`). The step is
`OnPlan.place`: the node of a stage is found or made, and stands for the sketch of the stage.
-/

namespace NodeFormula

open Graph Relation

/-! ## What a node makes of its arguments -/

namespace NodeKind

/-- What is read of values that inputs convert, where converting makes no difference. -/
theorem map_convert {β : Type} {f : Value → β} {types : List SocketType}
    (h : ∀ t ∈ types, ∀ v : Value, f (v.convert t) = f v) (values : List Value)
    (hlen : values.length = types.length) :
    (List.zipWith (fun t v => Value.convert v t) types values).map f = values.map f := by
  induction types generalizing values with
  | nil => rw [List.length_eq_zero_iff.1 hlen]; rfl
  | cons t types ih =>
    cases values with
    | nil => rfl
    | cons v values =>
      rw [List.zipWith_cons_cons, List.map_cons, List.map_cons, h t List.mem_cons_self,
        ih (fun t ht => h t (List.mem_cons_of_mem _ ht)) values (Nat.succ.inj hlen)]

/-- A node takes all its inputs as floats, or all as vectors. -/
theorem inputs_uniform (kind : NodeKind) :
    (∀ t ∈ kind.inputs.map SocketSpec.type, t = .float) ∨
      ∀ t ∈ kind.inputs.map SocketSpec.type, t = .vector := by
  have hfloats : ∀ names, ∀ t ∈ (floats names).map SocketSpec.type, t = .float := by
    intro names t ht
    simp only [floats, List.map_map, List.mem_map, Function.comp_apply] at ht
    obtain ⟨-, -, rfl⟩ := ht
    rfl
  have hvectors : ∀ names, ∀ t ∈ (vectors names).map SocketSpec.type, t = .vector := by
    intro names t ht
    simp only [vectors, List.map_map, List.mem_map, Function.comp_apply] at ht
    obtain ⟨-, -, rfl⟩ := ht
    rfl
  cases kind with
  | math op =>
    exact Or.inl fun t ht => hfloats _ t (List.map_subset _ (List.take_subset _ _) ht)
  | vectorMath op =>
    exact Or.inr fun t ht => hvectors _ t (List.map_subset _ (List.take_subset _ _) ht)
  | separateXyz => exact Or.inr (hvectors _)
  | clamp | mapRange | mix | combineXyz | value => exact Or.inl (hfloats _)
  | groupInput | groupOutput => exact Or.inl fun t ht => absurd ht List.not_mem_nil

/-- **A node makes the same of its arguments and of what its inputs make of them.** -/
theorem evaluate_convert (kind : NodeKind) (values : List Value)
    (hlen : values.length = kind.inputs.length) :
    kind.evaluate (List.zipWith (fun t v => Value.convert v t) (kind.inputs.map SocketSpec.type)
      values) = kind.evaluate values := by
  have hlen' : values.length = (kind.inputs.map SocketSpec.type).length := by
    rw [List.length_map, hlen]
  rcases kind.inputs_uniform with h | h
  · have hmap := map_convert (f := Value.toFloat) (fun t ht v => by rw [h t ht]; rfl) values hlen'
    cases kind with
    | vectorMath op => cases op <;> exact absurd (h _ List.mem_cons_self) (by decide)
    | separateXyz => exact absurd (h _ List.mem_cons_self) (by decide)
    | math op | clamp | mapRange | mix | combineXyz | value =>
      simp only [evaluate, hmap]
    | groupInput | groupOutput => rfl
  · have hmap := map_convert (f := Value.toVec3) (fun t ht v => by rw [h t ht]; rfl) values hlen'
    cases kind with
    | vectorMath op => simp only [evaluate, hmap]
    | separateXyz =>
      cases values with
      | nil => cases hlen
      | cons v values => rfl
    | math op => cases op <;> exact absurd (h _ List.mem_cons_self) (by decide)
    | clamp | mapRange | mix | combineXyz | value =>
      exact absurd (h _ List.mem_cons_self) (by decide)
    | groupInput | groupOutput => rfl

theorem mapM_convert (types : List SocketType) (rs : List Outcome) (hlen : rs.length = types.length) :
    (List.zipWith (fun t (r : Outcome) => r.map (·.convert t)) types rs).mapM id
      = (rs.mapM id).map fun values =>
        List.zipWith (fun t v => Value.convert v t) types values := by
  induction types generalizing rs with
  | nil => rw [List.length_eq_zero_iff.1 hlen]; rfl
  | cons t types ih =>
    cases rs with
    | nil => cases hlen
    | cons r rs =>
      rw [List.zipWith_cons_cons, List.mapM_cons, List.mapM_cons, ih rs (Nat.succ.inj hlen)]
      cases r with
      | error e => rfl
      | ok v =>
        cases rs.mapM id with
        | error e => rfl
        | ok values => rfl

theorem length_of_mapM_eq_ok {rs : List Outcome} {values : List Value}
    (h : rs.mapM id = .ok values) : values.length = rs.length := by
  induction rs generalizing values with
  | nil => cases h; rfl
  | cons r rs ih =>
    rw [List.mapM_cons] at h
    cases r with
    | error e => cases h
    | ok v =>
      cases hrs : rs.mapM id with
      | error e => rw [hrs] at h; cases h
      | ok vs =>
        rw [hrs] at h
        cases h
        rw [List.length_cons, List.length_cons, ih hrs]

/-- The outcome of a node does not depend on what its inputs make of the arguments. -/
theorem outcome_convert (kind : NodeKind) (rs : List Outcome)
    (hlen : rs.length = kind.inputs.length) :
    kind.outcome (List.zipWith (fun t (r : Outcome) => r.map (·.convert t))
      (kind.inputs.map SocketSpec.type) rs) = kind.outcome rs := by
  rw [outcome, outcome, mapM_convert _ _ (by rw [hlen, List.length_map])]
  cases hrs : rs.mapM id with
  | error e => rfl
  | ok values =>
    have hvalues : values.length = kind.inputs.length := (length_of_mapM_eq_ok hrs).trans hlen
    simp only [Except.map, kind.evaluate_convert values hvalues]

end NodeKind

/-! ## The course of a build -/

/-- What a build relies on: the keys that the tags in the graph were derived from, the keys
of its own draft, a property of the constants, and the entry. -/
structure Course [TagDigest] where
  /-- The keys of the nodes that are there. -/
  known : List Key
  /-- The keys of the draft. -/
  next : List Key
  pos : Float → Prop
  /-- The name of the entry. -/
  name : String
  sockets : List Socket
  distinct : ∀ a ∈ known, ∀ b ∈ next, a.base = b.base → a = b
  /-- Constants in nodes that are there are the same when they are equal. -/
  same : known ≠ [] → ∀ a b, pos a → pos b → (a == b) = true → a = b
  unpointed : known ≠ [] → '.' ∉ name.toList
  zero : pos 0
  constants : ∀ f ∈ Catalogue.functions, ∀ s ∈ f.stages, ∀ a, .constant a ∈ s.args → pos a

/-- The kind of the node of a plan, for arguments that are given. -/
def Planned.kind (x : Planned) (sketches : List Sketch) : NodeKind :=
  x.stage.node.kind (sketches.any Sketch.isVector)

/-- The output of the node of a plan. -/
def Planned.sketch (x : Planned) (sketches : List Sketch) : Sketch :=
  .socket (socketIdentity x.tag.text 0) (x.kind sketches).resultType fun inputs =>
    (x.kind sketches).outcome (sketches.map (Sketch.outcome inputs))

namespace Pass

variable {p q r : Pass} {n : NodeId} {args : List Operand} {sketches : List Sketch}

/-- **The nodes in use stay as they are.** -/
structure Grown (p q : Pass) : Prop where
  inUse : ∀ n, p.InUse n → q.InUse n
  agree : p.graph.AgreeOn q.graph p.InUse
  face : ∀ n, p.InUse n → p.graph.SameFace q.graph n

namespace Grown

theorem trans (h : Grown p q) (h' : Grown q r) : Grown p r where
  inUse n hn := h'.inUse n (h.inUse n hn)
  agree :=
    { closed := h.agree.closed
      given := h'.agree.given.trans h.agree.given
      nodes := fun n node hn hne hnode => by
        obtain ⟨b, hb, hkind, hinputs⟩ := h.agree.nodes n node hn hne hnode
        obtain ⟨d, hd, hkind', hinputs'⟩ := h'.agree.nodes n b (h.inUse n hn) hne hb
        exact ⟨d, hd, hkind'.trans hkind, hinputs'.trans hinputs⟩
      links := fun n index hn =>
        (h'.agree.links n index (h.inUse n hn)).trans (h.agree.links n index hn) }
  face n hn :=
    ⟨(h'.face n (h.inUse n hn)).1.trans (h.face n hn).1, fun index =>
      ((h'.face n (h.inUse n hn)).2 index).trans ((h.face n hn).2 index)⟩

end Grown

/-- **An operand stands for a sketch**: it is the same literal, or a socket with the
identity, the type and the outcomes. -/
def Stands (p : Pass) : Operand → Sketch → Prop
  | .literal v, .literal w => v = w
  | .socket o, .socket id type outcome =>
    p.InUse o.node ∧ (Operand.socket o).identity p.graph = id ∧ p.graph.outputType? o = some type ∧
      ∀ inputs, p.graph.Yields inputs o (outcome inputs)
  | _, _ => False

namespace Stands

variable {a : Operand} {s : Sketch}

theorem identity (h : Stands p a s) : a.identity p.graph = s.identity := by
  cases a with
  | socket o =>
    cases s with
    | socket id type outcome => exact h.2.1
    | literal v => exact h.elim
  | literal v =>
    cases s with
    | socket id type outcome => exact h.elim
    | literal w =>
      obtain rfl : v = w := h
      cases v <;> rfl

theorem isVector (h : Stands p a s) : a.isVector p.graph = s.isVector := by
  cases a with
  | socket o =>
    cases s with
    | socket id type outcome =>
      rw [Operand.isVector, Operand.type?, h.2.2.1]
      rfl
    | literal v => exact h.elim
  | literal v =>
    cases s with
    | socket id type outcome => exact h.elim
    | literal w =>
      obtain rfl : v = w := h
      rfl

/-- It goes on standing for the sketch. -/
theorem grown (h : Stands p a s) (hgrown : Grown p q) (hentry : p.graph.hasNode entry)
    (hentry' : q.graph.hasNode entry) : Stands q a s := by
  cases a with
  | socket o =>
    cases s with
    | socket id type outcome =>
      obtain ⟨huse, hid, htype, hyields⟩ := h
      have hface := hgrown.face o.node huse
      exact ⟨hgrown.inUse _ huse, hface.socket.identity.trans hid, hface.socket.2.trans htype,
        fun inputs => (hyields inputs).congr hgrown.agree hentry hentry' huse⟩
    | literal v => exact h.elim
  | literal v =>
    cases s with
    | socket id type outcome => exact h.elim
    | literal w => exact h

theorem congr (h : Stands p a s) (hgraph : q.graph = p.graph)
    (htouched : q.touched = p.touched) : Stands q a s := by
  cases a with
  | socket o =>
    cases s with
    | socket id type outcome =>
      rw [Stands, InUse, hgraph, htouched]
      exact h
    | literal v => exact h.elim
  | literal v =>
    cases s with
    | socket id type outcome => exact h.elim
    | literal w => exact h

end Stands

/-- A socket that stands for a sketch is one of a node in use, with the type and the outcomes
of the sketch. -/
theorem Stands.socket {o : OutputRef} {s : Sketch} (h : Stands p (.socket o) s) :
    p.InUse o.node ∧ p.graph.outputType? o = some s.type ∧
      ∀ inputs, p.graph.Yields inputs o (s.outcome inputs) := by
  cases s with
  | socket id type outcome => exact ⟨h.1, h.2.2⟩
  | literal v => exact h.elim

namespace Placed

variable {t : Tag} {kind : NodeKind} (h : Placed p t kind args n q)

include h

/-- The node is linked from the sockets among the operands. -/
theorem linked {o : OutputRef} (ho : .socket o ∈ args) : q.graph.Linked o.node n := by
  obtain ⟨j, hj⟩ := List.mem_iff_getElem?.1 ho
  obtain ⟨l, hl, hsource⟩ := Option.map_eq_some_iff.1 (h.wired j _ hj)
  obtain ⟨hmem, htarget⟩ := h.wf.incoming?_eq_some.1 hl
  exact ⟨l, hmem, by rw [hsource], by rw [htarget]⟩

end Placed

theorem map_identity_of_stands (h : List.Forall₂ (Stands p) args sketches) :
    args.map (·.identity p.graph) = sketches.map Sketch.identity := by
  induction h with
  | nil => rfl
  | cons hx _ ih => rw [List.map_cons, List.map_cons, hx.identity, ih]

theorem any_isVector_of_stands (h : List.Forall₂ (Stands p) args sketches) :
    args.any (·.isVector p.graph) = sketches.any Sketch.isVector :=
  any_eq_of_forall₂ h fun _ _ hx => hx.isVector

section

variable [TagDigest] {c : Course} {spent : Tag → Prop} {keys : List Key} {x : Planned}

/-- **A pass is on its course**: it accounts for every tagged node, and reads from the sockets
of the course. -/
structure OnPlan (c : Course) (spent : Tag → Prop) (keys : List Key) (p : Pass) : Prop
    extends Accounts c.pos c.known c.name spent keys p where
  given : p.graph.inputSockets = c.sockets

namespace OnPlan

theorem grown_self (h : OnPlan c spent keys p) : Grown p p where
  inUse _ hn := hn
  agree :=
    { closed := fun _ _ _ hn hl => h.inUse_closed hn hl
      given := rfl
      nodes := fun _ node _ _ hnode => ⟨node, hnode, rfl, rfl⟩
      links := fun _ _ _ => rfl }
  face _ _ := ⟨rfl, fun _ => rfl⟩

/-- More tags may count as spent. -/
theorem weaken (h : OnPlan c spent keys p) {spent' : Tag → Prop}
    (hspent : ∀ T, spent T → spent' T) : OnPlan c spent' keys p :=
  ⟨h.toAccounts.weaken hspent, h.given⟩

end OnPlan

/-! ## One node -/

/-- **A node is asked for** that no call of the pass has asked for before. -/
structure Asked (c : Course) (spent : Tag → Prop) (keys : List Key) (x : Planned)
    (args : List Operand) (sketches : List Sketch) (p : Pass) : Prop where
  plan : OnPlan c spent keys p
  next : ∀ k ∈ keys, k ∈ c.next
  expects : Expects keys x
  fresh : ¬ spent x.tag
  stands : List.Forall₂ (Stands p) args sketches
  matched : p.graph.Matches args x.identities
  constants : ∀ v, .literal v ∈ args → v.All c.pos
  fits : Fits (x.kind sketches) args

namespace Asked

variable (h : Asked c spent keys x args sketches p)

include h

theorem inUse_of_mem {o : OutputRef} (ho : .socket o ∈ args) : p.InUse o.node := by
  obtain ⟨j, hj⟩ := List.mem_iff_getElem?.1 ho
  obtain ⟨s, -, hs⟩ := exists_of_forall₂ h.stands hj
  exact hs.socket.1

theorem exists_socket {o : OutputRef} (ho : .socket o ∈ args) :
    ∃ s, p.graph.outputSocket o = .ok s := by
  obtain ⟨j, hj⟩ := List.mem_iff_getElem?.1 ho
  obtain ⟨s, -, hs⟩ := exists_of_forall₂ h.stands hj
  exact exists_outputSocket hs.socket.2.1

/-- The constants that the node is to hold. -/
theorem constants_convert {j : Nat} {v : Value} {s : Socket} {node : Node}
    (hinputs : node.inputs.map Socket.spec = (x.kind sketches).inputs)
    (hv : args[j]? = some (.literal v)) (hs : node.inputs[j]? = some s) :
    (v.convert s.type).All c.pos := by
  refine (h.constants v (List.mem_of_getElem? hv)).convert (h.fits j v s.spec hv ?_)
  rw [← hinputs, List.getElem?_map, hs, Option.map_some]

theorem wanted : Wanted c.pos c.known c.name spent keys x args p where
  accounts := h.plan.toAccounts
  distinct a ha b hb := c.distinct a ha b (h.next b hb)
  unpointed := c.unpointed
  expects := h.expects
  fresh := h.fresh
  inUse _ ho := h.inUse_of_mem ho
  sockets _ ho := h.exists_socket ho
  matched := h.matched

theorem kind_eq : x.kind sketches = x.stage.node.kind (args.any (·.isVector p.graph)) := by
  rw [any_isVector_of_stands h.stands]
  rfl

theorem length_args : args.length = (x.kind sketches).inputs.length :=
  h.wanted.length_args h.kind_eq

/-- **The node is found or made.** -/
theorem places : Ensures (· = p) (findOrCreate x.tag (x.kind sketches) args)
    (fun n q => Placed p x.tag (x.kind sketches) args n q ∧
      ((∃ a, p.graph.node? n = some a ∧ a.tag = some x.tag) ∨
        ∀ m a, p.graph.node? m = some a → a.tag ≠ some x.tag)) fun _ _ => False := by
  refine findOrCreate_places h.plan.charted.wf h.plan.cached (h.expects.sane.inner _) h.length_args
    h.fits (fun o ho => h.exists_socket ho) fun n a ha ht => ?_
  obtain ⟨hkind, hwired, hne⟩ := h.wanted.found h.kind_eq ha ht
  have hface := h.plan.charted.face n a _ ha ht
  refine ⟨hface, hkind, h.plan.charted.name n a _ ha ht, hwired, ?_⟩
  intro j v s hv hs hbeq
  obtain ⟨hmem, hid⟩ := mem_of_node? ha
  have hinputs := (h.plan.charted.wf.fits a hmem).inputs (hid ▸ hface.2)
  exact Value.eq_of_beq (c.same hne)
    (h.plan.charted.constants n a _ ha ht s (List.mem_of_getElem? hs))
    (h.constants_convert (hinputs.trans (by rw [hkind])) hv hs) hbeq

section

variable {q : Pass} {n : NodeId} (hq : Placed p x.tag (x.kind sketches) args n q)

include hq

theorem fitted : Fitted p x.tag (x.kind sketches) args n q := hq.fitted h.length_args

theorem not_inUse : ¬ p.InUse n := h.wanted.not_inUse (h.fitted hq)

/-- Operands see no difference. -/
theorem sameFace {m : NodeId} (hm : p.graph.hasNode m) : p.graph.SameFace q.graph m :=
  hq.gains.sameFace h.plan.charted (fun a ha => (h.wanted.found h.kind_eq ha (hq.old a ha)).1) hm

/-- **The nodes in use are not touched again.** -/
theorem grown : Grown p q where
  inUse m hm := hm.elim Or.inl fun hm => Or.inr ((hq.touched m).2 (Or.inr hm))
  agree :=
    { closed := fun _ _ _ hm hl => h.plan.inUse_closed hm hl
      given := by rw [inputSockets, inputSockets, hq.others _ hq.face.1.symm]
      nodes := fun m node hm _ hnode => by
        have hne : m ≠ n := fun heq => h.not_inUse hq (heq ▸ hm)
        exact ⟨node, by rw [hq.others m hne, hnode], rfl, rfl⟩
      links := fun m index hm => by
        have hne : m ≠ n := fun heq => h.not_inUse hq (heq ▸ hm)
        rw [hq.links ⟨m, index⟩ hne] }
  face m hm := h.sameFace hq (h.plan.hasNode hm)

/-- What is linked into the node is an operand. -/
theorem socket_of_incoming {index : Nat} {l : Link} (hl : q.graph.incoming? ⟨n, index⟩ = some l) :
    args[index]? = some (.socket l.source) :=
  hq.gains.socket_of_incoming h.length_args hl

/-- **The pass is on its course with the node.** -/
theorem onPlan (hold : (∃ a, p.graph.node? n = some a ∧ a.tag = some x.tag) ∨
      ∀ m a, p.graph.node? m = some a → a.tag ≠ some x.tag) :
    OnPlan c (fun T => spent T ∨ T = x.tag) keys q := by
  obtain ⟨node, hnode, -, -, hinputs, -⟩ := hq.gains.exists_node
  refine
    { h.wanted.accounts_of_fitted h.kind_eq (h.fitted hq) hold fun a ha s hs => ?_ with
      given := by rw [inputSockets, hq.others _ hq.face.1.symm]; exact h.plan.given }
  obtain ⟨node', hnode', -, -, -, hconst, hrest⟩ := hq.node
  rw [ha] at hnode'
  cases hnode'
  rw [hnode] at ha
  cases ha
  obtain ⟨j, hj⟩ := List.mem_iff_getElem?.1 hs
  rcases hrest j s hj with ⟨v, hv, hd⟩ | hzero | ⟨old, hold', hmem⟩
  · rw [hd]
    exact h.constants_convert hinputs hv hj
  · rw [hzero]
    exact Value.all_zero c.zero _
  · exact h.plan.charted.constants n old _ hold' (hq.old old hold') s hmem

/-- The outcomes at the inputs of the node are those of the sketches. -/
theorem arguments_eq {node : Node} (hnode : q.graph.node? n = some node)
    (inputs : String → Option Value) {sources : Nat → Outcome}
    (hsources : ∀ (j : Nat) s, sketches[j]? = some s → sources j = s.outcome inputs) :
    q.graph.arguments n node.inputs sources
      = List.zipWith (fun t (r : Outcome) => r.map (·.convert t))
        ((x.kind sketches).inputs.map SocketSpec.type) (sketches.map (Sketch.outcome inputs)) := by
  obtain ⟨node', hnode', -, -, -, hconst, -⟩ := hq.node
  obtain ⟨node'', hnode'', -, -, hinputs, -⟩ := hq.gains.exists_node
  rw [hnode] at hnode' hnode''
  cases hnode'
  cases hnode''
  have hlen : node.inputs.length = sketches.length := by
    rw [← h.stands.length_eq, h.length_args, ← hinputs, List.length_map]
  refine List.ext_getElem? fun j => ?_
  rw [List.getElem?_zipWith, ← hinputs]
  simp only [arguments, List.getElem?_mapIdx, List.getElem?_map]
  cases hs : node.inputs[j]? with
  | none => rfl
  | some s =>
    have hlt : j < args.length := by
      rw [h.stands.length_eq, ← hlen]
      exact (List.getElem?_eq_some_iff.1 hs).1
    obtain ⟨w, hw, hstands⟩ := exists_of_forall₂ h.stands (List.getElem?_eq_getElem hlt)
    have hwired := hq.wired j _ (List.getElem?_eq_getElem hlt)
    rw [hw]
    simp only [Option.map_some, Option.some.injEq, Socket.spec]
    cases ha : args[j] with
    | socket o =>
      rw [ha] at hwired
      obtain ⟨l, hl, -⟩ := Option.map_eq_some_iff.1 (hwired.trans rfl)
      simp only [hl, hsources j w hw]
    | literal v =>
      rw [ha] at hwired hstands
      have hnone := Option.map_eq_none_iff.1 (hwired.trans rfl)
      have hdefault := hconst j v s (ha ▸ List.getElem?_eq_getElem hlt) hs
      cases w with
      | socket id type outcome => exact hstands.elim
      | literal w =>
        obtain rfl : v = w := hstands
        simp only [hnone, hdefault]
        rfl

/-- **The node stands for the sketch of its plan.** -/
theorem stands_result : Stands q (.socket ⟨n, 0⟩) (x.sketch sketches) := by
  obtain ⟨node, hnode, -, hname, hinputs, houtputs, hkind⟩ := hq.gains.exists_node
  refine ⟨Or.inr ((hq.touched n).2 (Or.inl rfl)), ?_, ?_, fun inputs => ?_⟩
  · exact Charted.identity_socket (by rw [name?, hnode, Option.map_some, hname])
  · have hlen : (x.kind sketches).outputs.length = 1 := h.expects.sane.outputs _
    obtain ⟨spec, hspec⟩ := List.length_eq_one_iff.1 hlen
    rw [hspec] at houtputs
    obtain ⟨s, hs, rfl⟩ := List.map_eq_singleton_iff.1 houtputs
    rw [NodeKind.resultType, hspec]
    simp only [outputType?, outputSocket, hnode, hs]
    rfl
  · -- what is linked into the node has the outcome of its sketch
    have hyields : ∀ (index : Nat) l, q.graph.incoming? ⟨n, index⟩ = some l →
        q.graph.Yields inputs l.source
          ((sketches[index]?.map (Sketch.outcome inputs)).getD (.ok (.float 0))) := by
      intro index l hl
      obtain ⟨s, hs, hstands⟩ := exists_of_forall₂ h.stands (h.socket_of_incoming hq hl)
      rw [hs, Option.map_some, Option.getD_some]
      exact (hstands.grown (h.grown hq) h.plan.charted.wf.hasEntry hq.wf.hasEntry).socket.2.2 inputs
    have hcomputed := Yields.computed (o := ⟨n, 0⟩) _ hq.face.1 hnode hyields
    rw [h.arguments_eq hq hnode inputs fun j s hs => by rw [hs]; rfl] at hcomputed
    have hrs : (sketches.map (Sketch.outcome inputs)).length = (x.kind sketches).inputs.length := by
      rw [List.length_map, ← h.stands.length_eq, h.length_args]
    rw [hkind] at hcomputed
    have houtcome := (x.kind sketches).outcome_convert _ hrs
    rw [NodeKind.outcome] at houtcome
    change q.graph.Yields inputs ⟨n, 0⟩
      ((x.kind sketches).outcome (sketches.map (Sketch.outcome inputs)))
    rw [← houtcome]
    exact hcomputed

end

/-- **A node that is asked for is built**, and all that was in use stays. -/
theorem built : Ensures (· = p) (findOrCreate x.tag (x.kind sketches) args)
    (fun n q => OnPlan c (fun T => spent T ∨ T = x.tag) keys q ∧ Grown p q ∧
      Stands q (.socket ⟨n, 0⟩) (x.sketch sketches) ∧ (∀ m, m ∈ q.touched ↔ m = n ∨ m ∈ p.touched) ∧
      ∀ o, .socket o ∈ args → q.graph.Linked o.node n) fun _ _ => False :=
  h.places.weaken (fun _ hp => hp) (fun _ _ hq => ⟨h.onPlan hq.1 hq.2, h.grown hq.1,
    h.stands_result hq.1, hq.1.touched, fun _ ho => hq.1.linked ho⟩) fun _ _ he => he

end Asked

end

end Pass

end NodeFormula
