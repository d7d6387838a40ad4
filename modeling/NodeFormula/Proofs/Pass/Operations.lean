import NodeFormula.Proofs.Build.Framed
import NodeFormula.Proofs.Graph.Identified
import NodeFormula.Proofs.Pass.Outlined
/-!
# NodeFormula — the states of a pass

A pass is handed to code that asks it for tags and nodes, links outputs, sets constants, takes
it back, prunes, and may edit the graph behind its back (`Pass.Operation`). Every operation
leaves a pass, also when it fails. Whatever the operations are, the graph stays one that passes
run over (`ready_after`), and no two tags that the pass gives out are the same
(`tagsGiven_nodup`).
-/

namespace NodeFormula

namespace Graph

variable {g g' : Graph}

/-- Passes run over a graph of which no sign of an interface node has a tag. -/
theorem WellFormed.ready_iff (hg : g.WellFormed) :
    g.Ready ↔ ∀ s ∈ g.signs, s.id = entry ∨ s.id = exit → s.tag = none := by
  constructor
  · intro h s hs hface
    obtain ⟨node, hnode, rfl⟩ := List.mem_map.1 hs
    exact h.untagged node.id node hface (hg.node?_eq hnode)
  · refine fun h => ⟨hg, fun n node hface hnode => ?_⟩
    obtain ⟨hmem, rfl⟩ := mem_of_node? hnode
    exact h node.sign (List.mem_map_of_mem hmem) hface

theorem Ready.of_retains (h : g.Ready) (hwf : g'.WellFormed) (hr : g.Retains g') : g'.Ready :=
  hwf.ready_iff.2 fun s hs => h.wf.ready_iff.1 h s (hr.signs.subset hs)

/-- What passes run over, by its outlines. -/
theorem Ready.of_outlines (h : g.Ready) (hwf : g'.WellFormed)
    (houtlines : ∀ o ∈ g'.outlines, o ∈ g.outlines ∨ o.id ≠ entry ∧ o.id ≠ exit) : g'.Ready := by
  refine ⟨hwf, fun n node hface hnode => ?_⟩
  obtain ⟨hmem, hid⟩ := outline_mem hnode
  rcases houtlines _ hmem with hold | hne
  · obtain ⟨old, hlook, houtline⟩ := h.wf.node?_of_mem_outlines hold
    rw [hid] at hlook
    exact (congrArg Node.tag houtline).symm.trans (h.untagged n old hface hlook)
  · rw [hid] at hne
    exact absurd hface (not_or.2 hne)

end Graph

/-- An edit that tags no node of the interface. -/
def Edit.SparesInterface (e : Edit) : Prop :=
  ∀ n t, e = .setTag n t → n ≠ Graph.entry ∧ n ≠ Graph.exit

/-- An edit leaves a graph that passes run over. -/
theorem Graph.Ready.perform {g : Graph} (hg : g.Ready) {e : Edit} (he : e.SparesInterface) :
    (e.perform g).2.Ready := by
  have hwf := (hg.wf.perform e).1
  have hold := hg.wf.ready_iff.1 hg
  rw [Edit.perform_eq] at hwf ⊢
  cases hattempt : e.attempt g with
  | error err => exact hg
  | ok r =>
    rw [hattempt] at hwf
    rcases Graph.retains_of_attempt hattempt with hr | ⟨kind, rfl⟩ | ⟨n, t, rfl⟩
    · exact hg.of_retains hwf hr
    · obtain ⟨⟨n, made⟩, hmade, rfl⟩ := map_eq_ok hattempt
      obtain ⟨-, -, rfl⟩ := createNode_eq_ok.1 hmade
      refine hwf.ready_iff.2 ?_
      rw [Prod.map_snd, id, Identified.signs_insertNode, List.forall_mem_append]
      exact ⟨hold, List.forall_mem_singleton.2 fun _ => rfl⟩
    · obtain ⟨_, hmade, rfl⟩ := map_eq_ok hattempt
      refine hwf.ready_iff.2 ?_
      rw [(Identified.signs_setTag hmade).1, List.forall_mem_map]
      intro s hs hface
      rw [Sign.id_tagged] at hface
      -- the node that is tagged is none of the interface
      have hne : s.id ≠ n := fun hid =>
        hface.elim (fun h => (he n t rfl).1 (hid ▸ h)) fun h => (he n t rfl).2 (hid ▸ h)
      rw [Sign.tagged, if_neg hne]
      exact hold s hs hface

namespace Pass

open Graph

variable {ε α : Type} {p q : Pass} {x : PassM ε α} {t : Tag} {kind : NodeKind}

/-! ## What is left of a pass -/

/-- The pass that an operation leaves, also when it fails. -/
def left (x : PassM ε α) (p : Pass) : Pass :=
  match x p with
  | .ok _ q => q
  | .error _ q => q

theorem left_of_ensures {P Q : Pass → Prop} (h : Ensures P x (fun _ => Q) fun _ => Q) (hp : P p) :
    Q (left x p) := by
  have hx := h p hp
  rw [left]
  cases hr : x p with
  | ok a q => rw [hr] at hx; exact hx
  | error e q => rw [hr] at hx; exact hx

/-- An operation of a pass. Other code may edit the graph in between. -/
inductive Operation where
  | nextTag (function : String) (identities : List String)
  | tagFor (function : String) (operands : List Operand)
  | findOrCreate (t : Tag) (kind : NodeKind) (operands : List Operand)
  | linkOutput (source : OutputRef) (target : InputRef)
  | setConstant (i : InputRef) (v : Value)
  | rollBack
  | prune
  | edit (e : Edit) (spares : e.SparesInterface)

/-- The pass after an operation. -/
def Operation.run [TagDigest] (p : Pass) : Operation → Pass
  | nextTag function identities => left (Pass.nextTag function identities : PassM GraphError Tag) p
  | tagFor function operands => left (Pass.tagFor function operands : PassM GraphError Tag) p
  | findOrCreate t kind operands => left (Pass.findOrCreate t kind operands) p
  | linkOutput source target => left (Pass.linkOutput source target) p
  | setConstant i v => left (Pass.setConstant i v) p
  | rollBack => p.rollBack
  | prune => left Pass.prune p
  | edit e _ => { p with graph := (e.perform p.graph).2 }

/-- The pass after some operations. -/
def after [TagDigest] (ops : List Operation) (p : Pass) : Pass := ops.foldl Operation.run p

/-! ## The graph stays ready -/

theorem Tuned.ready (h : Tuned p q) (hp : p.graph.Ready) : q.graph.Ready :=
  hp.of_outlines (h.wf hp.wf) fun _ ho => Or.inl (h.outlines ▸ ho)

theorem Cleared.ready (h : Cleared t kind p q) (hp : p.graph.Ready) : q.graph.Ready := by
  cases h with
  | none _ => exact hp
  | dropped _ _ hface _ =>
    refine hp.of_outlines (hp.wf.without hface.1 hface.2) fun o ho => Or.inl ?_
    rw [dropping, outlines_without] at ho
    exact List.mem_of_mem_filter ho

theorem Made.ready (h : Made t kind p q) (hp : p.graph.Ready) : q.graph.Ready := by
  obtain ⟨o, hid, -, -, houtlines⟩ := h.outlines
  refine hp.of_outlines h.wf fun o' ho' => ?_
  rw [houtlines, List.mem_append, List.mem_singleton] at ho'
  refine ho'.imp_right fun heq => ?_
  rw [heq, hid]
  exact ⟨Nat.ne_of_gt hp.wf.entry_lt, Nat.ne_of_gt hp.wf.exit_lt⟩

/-- A request leaves a graph that passes run over. -/
theorem Comes.ready {n : Option NodeId} (h : Comes t kind p n q) (hp : p.graph.Ready) :
    q.graph.Ready := by
  cases h with
  | refused => exact hp
  | stuck _ h => exact h.ready (p := p.remembering t _) hp
  | used _ _ _ h => exact h.ready (p := p.remembering t _) hp
  | unmade hclear => exact hclear.ready hp
  | made hclear h _ => exact h.ready (hclear.ready hp)

/-! ## Removals -/

section

variable {I : Graph → List Tag → Prop}
  (hI : ∀ g n g' tags, I g tags → g.removeNode n = .ok g' → I g' tags)

include hI

theorem discard_keeps (hp : I p.graph p.derived) (n : NodeId) :
    I (p.discard n).graph (p.discard n).derived := by
  rw [discard_eq]
  cases h : p.graph.removeNode n with
  | error e => exact hp
  | ok g => exact hI _ n g _ hp h

/-- Taking a pass back keeps what removals keep. -/
theorem rollBack_keeps (hp : I p.graph p.derived) : I p.rollBack.graph p.rollBack.derived := by
  have hall : ∀ (ns : List NodeId) (q : Pass), I q.graph q.derived →
      I (ns.foldl discard q).graph (ns.foldl discard q).derived := by
    intro ns
    induction ns with
    | nil => exact fun q hq => hq
    | cons n ns ih => exact fun q hq => ih _ (discard_keeps hI hq n)
  exact hall _ { p with report := { p.report with created := [] } } hp

/-- So does pruning, also when it fails half-way. -/
theorem prune_keeps (hp : I p.graph p.derived) : I (left prune p).graph (left prune p).derived := by
  let J : Pass → Prop := fun q => I q.graph q.derived
  have hremove : ∀ xs, Ensures J (removeAll xs) (fun _ => J) fun _ => J := by
    intro xs
    induction xs with
    | nil => exact Ensures.pure fun _ h => h
    | cons x xs ih =>
      refine Ensures.bind (Q := fun _ => J) (Ensures.edit_ (fun p g hp hr => hI _ _ _ _ hp hr)
        fun _ _ h _ => h) fun _ => ?_
      exact Ensures.bind (Q := fun _ => J) (Ensures.record fun _ h => h) fun _ =>
        Ensures.bind ih fun _ => Ensures.pure fun _ h => h
  have hprune : Ensures J prune (fun _ => J) fun _ => J := by
    refine Ensures.get fun p hp => Ensures.bind ((hremove p.stale).weaken (fun q hq => hq ▸ hp)
      (fun _ _ h => h) fun _ _ h => h) fun _ => ?_
    exact Ensures.bind (Q := fun _ => J) (Ensures.modify fun _ h => h) fun _ =>
      Ensures.pure fun _ h => h
  exact left_of_ensures (Q := J) hprune hp

end

theorem wf_of_removeNode (g : Graph) (n : NodeId) (g' : Graph) (_ : List Tag) (hg : g.WellFormed)
    (h : g.removeNode n = .ok g') : g'.WellFormed := by
  obtain ⟨hentry, hexit, -, rfl⟩ := removeNode_eq_ok.1 h
  exact hg.without hentry hexit

theorem ready_of_removeNode (g : Graph) (n : NodeId) (g' : Graph) (tags : List Tag) (hg : g.Ready)
    (h : g.removeNode n = .ok g') : g'.Ready :=
  hg.of_retains (wf_of_removeNode g n g' tags hg.wf h) (.removeNode h)

/-! ## All operations -/

variable [TagDigest]

theorem Operation.wf_run (hp : p.graph.WellFormed) (op : Operation) :
    (op.run p).graph.WellFormed := by
  have htuning : ∀ {α : Type} {x : PassM GraphError α}, Tuning x → (left x p).graph.WellFormed :=
    fun hx => left_of_ensures (hx.keeps fun _ _ hq h => h.wf hq) hp
  cases op with
  | nextTag function identities => exact hp
  | tagFor function operands => exact hp
  | findOrCreate t kind operands =>
    exact left_of_ensures ((comes_findOrCreate hp operands).weaken (fun _ h => h)
      (fun n q h => Comes.wf h hp) fun e q h => Comes.wf h hp) rfl
  | linkOutput source target => exact htuning (tuning_linkOutput source target)
  | setConstant i v => exact htuning (tuning_setConstant i v)
  | rollBack => exact rollBack_keeps wf_of_removeNode hp
  | prune => exact prune_keeps wf_of_removeNode hp
  | edit e spares => exact (hp.perform e).1

/-- **An operation leaves a graph that passes run over.** -/
theorem Operation.ready_run (hp : p.graph.Ready) (op : Operation) : (op.run p).graph.Ready := by
  have htuning : ∀ {α : Type} {x : PassM GraphError α}, Tuning x → (left x p).graph.Ready :=
    fun hx => left_of_ensures (hx.keeps fun _ _ hq h => h.ready hq) hp
  cases op with
  | nextTag function identities => exact hp
  | tagFor function operands => exact hp
  | findOrCreate t kind operands =>
    exact left_of_ensures ((comes_findOrCreate hp.wf operands).weaken (fun _ h => h)
      (fun n q h => Comes.ready h hp) fun e q h => Comes.ready h hp) rfl
  | linkOutput source target => exact htuning (tuning_linkOutput source target)
  | setConstant i v => exact htuning (tuning_setConstant i v)
  | rollBack => exact rollBack_keeps ready_of_removeNode hp
  | prune => exact prune_keeps ready_of_removeNode hp
  | edit e spares => exact hp.perform spares

/-- **Every state of a pass has a graph that passes run over.** -/
theorem ready_after (hp : p.graph.Ready) (ops : List Operation) : (after ops p).graph.Ready := by
  induction ops generalizing p with
  | nil => exact hp
  | cons op ops ih => exact ih (op.ready_run hp)

/-! ## Tags -/

/-- The key of the tag that an operation derives. -/
def Operation.key? (p : Pass) : Operation → Option Key
  | nextTag function identities => some ⟨function, identities⟩
  | tagFor function operands => some ⟨function, operands.map (·.identity p.graph)⟩
  | _ => none

/-- The tag that an operation gives out. -/
def Operation.tag? (p : Pass) : Operation → Option Tag
  | nextTag function identities =>
    match (Pass.nextTag function identities : PassM GraphError Tag) p with
    | .ok t _ => some t
    | .error _ _ => none
  | tagFor function operands =>
    match (Pass.tagFor function operands : PassM GraphError Tag) p with
    | .ok t _ => some t
    | .error _ _ => none
  | _ => none

/-- The tags that operations give out, in their order. -/
def tagsGiven : List Operation → Pass → List Tag
  | [], _ => []
  | op :: ops, p => (op.tag? p).toList ++ tagsGiven ops (op.run p)

/-- Only the key of its own tag is new to a pass after an operation. -/
theorem Operation.derived_run (hp : p.graph.WellFormed) (op : Operation) :
    (op.run p).derived = (op.key? p).toList.map Key.base ++ p.derived := by
  have htuning : ∀ {α : Type} {x : PassM GraphError α}, Tuning x → (left x p).derived = p.derived :=
    fun hx => left_of_ensures (hx.keeps (P := (·.derived = p.derived))
      fun _ _ hq h => h.derived.trans hq) rfl
  have hremove : ∀ (g : Graph) n (g' : Graph) tags, tags = p.derived →
      g.removeNode n = .ok g' → tags = p.derived := fun _ _ _ _ h _ => h
  cases op with
  | nextTag function identities => rfl
  | tagFor function operands => rfl
  | findOrCreate t kind operands =>
    exact left_of_ensures (Q := (·.derived = p.derived)) ((comes_findOrCreate hp operands).weaken
      (fun _ h => h) (fun n q h => Comes.derived h) fun e q h => Comes.derived h) rfl
  | linkOutput source target => exact htuning (tuning_linkOutput source target)
  | setConstant i v => exact htuning (tuning_setConstant i v)
  | rollBack => exact rollBack_keeps hremove rfl
  | prune => exact prune_keeps hremove rfl
  | edit e spares => rfl

/-- A tag is given out for its key and for the keys before it. -/
theorem Operation.tag?_eq {keys : List Key} (hp : p.derived = keys.map Key.base) (op : Operation) :
    op.tag? p = (op.key? p).map (Key.next keys) := by
  cases op with
  | nextTag function identities =>
    rw [key?, Option.map_some, Key.next, ← hp]
    rfl
  | tagFor function operands =>
    rw [key?, Option.map_some, Key.next, ← hp]
    rfl
  | _ => rfl

/-- **The tags of a pass are those that its keys are given, one after another.** -/
theorem exists_issued {keys : List Key} (hg : p.graph.WellFormed)
    (hp : p.derived = keys.map Key.base) (ops : List Operation) :
    ∃ more : List Key, issued (more ++ keys) = (tagsGiven ops p).reverse ++ issued keys := by
  induction ops generalizing p keys with
  | nil => exact ⟨[], rfl⟩
  | cons op ops ih =>
    have hderived := op.derived_run hg
    rw [tagsGiven, op.tag?_eq hp]
    cases hkey : op.key? p with
    | none =>
      rw [hkey, hp] at hderived
      exact ih (op.wf_run hg) hderived
    | some k =>
      rw [hkey, hp] at hderived
      have hkeys : (op.run p).derived = (k :: keys).map Key.base := hderived
      obtain ⟨more, hmore⟩ := ih (op.wf_run hg) hkeys
      refine ⟨more ++ [k], ?_⟩
      rw [List.append_assoc, List.singleton_append, hmore, issued]
      simp

/-- **No two tags of a pass are the same**, whatever the names of the functions, the identities
and the digest, and whatever else the pass does. -/
theorem tagsGiven_nodup {g : Graph} (hg : g.WellFormed) (spacing : Float32)
    (ops : List Operation) : (tagsGiven ops (start g spacing)).Nodup := by
  have hkeys : (start g spacing).derived = ([] : List Key).map Key.base := rfl
  obtain ⟨more, hmore⟩ := exists_issued (p := start g spacing) hg hkeys ops
  have hnodup := issued_nodup (more ++ [])
  rw [hmore, issued, List.append_nil, List.nodup_reverse] at hnodup
  exact hnodup

end Pass

end NodeFormula
