import NodeFormula.Proofs.Graph.Identified
import NodeFormula.Proofs.Pass.Ensures
import NodeFormula.Proofs.Pass.Lookup
/-!
# NodeFormula — passes keep names apart

A pass knows nodes by their tags, in its cache and in the graph. While every node that the
cache names carries the tag it is cached for (`Pass.Identified`), a node is made for a tag only
when no node carries it: there was none, or the one of another kind has been removed
(`identifying_findOrCreate`). This needs nothing of the operands, and it holds of operations
that fail as well: a node that is left half-built has its tag. Everything else that a pass does
leaves names and tags as they are (`Retaining`).
-/

namespace NodeFormula

namespace Pass

open Graph

variable {ε ε' α β : Type} {p q r : Pass} {n : NodeId} {t : Tag} {x : PassM ε α}

/-- A later pass whose nodes read as they did, as far as they are there, and that has cached
nothing new. -/
structure Retains (p q : Pass) : Prop where
  graph : p.graph.Retains q.graph
  cache : q.cache ⊆ p.cache

theorem Retains.refl (p : Pass) : Retains p p := ⟨.refl _, List.Subset.refl _⟩

theorem Retains.trans (h : Retains p q) (h' : Retains q r) : Retains p r :=
  ⟨h.graph.trans h'.graph, fun _ hx => h.cache (h'.cache hx)⟩

/-- **An operation that retains what there is**, also when it fails. -/
def Retaining (x : PassM ε α) : Prop :=
  ∀ p, Ensures (Retains p) x (fun _ => Retains p) fun _ => Retains p

namespace Retaining

theorem pure (a : α) : Retaining (Pure.pure a : PassM ε α) := fun _ => Ensures.pure fun _ h => h

theorem bind {f : α → PassM ε β} (hx : Retaining x) (hf : ∀ a, Retaining (f a)) :
    Retaining (x >>= f) :=
  fun p => Ensures.bind (hx p) fun a => hf a p

theorem get {f : Pass → PassM ε β} (hf : ∀ p, Retaining (f p)) :
    Retaining (MonadState.get >>= f) :=
  fun p => Ensures.get fun q hq q' hq' => by
    subst hq'
    exact hf q' p q' hq

theorem read {f : Graph → Except ε α} : Retaining (Pass.read f) :=
  fun _ => Ensures.read (fun _ _ h _ => h) fun _ _ h _ => h

theorem of_modify {f : Pass → Pass} (hf : ∀ p, Retains p (f p)) :
    Retaining (modify f : PassM ε Unit) :=
  fun _ => Ensures.modify fun q h => h.trans (hf q)

theorem record {f : Report → Report} : Retaining (Pass.record f : PassM ε Unit) :=
  fun _ => Ensures.record fun _ h => h.trans ⟨.refl _, List.Subset.refl _⟩

theorem edit {m : GraphM α} [m.Atomic]
    (hm : ∀ g a g', m.outcome g = .ok (a, g') → g.Retains g') : Retaining (Pass.edit m) :=
  fun _ => Ensures.edit (fun q a _ h hr => h.trans ⟨hm q.graph a _ hr, List.Subset.refl _⟩)
    fun _ _ h _ => h

theorem edit_ {m : GraphM Unit} [m.Atomic]
    (hm : ∀ g g', m.after g = .ok g' → g.Retains g') : Retaining (Pass.edit m) :=
  fun _ => Ensures.edit_ (fun q _ h hr => h.trans ⟨hm q.graph _ hr, List.Subset.refl _⟩)
    fun _ _ h _ => h

/-- What is retained holds after the operation. -/
theorem ensures (hx : Retaining x) {P Q : Pass → Prop} (hP : ∀ p q, P p → Retains p q → P q)
    (hQ : ∀ p, P p → Q p) : Ensures P x (fun _ => P) fun _ => Q := by
  intro p hp
  have h := hx p p (.refl p)
  cases hr : x p with
  | ok a q => rw [hr] at h; exact hP p q hp h
  | error e q => rw [hr] at h; exact hQ q (hP p q hp h)

end Retaining

/-! ## Operations that make no node -/

theorem retaining_touch (n : NodeId) : Retaining (touch n : PassM ε Unit) :=
  .of_modify fun _ => ⟨.refl _, List.Subset.refl _⟩

theorem retaining_hold (i : InputRef) (v : Value) : Retaining (hold i v) := by
  refine .bind .read fun w => .get fun p => ?_
  split
  · exact .pure false
  · exact .bind (.edit_ fun _ _ => Graph.Retains.setDefault) fun _ => .pure true

theorem retaining_refresh (n : NodeId) (args : List Operand) : Retaining (refresh n 0 args) :=
  fun p => Ensures.refresh (P := fun _ _ => Retains p) (fun _ _ _ _ _ h => h)
    fun _ v _ _ => retaining_hold _ v p

theorem retaining_connect (n : NodeId) (args : List Operand) : Retaining (connect n 0 args) :=
  fun p => Ensures.connect (fun _ _ _ => Retaining.edit (fun _ _ _ => Graph.Retains.link) p)
    (fun _ _ h => h.trans ⟨.refl _, List.Subset.refl _⟩) fun _ _ _ => ⟨fun _ => Retains p,
      Retaining.read p, fun _ => Retaining.edit_ (fun _ _ => Graph.Retains.setDefault) p⟩

theorem retaining_markAutomated (n : NodeId) : Retaining (edit (GraphM.markAutomated n)) :=
  .edit_ fun _ _ => Graph.Retains.markAutomated

theorem retaining_setActive (n : NodeId) : Retaining (edit (GraphM.setActive (some n))) :=
  .edit_ fun g _ h => by
    cases h
    exact .setActive g _

theorem retaining_reuse (n : NodeId) (args : List Operand) : Retaining (reuse n args) :=
  .bind (retaining_refresh n args) fun _ => .bind (retaining_markAutomated n) fun _ =>
    .bind (retaining_touch n) fun _ => .bind .record fun _ => .pure n

theorem retaining_linkOutput (o : OutputRef) (i : InputRef) : Retaining (linkOutput o i) := by
  refine .get fun p => ?_
  split
  · exact .pure false
  · exact .bind (.edit fun _ _ _ => Graph.Retains.link) fun _ => .bind .record fun _ => .pure true

theorem retaining_setConstant (i : InputRef) (v : Value) : Retaining (setConstant i v) := by
  refine .bind (.get fun p => ?_) fun _ => .bind (retaining_hold i v) fun _ => .pure _
  cases p.graph.incoming? i with
  | none => exact .pure false
  | some l => exact .bind (.edit_ fun _ _ => Graph.Retains.unlink) fun _ => .pure true

theorem retaining_removeAll (xs : List (Tag × NodeId)) : Retaining (removeAll xs) := by
  induction xs with
  | nil => exact .pure []
  | cons x xs ih =>
    exact .bind (.edit_ fun _ _ => Graph.Retains.removeNode) fun _ => .bind .record fun _ =>
      .bind ih fun _ => .pure _

theorem retains_forgetRemoved (p : Pass) : Retains p p.forgetRemoved :=
  ⟨.refl _, List.filter_subset_self _⟩

theorem retaining_prune : Retaining prune :=
  .get fun _ => .bind (retaining_removeAll _) fun _ => .bind (.of_modify retains_forgetRemoved)
    fun _ => .pure _

theorem retains_discard (p : Pass) (n : NodeId) : Retains p (p.discard n) := by
  rw [discard_eq]
  cases h : p.graph.removeNode n with
  | error e => exact .refl p
  | ok g => exact ⟨.removeNode h, List.Subset.refl _⟩

theorem retains_discards (p : Pass) (ns : List NodeId) : Retains p (ns.foldl discard p) := by
  induction ns generalizing p with
  | nil => exact .refl p
  | cons n ns ih => exact (retains_discard p n).trans (ih _)

/-- **A pass that is taken back** only loses nodes. -/
theorem retains_rollBack (p : Pass) : Retains p p.rollBack := by
  have hcleared : Retains p { p with report := { p.report with created := [] } } :=
    ⟨.refl _, List.Subset.refl _⟩
  exact (hcleared.trans (retains_discards _ _)).trans (retains_forgetRemoved _)

/-! ## Nodes that are made -/

/-- The node that a pass has for a tag carries it, if it is there, and is none of the future. -/
def Carries (g : Graph) (n : NodeId) (t : Tag) : Prop :=
  n < g.nextNode ∧ ∀ s ∈ g.signs, s.id = n → s.tag = some t

theorem Carries.of_retains {g g' : Graph} (h : Carries g n t) (hg : g.Retains g') :
    Carries g' n t :=
  ⟨hg.nextNode ▸ h.1, fun s hs => h.2 s (hg.signs.subset hs)⟩

/-- **The nodes of a pass have names of their own**, and the cached ones their tags. -/
structure Identified (p : Pass) : Prop where
  graph : p.graph.Identified
  cached : ∀ x ∈ p.cache, Carries p.graph x.2 x.1

/-- A tag is free to be given. -/
structure Vacant (t : Tag) (p : Pass) : Prop extends Identified p where
  unclaimed : p.graph.Unclaimed t

/-- A node is there to get a tag that no node has. -/
structure Awaits (t : Tag) (n : NodeId) (p : Pass) : Prop extends Vacant t p where
  uncached : ∀ x ∈ p.cache, x.2 ≠ n
  lt : n < p.graph.nextNode

/-- A node has got its tag. -/
structure Tagged (t : Tag) (n : NodeId) (p : Pass) : Prop extends Identified p where
  carries : Carries p.graph n t

theorem Identified.of_retains (hp : Identified p) (h : Retains p q) : Identified q where
  graph := hp.graph.of_retains h.graph
  cached x hx := (hp.cached x (h.cache hx)).of_retains h.graph

theorem Vacant.of_retains (hp : Vacant t p) (h : Retains p q) : Vacant t q where
  toIdentified := hp.toIdentified.of_retains h
  unclaimed := h.graph.unclaimed hp.unclaimed

theorem Awaits.of_retains (hp : Awaits t n p) (h : Retains p q) : Awaits t n q where
  toVacant := hp.toVacant.of_retains h
  uncached x hx := hp.uncached x (h.cache hx)
  lt := h.graph.nextNode ▸ hp.lt

theorem Tagged.of_retains (hp : Tagged t n p) (h : Retains p q) : Tagged t n q where
  toIdentified := hp.toIdentified.of_retains h
  carries := hp.carries.of_retains h.graph

theorem Tagged.remember (hp : Tagged t n p) : Tagged t n { p with cache := (t, n) :: p.cache } where
  graph := hp.graph
  cached := List.forall_mem_cons.2 ⟨hp.carries, hp.cached⟩
  carries := hp.carries

theorem Identified.start {g : Graph} (hg : g.Identified) (spacing : Float32) :
    Identified (start g spacing) :=
  ⟨hg, List.forall_mem_nil _⟩

/-- **An operation keeps names apart**, also when it fails. -/
def Identifying (x : PassM ε α) : Prop :=
  Ensures Identified x (fun _ => Identified) fun _ => Identified

namespace Identifying

theorem of_retaining (hx : Retaining x) : Identifying x :=
  hx.ensures (fun _ _ => Identified.of_retains) fun _ h => h

theorem pure (a : α) : Identifying (Pure.pure a : PassM ε α) := Ensures.pure fun _ h => h

theorem throw (e : ε) : Identifying (throw e : PassM ε α) := Ensures.throw fun _ h => h

theorem bind {f : α → PassM ε β} (hx : Identifying x) (hf : ∀ a, Identifying (f a)) :
    Identifying (x >>= f) :=
  Ensures.bind hx hf

theorem get {f : Pass → PassM ε β} (hf : ∀ p, Identifying (f p)) :
    Identifying (MonadState.get >>= f) :=
  Ensures.get fun p hp q hq => by
    subst hq
    exact hf q q hp

theorem adaptExcept (hx : Identifying x) (f : ε → ε') : Identifying (x.adaptExcept f) :=
  Ensures.adaptExcept hx

end Identifying

namespace Retaining

theorem awaits (hx : Retaining x) :
    Ensures (Awaits t n) x (fun _ => Awaits t n) fun _ => Identified :=
  hx.ensures (fun _ _ => Awaits.of_retains) fun _ h => h.toIdentified

theorem tagged (hx : Retaining x) :
    Ensures (Tagged t n) x (fun _ => Tagged t n) fun _ => Identified :=
  hx.ensures (fun _ _ => Tagged.of_retains) fun _ => Tagged.toIdentified

end Retaining

/-- A node that has just been made can get the tag. -/
theorem ensures_createNode_awaits (kind : NodeKind) :
    Ensures (Vacant t) (edit (GraphM.createNode kind)) (Awaits t) fun _ => Identified := by
  refine Ensures.edit (fun p n g' hp hr => ?_) fun _ _ h _ => h.toIdentified
  obtain ⟨-, rfl, rfl⟩ := createNode_eq_ok.1 hr
  have hsigns := Graph.Identified.signs_insertNode (g := p.graph) kind ⟨0, 0⟩
  refine ⟨⟨⟨hp.graph.insertNode kind _, fun x hx => ?_⟩, ?_⟩, fun x hx => ?_, Nat.lt_succ_self _⟩
  · obtain ⟨hlt, hcarries⟩ := hp.cached x hx
    refine ⟨Nat.lt_succ_of_lt hlt, ?_⟩
    rw [hsigns, List.forall_mem_append, List.forall_mem_singleton]
    exact ⟨hcarries, fun heq => absurd heq.symm (Nat.ne_of_lt hlt)⟩
  · rw [Unclaimed, hsigns, List.forall_mem_append, List.forall_mem_singleton]
    exact ⟨hp.unclaimed, (Option.some_ne_none t).symm⟩
  · exact Nat.ne_of_lt (hp.cached x hx).1

/-- A node that awaits its tag is in no cache yet, so none that another tag is cached for. -/
theorem ensures_setTag_tagged (ht : t.Made) :
    Ensures (Awaits t n) (edit (GraphM.setTag n t)) (fun _ => Tagged t n)
      fun _ => Identified := by
  refine Ensures.edit_ (fun p g' hp hr => ?_) fun _ _ h _ => h.toIdentified
  obtain ⟨hsigns, -, hnext⟩ := Graph.Identified.signs_setTag hr
  refine ⟨⟨hp.graph.setTag ht hp.unclaimed hr, fun x hx => ?_⟩, hnext ▸ hp.lt, ?_⟩
  · obtain ⟨hlt, hcarries⟩ := hp.cached x hx
    refine ⟨hnext ▸ hlt, ?_⟩
    rw [hsigns, List.forall_mem_map]
    intro s hs hid
    rw [Sign.id_tagged] at hid
    rw [Sign.tagged, if_neg (hid ▸ hp.uncached x hx)]
    exact hcarries s hs hid
  · rw [hsigns, List.forall_mem_map]
    intro s hs hid
    rw [Sign.id_tagged] at hid
    rw [Sign.tagged, if_pos hid]

/-- A node that goes was the only one with its tag, which is free from then on. -/
theorem Tagged.vacant (hp : Tagged t n p) {g : Graph} (hremove : p.graph.removeNode n = .ok g)
    (hgraph : q.graph = g) (hcache : q.cache ⊆ p.cache) : Vacant t q where
  toIdentified := hp.toIdentified.of_retains ⟨hgraph ▸ .removeNode hremove, hcache⟩
  unclaimed := hgraph ▸ hp.graph.unclaimed_removeNode hp.carries.2 hremove

/-- **The node of a tag is made**, if no node carries the tag. -/
theorem ensures_create (ht : t.Made) (kind : NodeKind) (args : List Operand) :
    Ensures (Vacant t) (create t kind args) (fun _ => Identified) fun _ => Identified := by
  refine Ensures.bind (ensures_createNode_awaits kind) fun n => ?_
  refine Ensures.bind Retaining.record.awaits fun _ => ?_
  refine Ensures.bind (retaining_touch n).awaits fun _ => Ensures.get fun q hq => ?_
  refine Ensures.weaken (P := Awaits t n) ?_ (fun q' hq' => hq' ▸ hq) (fun _ _ h => h) fun _ _ h => h
  refine Ensures.bind (Retaining.edit_ fun _ _ => Graph.Retains.setPlace).awaits fun _ => ?_
  refine Ensures.bind (ensures_setTag_tagged ht) fun _ => ?_
  refine Ensures.bind (retaining_connect n args).tagged fun _ => ?_
  refine Ensures.bind (retaining_markAutomated n).tagged fun _ => ?_
  refine Ensures.bind (retaining_setActive n).tagged fun _ => ?_
  exact Ensures.bind (Ensures.modify fun _ h => h.remember) fun _ =>
    Ensures.pure fun _ => Tagged.toIdentified

/-- A tag that is not found is carried by no node. -/
theorem unclaimed_of_find?_none (h : p.find? t = none) : p.graph.Unclaimed t := by
  rw [Unclaimed, signs, List.forall_mem_map]
  exact not_tagged_of_find?_eq_none h

/-- The node that is found for a tag carries it. -/
theorem Identified.tagged_of_find? (hp : Identified p) (h : p.find? t = some n) : Tagged t n p := by
  refine ⟨hp, ?_⟩
  rcases cached_or_tagged h with ⟨hmem, -⟩ | hbyTag
  · exact hp.cached (t, n) hmem
  obtain ⟨a, ha, rfl, htag⟩ := mem_of_byTag? hbyTag
  have hmem : a.sign ∈ p.graph.signs := List.mem_map_of_mem ha
  refine ⟨hp.graph.lt _ hmem, fun s hs hid => ?_⟩
  rw [List.inj_on_of_nodup_map hp.graph.ids hs hmem hid]
  exact htag

/-- **`findOrCreate` keeps names apart**, whatever the operands are. -/
theorem identifying_findOrCreate (ht : t.Made) (kind : NodeKind) (args : List Operand) :
    Identifying (findOrCreate t kind args) := by
  by_cases hlen : args.length = kind.inputs.length
  swap
  · rw [findOrCreate, if_pos hlen]
    exact .throw _
  intro p hp
  have hfound := fun n (hfind : p.find? t = some n) => (hp.tagged_of_find? hfind).remember
  refine Ensures.findOrCreate hlen (fun hfind => ?_) (fun n hfind _ => ?_)
    (fun n e hfind _ _ => (hfound n hfind).toIdentified) (fun n g hfind _ hremove => ?_) p rfl
  · exact (ensures_create ht kind args).weaken
      (fun q hq => hq ▸ ⟨hp, unclaimed_of_find?_none hfind⟩) (fun _ _ h => h) fun _ _ h => h
  · exact (Identifying.of_retaining (retaining_reuse n args)).weaken
      (fun q hq => hq ▸ (hfound n hfind).toIdentified) (fun _ _ h => h) fun _ _ h => h
  · have hvacant := (hp.tagged_of_find? hfind).vacant hremove (q :=
      { p with
        graph := g
        cache := p.cache.filter (·.1 != t)
        report := { p.report with removed := p.report.removed ++ [n] } }) rfl
      (List.filter_subset_self _)
    exact (ensures_create ht kind args).weaken (fun q hq => hq ▸ hvacant) (fun _ _ h => h)
      fun _ _ h => h

/-- **The next tag of a function** is one of a function. -/
theorem ensures_nextTag_made [TagDigest] {function : String}
    (h : Opens Char.isLower function) (identities : List String) {E : ε → Pass → Prop} :
    Ensures Identified (nextTag function identities : PassM ε Tag)
      (fun t p => t.Made ∧ Identified p) E :=
  fun _ hp => ⟨(Tag.made_derive h identities).withOccurrence _, hp.graph, hp.cached⟩

end Pass

end NodeFormula
