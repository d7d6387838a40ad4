import NodeFormula.Proofs.Pass.Found
/-!
# NodeFormula — tags that a pass cannot find

`Tags` keeps account of the tags that a pass can find nodes by: those of the tagged nodes,
all of which the pass has used, and those it remembers. For any other tag `findOrCreate`
makes a node (`findOrCreate_of_fresh`), and then the pass can find that one as well
(`ensures_create_tags`).
-/

namespace NodeFormula

open Graph

namespace Pass

variable {p : Pass} {T T' : Tag → Prop} {derived : List Tag} {t : Tag} {n : NodeId}

/-- **The tags that a pass can find nodes by.** -/
structure Tags (T : Tag → Prop) (derived : List Tag) (p : Pass) : Prop where
  derived : p.derived = derived
  tagged : ∀ a ∈ p.graph.nodes, ∀ t, a.tag = some t → T t ∧ a.id ∈ p.touched
  cached : ∀ x ∈ p.cache, T x.1

namespace Tags

theorem start {g : Graph} (huntagged : ∀ a ∈ g.nodes, a.tag = none) (spacing : Float32) :
    Tags T [] (Pass.start g spacing) where
  derived := rfl
  tagged a ha _ ht := nomatch (huntagged a ha).symm.trans ht
  cached := List.forall_mem_nil _

variable (h : Tags T derived p)

include h

theorem mono (hT : ∀ t, T t → T' t) : Tags T' derived p where
  derived := h.derived
  tagged a ha t ht := (h.tagged a ha t ht).imp_left (hT t)
  cached x hx := hT x.1 (h.cached x hx)

/-- **Other tags are fresh.** -/
theorem find?_eq_none (ht : ¬ T t) : p.find? t = none := by
  have hcache : ∀ x ∈ p.cache, x.1 ≠ t := by
    rintro x hx rfl
    exact ht (h.cached x hx)
  rw [find?_of_cache hcache, byTag?_eq_none]
  exact fun a ha htag => ht (h.tagged a ha t htag).1

/-- Nothing is stale. -/
theorem stale_eq_nil : p.stale = [] := by
  rw [stale, List.filter_eq_nil_iff]
  intro x hx
  obtain ⟨a, ha, heq⟩ := List.mem_filterMap.1 hx
  obtain ⟨t, ht, rfl⟩ := Option.map_eq_some_iff.1 heq
  have htouched := (h.tagged a ha t ht).2
  simp [htouched]

/-- So pruning removes nothing. -/
theorem prune_eq : prune p = .ok [] p.forgetRemoved := by
  have hget : (MonadState.get : PassM GraphError Pass) p = .ok p p := rfl
  rw [prune]
  refine (run_bind_of_ok hget).trans ?_
  rw [h.stale_eq_nil]
  rfl

theorem updateNode {f : Node → Node} (hn : n ∈ p.touched) (hid : KeepsId f)
    (htag : ∀ a t, (f a).tag = some t → a.tag = some t ∨ T t) :
    Tags T derived { p with graph := p.graph.updateNode n f } where
  derived := h.derived
  tagged a ha t ht := by
    obtain ⟨b, hb, rfl⟩ := List.mem_map.1 ha
    by_cases hbn : b.id = n
    · rw [if_pos hbn] at ht ⊢
      refine ⟨?_, by rw [hid b, hbn]; exact hn⟩
      exact (htag b t ht).elim (fun ht => (h.tagged b hb t ht).1) id
    · rw [if_neg hbn] at ht ⊢
      exact h.tagged b hb t ht
  cached := h.cached

/-- New links carry no tags. -/
theorem congr {q : Pass} (hnodes : q.graph.nodes = p.graph.nodes) (hcache : q.cache = p.cache)
    (htouched : q.touched = p.touched) (hderived : q.derived = p.derived) : Tags T derived q where
  derived := hderived.trans h.derived
  tagged a ha t ht := htouched ▸ h.tagged a (hnodes ▸ ha) t ht
  cached x hx := h.cached x (hcache ▸ hx)

end Tags

theorem nodes_of_link {g g' : Graph} {o : OutputRef} {i : InputRef} {l : LinkId}
    (h : g.link o i = .ok (l, g')) : g'.nodes = g.nodes := by
  obtain ⟨links, rfl⟩ := exists_links_of_link h
  rfl

/-- A node of the pass, while it is made. -/
def Making (T : Tag → Prop) (derived : List Tag) (n : NodeId) (p : Pass) : Prop :=
  Tags T derived p ∧ n ∈ p.touched

theorem ensures_modifyNode_tags {f : Node → Node} (hid : KeepsId f)
    (htag : ∀ a t, (f a).tag = some t → a.tag = some t ∨ T t) :
    Ensures (Making T derived n) (edit (GraphM.modifyNode n f)) (fun _ => Making T derived n)
      fun _ _ => True := by
  refine Ensures.edit_ (fun p g hp hr => ?_) fun _ _ _ _ => trivial
  obtain ⟨-, rfl⟩ := modifyNode_eq_ok.1 hr
  exact ⟨hp.1.updateNode hp.2 hid htag, hp.2⟩

theorem ensures_connect_tags (operands : List Operand) :
    Ensures (Making T derived n) (connect n 0 operands) (fun _ => Making T derived n)
      fun _ _ => True := by
  refine Ensures.connect (fun k o _ => ?_) (fun _ _ h => ⟨h.1.congr rfl rfl rfl rfl, h.2⟩)
    fun k v _ => ⟨fun _ => Making T derived n,
      Ensures.read (fun _ _ h _ => h) fun _ _ _ _ => trivial, fun w => ?_⟩
  · refine Ensures.edit (fun p l g hp hr => ?_) fun _ _ _ _ => trivial
    exact ⟨hp.1.congr (nodes_of_link hr) rfl rfl rfl, hp.2⟩
  · refine Ensures.edit_ (fun p g hp hr => ?_) fun _ _ _ _ => trivial
    obtain ⟨_, -, -, rfl⟩ := setDefault_eq_ok.1 hr
    exact ⟨hp.1.updateNode hp.2 (fun _ => rfl) fun _ _ => Or.inl, hp.2⟩

/-- **A node that is made can be found by its tag**, and no other is found any more than before. -/
theorem ensures_create_tags (ht : T t) (kind : NodeKind) (operands : List Operand) :
    Ensures (Tags T derived) (create t kind operands) (fun _ => Tags T derived)
      fun _ _ => True := by
  refine Ensures.bind (Q := fun _ => Tags T derived)
    (Ensures.edit (fun p n g hp hr => ?_) fun _ _ _ _ => trivial) fun n => ?_
  · obtain ⟨-, rfl, rfl⟩ := createNode_eq_ok.1 hr
    refine { hp with tagged := fun a ha t' ht' => ?_ }
    rcases List.mem_append.1 ha with ha | ha
    · exact hp.tagged a ha t' ht'
    · rw [List.mem_singleton.1 ha] at ht'
      cases ht'
  refine Ensures.bind (Q := fun _ => Tags T derived)
    (Ensures.record fun p hp => hp.congr rfl rfl rfl rfl) fun _ => ?_
  refine Ensures.bind (Q := fun _ => Making T derived n) (Ensures.modify fun p hp => ?_) fun _ => ?_
  · refine ⟨{ hp with tagged := fun a ha t' ht' => ?_ }, mem_touch.2 (Or.inl rfl)⟩
    exact (hp.tagged a ha t' ht').imp_right fun hmem => mem_touch.2 (Or.inr hmem)
  refine Ensures.get fun p hp => ?_
  refine Ensures.weaken (P := Making T derived n) ?_ (by rintro _ rfl; exact hp)
    (fun _ _ h => h) fun _ _ h => h
  refine Ensures.bind (ensures_modifyNode_tags (fun _ => rfl) fun _ _ => Or.inl) fun _ => ?_
  refine Ensures.bind (ensures_modifyNode_tags (fun _ => rfl) fun _ t' ht' => Or.inr ?_)
    fun _ => ?_
  · cases ht'
    exact ht
  refine Ensures.bind (ensures_connect_tags operands) fun _ => ?_
  refine Ensures.bind (ensures_modifyNode_tags (fun _ => rfl) fun _ _ => Or.inl) fun _ => ?_
  refine Ensures.bind (Q := fun _ => Tags T derived)
    (Ensures.edit_ (fun p g hp hr => ?_) fun _ _ _ _ => trivial) fun _ => ?_
  · cases hr
    exact hp.1.congr rfl rfl rfl rfl
  refine Ensures.bind (Q := fun _ => Tags T derived) (Ensures.modify fun p hp => ?_)
    fun _ => Ensures.pure fun _ h => h
  exact { hp with cached := List.forall_mem_cons.2 ⟨ht, hp.cached⟩ }

theorem ensures_linkOutput_tags (o : OutputRef) (i : InputRef) :
    Ensures (Tags T derived) (linkOutput o i) (fun _ => Tags T derived) fun _ _ => True := by
  refine Ensures.get fun p hp => ?_
  refine Ensures.weaken (P := Tags T derived) ?_ (by rintro _ rfl; exact hp) (fun _ _ h => h)
    fun _ _ h => h
  split
  · exact Ensures.pure fun _ h => h
  · refine Ensures.bind (Q := fun _ => Tags T derived)
      (Ensures.edit (fun q l g hq hr => ?_) fun _ _ _ _ => trivial) fun _ => ?_
    · exact hq.congr (nodes_of_link hr) rfl rfl rfl
    · exact Ensures.bind (Q := fun _ => Tags T derived)
        (Ensures.record fun q hq => hq.congr rfl rfl rfl rfl) fun _ => Ensures.pure fun _ h => h

/-- **For a fresh tag a node is made.** -/
theorem findOrCreate_of_fresh (h : p.find? t = none) {kind : NodeKind} {operands : List Operand}
    (hlen : operands.length = kind.inputs.length) :
    findOrCreate t kind operands p = create t kind operands p := by
  have hget : (MonadState.get : PassM GraphError Pass) p = .ok p p := rfl
  rw [findOrCreate, if_neg (not_not.2 hlen)]
  refine (run_bind_of_ok hget).trans ?_
  rw [h]

end Pass

end NodeFormula
