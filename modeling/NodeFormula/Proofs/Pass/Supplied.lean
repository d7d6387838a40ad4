import NodeFormula.Proofs.Pass.Fitted
import NodeFormula.Proofs.Pass.Refound
/-!
# NodeFormula — a node for any tag

What a pass finds under a tag may be any node: one of another kind, one that is linked from
elsewhere, or one of several that share the tag. `findOrCreate` comes by a node of the kind all
the same. It cannot fail where there is an operand for each input, the constants fit, and the
sockets stand on nodes with other tags (`findOrCreate_supplies`): a node that has to make way
for a new one is then none of those that the new one is linked from.
-/

namespace NodeFormula

namespace Pass

open Graph

variable {p q : Pass} {n : NodeId} {a : Node} {t : Tag} {kind : NodeKind} {args : List Operand}

/-- **The node of a tag is supplied.** Nodes with other tags are as they were. -/
structure Supplied (p : Pass) (t : Tag) (kind : NodeKind) (n : NodeId) (q : Pass) : Prop where
  wf : q.graph.WellFormed
  face : n ≠ entry ∧ n ≠ exit
  node : ∃ a, q.graph.node? n = some a ∧ a.tag = some t ∧ a.kind = kind
  kept : ∀ m a, p.graph.node? m = some a → a.tag ≠ some t → q.graph.node? m = some a
  touched : ∀ m, m ∈ q.touched ↔ m = n ∨ m ∈ p.touched
  derived : q.derived = p.derived
  cached : ∀ x ∈ q.cache, x.1 = t ∨ x ∈ p.cache

/-- A node that is made is supplied. -/
theorem Placed.supplied (h : Placed p t kind args n q) : Supplied p t kind n q where
  wf := h.wf
  face := h.face
  node := by
    obtain ⟨a, ha, htag, -, hkind, -⟩ := h.node
    exact ⟨a, ha, htag, hkind⟩
  kept m a ha htag := by
    have hne : m ≠ n := by
      rintro rfl
      exact htag (h.old a ha)
    rw [h.others m hne, ha]
  touched := h.touched
  derived := h.derived
  cached x hx := (h.cached x.1 x.2 hx).imp_left And.left

/-- **A node of the kind is supplied** as it is, whatever is linked into it. -/
theorem reuse_supplies (hp : p.graph.WellFormed) (ha : p.graph.node? n = some a)
    (htag : a.tag = some t) (hkind : a.kind = kind) (hface : n ≠ entry ∧ n ≠ exit)
    (hlen : args.length = kind.inputs.length) (hfits : Fits kind args) :
    Ensures (· = p) (reuse n args) (fun m q => m = n ∧ Supplied p t kind n q)
      fun _ _ => False := by
  refine (reuse_retunes hp ha hkind hface hlen hfits).weaken (fun _ h => h) (fun m q h => ?_)
    fun _ _ h => h
  obtain ⟨rfl, hq, htouched⟩ := h
  refine ⟨rfl, ?_⟩
  obtain ⟨b, hb, hrev, -⟩ := hq.node a ha
  exact
    { wf := hq.wf
      face := hface
      node := ⟨b, hb, hrev.tag.trans htag, hrev.kind.trans hkind⟩
      kept := fun m' c hc hne => by
        have hother : m' ≠ m := by
          rintro rfl
          rw [ha] at hc
          cases hc
          exact hne htag
        exact (hq.others m' hother).trans hc
      touched := htouched
      derived := hq.derived
      cached := fun x hx => Or.inr (hq.cache ▸ hx) }

/-- **A node of another kind has made way**, and the sockets among the operands stay. -/
theorem create_supplies_cleared (hp : p.graph.WellFormed) (ha : p.graph.node? n = some a)
    (htag : a.tag = some t) (hface : n ≠ entry ∧ n ≠ exit) (hk : kind.isInterface = false)
    (hlen : args.length = kind.inputs.length) (hfits : Fits kind args)
    (hsockets : ∀ o, .socket o ∈ args → o.node ≠ n ∧ ∃ s, p.graph.outputSocket o = .ok s) :
    Ensures (· =
      { p with
        graph := p.graph.without n
        cache := p.cache.filter (·.1 != t)
        report := { p.report with removed := p.report.removed ++ [n] } })
      (create t kind args) (Supplied p t kind) fun _ _ => False := by
  refine (create_places (hp.without hface.1 hface.2) hk hlen hfits fun o ho => ?_).weaken
    (fun _ h => h) (fun m q h => ?_) fun _ _ h => h
  · obtain ⟨hne, s, hs⟩ := hsockets o ho
    refine ⟨s, (outputSocket_congr ?_).trans hs⟩
    rw [node?_without, if_neg hne]
  · have hsupplied := h.supplied
    refine
      { hsupplied with
        kept := fun m' b hb hne => hsupplied.kept m' b ?_ hne
        cached := fun x hx => (hsupplied.cached x hx).imp_right fun h =>
          List.mem_of_mem_filter (p := (·.1 != t)) h }
    have hother : m' ≠ n := by
      rintro rfl
      rw [ha] at hb
      cases hb
      exact hne htag
    change (p.graph.without n).node? m' = some b
    rw [node?_without, if_neg hother, hb]

/-- **`findOrCreate` supplies the node of a tag** that the pass has not asked for yet. -/
theorem findOrCreate_supplies (hp : p.graph.WellFormed)
    (huntagged : ∀ n node, n = entry ∨ n = exit → p.graph.node? n = some node → node.tag = none)
    (hcache : ∀ x ∈ p.cache, x.1 ≠ t) (hk : kind.isInterface = false)
    (hlen : args.length = kind.inputs.length) (hfits : Fits kind args)
    (hsockets : ∀ o, .socket o ∈ args → (∃ s, p.graph.outputSocket o = .ok s) ∧
      ∀ a, p.graph.node? o.node = some a → a.tag ≠ some t) :
    Ensures (· = p) (findOrCreate t kind args) (Supplied p t kind) fun _ _ => False := by
  -- the cache does not know the tag, so a node that is found is one of the graph
  have hfound : ∀ n, p.find? t = some n → ∃ a, p.graph.node? n = some a ∧ a.tag = some t ∧
      n ≠ entry ∧ n ≠ exit := by
    intro n hfind
    rw [find?_of_cache hcache] at hfind
    obtain ⟨a, ha, htag⟩ := hp.node?_of_byTag? hfind
    refine ⟨a, ha, htag, not_or.1 fun hn => ?_⟩
    rw [huntagged n a hn ha] at htag
    cases htag
  refine Ensures.findOrCreate hlen (fun _ => ?_) (fun n hfind hkind => ?_)
    (fun n e hfind _ hremove => ?_) fun n g hfind _ hremove => ?_
  · exact (create_places hp hk hlen hfits fun o ho => (hsockets o ho).1).weaken (fun _ h => h)
      (fun n p' h => h.supplied) fun _ _ h => h
  · obtain ⟨a, ha, htag, hface⟩ := hfound n hfind
    rw [kind?, ha, Option.map_some, Option.some.injEq] at hkind
    refine (reuse_supplies (p := { p with cache := (t, n) :: p.cache }) hp ha htag hkind hface hlen
      hfits).weaken (fun _ h => h) (fun m q h => ?_) fun _ _ h => h
    obtain ⟨rfl, hsupplied⟩ := h
    refine { hsupplied with cached := fun x hx => ?_ }
    rcases hsupplied.cached x hx with h | h
    · exact Or.inl h
    · exact (List.mem_cons.1 h).imp_left fun heq => by rw [heq]
  · obtain ⟨a, ha, -, hface⟩ := hfound n hfind
    rw [removeNode_eq_ok.2 ⟨hface.1, hface.2, hasNode_iff.2 ⟨a, ha⟩, rfl⟩] at hremove
    cases hremove
  · obtain ⟨a, ha, htag, hface⟩ := hfound n hfind
    obtain ⟨-, -, -, rfl⟩ := removeNode_eq_ok.1 hremove
    refine create_supplies_cleared hp ha htag hface hk hlen hfits fun o ho => ?_
    obtain ⟨hs, hother⟩ := hsockets o ho
    exact ⟨fun heq => hother a (heq ▸ ha) htag, hs⟩

end Pass

end NodeFormula
