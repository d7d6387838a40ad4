import NodeFormula.Pass
import NodeFormula.Proofs.Graph.WellFormed
import NodeFormula.Proofs.Result
/-!
# NodeFormula — the node of a tag, looked up

A pass looks for the node of a tag among the nodes that it remembers, and then in the graph.
A node that it finds is one that it remembers or one that carries the tag
(`cached_or_tagged`), and where it finds none no node carries the tag
(`not_tagged_of_find?_eq_none`).
-/

namespace NodeFormula

namespace Graph

variable {g : Graph} {n : NodeId} {t : Tag}

/-- The node of a tag is there and carries it. -/
theorem mem_of_byTag? (h : g.byTag? t = some n) : ∃ a ∈ g.nodes, a.id = n ∧ a.tag = some t := by
  obtain ⟨a, ha, rfl⟩ := Option.map_eq_some_iff.1 h
  exact ⟨a, List.mem_of_find?_eq_some ha, rfl, by simpa using List.find?_some ha⟩

theorem byTag?_eq_none : g.byTag? t = none ↔ ∀ a ∈ g.nodes, a.tag ≠ some t := by
  simp [byTag?]

theorem WellFormed.node?_of_byTag? (hg : g.WellFormed) (h : g.byTag? t = some n) :
    ∃ a, g.node? n = some a ∧ a.tag = some t := by
  obtain ⟨a, ha, rfl, htag⟩ := mem_of_byTag? h
  exact ⟨a, hg.node?_eq ha, htag⟩

end Graph

namespace Pass

variable {p : Pass} {n : NodeId} {t : Tag}

/-- **Where a node that is found comes from.** -/
theorem cached_or_tagged (h : p.find? t = some n) :
    ((t, n) ∈ p.cache ∧ p.graph.hasNode n) ∨ p.graph.byTag? t = some n := by
  rw [find?] at h
  split at h
  · rename_i m hcache
    split at h
    · rename_i hhas
      cases h
      exact Or.inl ⟨mem_of_lookup hcache, hhas⟩
    · exact Or.inr h
  · exact Or.inr h

/-- **No node carries a tag that is not found.** -/
theorem not_tagged_of_find?_eq_none (h : p.find? t = none) : ∀ a ∈ p.graph.nodes, a.tag ≠ some t := by
  rw [← Graph.byTag?_eq_none]
  rw [find?] at h
  split at h
  · split at h
    · cases h
    · exact h
  · exact h

/-- A tag that the pass has not asked for yet is looked up in the graph. -/
theorem find?_of_cache (hcache : ∀ x ∈ p.cache, x.1 ≠ t) : p.find? t = p.graph.byTag? t := by
  have hmiss : p.cache.lookup t = none := by
    rw [List.lookup_eq_none_iff]
    exact fun x hx => bne_iff_ne.2 (hcache x hx).symm
  rw [find?, hmiss]

end Pass

end NodeFormula
