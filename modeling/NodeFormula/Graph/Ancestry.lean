import NodeFormula.Graph
/-!
# NodeFormula — what feeds a node

`Graph.ancestry` collects the nodes from which links lead to a given one, through any
number of nodes in between. It ends on every set of links, cyclic ones included: a
step either drops a pending node, or takes a new one and with it the links into it.
-/

namespace NodeFormula

/-- The nodes linked directly into a node. -/
def feeders (links : List Link) (n : NodeId) : List NodeId :=
  (links.filter (·.target.node == n)).map (·.source.node)

/-- The links into nodes that have not been seen. -/
def unseen (links : List Link) (seen : List NodeId) : List Link :=
  links.filter fun l => !seen.contains l.target.node

theorem unseen_cons {links : List Link} {seen : List NodeId} {n : NodeId}
    (h : seen.contains n = false) :
    (unseen links (n :: seen)).length + (feeders links n).length
      = (unseen links seen).length := by
  induction links with
  | nil => rfl
  | cons l ls ih =>
    simp only [unseen, feeders, List.filter_cons, List.length_map] at ih ⊢
    by_cases hl : l.target.node = n
    · subst hl
      simp_all
      omega
    · by_cases hs : l.target.node ∈ seen
      · simp_all
      · simp_all
        omega

/-- The seen nodes, the pending ones and all that feed these. -/
def collect (links : List Link) (pending seen : List NodeId) : List NodeId :=
  match pending with
  | [] => seen
  | n :: rest =>
    if seen.contains n then collect links rest seen
    else collect links (feeders links n ++ rest) (n :: seen)
  termination_by pending.length + (unseen links seen).length
  decreasing_by
    · simp
    · rename_i h
      have := @unseen_cons links seen n (Bool.eq_false_iff.2 h)
      simp only [List.length_append, List.length_cons]
      omega

namespace Graph

/-- The given nodes and all that feed them. -/
def ancestry (g : Graph) (starts : List NodeId) : List NodeId := collect g.links starts []

/-- Links lead from one node to another, or they are the same. -/
def feeds (g : Graph) (source target : NodeId) : Bool := (g.ancestry [target]).contains source

/-- The nodes that some output of the graph depends on. -/
def live (g : Graph) : List NodeId := g.ancestry (feeders g.links exit)

end Graph

end NodeFormula
