import NodeFormula.Proofs.Graph.WellFormed
/-!
# NodeFormula — the ancestry is what paths lead from

`Graph.ancestry` is a search with a list of pending nodes. Everything it returns has a
path to a start (`exists_path_of_mem_collect`), and it returns everything that has one,
because the nodes it has seen are closed under feeders up to the pending ones
(`collect_closed`). So `Graph.feeds` decides the reflexive closure of `Graph.Linked`,
and `Graph.live` holds what has a path to an output of the graph.
-/

namespace NodeFormula

open Relation

variable {links : List Link} {pending seen : List NodeId} {g : Graph} {m n x y : NodeId}

theorem mem_feeders : m ∈ feeders links n ↔ ∃ l ∈ links, l.source.node = m ∧ l.target.node = n := by
  simp only [feeders, List.mem_map, List.mem_filter, beq_iff_eq]
  constructor
  · rintro ⟨l, ⟨hl, ht⟩, hs⟩
    exact ⟨l, hl, hs, ht⟩
  · rintro ⟨l, hl, hs, ht⟩
    exact ⟨l, ⟨hl, ht⟩, hs⟩

/-- One node feeds another directly. -/
def DirectlyFeeds (links : List Link) (m n : NodeId) : Prop := m ∈ feeders links n

theorem directlyFeeds_links : DirectlyFeeds g.links = g.Linked := by
  funext m n
  exact propext mem_feeders

/-- Everything the search returns was seen before, or has a path to a pending node. -/
theorem exists_path_of_mem_collect (h : x ∈ collect links pending seen) :
    x ∈ seen ∨ ∃ n ∈ pending, ReflTransGen (DirectlyFeeds links) x n := by
  fun_induction collect links pending seen with
  | case1 seen => exact Or.inl h
  | case2 seen n rest hseen ih =>
    rcases ih h with hx | ⟨m, hm, hpath⟩
    · exact Or.inl hx
    · exact Or.inr ⟨m, List.mem_cons_of_mem _ hm, hpath⟩
  | case3 seen n rest hseen ih =>
    rcases ih h with hx | ⟨m, hm, hpath⟩
    · rcases List.mem_cons.1 hx with rfl | hx
      · exact Or.inr ⟨x, List.mem_cons_self, ReflTransGen.refl⟩
      · exact Or.inl hx
    · rcases List.mem_append.1 hm with hm | hm
      · exact Or.inr ⟨n, List.mem_cons_self, hpath.tail hm⟩
      · exact Or.inr ⟨m, List.mem_cons_of_mem _ hm, hpath⟩

/-- The search keeps what it has seen. -/
theorem subset_collect : seen ⊆ collect links pending seen := by
  fun_induction collect links pending seen with
  | case1 seen => exact fun _ h => h
  | case2 seen n rest hseen ih => exact ih
  | case3 seen n rest hseen ih => exact fun _ h => ih (List.mem_cons_of_mem _ h)

/-- **The result of the search is closed under feeders**, and holds the pending nodes,
if the seen nodes are closed up to pending ones. -/
theorem collect_closed (hclosed : ∀ n ∈ seen, feeders links n ⊆ seen ++ pending) :
    pending ⊆ collect links pending seen ∧
      ∀ n ∈ collect links pending seen, feeders links n ⊆ collect links pending seen := by
  fun_induction collect links pending seen with
  | case1 seen =>
    refine ⟨fun _ h => absurd h List.not_mem_nil, fun n hn => ?_⟩
    simpa using hclosed n hn
  | case2 seen n rest hseen ih =>
    have hn : n ∈ seen := by simpa using hseen
    have hrest : ∀ m ∈ seen, feeders links m ⊆ seen ++ rest := by
      intro m hm x hx
      rcases List.mem_append.1 (hclosed m hm hx) with h | h
      · exact List.mem_append_left _ h
      · rcases List.mem_cons.1 h with rfl | h
        · exact List.mem_append_left _ hn
        · exact List.mem_append_right _ h
    obtain ⟨hpend, hres⟩ := ih hrest
    refine ⟨fun x hx => ?_, hres⟩
    rcases List.mem_cons.1 hx with rfl | hx
    · exact subset_collect hn
    · exact hpend hx
  | case3 seen n rest hseen ih =>
    have hrest : ∀ m ∈ n :: seen, feeders links m ⊆ n :: seen ++ (feeders links n ++ rest) := by
      intro m hm x hx
      rcases List.mem_cons.1 hm with rfl | hm
      · exact List.mem_append_right _ (List.mem_append_left _ hx)
      · rcases List.mem_append.1 (hclosed m hm hx) with h | h
        · exact List.mem_append_left _ (List.mem_cons_of_mem _ h)
        · rcases List.mem_cons.1 h with rfl | h
          · exact List.mem_append_left _ List.mem_cons_self
          · exact List.mem_append_right _ (List.mem_append_right _ h)
    obtain ⟨hpend, hres⟩ := ih hrest
    refine ⟨fun x hx => ?_, hres⟩
    rcases List.mem_cons.1 hx with rfl | hx
    · exact subset_collect List.mem_cons_self
    · exact hpend (List.mem_append_right _ hx)

namespace Graph

/-- **The ancestry of some nodes is what has a path to one of them.** -/
theorem mem_ancestry {starts : List NodeId} :
    x ∈ g.ancestry starts ↔ ∃ n ∈ starts, ReflTransGen g.Linked x n := by
  rw [ancestry, ← directlyFeeds_links]
  constructor
  · intro h
    rcases exists_path_of_mem_collect h with h | h
    · exact absurd h List.not_mem_nil
    · exact h
  · rintro ⟨n, hn, hpath⟩
    obtain ⟨hpend, hclosed⟩ :=
      @collect_closed g.links starts [] (by simp)
    induction hpath using ReflTransGen.head_induction_on with
    | refl => exact hpend hn
    | head hstep _ ih => exact hclosed _ ih hstep

theorem feeds_iff : g.feeds m n ↔ ReflTransGen g.Linked m n := by
  simp [feeds, mem_ancestry]

/-- **The live nodes are those with a path to an output of the graph.** -/
theorem mem_live : n ∈ g.live ↔ TransGen g.Linked n exit := by
  rw [live, mem_ancestry]
  constructor
  · rintro ⟨m, hm, hpath⟩
    exact TransGen.tail' hpath (mem_feeders.1 hm)
  · intro h
    obtain ⟨m, hpath, hlast⟩ := TransGen.tail'_iff.1 h
    exact ⟨m, mem_feeders.2 hlast, hpath⟩

end Graph

end NodeFormula
