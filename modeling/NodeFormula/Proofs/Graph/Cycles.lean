import NodeFormula.Proofs.Graph.Answers
import NodeFormula.Proofs.Graph.Searches
/-!
# NodeFormula — a link is refused if and only if it closes a cycle

The search for what leads to the source of a link runs before the link that is replaced is
gone. That link cannot matter: a path that starts at a node and comes back to it is a cycle
already (`reflTransGen_relinked`). So `Graph.link` refuses exactly the links that close a cycle
in the graph as it would be (`link_refuses_cycles`).
-/

namespace NodeFormula

open Relation

namespace Graph

variable {g : Graph} {m : NodeId} {source : OutputRef} {target : InputRef}

/-- A path from the node that a link is to lead into does not pass the input: it would have
come back to where it started. -/
theorem reflTransGen_relinked (hacyclic : ∀ n, ¬ TransGen g.Linked n n)
    (h : ReflTransGen g.Linked target.node m) :
    ReflTransGen (g.relinked source target).Linked target.node m := by
  induction h with
  | refl => exact .refl
  | tail hpath hstep ih =>
    refine ih.tail ?_
    obtain ⟨l, hl, rfl, rfl⟩ := hstep
    have hother : l.target ≠ target := by
      intro heq
      exact hacyclic target.node (TransGen.tail' hpath ⟨l, hl, rfl, by rw [heq]⟩)
    exact ⟨l, mem_links_relinked.2 (Or.inl ⟨hl, hother⟩), rfl, rfl⟩

/-- **A link closes a cycle if and only if its target leads to its source**, whether or not
another link gives way to it. -/
theorem exists_cycle_relinked (hacyclic : ∀ n, ¬ TransGen g.Linked n n) :
    (∃ n, TransGen (g.relinked source target).Linked n n) ↔
      ReflTransGen g.Linked target.node source.node := by
  constructor
  · rintro ⟨n, hn⟩
    by_contra hnot
    exact acyclic_relinked hacyclic hnot n hn
  · intro h
    have hnew : (g.relinked source target).Linked source.node target.node :=
      ⟨_, mem_links_relinked.2 (Or.inr rfl), rfl, rfl⟩
    exact ⟨target.node, TransGen.tail' (reflTransGen_relinked hacyclic h) hnew⟩

theorem filter_target_relinked (g : Graph) (source : OutputRef) (target : InputRef) :
    (g.relinked source target).links.filter (·.target == target)
      = [⟨g.nextLink, source, target⟩] := by
  simp only [relinked, List.filter_append, List.filter_filter]
  simp

theorem filter_others_relinked (g : Graph) (source : OutputRef) (target : InputRef) :
    (g.relinked source target).links.filter (·.target != target)
      = g.links.filter (·.target != target) := by
  simp only [relinked, List.filter_append, List.filter_filter]
  simp

/-- What `link` answers where both sockets exist. -/
theorem WellFormed.link_eq (hg : g.WellFormed) (hsource : ∃ s, g.outputSocket source = .ok s)
    (htarget : ∃ s, g.inputSocket target = .ok s) :
    g.link source target =
      if g.feeds target.node source.node then .error (.cycle target.node)
      else .ok (g.nextLink, g.relinked source target) := by
  by_cases hfeeds : g.feeds target.node source.node
  · obtain ⟨s, hs⟩ := hsource
    obtain ⟨t, ht⟩ := htarget
    simp only [Graph.link_eq, hs, ht, if_pos hfeeds]
  · rw [if_neg hfeeds]
    exact hg.link_eq_ok.2 ⟨hsource, htarget, Bool.eq_false_iff.2 hfeeds, rfl, rfl⟩

/-- **Cycles are detected exactly.** Between sockets that exist, a link is refused if and only
if it would lead from a node to itself or its target leads to its source, and this is so if and
only if the graph with the link in place of the one into its target would have a cycle.
Otherwise it is the one link into its target, and all other links and the nodes stay as they
are. The search behind this ends on every graph, with cycles too, and tells what leads to what. -/
theorem link_refuses_cycles (hg : g.WellFormed) (hsource : ∃ s, g.outputSocket source = .ok s)
    (htarget : ∃ s, g.inputSocket target = .ok s) :
    (g.link source target = .error (.cycle target.node) ↔
      source.node = target.node ∨ TransGen g.Linked target.node source.node) ∧
    (g.link source target = .error (.cycle target.node) ↔
      ∃ n, TransGen (g.relinked source target).Linked n n) ∧
    (g.link source target ≠ .error (.cycle target.node) →
      ∃ g', g.link source target = .ok (g.nextLink, g') ∧
        g'.links.filter (·.target == target) = [⟨g.nextLink, source, target⟩] ∧
        g'.links.filter (·.target != target) = g.links.filter (·.target != target) ∧
        g'.nodes = g.nodes) ∧
    ∀ (h : Graph) (m n : NodeId),
      (∀ k, h.links.length + 2 ≤ k →
        rounds (Search.round h.links m) k ⟨[n], []⟩ = some (h.feeds m n)) ∧
      (h.feeds m n ↔ ReflTransGen h.Linked m n) := by
  have hlink := hg.link_eq hsource htarget
  have hcycle : g.link source target = .error (.cycle target.node) ↔
      ReflTransGen g.Linked target.node source.node := by
    rw [hlink, ← feeds_iff]
    split <;> simp_all
  refine ⟨?_, ?_, fun hne => ?_, fun h m n => ⟨fun k hk => h.search_ends m n hk, feeds_iff⟩⟩
  · rw [hcycle, reflTransGen_iff_eq_or_transGen]
  · rw [hcycle, exists_cycle_relinked hg.acyclic]
  · have hfeeds : ¬ g.feeds target.node source.node := fun h => hne (hcycle.2 (feeds_iff.1 h))
    rw [if_neg hfeeds] at hlink
    exact ⟨_, hlink, g.filter_target_relinked source target,
      g.filter_others_relinked source target, rfl⟩

/-- The square fed back into the sum is refused, and an input of the graph may take its place
in the product. -/
theorem link_refuses_cycles_squaring :
    ((history squaring).link ⟨3, 0⟩ ⟨2, 0⟩ = .error (.cycle 2) ∧
      (⟨3, 0⟩ : OutputRef).node ≠ (⟨2, 0⟩ : InputRef).node ∧
      TransGen (history squaring).Linked 2 3 ∧
      ∃ n, TransGen ((history squaring).relinked ⟨3, 0⟩ ⟨2, 0⟩).Linked n n) ∧
    ∃ g', (history squaring).link ⟨entry, 0⟩ ⟨3, 0⟩ = .ok (5, g') ∧
      g'.links.filter (·.target == ⟨3, 0⟩) = [⟨5, ⟨entry, 0⟩, ⟨3, 0⟩⟩] := by
  have hg := wellFormed_history squaring
  have hback : (history squaring).link ⟨3, 0⟩ ⟨2, 0⟩ = .error (.cycle 2) := by decide +kernel
  have hok : (history squaring).link ⟨entry, 0⟩ ⟨3, 0⟩ ≠ .error (.cycle 3) := by decide +kernel
  have hnext : (history squaring).nextLink = 5 := by decide +kernel
  have hproduct : ∃ s, (history squaring).outputSocket ⟨3, 0⟩ = .ok s :=
    ⟨.fresh "Value" .float, by decide +kernel⟩
  have hx : ∃ s, (history squaring).outputSocket ⟨entry, 0⟩ = .ok s :=
    ⟨.fresh "x" .float, by decide +kernel⟩
  have hsum : ∃ s, (history squaring).inputSocket ⟨2, 0⟩ = .ok s :=
    ⟨.fresh "Value" .float, by decide +kernel⟩
  have hfactor : ∃ s, (history squaring).inputSocket ⟨3, 0⟩ = .ok s :=
    ⟨.fresh "Value" .float, by decide +kernel⟩
  obtain ⟨hpath, hcycle, -⟩ := link_refuses_cycles hg hproduct hsum
  obtain ⟨-, -, hlinked, -⟩ := link_refuses_cycles hg hx hfactor
  refine ⟨⟨hback, by decide, (hpath.1 hback).resolve_left (by decide), hcycle.1 hback⟩, ?_⟩
  obtain ⟨g', hg', hone, -⟩ := hlinked hok
  rw [hnext] at hg' hone
  exact ⟨g', hg', hone⟩

end Graph

end NodeFormula
