import NodeFormula.Proofs.Graph.Evaluation
/-!
# NodeFormula — searches, round by round

What leads to a node is searched for with a stack of nodes, and given up as soon as it is found
(`Search`). What the outputs depend on is searched for with a stack of inputs: for each, the node
that is linked into it, and then the inputs that the kind of this node prescribes (`LiveSearch`).
Both end on every graph, cyclic ones included, since a round drops what it looks at, or sees a
node for the first time. The first finds `Graph.feeds`, and the second, on graphs that are well
formed, `Graph.live`.
-/

namespace NodeFormula

open Relation

section

variable {σ ρ : Type} {round : σ → ρ ⊕ σ} {s : σ} {r : ρ} {k : Nat}

/-- The result that a number of rounds comes to, if that is enough of them. -/
def rounds (round : σ → ρ ⊕ σ) : Nat → σ → Option ρ
  | 0, _ => none
  | k + 1, s =>
    match round s with
    | .inl r => some r
    | .inr next => rounds round k next

/-- Rounds that each leave less to do come to a result. -/
theorem exists_rounds {left : σ → Nat}
    (hround : ∀ s next, round s = .inr next → left next < left s) (h : left s < k) :
    ∃ r, rounds round k s = some r := by
  induction k generalizing s with
  | zero => exact absurd h (Nat.not_lt_zero _)
  | succ k ih =>
    rw [rounds]
    cases hnext : round s with
    | inl r => exact ⟨r, rfl⟩
    | inr next => exact ih (Nat.lt_of_lt_of_le (hround s next hnext) (Nat.le_of_lt_succ h))

/-- What every round keeps holds when a result is found. -/
theorem rounds_keep {I : σ → Prop} {P : ρ → Prop}
    (hstep : ∀ s next, I s → round s = .inr next → I next)
    (hend : ∀ s r, I s → round s = .inl r → P r) (hs : I s) (h : rounds round k s = some r) :
    P r := by
  induction k generalizing s with
  | zero => cases h
  | succ k ih =>
    rw [rounds] at h
    cases hnext : round s with
    | inl r' =>
      rw [hnext] at h
      cases h
      exact hend s r hs hnext
    | inr next =>
      rw [hnext] at h
      exact ih (hstep s next hs hnext) h

end

/-! ## Whether one node feeds another -/

/-- A search for a node under way. -/
structure Search where
  /-- What is left to look at. The node that came in last is the next. -/
  pending : List NodeId
  /-- What was looked at. -/
  seen : List NodeId

namespace Search

variable {links : List Link} {sought start n : NodeId} {rest seen : List NodeId} {s next : Search}

/-- One round: an answer, or the search as it goes on. -/
def round (links : List Link) (sought : NodeId) (s : Search) : Bool ⊕ Search :=
  match s.pending with
  | [] => .inl false
  | n :: rest =>
    if n = sought then .inl true
    else if s.seen.contains n then .inr ⟨rest, s.seen⟩
    else .inr ⟨(feeders links n).reverse ++ rest, n :: s.seen⟩

/-- The pending nodes and the links that can still bring in others. -/
def left (links : List Link) (s : Search) : Nat := s.pending.length + (unseen links s.seen).length

/-- What a round does that does not end the search. -/
theorem round_cases (h : s.round links sought = .inr next) :
    ∃ n rest, s.pending = n :: rest ∧ n ≠ sought ∧
      (n ∈ s.seen ∧ next = ⟨rest, s.seen⟩ ∨
        n ∉ s.seen ∧ next = ⟨(feeders links n).reverse ++ rest, n :: s.seen⟩) := by
  obtain ⟨pending, seen⟩ := s
  cases pending with
  | nil => cases h
  | cons n rest =>
    by_cases hn : n = sought
    · simp only [round, if_pos hn] at h
      cases h
    · refine ⟨n, rest, rfl, hn, ?_⟩
      by_cases hseen : seen.contains n
      · simp only [round, if_neg hn, if_pos hseen, Sum.inr.injEq] at h
        exact Or.inl ⟨List.contains_iff_mem.1 hseen, h.symm⟩
      · simp only [round, if_neg hn, if_neg hseen, Sum.inr.injEq] at h
        exact Or.inr ⟨fun hmem => hseen (List.contains_iff_mem.2 hmem), h.symm⟩

/-- **Every round that does not end the search leaves less to do.** -/
theorem left_round (h : s.round links sought = .inr next) : next.left links < s.left links := by
  obtain ⟨n, rest, hpending, -, ⟨-, rfl⟩ | ⟨hseen, rfl⟩⟩ := round_cases h
  · simp [left, hpending]
  · have hcons := @unseen_cons links s.seen n (by simpa using hseen)
    simp only [left, hpending, List.length_append, List.length_reverse, List.length_cons]
    omega

/-- **What feeds a node that was seen is seen or pending**, the node that is looked for was not
seen, and it has a path to where the search started just if it has one to a pending node. -/
structure Open (links : List Link) (sought start : NodeId) (s : Search) : Prop where
  closed : ∀ n ∈ s.seen, ∀ m ∈ feeders links n, m ∈ s.seen ∨ m ∈ s.pending
  unseen : sought ∉ s.seen
  path : ReflTransGen (DirectlyFeeds links) sought start ↔
    ∃ n ∈ s.pending, ReflTransGen (DirectlyFeeds links) sought n

/-- A node that was seen before is dropped: a path to it passes another pending one. -/
theorem Open.drop (h : Open links sought start ⟨n :: rest, seen⟩) (hn : n ∈ seen) :
    Open links sought start ⟨rest, seen⟩ := by
  have hclosed : ∀ m ∈ seen, ∀ k ∈ feeders links m, k ∈ seen ∨ k ∈ rest := by
    intro m hm k hk
    rcases h.closed m hm k hk with hseen | hpending
    · exact Or.inl hseen
    · rcases List.mem_cons.1 hpending with rfl | hrest
      · exact Or.inl hn
      · exact Or.inr hrest
  have hpass : ∀ m, ReflTransGen (DirectlyFeeds links) sought m → m ∈ seen →
      ∃ k ∈ rest, ReflTransGen (DirectlyFeeds links) sought k := by
    intro m hpath
    induction hpath with
    | refl => exact fun hm => absurd hm h.unseen
    | tail hpath hstep ih =>
      intro hm
      rcases hclosed _ hm _ hstep with hk | hk
      · exact ih hk
      · exact ⟨_, hk, hpath⟩
  refine ⟨hclosed, h.unseen, h.path.trans ⟨?_, ?_⟩⟩
  · rintro ⟨m, hm, hpath⟩
    rcases List.mem_cons.1 hm with rfl | hm
    · exact hpass m hpath hn
    · exact ⟨m, hm, hpath⟩
  · rintro ⟨m, hm, hpath⟩
    exact ⟨m, List.mem_cons_of_mem _ hm, hpath⟩

/-- A node that is new brings in what feeds it. -/
theorem Open.take (h : Open links sought start ⟨n :: rest, seen⟩) (hn : n ≠ sought) :
    Open links sought start ⟨(feeders links n).reverse ++ rest, n :: seen⟩ := by
  refine ⟨fun m hm k hk => ?_, ?_, h.path.trans ⟨?_, ?_⟩⟩
  · rcases List.mem_cons.1 hm with rfl | hm
    · exact Or.inr (List.mem_append_left _ (List.mem_reverse.2 hk))
    · rcases h.closed m hm k hk with hseen | hpending
      · exact Or.inl (List.mem_cons_of_mem _ hseen)
      · rcases List.mem_cons.1 hpending with rfl | hrest
        · exact Or.inl List.mem_cons_self
        · exact Or.inr (List.mem_append_right _ hrest)
  · exact fun hmem => (List.mem_cons.1 hmem).elim (fun heq => hn heq.symm) h.unseen
  · rintro ⟨m, hm, hpath⟩
    rcases List.mem_cons.1 hm with rfl | hm
    · -- a path to a node other than the one sought has a last link
      rcases hpath.cases_tail with heq | ⟨k, hpath, hlast⟩
      · exact absurd heq hn
      · exact ⟨k, List.mem_append_left _ (List.mem_reverse.2 hlast), hpath⟩
    · exact ⟨m, List.mem_append_right _ hm, hpath⟩
  · rintro ⟨m, hm, hpath⟩
    rcases List.mem_append.1 hm with hm | hm
    · exact ⟨n, List.mem_cons_self, hpath.tail (List.mem_reverse.1 hm)⟩
    · exact ⟨m, List.mem_cons_of_mem _ hm, hpath⟩

theorem Open.round (h : s.Open links sought start) (hnext : s.round links sought = .inr next) :
    next.Open links sought start := by
  obtain ⟨pending, seen⟩ := s
  obtain ⟨n, rest, rfl, hn, ⟨hseen, rfl⟩ | ⟨-, rfl⟩⟩ := round_cases hnext
  · exact h.drop hseen
  · exact h.take hn

/-- The answer is whether there is a path. -/
theorem Open.answer (h : s.Open links sought start) {answer : Bool}
    (hend : s.round links sought = .inl answer) :
    answer = true ↔ ReflTransGen (DirectlyFeeds links) sought start := by
  rw [h.path]
  obtain ⟨pending, seen⟩ := s
  cases pending with
  | nil =>
    cases hend
    simp
  | cons n rest =>
    by_cases hn : n = sought
    · subst hn
      simp only [Search.round, if_true, Sum.inl.injEq] at hend
      exact iff_of_true hend.symm ⟨n, List.mem_cons_self, .refl⟩
    · simp only [Search.round, if_neg hn] at hend
      split at hend <;> cases hend

end Search

/-- **The search ends on every set of links**, after no more rounds than there are links, two
added, and answers whether the one node feeds the other. -/
theorem Graph.search_ends (g : Graph) (m n : NodeId) {k : Nat} (hk : g.links.length + 2 ≤ k) :
    rounds (Search.round g.links m) k ⟨[n], []⟩ = some (g.feeds m n) := by
  have hleft : Search.left g.links ⟨[n], []⟩ < k := by
    simp only [Search.left, unseen, List.length_singleton]
    have := g.links.length_filter_le fun l => !([] : List NodeId).contains l.target.node
    omega
  obtain ⟨answer, hanswer⟩ := exists_rounds (fun _ _ h => Search.left_round h) hleft
  have hopen : Search.Open g.links m n ⟨[n], []⟩ :=
    ⟨fun _ hmem => absurd hmem List.not_mem_nil, List.not_mem_nil, by simp⟩
  have hiff := rounds_keep (fun _ _ h hnext => h.round hnext) (fun _ _ h hend => h.answer hend)
    hopen hanswer
  rw [directlyFeeds_links, ← Graph.feeds_iff] at hiff
  rw [hanswer, Bool.eq_iff_iff.2 hiff]

/-- Two nodes feed each other, and the one that is looked for feeds neither. -/
example : rounds (Search.round [⟨0, ⟨2, 0⟩, ⟨3, 0⟩⟩, ⟨1, ⟨3, 0⟩, ⟨2, 0⟩⟩] 4) 4 ⟨[3], []⟩
    = some false := by decide

/-! ## What the outputs depend on -/

namespace Graph

variable {g : Graph} {n : NodeId}

/-- The inputs that the kind of a node prescribes. -/
def inputsOf (g : Graph) (n : NodeId) : List InputRef :=
  (List.range (((g.kind? n).map fun kind => kind.inputs.length).getD 0)).map fun index => ⟨n, index⟩

/-- An input with a link is one of these, but at the exit. -/
theorem WellFormed.mem_inputsOf (hg : g.WellFormed) {l : Link} (hl : l ∈ g.links)
    (hne : l.target.node ≠ exit) : l.target ∈ g.inputsOf l.target.node := by
  obtain ⟨s, hs⟩ := hg.targets l hl
  obtain ⟨node, hnode, hsocket⟩ := inputSocket_eq_ok.1 hs
  obtain ⟨hmem, hid⟩ := mem_of_node? hnode
  have hinputs := congrArg List.length ((hg.fits node hmem).inputs (hid ▸ hne))
  rw [List.length_map] at hinputs
  have hlt := (List.getElem?_eq_some_iff.1 hsocket).1
  rw [hinputs] at hlt
  rw [inputsOf, kind?, hnode]
  exact List.mem_map.2 ⟨l.target.index, List.mem_range.2 hlt, rfl⟩

/-- The outputs of the graph are the inputs of the exit. -/
theorem mem_outputs {i : InputRef} :
    (∃ o ∈ g.outputs, o.2.1 = i) ↔ i.node = exit ∧ i.index < g.outputSockets.length := by
  constructor
  · rintro ⟨o, ho, rfl⟩
    obtain ⟨⟨s, index⟩, hs, rfl⟩ := List.mem_map.1 ho
    exact ⟨rfl, (List.getElem?_eq_some_iff.1 (List.mem_zipIdx_iff_getElem?.1 hs)).1⟩
  · rintro ⟨hexit, hlt⟩
    have hs := List.mem_zipIdx_iff_getElem? (x := (g.outputSockets[i.index], i.index)).2
      (List.getElem?_eq_getElem hlt)
    exact ⟨_, List.mem_map.2 ⟨_, hs, rfl⟩, by rw [← hexit]⟩

/-- A link into the exit leads into an output of the graph. -/
theorem WellFormed.target_mem_outputs (hg : g.WellFormed) {l : Link} (hl : l ∈ g.links)
    (hexit : l.target.node = exit) : ∃ o ∈ g.outputs, o.2.1 = l.target := by
  obtain ⟨s, hs⟩ := hg.targets l hl
  obtain ⟨node, hnode, hsocket⟩ := inputSocket_eq_ok.1 hs
  refine mem_outputs.2 ⟨hexit, ?_⟩
  rw [hexit] at hnode
  rw [outputSockets, hnode]
  exact (List.getElem?_eq_some_iff.1 hsocket).1

/-- **What is live is behind an output of the graph.** -/
theorem WellFormed.mem_live_iff (hg : g.WellFormed) :
    n ∈ g.live ↔ ∃ o ∈ g.outputs, g.Behind o.2.1 n := by
  rw [mem_live]
  constructor
  · intro h
    obtain ⟨m, hpath, l, hl, rfl, hexit⟩ := TransGen.tail'_iff.1 h
    obtain ⟨o, ho, htarget⟩ := hg.target_mem_outputs hl hexit
    exact ⟨o, ho, l, hg.incoming?_eq_some.2 ⟨hl, htarget.symm⟩, hpath⟩
  · rintro ⟨o, ho, hbehind⟩
    exact (mem_outputs.1 ⟨o, ho, rfl⟩).1 ▸ hg.path_of_behind hbehind

end Graph

open Graph

/-- A search for live nodes under way. -/
structure LiveSearch where
  /-- The inputs that are left to look at. The one that came in last is the next. -/
  pending : List InputRef
  live : List NodeId

namespace LiveSearch

variable {g : Graph} {n : NodeId} {i : InputRef} {rest : List InputRef} {live : List NodeId}
  {l : Link} {s next : LiveSearch}

/-- The search starts with the outputs of the graph. -/
def start (g : Graph) : LiveSearch := ⟨(g.outputs.map fun o => o.2.1).reverse, []⟩

/-- One round: the live nodes, or the search as it goes on. -/
def round (g : Graph) (s : LiveSearch) : List NodeId ⊕ LiveSearch :=
  match s.pending with
  | [] => .inl s.live
  | i :: rest =>
    match g.incoming? i with
    | none => .inr ⟨rest, s.live⟩
    | some l =>
      if s.live.contains l.source.node then .inr ⟨rest, s.live⟩
      else .inr ⟨(g.inputsOf l.source.node).reverse ++ rest, l.source.node :: s.live⟩

/-- The inputs of the nodes that have not been found. -/
def unfound (nodes : List Node) (live : List NodeId) : List SocketSpec :=
  (nodes.filter fun node => !live.contains node.id).flatMap fun node => node.kind.inputs

theorem unfound_node (node : Node) (nodes : List Node) (live : List NodeId) :
    unfound (node :: nodes) live =
      if live.contains node.id then unfound nodes live
      else node.kind.inputs ++ unfound nodes live := by
  rw [unfound, List.filter_cons]
  cases live.contains node.id <;> rfl

theorem unfound_cons_le (nodes : List Node) :
    (unfound nodes (n :: live)).length ≤ (unfound nodes live).length := by
  induction nodes with
  | nil => exact Nat.le_refl _
  | cons node nodes ih =>
    rw [unfound_node, unfound_node, List.contains_cons]
    by_cases hlive : live.contains node.id
    · rwa [if_pos hlive, if_pos (by rw [hlive, Bool.or_true])]
    · rw [if_neg hlive, List.length_append]
      split
      · omega
      · rw [List.length_append]
        omega

/-- A node that is found takes its inputs along. -/
theorem unfound_cons (hn : live.contains n = false) :
    (unfound g.nodes (n :: live)).length + (g.inputsOf n).length
      ≤ (unfound g.nodes live).length := by
  rw [inputsOf, List.length_map, List.length_range, kind?, node?, Option.map_map]
  induction g.nodes with
  | nil => exact Nat.le_refl _
  | cons node nodes ih =>
    rw [unfound_node, unfound_node, List.contains_cons]
    by_cases hid : node.id = n
    · -- the first node of the name counts: others of it can only add
      have hfind : (node :: nodes).find? (·.id == n) = some node :=
        List.find?_cons_of_pos (beq_iff_eq.2 hid)
      have hle := @unfound_cons_le n live nodes
      rw [hfind, hid, hn, beq_self_eq_true, Bool.true_or, if_pos rfl, if_neg Bool.false_ne_true,
        List.length_append]
      simp only [Option.map_some, Function.comp_apply, Option.getD_some]
      omega
    · have hfind : (node :: nodes).find? (·.id == n) = nodes.find? (·.id == n) :=
        List.find?_cons_of_neg (by simpa using hid)
      rw [hfind, beq_false_of_ne hid, Bool.false_or]
      split
      · exact ih
      · rw [List.length_append, List.length_append]
        omega

/-- The pending inputs and those that can still come in. -/
def left (g : Graph) (s : LiveSearch) : Nat := s.pending.length + (unfound g.nodes s.live).length

/-- What a round does that does not end the search. -/
theorem round_cases (h : s.round g = .inr next) :
    ∃ i rest, s.pending = i :: rest ∧
      ((∀ l, g.incoming? i = some l → l.source.node ∈ s.live) ∧ next = ⟨rest, s.live⟩ ∨
        ∃ l, g.incoming? i = some l ∧ l.source.node ∉ s.live ∧
          next = ⟨(g.inputsOf l.source.node).reverse ++ rest, l.source.node :: s.live⟩) := by
  obtain ⟨pending, live⟩ := s
  cases pending with
  | nil => cases h
  | cons i rest =>
    refine ⟨i, rest, rfl, ?_⟩
    cases hl : g.incoming? i with
    | none =>
      simp only [round, hl, Sum.inr.injEq] at h
      refine Or.inl ⟨fun l hsome => ?_, h.symm⟩
      cases hsome
    | some l =>
      by_cases hlive : live.contains l.source.node
      · simp only [round, hl, if_pos hlive, Sum.inr.injEq] at h
        refine Or.inl ⟨fun l' hsome => ?_, h.symm⟩
        cases hsome
        exact List.contains_iff_mem.1 hlive
      · simp only [round, hl, if_neg hlive, Sum.inr.injEq] at h
        exact Or.inr ⟨l, rfl, fun hmem => hlive (List.contains_iff_mem.2 hmem), h.symm⟩

/-- **Every round that does not end the search leaves less to do**, on every graph. -/
theorem left_round (h : s.round g = .inr next) : next.left g < s.left g := by
  obtain ⟨i, rest, hpending, ⟨-, rfl⟩ | ⟨l, -, hlive, rfl⟩⟩ := round_cases h
  · simp [left, hpending]
  · have hcons := @unfound_cons g l.source.node s.live (by simpa using hlive)
    simp only [left, hpending, List.length_append, List.length_reverse, List.length_cons]
    omega

/-- **What was found leads to the exit**, what is pending belongs to it or to the exit, and what
is linked into it or into the exit is found or linked into a pending input. -/
structure Open (g : Graph) (s : LiveSearch) : Prop where
  sound : ∀ n ∈ s.live, TransGen g.Linked n exit
  inside : ∀ i ∈ s.pending, i.node = exit ∨ i.node ∈ s.live
  closed : ∀ l ∈ g.links, l.target.node = exit ∨ l.target.node ∈ s.live →
    l.source.node ∈ s.live ∨ l.target ∈ s.pending

theorem Open.start (hg : g.WellFormed) : Open g (start g) where
  sound _ hn := absurd hn List.not_mem_nil
  inside i hi := by
    obtain ⟨o, ho, rfl⟩ := List.mem_map.1 (List.mem_reverse.1 hi)
    exact Or.inl (mem_outputs.1 ⟨o, ho, rfl⟩).1
  closed l hl hin := by
    obtain ⟨o, ho, htarget⟩ := hg.target_mem_outputs hl (hin.resolve_right List.not_mem_nil)
    exact Or.inr (List.mem_reverse.2 (List.mem_map.2 ⟨o, ho, htarget⟩))

/-- An input is dropped that no link leads into, or one from a node that was found before. -/
theorem Open.drop (hg : g.WellFormed) (h : Open g ⟨i :: rest, live⟩)
    (hi : ∀ l, g.incoming? i = some l → l.source.node ∈ live) : Open g ⟨rest, live⟩ where
  sound := h.sound
  inside j hj := h.inside j (List.mem_cons_of_mem _ hj)
  closed l hl hin := by
    rcases h.closed l hl hin with hlive | hpending
    · exact Or.inl hlive
    · rcases List.mem_cons.1 hpending with htarget | hrest
      · exact Or.inl (hi l (hg.incoming?_eq_some.2 ⟨hl, htarget⟩))
      · exact Or.inr hrest

/-- A node that is new brings in its inputs. -/
theorem Open.take (hg : g.WellFormed) (h : Open g ⟨i :: rest, live⟩)
    (hl : g.incoming? i = some l) :
    Open g ⟨(g.inputsOf l.source.node).reverse ++ rest, l.source.node :: live⟩ := by
  obtain ⟨hmem, htarget⟩ := hg.incoming?_eq_some.1 hl
  have hlinked : g.Linked l.source.node i.node := ⟨l, hmem, rfl, by rw [htarget]⟩
  refine ⟨fun n hn => ?_, fun j hj => ?_, fun k hk hin => ?_⟩
  · rcases List.mem_cons.1 hn with rfl | hn
    · rcases h.inside i List.mem_cons_self with hexit | hlive
      · exact hexit ▸ TransGen.single hlinked
      · exact TransGen.head hlinked (h.sound _ hlive)
    · exact h.sound n hn
  · rcases List.mem_append.1 hj with hj | hj
    · obtain ⟨index, -, rfl⟩ := List.mem_map.1 (List.mem_reverse.1 hj)
      exact Or.inr List.mem_cons_self
    · exact (h.inside j (List.mem_cons_of_mem _ hj)).imp_right (List.mem_cons_of_mem _)
  · by_cases hold : k.target.node = exit ∨ k.target.node ∈ live
    · rcases h.closed k hk hold with hlive | hpending
      · exact Or.inl (List.mem_cons_of_mem _ hlive)
      · rcases List.mem_cons.1 hpending with heq | hrest
        · -- one link leads into an input
          have hkl : some k = some l := (hg.incoming?_eq_some.2 ⟨hk, heq⟩).symm.trans hl
          cases hkl
          exact Or.inl List.mem_cons_self
        · exact Or.inr (List.mem_append_right _ hrest)
    · have hnew : k.target.node = l.source.node :=
        (List.mem_cons.1 (hin.resolve_left fun hexit => hold (Or.inl hexit))).resolve_right
          fun hlive => hold (Or.inr hlive)
      have hinput := hg.mem_inputsOf hk fun hexit => hold (Or.inl hexit)
      exact Or.inr (List.mem_append_left _ (List.mem_reverse.2 (hnew ▸ hinput)))

theorem Open.round (hg : g.WellFormed) (h : s.Open g) (hnext : s.round g = .inr next) :
    next.Open g := by
  obtain ⟨pending, live⟩ := s
  obtain ⟨i, rest, rfl, ⟨hi, rfl⟩ | ⟨l, hl, -, rfl⟩⟩ := round_cases hnext
  · exact h.drop hg hi
  · exact h.take hg hl

/-- What is found in the end is what leads to the exit. -/
theorem Open.found (h : s.Open g) {found : List NodeId} (hend : s.round g = .inl found)
    (n : NodeId) : n ∈ found ↔ TransGen g.Linked n exit := by
  obtain ⟨pending, live⟩ := s
  cases pending with
  | nil =>
    cases hend
    refine ⟨h.sound n, fun hpath => ?_⟩
    induction hpath using TransGen.head_induction_on with
    | single hlinked =>
      obtain ⟨l, hl, rfl, hexit⟩ := hlinked
      exact (h.closed l hl (Or.inl hexit)).resolve_right List.not_mem_nil
    | head hlinked _ ih =>
      obtain ⟨l, hl, rfl, rfl⟩ := hlinked
      exact (h.closed l hl (Or.inr ih)).resolve_right List.not_mem_nil
  | cons i rest =>
    cases hl : g.incoming? i with
    | none =>
      simp only [LiveSearch.round, hl] at hend
      cases hend
    | some l =>
      simp only [LiveSearch.round, hl] at hend
      split at hend <;> cases hend

end LiveSearch

/-- **The search for what the outputs depend on ends**, after no more rounds than there are
outputs and inputs of nodes, one added, and finds the nodes that are live. -/
theorem Graph.WellFormed.live_search_ends {g : Graph} (hg : g.WellFormed) {k : Nat}
    (hk : (LiveSearch.start g).left g < k) :
    ∃ found, rounds (LiveSearch.round g) k (LiveSearch.start g) = some found ∧
      ∀ n, n ∈ found ↔ n ∈ g.live := by
  obtain ⟨found, hfound⟩ := exists_rounds (fun _ _ h => LiveSearch.left_round h) hk
  refine ⟨found, hfound, fun n => ?_⟩
  rw [mem_live]
  exact rounds_keep (P := fun found => n ∈ found ↔ TransGen g.Linked n exit)
    (fun _ _ h hnext => h.round hg hnext) (fun _ _ h hend => h.found hend n)
    (LiveSearch.Open.start hg) hfound

end NodeFormula
