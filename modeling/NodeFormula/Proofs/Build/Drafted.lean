import NodeFormula.Proofs.Build.Framed
import NodeFormula.Proofs.Build.Simulation
/-!
# NodeFormula — a build against its draft

A graph is on record when every tagged node is as some earlier draft planned it
(`OnRecord`). Every build keeps that, whether it succeeds, fails or prunes, and it ends as
its draft ends: with the error of the draft, or with an output that has the outcome of the
draft's sketch (`build_of_draft_ok`, `build_of_draft_error`).
-/

namespace NodeFormula

open Graph Pass Relation

namespace Graph

variable {g g' : Graph} {pos : Float → Prop} {expects : NodeId → Planned → Prop} {ns : List NodeId}

/-- Nodes are removed with all that is linked from them. -/
theorem Charted.withoutAll (h : g.Charted pos expects) (hns : ∀ n ∈ ns, n ≠ entry ∧ n ≠ exit)
    (hsources : ∀ l ∈ g.links, ∀ node t, g.node? l.target.node = some node → node.tag = some t →
      l.target.node ∉ ns → l.source.node ∉ ns) : (g.withoutAll ns).Charted pos expects := by
  have hnode : ∀ {n node}, (g.withoutAll ns).node? n = some node → n ∉ ns ∧ g.node? n = some node := by
    intro n node hn
    rw [node?_withoutAll] at hn
    split at hn
    · cases hn
    · exact ⟨‹_›, hn⟩
  have hwf := h.wf.withoutAll hns
  refine h.transfer hwf (fun n node t hn _ => (hnode hn).2) (fun n node t hn ht index => ?_)
    fun l hl node t hn ht howned => ?_
  · -- the links into a node that stays all stay
    obtain ⟨hkeep, hn⟩ := hnode hn
    refine congrArg _ (Option.ext fun l => ?_)
    rw [hwf.incoming?_eq_some, h.wf.incoming?_eq_some, mem_links_withoutAll]
    constructor
    · rintro ⟨⟨hl, -⟩, htarget⟩
      exact ⟨hl, htarget⟩
    · rintro ⟨hl, htarget⟩
      have htn : l.target.node = n := by rw [htarget]
      exact ⟨⟨hl, hsources l hl node t (htn ▸ hn) ht (htn ▸ hkeep), htn ▸ hkeep⟩, htarget⟩
  · obtain ⟨hkeep, hn⟩ := hnode hn
    have hsame : (g.withoutAll ns).node? l.source.node = g.node? l.source.node := by
      rw [node?_withoutAll, if_neg (hsources l hl node t hn ht hkeep)]
    exact ⟨howned.imp id fun ⟨a, t', ha, ht'⟩ => ⟨a, t', hsame.trans ha, ht'⟩,
      (sameFace_of_node? hsame).socket⟩

/-- A link into the exit is into no tagged node. -/
theorem Charted.relink (h : g.Charted pos expects) (hwf : g'.WellFormed)
    (hnodes : ∀ n, g'.node? n = g.node? n)
    (hlinks : ∀ i : InputRef, i.node ≠ exit → g'.incoming? i = g.incoming? i) :
    g'.Charted pos expects := by
  refine h.transfer hwf (fun n node t hn _ => (hnodes n).symm.trans hn) (fun n node t hn ht index => ?_)
    fun l _ _ _ _ _ howned => ⟨howned.imp id fun ⟨a, t', ha, ht'⟩ => ⟨a, t', (hnodes _).trans ha, ht'⟩,
      (sameFace_of_node? (hnodes _)).socket⟩
  rw [hlinks ⟨n, index⟩ (h.face n node t ((hnodes n).symm.trans hn) ht).2]

/-- **The tagged nodes of a graph are on record**: earlier drafts planned them. -/
structure OnRecord [TagDigest] (K : List Key) (pos : Float → Prop) (name : String)
    (sockets : List Socket) (g : Graph) : Prop where
  charted : g.Charted pos fun _ x => Expects K x
  entry : g.name? entry = some name
  given : g.inputSockets = sockets

theorem OnRecord.ready [TagDigest] {K : List Key} {name : String} {sockets : List Socket}
    (h : g.OnRecord K pos name sockets) : g.Ready where
  wf := h.charted.wf
  untagged n node hn hnode := by
    cases ht : node.tag with
    | none => rfl
    | some t =>
      have hface := h.charted.face n node t hnode ht
      exact absurd hn (by rintro (h0 | h1); exacts [hface.1 h0, hface.2 h1])

end Graph

section

variable [TagDigest] {c : Course} {known keys : List Key} {pos : Float → Prop} {name : String}
  {sockets : List Socket} {g : Graph} {p q : Pass}

/-- A pass over a graph on record accounts for its nodes. -/
theorem Graph.OnRecord.accounts (h : g.OnRecord known pos name sockets) (spacing : Float32) :
    Accounts pos known name (Spent []) [] (Pass.start g spacing) where
  charted := h.charted.mono fun _ _ => Or.inl
  entry := h.entry
  derived := rfl
  cached _ _ hm := absurd hm List.not_mem_nil
  touched _ hn := absurd hn List.not_mem_nil
  closed _ hn := absurd hn List.not_mem_nil
  sound _ hk := absurd hk List.not_mem_nil

/-- A pass over a graph on record starts on its course. -/
theorem Graph.OnRecord.start (h : g.OnRecord c.known c.pos c.name c.sockets) (spacing : Float32) :
    OnPlan c (Spent []) [] (Pass.start g spacing) :=
  ⟨h.accounts spacing, h.given⟩

/-- **What is left of a pass is on record** when nodes are removed with all that is linked
from them. -/
theorem Pass.Accounts.onRecord {spent : Tag → Prop} {ns : List NodeId}
    (h : Accounts pos known name spent keys p) (hns : ∀ n ∈ ns, n ≠ Graph.entry ∧ n ≠ exit)
    (hsources : ∀ l ∈ p.graph.links, ∀ node t, p.graph.node? l.target.node = some node →
      node.tag = some t → l.target.node ∉ ns → l.source.node ∉ ns) :
    (p.graph.withoutAll ns).OnRecord (known ++ keys) pos name p.graph.inputSockets where
  charted := (h.charted.withoutAll hns hsources).mono fun n x hx => hx.elim
    (fun hx => hx.mono fun k hk => List.mem_append_left _ hk)
    fun hx => hx.2.mono fun k hk => List.mem_append_right _ hk
  entry := by
    rw [name?, node?_withoutAll, if_neg fun hmem => (hns _ hmem).1 rfl]
    exact h.entry
  given := by
    rw [inputSockets, node?_withoutAll, if_neg fun hmem => (hns _ hmem).1 rfl]
    rfl

/-- **A pass that is taken back leaves a graph on record.** -/
theorem Pass.Accounts.onRecord_rollBack {spent : Tag → Prop} {loose : NodeId → Prop}
    (h : Accounts pos known name spent keys p) (hframe : Frame g (fun _ => False) loose p) :
    p.rollBack.graph.OnRecord (known ++ keys) pos name p.graph.inputSockets := by
  rw [hframe.rollBack_graph]
  refine h.onRecord (fun n hn => ?_) fun l hl node t hnode ht hn hmem => ?_
  · exact hframe.base.ne_faces_of_le (hframe.created_ge n (List.mem_reverse.1 hn))
  · -- a link into an old node is an old link
    have hold : l.target.node < g.nextNode := by
      by_contra hnew
      exact hn (List.mem_reverse.2 (hframe.created _ (Nat.le_of_not_lt hnew)
        (hasNode_iff.2 ⟨node, hnode⟩)))
    have hlink := ((hframe.revises.links l hold fun h => h).1 hl).1
    have hsource := hframe.base.lt_nextNode (hframe.base.hasNode_source hlink)
    exact Nat.not_le_of_lt hsource (hframe.created_ge _ (List.mem_reverse.1 hmem))

/-- **A pass that is pruned leaves a graph on record.** -/
theorem Pass.Accounts.onRecord_stale {spent : Tag → Prop} {free : InputRef → Prop}
    {loose : NodeId → Prop} (h : Accounts pos known name spent keys p)
    (hframe : Frame g free loose p) :
    (p.graph.withoutAll (p.stale.map Prod.snd)).OnRecord (known ++ keys) pos name
      p.graph.inputSockets := by
  have hstale : ∀ n ∈ p.stale.map Prod.snd, (n ≠ Graph.entry ∧ n ≠ exit) ∧ n ∉ p.touched ∧
      n ∉ p.graph.live := by
    intro n hn
    obtain ⟨⟨t, n⟩, hmem, rfl⟩ := List.mem_map.1 hn
    obtain ⟨hentry, hexit, -, hdead⟩ := stale_removable hframe.ready hmem
    exact ⟨⟨hentry, hexit⟩, (mem_stale.1 hmem).2.1, hdead⟩
  refine h.onRecord (fun n hn => (hstale n hn).1) fun l hl node t hnode ht hn hmem => ?_
  obtain ⟨⟨hentry, -⟩, htouched, hdead⟩ := hstale _ hmem
  by_cases hused : l.target.node ∈ p.touched
  · -- what is linked into a node that the pass has touched is in use
    exact (h.closed _ hused l.target.index l (h.charted.wf.incoming?_eq_some.2 ⟨hl, rfl⟩)).elim
      hentry htouched
  · have hlive : l.target.node ∈ p.graph.live := by
      by_contra hnot
      exact hn (mem_stale_of_tagged hnode ht hused hnot)
    exact hdead (mem_live.2 (TransGen.head ⟨l, hl, rfl, rfl⟩ (mem_live.1 hlive)))

/-- A socket is linked into an output of the graph, and nothing else has changed. -/
structure Pass.Sunk (o : OutputRef) (sink : InputRef) (p q : Pass) : Prop where
  wf : q.graph.WellFormed
  nodes : ∀ n, q.graph.node? n = p.graph.node? n
  links : ∀ i : InputRef, i ≠ sink → q.graph.incoming? i = p.graph.incoming? i
  linked : (q.graph.incoming? sink).map Link.source = some o
  touched : q.touched = p.touched
  derived : q.derived = p.derived
  cache : q.cache = p.cache

/-- Nothing leads from the exit to a node in use. -/
theorem Pass.Accounts.feeds_exit {spent : Tag → Prop} (h : Accounts pos known name spent keys p)
    {n : NodeId} (hn : p.InUse n) : p.graph.feeds exit n = false := by
  have hleaf : ∀ l ∈ p.graph.links, l.source.node ≠ exit := by
    intro l hl heq
    obtain ⟨s, hs⟩ := h.charted.wf.sources l hl
    obtain ⟨node, hnode, hsocket⟩ := outputSocket_eq_ok.1 hs
    rw [heq] at hnode
    obtain ⟨hmem, hid⟩ := mem_of_node? hnode
    have hfits := h.charted.wf.fits node hmem
    have hne : exit ≠ Graph.entry := by decide
    have houtputs := hfits.outputs (hid ▸ hne)
    rw [hfits.exit_iff.2 hid] at houtputs
    rw [List.map_eq_nil_iff.1 houtputs] at hsocket
    cases hsocket
  refine feeds_eq_false hleaf ?_
  rcases hn with rfl | hn
  · decide
  · obtain ⟨node, t, hnode, ht, -⟩ := h.touched n hn
    exact (h.charted.face n node t hnode ht).2

/-- **The result can be linked into an output.** -/
theorem Pass.Accounts.linkOutput_sinks {spent : Tag → Prop}
    (h : Accounts pos known name spent keys p) {o : OutputRef} (huse : p.InUse o.node)
    (hsource : ∃ s, p.graph.outputSocket o = .ok s) {sink : InputRef} (hsink : sink.node = exit)
    (hsocket : ∃ s, p.graph.inputSocket sink = .ok s) :
    Ensures (· = p) (linkOutput o sink) (fun _ => Sunk o sink p) fun _ _ => False := by
  have hwf := h.charted.wf
  refine Ensures.get fun p' hp' => ?_
  subst hp'
  split
  · rename_i hsame
    refine Ensures.pure fun q hq => ?_
    subst hq
    exact ⟨hwf, fun _ => rfl, fun _ _ => rfl, hsame, rfl, rfl, rfl⟩
  · have hfeeds : p'.graph.feeds sink.node o.node = false := by
      rw [hsink]
      exact h.feeds_exit huse
    refine Ensures.bind (Q := fun _ => Sunk o sink p')
      (Ensures.edit (fun q id g' hq hr => ?_) fun q e hq hr => ?_) fun _ =>
      Ensures.bind (Q := fun _ => Sunk o sink p') (Ensures.record fun q hq => { hq with })
        fun _ => Ensures.pure fun _ hq => hq
    · subst hq
      obtain ⟨-, -, -, -, rfl⟩ := hwf.link_eq_ok.1 hr
      have hwf' := hwf.relinked hsource hsocket hfeeds
      have hincoming := hwf.incoming?_relinked hwf'
      refine ⟨hwf', fun _ => rfl, fun i hi => ?_, ?_, rfl, rfl, rfl⟩
      · rw [hincoming, if_neg hi]
      · rw [hincoming, if_pos rfl]
        rfl
    · subst hq
      cases (hwf.link_eq_ok.2 ⟨hsource, hsocket, hfeeds, rfl, rfl⟩).symm.trans hr

namespace Pass.Sunk

variable {o : OutputRef} {sink : InputRef} (h : Sunk o sink p q) (hsink : sink.node = exit)

include h hsink

omit [TagDigest] in
theorem incoming?_of_ne {i : InputRef} (hi : i.node ≠ exit) :
    q.graph.incoming? i = p.graph.incoming? i :=
  h.links i fun heq => hi (heq ▸ hsink)

/-- The link is into the exit, so the pass accounts for its nodes as before. -/
theorem accounts {spent : Tag → Prop} (hp : Accounts pos known name spent keys p) :
    Accounts pos known name spent keys q where
  charted := h.touched ▸ hp.charted.relink h.wf h.nodes fun i hi => h.incoming?_of_ne hsink hi
  entry := by rw [name?, h.nodes]; exact hp.entry
  derived := h.derived.trans hp.derived
  cached t n hm := by
    obtain ⟨node, hnode, ht⟩ := hp.cached t n (h.cache ▸ hm)
    exact ⟨node, by rw [h.nodes, hnode], ht⟩
  touched n hn := by
    obtain ⟨node, t, hnode, ht⟩ := hp.touched n (h.touched ▸ hn)
    exact ⟨node, t, by rw [h.nodes, hnode], ht⟩
  closed n hn index l hl := by
    rw [h.touched] at hn ⊢
    obtain ⟨node, t, hnode, ht, -⟩ := hp.touched n hn
    rw [h.incoming?_of_ne hsink (hp.charted.face n node t hnode ht).2] at hl
    exact hp.closed n hn index l hl
  sound := hp.sound

theorem onPlan {spent : Tag → Prop} (hp : OnPlan c spent keys p) : OnPlan c spent keys q :=
  ⟨h.accounts hsink hp.toAccounts, by rw [inputSockets, h.nodes]; exact hp.given⟩

theorem grown {spent : Tag → Prop} (hp : OnPlan c spent keys p) : Grown p q where
  inUse n hn := hn.imp id fun hn => h.touched ▸ hn
  agree :=
    { closed := fun _ _ _ hn hl => hp.inUse_closed hn hl
      given := by rw [inputSockets, inputSockets, h.nodes]
      nodes := fun n node _ _ hnode => ⟨node, by rw [h.nodes, hnode], rfl, rfl⟩
      links := fun n index hn => by
        have hne : n ≠ exit := by
          rcases hn with rfl | hn
          · decide
          · obtain ⟨node, t, hnode, ht, -⟩ := hp.touched n hn
            exact (hp.charted.face n node t hnode ht).2
        rw [h.incoming?_of_ne hsink hne] }
  face n _ := sameFace_of_node? (h.nodes n)

end Pass.Sunk

/-! ## Builds -/

namespace Build

variable {b : Bindings} {e : Expr} {o : BuildOptions} {out : OutputRef} {made : Bool}
  {err : BuildError}

theorem linked_eq_ok (hroot : root b e p = .ok out q) {r : Pass}
    (hlink : linkOutput out b.sink q = .ok made r) : linked b e p = .ok (out, made) r := by
  change EStateM.bind (root b e) _ p = _
  rw [EStateM.bind, hroot]
  change EStateM.bind ((linkOutput out b.sink).adaptExcept fun _ => BuildError.finalLink) _ q = _
  rw [EStateM.bind, EStateM.adaptExcept, hlink]
  rfl

theorem linked_eq_error (hroot : root b e p = .error err q) : linked b e p = .error err q := by
  change EStateM.bind (root b e) _ p = _
  rw [EStateM.bind, hroot]

/-- A build that has linked its result succeeds, and what is stale is gone if it prunes. -/
theorem build_of_linked {free : InputRef → Prop} {loose : NodeId → Prop} {a : OutputRef × Bool}
    (hcheck : check b o e g = .ok ()) (hrun : linked b e (Pass.start g o.spacing) = .ok a q)
    (hframe : Frame g free loose q) :
    ∃ r, build o b e g = (.ok r, if o.prune then q.graph.withoutAll (q.stale.map Prod.snd)
      else q.graph) := by
  obtain ⟨output, made⟩ := a
  rw [build, hcheck]
  simp only [hrun]
  cases o.prune with
  | false => exact ⟨_, rfl⟩
  | true =>
    obtain ⟨p', hp', -, hgraph⟩ := Frame.prune_eq_ok hframe
    refine ⟨⟨output, made, p'.report, q.stale.map Prod.fst⟩, ?_⟩
    rw [if_pos rfl, if_pos rfl, hp', ← hgraph]

end Build

/-- **A build that has linked its result leaves a graph on record**, pruned or not. -/
theorem Pass.Accounts.onRecord_build {spent : Tag → Prop} {free : InputRef → Prop}
    {loose : NodeId → Prop} (h : Accounts pos known name spent keys q) (hframe : Frame g free loose q)
    (prune : Bool) :
    (if prune then q.graph.withoutAll (q.stale.map Prod.snd) else q.graph).OnRecord (known ++ keys)
      pos name q.graph.inputSockets := by
  cases prune with
  | false =>
    exact h.onRecord (fun n (hn : n ∈ []) => absurd hn List.not_mem_nil)
      fun _ _ _ _ _ _ _ => List.not_mem_nil
  | true => exact h.onRecord_stale hframe

variable {e : Expr} {name : String} {sink : InputRef} {type : SocketType} {o : BuildOptions}
  {s : Sketch}

section

variable (hg : g.OnRecord c.known c.pos c.name c.sockets) (he : e.Literals c.pos)
  (hout : g.output? name = some (sink, type)) (hnext : ∀ k ∈ keys, k ∈ c.next)

include hg he hout hnext

/-- **The graph after the last link**: the output has what the draft says, and all that is
in use leads to it. -/
theorem linked_of_draft_ok (hdraft : Draft.root c.name c.sockets e [] = .ok s keys)
    (spacing : Float32) :
    ∃ a q, Build.linked (.atInterface sink) e (Pass.start g spacing) = .ok a q ∧
      OnPlan c (Spent keys) keys q ∧ (∀ n ∈ q.touched, n ∈ q.graph.live) ∧
      ∀ inputs, q.graph.evaluate inputs name = (s.outcome inputs).map (·.convert type) := by
  have hsim := simulates_root sink he (hg.start spacing)
  rw [Simulates, hdraft] at hsim
  obtain ⟨out, p, hroot, hplan, hgrown, hres⟩ := hsim hnext
  have hstands := (List.forall₂_cons.1 hres.stand).1
  obtain ⟨hexit, so, hso, -, htype⟩ := output?_eq_some hout
  have hframed : Framed g (fun _ => False) (fun _ => False) (Build.root (.atInterface sink) e) :=
    Build.framed_root (.atInterface sink) hg.ready.wf e
  have hframe := hframed (Pass.start g spacing)
    (Frame.start hg.ready.wf hg.ready.untagged spacing)
  rw [hroot] at hframe
  have hsocket := (hframe.inputSocket_exit hexit).trans hso
  obtain ⟨made, q, hlink, hsinks⟩ := (hplan.linkOutput_sinks hstands.socket.1
    (exists_outputSocket hstands.socket.2.1) hexit ⟨so, hsocket⟩).exists_ok rfl
  have hgrown' := hsinks.grown hexit hplan
  have hplan' := hsinks.onPlan hexit hplan
  obtain ⟨l, hl, hsource⟩ := Option.map_eq_some_iff.1 hsinks.linked
  obtain ⟨hmem, htarget⟩ := hsinks.wf.incoming?_eq_some.1 hl
  refine ⟨(out, made), q, Build.linked_eq_ok hroot hlink, hplan', fun n hn => ?_, fun inputs => ?_⟩
  · rw [mem_live]
    have hlast : q.graph.Linked out.node exit := ⟨l, hmem, by rw [hsource], by rw [htarget, hexit]⟩
    rcases hres.reached n (hsinks.touched ▸ hn) with hn | ⟨o', ho', hpath⟩
    · exact absurd hn List.not_mem_nil
    · cases List.mem_singleton.1 ho'
      exact TransGen.tail' (hgrown'.agree.path hplan.charted.wf hstands.socket.1 hpath) hlast
  · have hout' : q.graph.output? name = some (sink, type) := by
      rw [output?, outputSockets, hsinks.nodes, hframe.faces exit (Or.inr rfl)]
      exact hout
    refine hsinks.wf.evaluate_eq_of_yieldsAt hout' ⟨so, ?_, ?_⟩
    · exact (inputSocket_congr (by rw [hsinks.nodes])).trans hsocket
    · rw [hl]
      have hstands' := hstands.grown hgrown' hplan.charted.wf.hasEntry hsinks.wf.hasEntry
      exact ⟨_, hsource ▸ hstands'.socket.2.2 inputs, by rw [htype]⟩

/-- **Where the draft succeeds, the build succeeds**, and the output has the outcome of the
sketch. A build that prunes leaves no tagged node that no output depends on. -/
theorem build_of_draft_ok (hdraft : Draft.root c.name c.sockets e [] = .ok s keys)
    (hcheck : Build.check (.atInterface sink) o e g = .ok ()) :
    ∃ r g', build o (.atInterface sink) e g = (.ok r, g') ∧
      g'.OnRecord (c.known ++ keys) c.pos c.name c.sockets ∧
      (∀ inputs, g'.evaluate inputs name = (s.outcome inputs).map (·.convert type)) ∧
      (o.prune → ∀ n node t, g'.node? n = some node → node.tag = some t → n ∈ g'.live) := by
  obtain ⟨a, q, hrun, hplan, hlive, heval⟩ :=
    linked_of_draft_ok hg he hout hnext hdraft o.spacing
  have hstart : Frame g (fun _ => False) (fun _ => False) (Pass.start g o.spacing) :=
    Frame.start hg.ready.wf hg.ready.untagged o.spacing
  have hframe := Build.ensures_linked (.atInterface sink) hg.ready.wf e _ hstart
  rw [hrun] at hframe
  obtain ⟨r, hbuild⟩ := Build.build_of_linked hcheck hrun hframe
  refine ⟨r, _, hbuild, hplan.given ▸ hplan.onRecord_build hframe o.prune, ?_⟩
  cases o.prune with
  | false => exact ⟨heval, fun h => by cases h⟩
  | true =>
    rw [if_pos rfl]
    have hstale : ∀ n, n ∈ q.stale.map Prod.snd → n ≠ exit ∧ n ∉ q.graph.live := by
      intro n hn
      obtain ⟨⟨t, n⟩, hmem, rfl⟩ := List.mem_map.1 hn
      obtain ⟨-, hexit, -, hdead⟩ := stale_removable hframe.ready hmem
      exact ⟨hexit, hdead⟩
    -- a tagged node that stays is one that some output depends on
    have hkeep : ∀ n node t, q.graph.node? n = some node → node.tag = some t →
        n ∉ q.stale.map Prod.snd → n ∈ q.graph.live := by
      intro n node t hnode ht hn
      by_contra hdead
      exact hn (mem_stale_of_tagged hnode ht (fun hn => hdead (hlive n hn)) hdead)
    refine ⟨fun inputs => ?_, fun _ n node t hnode ht => ?_⟩
    · exact (evaluate_pruned hframe.ready inputs _).trans (heval inputs)
    · rw [node?_withoutAll] at hnode
      split at hnode
      · cases hnode
      · exact mem_live_withoutAll hstale (hkeep n node t hnode ht ‹_›)

omit hout in
/-- **Where the draft fails, the build fails** with the same error. -/
theorem build_of_draft_error {err : BuildError}
    (hdraft : Draft.root c.name c.sockets e [] = .error err keys)
    (hcheck : Build.check (.atInterface sink) o e g = .ok ()) :
    ∃ g', build o (.atInterface sink) e g = (.error err, g') ∧
      g'.OnRecord (c.known ++ keys) c.pos c.name c.sockets := by
  have hsim := simulates_root sink he (hg.start o.spacing)
  rw [Simulates, hdraft] at hsim
  obtain ⟨q, hroot, hplan⟩ := hsim hnext
  have hrun := Build.linked_eq_error hroot
  have hstart : Frame g (fun _ => False) (fun _ => False) (Pass.start g o.spacing) :=
    Frame.start hg.ready.wf hg.ready.untagged o.spacing
  have hframe := Build.ensures_linked (.atInterface sink) hg.ready.wf e _ hstart
  rw [hrun] at hframe
  refine ⟨q.rollBack.graph, by rw [build, hcheck]; simp only [hrun], ?_⟩
  exact hplan.given ▸ hplan.onRecord_rollBack hframe

end

end

end NodeFormula
