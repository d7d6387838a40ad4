import NodeFormula.Proofs.Build.Traced
import NodeFormula.Proofs.Compile.History
import NodeFormula.Proofs.Graph.History
/-!
# NodeFormula — cached nodes while the interface changes

Builds come between changes of the interface (`Change`). A node that is found by its tag is never
linked again, so the links into it must be the ones that its tag was derived from. New sockets
and removed outputs leave these links alone. The removal of an input drops the links from it and
renumbers those from the inputs behind it, and the tags do not follow. While no node is linked
from these inputs, every node that a build is given meets its operands (`meets_operands`); a node
that has lost its link is given again without it (`withdrawal_loses_link`).
-/

namespace NodeFormula

open Graph Pass

/-- A build into an output of the interface, or a change of the interface. -/
inductive Change where
  | build (options : BuildOptions) (output : String) (e : Expr)
  | newInput (name : String) (type : SocketType)
  | newOutput (name : String) (type : SocketType)
  | removeSocket (name : String)

namespace Change

/-- The removal of an input is harmless if only outputs are linked from it and from those behind
it. Every other change is harmless. -/
def harmless (g : Graph) : Change → Bool
  | removeSocket name =>
    match g.input? name with
    | none => true
    | some (o, _) => g.links.all fun l =>
      l.source.node != entry || decide (l.source.index < o.index) || l.target.node == exit
  | _ => true

variable [TagDigest]

/-- The graph after a change. One that is refused leaves it as it was. -/
def run (c : Change) (g : Graph) : Graph :=
  match c with
  | build o output e =>
    match Bindings.ofInterface g output with
    | .error _ => g
    | .ok b => (NodeFormula.build o b e g).2
  | newInput name type => ((Edit.newInput name type).perform g).2
  | newOutput name type => ((Edit.newOutput name type).perform g).2
  | removeSocket name => ((Edit.removeSocket name).perform g).2

/-- The calls that a change makes for nodes. -/
def calls (c : Change) (g : Graph) : List Call :=
  match c with
  | build o output e =>
    match Bindings.ofInterface g output with
    | .error _ => []
    | .ok b => Build.callsOf b o e g
  | _ => []

/-- The calls of changes, from the first to the last. -/
def history : List Change → Graph → List Call
  | [], _ => []
  | c :: cs, g => c.calls g ++ history cs (c.run g)

/-- All changes are harmless at their time. -/
def allHarmless : List Change → Graph → Bool
  | [], _ => true
  | c :: cs, g => c.harmless g && allHarmless cs (c.run g)

end Change

/-! ## Changes of the interface -/

namespace Graph

variable {g g' : Graph} {pos : Float → Prop}

section

variable {m : NodeId} {f : Node → Node} {links : List Link} (hm : m = Graph.entry ∨ m = exit)
  (hwf : (g.redrawn m f links).WellFormed) (hkeeps : KeepsId f)
  (htag : ∀ node, (f node).tag = node.tag) (hname : ∀ node, (f node).name = node.name)
  (hlinks : ∀ l : Link, l.target.node ≠ exit → (l ∈ links ↔ l ∈ g.links))
  (houtputs : ∀ l ∈ g.links, l.target.node ≠ exit → l.source.node = m →
    ∀ node, g.node? m = some node →
      (f node).outputs[l.source.index]? = node.outputs[l.source.index]?)

include hm hwf hkeeps htag hname hlinks houtputs

/-- **A graph stays charted when a node of the interface changes**, if its name and the sockets
that nodes are linked from stay, and so do the links that do not lead to the exit. -/
theorem Charted.redrawn {expects : NodeId → Planned → Prop} (h : g.Charted pos expects) :
    (g.redrawn m f links).Charted pos expects := by
  -- the interface carries no tags, so a tagged node is one of the others
  have htagged : ∀ n node t, (g.redrawn m f links).node? n = some node → node.tag = some t →
      n ≠ exit ∧ g.node? n = some node := by
    intro n node t hn ht
    obtain ⟨old, hold, ht'⟩ : ∃ old, g.node? n = some old ∧ old.tag = some t := by
      rw [node?_redrawn hkeeps] at hn
      obtain ⟨old, hold, rfl⟩ := Option.map_eq_some_iff.1 hn
      refine ⟨old, hold, ?_⟩
      split at ht
      · rw [← htag, ht]
      · exact ht
    have hface := h.face n old t hold ht'
    have hne : n ≠ m := by
      rcases hm with rfl | rfl
      · exact hface.1
      · exact hface.2
    exact ⟨hface.2, by rw [← hn, node?_redrawn_of_ne hkeeps _ hne]⟩
  refine h.transfer hwf (fun n node t hn ht => (htagged n node t hn ht).2)
    (fun n node t hn ht index => ?_) fun l hl node t hn ht howned => ?_
  · refine congrArg _ (Option.ext fun l => ?_)
    rw [hwf.incoming?_eq_some, h.wf.incoming?_eq_some]
    refine and_congr_left fun htarget => hlinks l ?_
    rw [htarget]
    exact (htagged n node t hn ht).1
  · have htarget := (htagged _ node t hn ht).1
    -- what the link comes from has kept its tag, its name and this socket
    have hold : ∀ {a}, g.node? l.source.node = some a → ∃ b,
        (g.redrawn m f links).node? l.source.node = some b ∧ b.tag = a.tag ∧ b.name = a.name ∧
          b.outputs[l.source.index]? = a.outputs[l.source.index]? := by
      intro a ha
      by_cases hsource : l.source.node = m
      · rw [hsource] at ha ⊢
        exact ⟨f a, node?_redrawn_self hkeeps _ ha, htag a, hname a,
          houtputs l hl htarget hsource a ha⟩
      · exact ⟨a, by rw [node?_redrawn_of_ne hkeeps _ hsource, ha], rfl, rfl, rfl⟩
    obtain ⟨s, hs⟩ := h.wf.sources l hl
    obtain ⟨a, ha, hsocket⟩ := outputSocket_eq_ok.1 hs
    obtain ⟨b, hb, hbtag, hbname, hboutputs⟩ := hold ha
    refine ⟨?_, ?_, ?_⟩
    · refine howned.imp_right ?_
      rintro ⟨a', t', ha', ht'⟩
      rw [ha] at ha'
      cases ha'
      exact ⟨b, t', hb, hbtag.trans ht'⟩
    · rw [name?, name?, ha, hb, Option.map_some, Option.map_some, hbname]
    · rw [outputType?, outputType?, hs, outputSocket_eq_ok.2 ⟨b, hb, hboutputs.trans hsocket⟩]

/-- The tagged nodes of a graph stay on record when a node of the interface changes. -/
theorem OnRecord.redrawn [TagDigest] {K : List Key} {name : String} {sockets : List Socket}
    (h : g.OnRecord K pos name sockets) :
    (g.redrawn m f links).OnRecord K pos name (g.redrawn m f links).inputSockets where
  charted := h.charted.redrawn hm hwf hkeeps htag hname hlinks houtputs
  entry := by
    obtain ⟨node, hnode, hentry⟩ := Option.map_eq_some_iff.1 h.entry
    rw [name?, node?_redrawn hkeeps, hnode, Option.map_some, Option.map_some]
    split
    · rw [hname, hentry]
    · rw [hentry]
  given := rfl

end

variable [TagDigest] {K : List Key} {name : String} {sockets : List Socket}

/-- A new input leaves a graph on record. -/
theorem OnRecord.newInput (h : g.OnRecord K pos name sockets) {x : String} {type : SocketType}
    {o : OutputRef} (hnew : g.newInput x type = .ok (o, g')) :
    g'.OnRecord K pos name g'.inputSockets := by
  have hwf := h.charted.wf.newInput hnew
  obtain ⟨-, -, -, rfl⟩ := newInput_eq_ok.1 hnew
  refine h.redrawn (Or.inl rfl) hwf (fun _ => rfl) (fun _ => rfl) (fun _ => rfl)
    (fun _ _ => Iff.rfl) fun l hl _ hsource node hnode => ?_
  obtain ⟨s, hs⟩ := h.charted.wf.sources l hl
  obtain ⟨a, ha, hsocket⟩ := outputSocket_eq_ok.1 hs
  rw [hsource, hnode] at ha
  cases ha
  rw [hsocket]
  exact getElem?_append_fresh hsocket _

/-- A new output leaves a graph on record. -/
theorem OnRecord.newOutput (h : g.OnRecord K pos name sockets) {x : String} {type : SocketType}
    {i : InputRef} (hnew : g.newOutput x type = .ok (i, g')) :
    g'.OnRecord K pos name g'.inputSockets := by
  have hwf := h.charted.wf.newOutput hnew
  obtain ⟨-, -, -, rfl⟩ := newOutput_eq_ok.1 hnew
  exact h.redrawn (Or.inr rfl) hwf (fun _ => rfl) (fun _ => rfl) (fun _ => rfl)
    (fun _ _ => Iff.rfl) fun _ _ _ _ _ _ => rfl

/-- The removal of an output leaves a graph on record. -/
theorem OnRecord.dropOutput (h : g.OnRecord K pos name sockets) (index : Nat) :
    (g.dropOutput index).OnRecord K pos name (g.dropOutput index).inputSockets := by
  have hwf := h.charted.wf.dropOutput index
  rw [dropOutput_eq] at hwf ⊢
  refine h.redrawn (Or.inr rfl) hwf (fun _ => rfl) (fun _ => rfl) (fun _ => rfl)
    (fun l hl => ?_) fun _ _ _ _ _ _ => rfl
  rw [List.mem_map]
  constructor
  · rintro ⟨old, hold, rfl⟩
    have hne : old.target.node ≠ exit := fun hexit => hl (by rw [dropTarget, if_pos hexit])
    rw [dropTarget, if_neg hne]
    exact List.mem_of_mem_filter hold
  · intro hmem
    refine ⟨l, List.mem_filter.2 ⟨hmem, ?_⟩, by rw [dropTarget, if_neg hl]⟩
    rw [beq_eq_false_iff_ne.2 hl]
    rfl

/-- The removal of an input leaves a graph on record if no node is linked from it or from the
inputs behind it. -/
theorem OnRecord.dropInput (h : g.OnRecord K pos name sockets) {index : Nat}
    (hfree : ∀ l ∈ g.links, l.source.node = Graph.entry → l.target.node ≠ exit →
      l.source.index < index) :
    (g.dropInput index).OnRecord K pos name (g.dropInput index).inputSockets := by
  have hwf := h.charted.wf.dropInput index
  rw [dropInput_eq] at hwf ⊢
  -- a link into a node comes from an input before the removed one, and stays where it is
  have hkept : ∀ l ∈ g.links, l.target.node ≠ exit → dropSource index l = l := by
    intro l hl htarget
    rw [dropSource]
    split
    · rename_i hsource
      have hlt := hfree l hl hsource htarget
      rw [shiftIndex, if_neg (Nat.not_lt_of_lt hlt), ← hsource]
    · rfl
  refine h.redrawn (Or.inl rfl) hwf (fun _ => rfl) (fun _ => rfl) (fun _ => rfl)
    (fun l hl => ?_) fun l hl htarget hsource node _ => ?_
  · rw [List.mem_map]
    constructor
    · rintro ⟨old, hold, rfl⟩
      rw [target_dropSource] at hl
      have hmem := List.mem_of_mem_filter hold
      rw [hkept old hmem hl]
      exact hmem
    · intro hmem
      refine ⟨l, List.mem_filter.2 ⟨hmem, ?_⟩, hkept l hmem hl⟩
      rw [Bool.not_eq_true', Bool.and_eq_false_imp]
      intro hsource
      have hlt := hfree l hmem (beq_iff_eq.1 hsource) hl
      exact beq_eq_false_iff_ne.2 (Nat.ne_of_lt hlt)
  · rw [List.getElem?_eraseIdx, if_pos (hfree l hl hsource htarget)]

/-- A harmless change of the interface leaves a graph on record. -/
theorem OnRecord.removeSocket (h : g.OnRecord K pos name sockets) {x : String}
    (hharmless : (Change.removeSocket x).harmless g) (hgone : g.removeSocket x = .ok g') :
    g'.OnRecord K pos name g'.inputSockets := by
  rw [removeSocket_eq] at hgone
  rw [Change.harmless] at hharmless
  cases hx : g.input? x with
  | some found =>
    rw [hx] at hgone hharmless
    cases hgone
    refine h.dropInput fun l hl hsource htarget => ?_
    have hlink := List.all_eq_true.1 hharmless l hl
    rw [Bool.or_eq_true, Bool.or_eq_true] at hlink
    rcases hlink with (hlink | hlink) | hlink
    · exact absurd hsource (bne_iff_ne.1 hlink)
    · exact of_decide_eq_true hlink
    · exact absurd (beq_iff_eq.1 hlink) htarget
  | none =>
    rw [hx] at hgone
    cases hy : g.output? x with
    | some found =>
      rw [hy] at hgone
      cases hgone
      exact h.dropOutput _
    | none =>
      rw [hy] at hgone
      cases hgone

end Graph

/-! ## Histories -/

section

variable [TagDigest] {g g₀ : Graph} {K : List Key} {name : String} {sockets : List Socket}

omit [TagDigest] in
theorem mem_keysAfter {cs : List Call} {k : Key} :
    k ∈ Call.keysAfter cs [] ↔ k ∈ cs.map Call.key := by
  rw [Call.keysAfter, List.append_nil, List.mem_reverse]

/-- A refused edit, or one that leaves a graph on record. -/
theorem onRecord_perform (h : g.OnRecord K (fun _ => True) name g.inputSockets) {e : Edit}
    (he : ∀ answer g', e.attempt g = .ok (answer, g') →
      g'.OnRecord K (fun _ => True) name g'.inputSockets) :
    (e.perform g).2.OnRecord K (fun _ => True) name (e.perform g).2.inputSockets := by
  rw [Edit.perform_eq]
  cases hr : e.attempt g with
  | error err => exact h
  | ok r => exact he r.1 r.2 hr

/-- **A harmless change leaves a graph on record**, and every node that is asked for meanwhile is
given and meets its operands. -/
theorem Change.meets (h : g.OnRecord K (fun _ => True) name g.inputSockets)
    (hname : '.' ∉ name.toList) (c : Change) (hharmless : c.harmless g)
    (hdistinct : ∀ a ∈ K, ∀ b ∈ (c.calls g).map Call.key, a.base = b.base → a = b) :
    (∀ d ∈ c.calls g, d.Met) ∧
      (c.run g).OnRecord (K ++ Call.keysAfter (c.calls g) []) (fun _ => True) name
        (c.run g).inputSockets := by
  have hnone : K ++ Call.keysAfter [] [] = K := List.append_nil K
  cases c with
  | build o output e =>
    rw [Change.calls] at hdistinct ⊢
    rw [Change.run]
    cases hb : Bindings.ofInterface g output with
    | error err => exact ⟨List.forall_mem_nil _, hnone.symm ▸ h⟩
    | ok b =>
      obtain ⟨i, type, hout, rfl⟩ := exists_of_ofInterface hb
      obtain ⟨hexit, s, hs, -⟩ := output?_eq_some hout
      rw [hb] at hdistinct
      obtain ⟨hmet, hrecord⟩ := build_traced h hname hexit ⟨s, hs⟩ o e
        fun a ha b hb => hdistinct a ha b (mem_keysAfter.1 hb)
      exact ⟨hmet, { hrecord with given := rfl }⟩
  | newInput x type =>
    refine ⟨List.forall_mem_nil _, hnone.symm ▸ onRecord_perform h fun answer g' hr => ?_⟩
    obtain ⟨⟨o, made⟩, hnew, hsame⟩ := map_eq_ok hr
    cases hsame
    exact h.newInput hnew
  | newOutput x type =>
    refine ⟨List.forall_mem_nil _, hnone.symm ▸ onRecord_perform h fun answer g' hr => ?_⟩
    obtain ⟨⟨i, made⟩, hnew, hsame⟩ := map_eq_ok hr
    cases hsame
    exact h.newOutput hnew
  | removeSocket x =>
    refine ⟨List.forall_mem_nil _, hnone.symm ▸ onRecord_perform h fun answer g' hr => ?_⟩
    obtain ⟨_, hgone, hsame⟩ := map_eq_ok hr
    cases hsame
    exact h.removeSocket hharmless hgone

/-- Any number of harmless changes. -/
theorem Change.meets_history (hname : '.' ∉ name.toList) (cs : List Change)
    (h : g.OnRecord K (fun _ => True) name g.inputSockets) (hharmless : allHarmless cs g)
    (hdistinct : ∀ a ∈ K ++ (history cs g).map Call.key, ∀ b ∈ (history cs g).map Call.key,
      a.base = b.base → a = b) :
    ∀ c ∈ history cs g, c.Met := by
  induction cs generalizing g K with
  | nil => exact List.forall_mem_nil _
  | cons c cs ih =>
    rw [history] at hdistinct ⊢
    rw [List.map_append] at hdistinct
    rw [allHarmless, Bool.and_eq_true] at hharmless
    obtain ⟨hmet, hnext⟩ := c.meets h hname hharmless.1 fun a ha b hb =>
      hdistinct a (List.mem_append_left _ ha) b (List.mem_append_left _ hb)
    -- the keys of the first change are known to those after it
    have hrest := ih hnext hharmless.2 fun a ha b hb => by
      refine hdistinct a ?_ b (List.mem_append_right _ hb)
      rw [List.append_assoc, List.mem_append, List.mem_append, mem_keysAfter] at ha
      rw [List.mem_append, List.mem_append]
      exact ha
    exact fun d hd => (List.mem_append.1 hd).elim (hmet d) (hrest d)

/-- **A node that is found is linked from its operands.** Whatever builds and changes of its
interface a graph has seen, every node that a build asks for is given. Each input is linked from
the socket that was asked for, or is linked from nowhere and holds the constant. This is so if
tags of different calls are different, and while no input is removed that nodes are linked from,
or that stands before such an input. -/
theorem meets_operands {inputs outputs : List (String × SocketType)}
    (hface : withInterface inputs outputs = .ok g₀) (cs : List Change)
    (hharmless : Change.allHarmless cs g₀)
    (hdistinct : ∀ c ∈ Change.history cs g₀, ∀ d ∈ Change.history cs g₀,
      c.key.base = d.key.base → c.key = d.key) :
    ∀ c ∈ Change.history cs g₀, ∀ a ∈ c.queries,
      ∃ n q, a.answer = .ok n q ∧ q.graph.Meets n a.operands := by
  obtain ⟨name, hrecord⟩ :=
    (wellFormed_of_withInterface hface).onRecord (untagged_of_withInterface hface) fun _ => True
  have hname : '.' ∉ name.toList := by
    have hentry := entryName_of_withInterface hface
    rw [entryName, hrecord.entry, Option.getD_some] at hentry
    rw [hentry]
    decide
  refine Change.meets_history hname cs hrecord hharmless fun a ha b hb => ?_
  rw [List.nil_append] at ha
  obtain ⟨c, hc, rfl⟩ := List.mem_map.1 ha
  obtain ⟨d, hd, rfl⟩ := List.mem_map.1 hb
  exact hdistinct c hc d hd

end

/-! ## Two inputs of one output -/

/-- Two inputs and one output. -/
def pair : Graph :=
  ((withInterface [("x", .float), ("y", .float)] [("a", .float)]).toOption).getD empty

/-- The root of an input. -/
def rootOf (x : String) : Expr := .call ⟨0, 0⟩ "sqrt" [.ident ⟨0, 0⟩ x]

/-- A root that is found again twice, while an input that nothing reads and the output of the
root are removed. -/
def rework : List Change :=
  [.build .standard "a" (rootOf "x"), .newInput "w" .vector, .removeSocket "y",
    .newOutput "b" .vector,
    .build .standard "b" (.call ⟨0, 0⟩ "mult" [rootOf "x", .ident ⟨0, 0⟩ "w"]),
    .removeSocket "a", .newOutput "c" .float,
    .build .standard "c" (rootOf "x")]

theorem rework_meets_operands :
    withInterface [("x", .float), ("y", .float)] [("a", .float)] = .ok pair ∧
    Change.allHarmless rework pair ∧
    (∀ c ∈ Change.history rework pair, ∀ d ∈ Change.history rework pair,
      c.key.base = d.key.base → c.key = d.key) ∧
    ∀ c ∈ Change.history rework pair, ∀ a ∈ c.queries,
      ∃ n q, a.answer = .ok n q ∧ q.graph.Meets n a.operands := by
  have hface : withInterface [("x", .float), ("y", .float)] [("a", .float)] = .ok pair := by rfl
  have hharmless : Change.allHarmless rework pair := by decide +kernel
  have hdistinct : ∀ c ∈ Change.history rework pair, ∀ d ∈ Change.history rework pair,
      c.key.base = d.key.base → c.key = d.key := by decide +kernel
  exact ⟨hface, hharmless, hdistinct, meets_operands hface rework hharmless hdistinct⟩

/-- The root of one input, and after its removal that of the other, which has its position then. -/
def withdrawal : List Change :=
  [.build .standard "a" (rootOf "x"), .removeSocket "x",
    .build .standard "a" (rootOf "y")]

/-- **A node that has lost its link is given again without it.** -/
theorem withdrawal_loses_link :
    withInterface [("x", .float), ("y", .float)] [("a", .float)] = .ok pair ∧
    (∀ c ∈ Change.history withdrawal pair, ∀ d ∈ Change.history withdrawal pair,
      c.key.base = d.key.base → c.key = d.key) ∧
    ∃ c ∈ Change.history withdrawal pair, ∃ a ∈ c.queries, ∃ n q, a.answer = .ok n q ∧
      a.operands = [.socket ⟨entry, 0⟩] ∧ ¬ q.graph.Meets n a.operands := by
  refine ⟨by rfl, by decide +kernel, ?_⟩
  -- the second call is given a node into which nothing is linked
  have hany : (Change.history withdrawal pair).any (fun c => c.queries.any fun a =>
      a.operands == [.socket ⟨entry, 0⟩] &&
        a.given?.any fun r => (r.2.graph.incoming? ⟨r.1, 0⟩).isNone) = true := by decide +kernel
  obtain ⟨c, hc, hqueries⟩ := List.any_eq_true.1 hany
  obtain ⟨a, ha, hunlinked⟩ := List.any_eq_true.1 hqueries
  rw [Bool.and_eq_true, beq_iff_eq, Option.any_eq_true] at hunlinked
  obtain ⟨hoperands, ⟨n, q⟩, hgiven, hnone⟩ := hunlinked
  refine ⟨c, hc, a, ha, n, q, Query.given?_eq_some.1 hgiven, hoperands, fun hmeets => ?_⟩
  obtain ⟨l, hl, -⟩ := hmeets.sockets 0 ⟨entry, 0⟩ (by rw [hoperands]; rfl)
  rw [Option.isNone_iff_eq_none.1 hnone] at hl
  cases hl

end NodeFormula
