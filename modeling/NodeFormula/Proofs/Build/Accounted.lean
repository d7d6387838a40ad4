import NodeFormula.Proofs.Build.Charted
/-!
# NodeFormula — what a pass accounts for

While a build runs, it accounts for every tagged node of the graph (`Accounts`): an earlier
build planned it, or this one did and has touched it. The nodes that it has touched are linked
from one another and from the entry. When a node is asked for that no call has asked for before
(`Wanted`), a node that has the tag already is one of an earlier build, and is linked as asked
(`Wanted.found`). So the pass goes on accounting for every node with the one it is given
(`Wanted.accounts_of_fitted`).
-/

namespace NodeFormula

open Graph

namespace Pass

variable {p q : Pass} {n : NodeId} {args : List Operand}

/-- A node that this pass builds with: the entry, or one that it has touched. -/
def InUse (p : Pass) (n : NodeId) : Prop := n = Graph.entry ∨ n ∈ p.touched

variable [TagDigest] {pos : Float → Prop} {known keys : List Key} {name : String}
  {spent : Tag → Prop} {x : Planned}

/-- **A pass accounts for every tagged node**: an earlier build planned it, by a key that is
known, or this one did. The nodes of this one, which the pass has touched, are linked from one
another and from the entry. -/
structure Accounts (pos : Float → Prop) (known : List Key) (name : String) (spent : Tag → Prop)
    (keys : List Key) (p : Pass) : Prop where
  charted : p.graph.Charted pos fun n x => Expects known x ∨ n ∈ p.touched ∧ Expects keys x
  entry : p.graph.name? entry = some name
  derived : p.derived = keys.map Key.base
  cached : ∀ t n, (t, n) ∈ p.cache → ∃ node, p.graph.node? n = some node ∧ node.tag = some t
  touched : ∀ n ∈ p.touched, ∃ node t, p.graph.node? n = some node ∧ node.tag = some t ∧ spent t
  closed : ∀ n ∈ p.touched, ∀ index l, p.graph.incoming? ⟨n, index⟩ = some l →
    l.source.node = Graph.entry ∨ l.source.node ∈ p.touched
  sound : ∀ k ∈ keys, k.Sound

namespace Accounts

theorem inUse_owned (h : Accounts pos known name spent keys p) (hn : p.InUse n) :
    p.graph.Owned n := by
  rcases hn with rfl | hn
  · exact Or.inl rfl
  · obtain ⟨node, t, hnode, ht, -⟩ := h.touched n hn
    exact Or.inr ⟨node, t, hnode, ht⟩

theorem hasNode (h : Accounts pos known name spent keys p) (hn : p.InUse n) :
    p.graph.hasNode n := by
  rcases hn with rfl | hn
  · exact h.charted.wf.hasEntry
  · obtain ⟨node, t, hnode, -⟩ := h.touched n hn
    exact hasNode_iff.2 ⟨node, hnode⟩

theorem not_incoming_entry (h : Accounts pos known name spent keys p) (index : Nat) :
    p.graph.incoming? ⟨Graph.entry, index⟩ = none := by
  rw [incoming?_eq_none]
  intro l hl heq
  obtain ⟨s, hs⟩ := h.charted.wf.targets l hl
  obtain ⟨node, hnode, hsocket⟩ := inputSocket_eq_ok.1 hs
  rw [heq] at hnode hsocket
  obtain ⟨hmem, hid⟩ := mem_of_node? hnode
  have hfits := h.charted.wf.fits node hmem
  have hne : Graph.entry ≠ exit := by decide
  have hinputs := hfits.inputs (by rw [hid]; exact hne)
  rw [hfits.entry_iff.2 hid] at hinputs
  rw [List.map_eq_nil_iff.1 hinputs] at hsocket
  cases hsocket

/-- What is linked into a node in use is in use. -/
theorem inUse_closed (h : Accounts pos known name spent keys p) (hn : p.InUse n) {index : Nat}
    {l : Link} (hl : p.graph.incoming? ⟨n, index⟩ = some l) : p.InUse l.source.node := by
  rcases hn with rfl | hn
  · rw [h.not_incoming_entry] at hl
    cases hl
  · exact h.closed n hn index l hl

/-- More tags may count as spent. -/
theorem weaken (h : Accounts pos known name spent keys p) {spent' : Tag → Prop}
    (hspent : ∀ T, spent T → spent' T) : Accounts pos known name spent' keys p :=
  { h with
    touched := fun n hn => by
      obtain ⟨node, t, hnode, ht, hs⟩ := h.touched n hn
      exact ⟨node, t, hnode, ht, hspent t hs⟩ }

/-- One more key is derived. -/
theorem derive (h : Accounts pos known name spent keys p) {k : Key} (hk : k.Sound) :
    Accounts pos known name spent (k :: keys) { p with derived := k.base :: p.derived } :=
  { h with
    charted := h.charted.mono fun _ _ hx =>
      hx.imp id fun hx => ⟨hx.1, hx.2.mono fun _ ha => List.mem_cons_of_mem _ ha⟩
    derived := by rw [List.map_cons, ← h.derived]
    sound := List.forall_mem_cons.2 ⟨hk, h.sound⟩ }

end Accounts

/-! ## One node -/

/-- **A node is wanted** that no call of the pass has asked for before: it is planned, and its
operands are sockets of nodes in use, with the identities of the plan, and constants. -/
structure Wanted (pos : Float → Prop) (known : List Key) (name : String) (spent : Tag → Prop)
    (keys : List Key) (x : Planned) (args : List Operand) (p : Pass) : Prop where
  accounts : Accounts pos known name spent keys p
  distinct : ∀ a ∈ known, ∀ b ∈ keys, a.base = b.base → a = b
  unpointed : known ≠ [] → '.' ∉ name.toList
  expects : Expects keys x
  fresh : ¬ spent x.tag
  inUse : ∀ o, .socket o ∈ args → p.InUse o.node
  sockets : ∀ o, .socket o ∈ args → ∃ s, p.graph.outputSocket o = .ok s
  matched : p.graph.Matches args x.identities

namespace Wanted

variable {kind : NodeKind} (h : Wanted pos known name spent keys x args p)
  (hkind : kind = x.stage.node.kind (args.any (·.isVector p.graph)))

include h

theorem not_touched {a : Node} (ha : p.graph.node? n = some a) (ht : a.tag = some x.tag) :
    n ∉ p.touched := by
  intro hn
  obtain ⟨b, t, hb, htb, hspent⟩ := h.accounts.touched n hn
  rw [ha] at hb
  cases hb
  rw [ht] at htb
  cases htb
  exact h.fresh hspent

include hkind

theorem length_args : args.length = kind.inputs.length := by
  rw [hkind, h.expects.length_inputs, h.matched.length_eq]

/-- **A node that has the tag is out of use, and is the node that is wanted.** -/
theorem found {a : Node} (ha : p.graph.node? n = some a) (ht : a.tag = some x.tag) :
    a.kind = kind ∧ p.graph.Wired n args ∧ known ≠ [] := by
  have hcharted := h.accounts.charted
  obtain ⟨y, old, hy, hexpects, hconforms⟩ := hcharted.planned n a x.tag ha ht
  have hknown : Expects known y := hexpects.resolve_right fun hr => h.not_touched ha ht hr.1
  have hne : known ≠ [] := by
    obtain ⟨k, hk, -⟩ := hknown
    exact List.ne_nil_of_mem hk
  obtain rfl : y = x := hknown.unique h.distinct h.expects hy
  obtain ⟨hwired, hsame⟩ := hcharted.found
    (fun m z hz => hz.elim Expects.point_mem fun hz => hz.2.point_mem) h.accounts.entry
    (h.unpointed hne) hconforms (fun o ho => h.accounts.inUse_owned (h.inUse o ho)) h.matched
  exact ⟨hsame.trans hkind.symm, hwired, hne⟩

/-- **The node that is given meets its operands.** -/
theorem fits (hfits : Fits kind args) :
    Ensures (· = p) (findOrCreate x.tag kind args) (fun n q => Fitted p x.tag kind args n q ∧
      ((∃ a, p.graph.node? n = some a ∧ a.tag = some x.tag) ∨
        ∀ m a, p.graph.node? m = some a → a.tag ≠ some x.tag)) fun _ _ => False := by
  refine findOrCreate_fits h.accounts.charted.wf h.accounts.cached
    (hkind ▸ h.expects.sane.inner _) (h.length_args hkind) hfits h.sockets fun n a ha ht => ?_
  obtain ⟨hsame, hwired, -⟩ := h.found hkind ha ht
  exact ⟨h.accounts.charted.face n a _ ha ht, hsame, h.accounts.charted.name n a _ ha ht, hwired⟩

variable (hq : Fitted p x.tag kind args n q)

include hq

omit hkind in
/-- It is not in use before. -/
theorem not_inUse : ¬ p.InUse n := by
  rintro (rfl | hn)
  · exact hq.gains.face.1 rfl
  · obtain ⟨node, t, hnode, ht, -⟩ := h.accounts.touched n hn
    exact h.not_touched hnode (hq.gains.old node hnode) hn

omit hkind in
/-- The nodes in use are as they were. -/
theorem node?_of_inUse {m : NodeId} (hm : p.InUse m) : q.graph.node? m = p.graph.node? m :=
  hq.gains.others m fun heq => h.not_inUse hq (heq ▸ hm)

/-- **The pass accounts for the node as well.** -/
theorem accounts_of_fitted
    (hold : (∃ a, p.graph.node? n = some a ∧ a.tag = some x.tag) ∨
      ∀ m a, p.graph.node? m = some a → a.tag ≠ some x.tag)
    (hconstants : ∀ node, q.graph.node? n = some node → ∀ s ∈ node.inputs, s.default.All pos) :
    Accounts pos known name (fun T => spent T ∨ T = x.tag) keys q := by
  have hgains := hq.gains
  obtain ⟨node, hnode, htag, -⟩ := hgains.node
  refine
    { charted := hgains.charted h.accounts.charted
        (fun a ha => (h.found hkind ha (hgains.old a ha)).1) rfl hkind h.matched
        (fun o ho => h.accounts.inUse_owned (h.inUse o ho)) hold hconstants
        (Or.inr ⟨(hq.touched n).2 (Or.inl rfl), h.expects⟩)
        fun m y => Or.imp id fun he => ⟨(hq.touched m).2 (Or.inr he.1), he.2⟩
      entry := by rw [name?, h.node?_of_inUse hq (Or.inl rfl)]; exact h.accounts.entry
      derived := hq.derived.trans h.accounts.derived
      cached := fun t m hm => ?_
      touched := fun m hm => ?_
      closed := fun m hm index l hl => ?_
      sound := h.accounts.sound }
  · rcases hq.cached t m hm with ⟨rfl, rfl⟩ | hm
    · exact ⟨node, hnode, htag⟩
    · obtain ⟨a, ha, ht⟩ := h.accounts.cached t m hm
      by_cases hmn : m = n
      · subst hmn
        have hsame := hgains.old a ha
        rw [ht] at hsame
        cases hsame
        exact ⟨node, hnode, htag⟩
      · exact ⟨a, by rw [hgains.others m hmn, ha], ht⟩
  · rcases (hq.touched m).1 hm with rfl | hm
    · exact ⟨node, x.tag, hnode, htag, Or.inr rfl⟩
    · obtain ⟨a, t, ha, ht, hspent⟩ := h.accounts.touched m hm
      exact ⟨a, t, by rw [h.node?_of_inUse hq (Or.inr hm), ha], ht, Or.inl hspent⟩
  · have huse : p.InUse l.source.node → l.source.node = Graph.entry ∨ l.source.node ∈ q.touched :=
      Or.imp id fun hs => (hq.touched _).2 (Or.inr hs)
    rcases (hq.touched m).1 hm with rfl | hm
    · have hsocket := hgains.socket_of_incoming (h.length_args hkind) hl
      exact huse (h.inUse _ (List.mem_of_getElem? hsocket))
    · have hmn : m ≠ n := fun heq => h.not_inUse hq (heq ▸ Or.inr hm)
      rw [hgains.links ⟨m, index⟩ hmn] at hl
      exact huse (h.accounts.closed m hm index l hl)

end Wanted

end Pass

end NodeFormula
