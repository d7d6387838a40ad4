import NodeFormula.Proofs.Pass.Found
/-!
# NodeFormula — the node that a pass finds again

However `findOrCreate` comes by the node of a tag, the node it gives has the tag, the kind and
the constants that were asked for (`Node.Serves`), and no other node has changed but one that
stood in its place (`findOrCreate_provides`). Asked for again, where no other node has the tag,
such a node is used as it is and the graph stays as it was (`findOrCreate_again`).
-/

namespace NodeFormula

/-- No two nodes carry the same tag. -/
def Graph.TagsUnique (g : Graph) : Prop :=
  ∀ m n a b t, g.node? m = some a → g.node? n = some b → a.tag = some t → b.tag = some t → m = n

/-- An input holds a constant, or one that equals it. -/
def Node.Holds (node : Node) (j : Nat) (v : Value) : Prop :=
  ∃ s, node.inputs[j]? = some s ∧ ¬ (v.type = .vector ∧ s.type = .float) ∧
    (s.default == v.convert s.type) = true

/-- **A node is what is asked for**: it can be used again as it is. -/
structure Node.Serves (node : Node) (t : Tag) (kind : NodeKind) (args : List Operand) : Prop where
  tag : node.tag = some t
  kind : node.kind = kind
  automated : node.automated = true
  holds : ∀ (j : Nat) v, args[j]? = some (.literal v) → node.Holds j v

/-- A value that equals itself goes on doing so where it is converted. -/
theorem Value.convert_beq_self {v : Value} (h : (v == v) = true) {type : SocketType}
    (hfits : ¬ (v.type = .vector ∧ type = .float)) : (v.convert type == v.convert type) = true := by
  cases v with
  | float a =>
    cases type with
    | float => exact h
    | vector =>
      have ha : (a == a) = true := h
      change (a == a && (a == a && a == a)) = true
      rw [ha]
      rfl
  | vector v =>
    cases type with
    | float => exact absurd ⟨rfl, rfl⟩ hfits
    | vector => exact h

namespace Graph

variable {g : Graph} {n : NodeId} {a : Node} {t : Tag}

/-- Owning a node again changes nothing. -/
theorem WellFormed.markAutomated_self (hg : g.WellFormed) (ha : g.node? n = some a)
    (hautomated : a.automated = true) : g.markAutomated n = .ok g := by
  have hnodes : g.nodes.map (fun node => if node.id = n then { node with automated := true } else node)
      = g.nodes := by
    refine (List.map_congr_left fun node hnode => ?_).trans (List.map_id' _)
    split
    · rename_i hid
      have hlook := hg.node?_eq hnode
      rw [hid, ha] at hlook
      cases hlook
      rw [← hautomated]
    · rfl
  refine modifyNode_eq_ok.2 ⟨hasNode_iff.2 ⟨a, ha⟩, ?_⟩
  rw [Graph.updateNode, hnodes]

/-- The one node that carries a tag is found by it. -/
theorem TagsUnique.byTag? (hg : g.WellFormed) (hunique : g.TagsUnique) (ha : g.node? n = some a)
    (htag : a.tag = some t) : g.byTag? t = some n := by
  have hsome : (g.nodes.find? (·.tag == some t)).isSome := by
    rw [List.find?_isSome]
    exact ⟨a, (mem_of_node? ha).1, by rw [htag]; exact beq_self_eq_true _⟩
  obtain ⟨b, hb⟩ := Option.isSome_iff_exists.1 hsome
  have hbtag := List.find?_some hb
  simp only [beq_iff_eq] at hbtag
  have hid := hunique b.id n b a t (hg.node?_eq (List.mem_of_find?_eq_some hb)) ha hbtag htag
  rw [Graph.byTag?, hb, Option.map_some, hid]

end Graph

namespace Pass

open Graph

variable {p q : Pass} {n : NodeId} {a : Node} {t : Tag} {kind : NodeKind} {args : List Operand}
  {k : Nat}

/-! ## Asked for again -/

theorem hold_again {j : Nat} {v : Value} (ha : p.graph.node? n = some a) (h : a.Holds j v) :
    Ensures (· = p) (hold ⟨n, j⟩ v) (fun changed q => changed = false ∧ q = p)
      fun _ _ => False := by
  obtain ⟨s, hs, hfits, heq⟩ := h
  have hsocket : p.graph.inputSocket ⟨n, j⟩ = .ok s := inputSocket_eq_ok.2 ⟨a, ha, hs⟩
  have hcoerce := coerce_eq_ok hsocket hfits
  have hsame : (p.graph.default? ⟨n, j⟩ == some (v.convert s.type)) = true := by
    simpa [default?, hsocket, Except.toOption] using heq
  refine Ensures.bind (Q := fun w q => w = v.convert s.type ∧ q = p)
    (Ensures.read (fun q w hq hr => ?_) fun q e hq hr => ?_) fun w => ?_
  · subst hq
    rw [hcoerce] at hr
    exact ⟨(Except.ok.inj hr).symm, rfl⟩
  · subst hq
    rw [hcoerce] at hr
    cases hr
  refine Ensures.get fun q hq => ?_
  obtain ⟨rfl, rfl⟩ := hq
  rw [if_pos hsame]
  exact Ensures.pure fun q hq => ⟨rfl, hq⟩

theorem refresh_again (ha : p.graph.node? n = some a)
    (h : ∀ (j : Nat) v, args[j]? = some (.literal v) → a.Holds j v) :
    Ensures (· = p) (refresh n 0 args) (fun changed q => changed = false ∧ q = p)
      fun _ _ => False := by
  refine (Ensures.refresh (P := fun _ c q => c = false ∧ q = p) (fun _ _ _ _ _ h => h)
    fun k v hk c => ?_).weaken (fun q hq => ⟨rfl, hq⟩) (fun _ _ h => h) fun _ _ h => h
  rintro q ⟨rfl, rfl⟩
  exact hold_again ha (h k v hk) q rfl

/-- A node that serves is used as it is. -/
theorem reuse_again (hp : p.graph.WellFormed) (ha : p.graph.node? n = some a)
    (hserves : a.Serves t kind args) :
    Ensures (· = p) (reuse n args) (fun m q => m = n ∧ q =
      { p with
        touched := if p.touched.contains n then p.touched else n :: p.touched
        report := { p.report with reused := p.report.reused ++ [n] } }) fun _ _ => False := by
  refine Ensures.bind (refresh_again ha hserves.holds) fun changed => ?_
  rintro q ⟨rfl, rfl⟩
  refine Ensures.bind (Q := fun _ r => r = q) (Ensures.edit_succeeds ?_) (fun _ => ?_) q rfl
  · rintro r rfl
    exact ⟨_, hp.markAutomated_self ha hserves.automated, rfl⟩
  rintro r rfl
  exact ⟨rfl, rfl⟩

/-- **The one node with a tag is found and used as it is**, if it serves. -/
theorem findOrCreate_again (hp : p.graph.WellFormed) (hunique : p.graph.TagsUnique)
    (hcache : ∀ x ∈ p.cache, x.1 ≠ t) (hlen : args.length = kind.inputs.length)
    (ha : p.graph.node? n = some a) (hserves : a.Serves t kind args) :
    Ensures (· = p) (findOrCreate t kind args) (fun m q => m = n ∧ q =
      { p with
        cache := (t, n) :: p.cache
        touched := if p.touched.contains n then p.touched else n :: p.touched
        report := { p.report with reused := p.report.reused ++ [n] } }) fun _ _ => False := by
  have hfind : p.find? t = some n := by
    rw [find?_of_cache hcache]
    exact hunique.byTag? hp ha hserves.tag
  have hkind : p.graph.kind? n = some kind := by
    rw [kind?, ha, Option.map_some, hserves.kind]
  have hthis : ∀ {m}, p.find? t = some m → m = n := fun hm => Option.some.inj (hm.symm.trans hfind)
  refine Ensures.findOrCreate hlen (fun hnone => ?_) (fun m hm _ => ?_)
    (fun m e hm hne _ => absurd (hthis hm ▸ hkind) hne) fun m g hm hne _ =>
      absurd (hthis hm ▸ hkind) hne
  · rw [hfind] at hnone
    cases hnone
  · obtain rfl := hthis hm
    exact reuse_again (p := { p with cache := (t, m) :: p.cache }) hp ha hserves

/-! ## Asked for the first time -/

/-- The inputs of the node of a tag that are below `k` hold the constants among the operands.
No other node has changed. -/
structure Tended (p : Pass) (t : Tag) (kind : NodeKind) (args : List Operand) (n : NodeId) (k : Nat)
    (q : Pass) : Prop where
  wf : q.graph.WellFormed
  node : ∃ a, q.graph.node? n = some a ∧ a.tag = some t ∧ a.kind = kind ∧
    ∀ (j : Nat) v, j < k → args[j]? = some (.literal v) → a.Holds j v
  others : ∀ m, m ≠ n → q.graph.node? m = p.graph.node? m
  touched : q.touched = p.touched
  derived : q.derived = p.derived
  cache : q.cache = p.cache

theorem socket_of_coerce {g : Graph} {i : InputRef} {v w : Value} (h : coerce g i v = .ok w) :
    ∃ s, g.inputSocket i = .ok s ∧ ¬ (v.type = .vector ∧ s.type = .float) ∧ w = v.convert s.type := by
  rw [coerce, inputType?] at h
  cases hs : g.inputSocket i with
  | error e =>
    rw [hs] at h
    cases h
  | ok s =>
    simp only [hs, Except.toOption, Option.map_some] at h
    split at h
    · cases h
    · rename_i hfits
      cases h
      exact ⟨s, rfl, hfits, rfl⟩

namespace Tended

variable {v : Value} {s : Socket}

/-- The node of a tag, with no input tended yet. -/
theorem start (hp : p.graph.WellFormed) (ha : p.graph.node? n = some a) (htag : a.tag = some t)
    (hkind : a.kind = kind) (hq : q = p) : Tended p t kind args n 0 q := by
  subst hq
  exact
    { wf := hp
      node := ⟨a, ha, htag, hkind, fun j _ hj => absurd hj (Nat.not_lt_zero j)⟩
      others := fun _ _ => rfl
      touched := rfl
      derived := rfl
      cache := rfl }

/-- An input that is linked holds no constant. -/
theorem skip (h : Tended p t kind args n k q) {o : OutputRef} (hk : args[k]? = some (.socket o)) :
    Tended p t kind args n (k + 1) q :=
  { h with
    node := by
      obtain ⟨a, ha, htag, hkind, hholds⟩ := h.node
      refine ⟨a, ha, htag, hkind, fun j v hj hv => ?_⟩
      rcases Nat.lt_succ_iff_lt_or_eq.1 hj with hj | rfl
      · exact hholds j v hj hv
      · rw [hk] at hv
        cases hv }

/-- An input that holds an equal constant. -/
theorem keep (h : Tended p t kind args n k q) (hk : args[k]? = some (.literal v))
    (hs : q.graph.inputSocket ⟨n, k⟩ = .ok s) (hfits : ¬ (v.type = .vector ∧ s.type = .float))
    (heq : (s.default == v.convert s.type) = true) : Tended p t kind args n (k + 1) q :=
  { h with
    node := by
      obtain ⟨a, ha, htag, hkind, hholds⟩ := h.node
      refine ⟨a, ha, htag, hkind, fun j w hj hw => ?_⟩
      rcases Nat.lt_succ_iff_lt_or_eq.1 hj with hj | rfl
      · exact hholds j w hj hw
      · rw [hk] at hw
        cases hw
        obtain ⟨a', ha', hsocket⟩ := inputSocket_eq_ok.1 hs
        rw [ha] at ha'
        cases ha'
        exact ⟨s, hsocket, hfits, heq⟩ }

/-- An input that is given its constant. -/
theorem put (h : Tended p t kind args n k q) (hk : args[k]? = some (.literal v))
    (hself : (v == v) = true) (hs : q.graph.inputSocket ⟨n, k⟩ = .ok s)
    (hfits : ¬ (v.type = .vector ∧ s.type = .float)) :
    Tended p t kind args n (k + 1)
      { q with graph := q.graph.updateNode n (putDefault k (v.convert s.type)) } := by
  have hkeeps : KeepsId (putDefault k (v.convert s.type)) := fun _ => rfl
  refine { h with wf := h.wf.putDefault ⟨n, k⟩ _, node := ?_, others := ?_ }
  · obtain ⟨a, ha, htag, hkind, hholds⟩ := h.node
    obtain ⟨a', ha', hsocket⟩ := inputSocket_eq_ok.1 hs
    rw [ha] at ha'
    cases ha'
    refine ⟨putDefault k (v.convert s.type) a, by simp [node?_updateNode hkeeps, ha], htag, hkind,
      fun j w hj hw => ?_⟩
    by_cases hkj : k = j
    · subst hkj
      rw [hk] at hw
      cases hw
      refine ⟨{ s with default := v.convert s.type }, ?_, hfits, Value.convert_beq_self hself hfits⟩
      rw [getElem?_putDefault, show a.inputs[k]? = some s from hsocket]
      simp [Value.convert_convert]
    · obtain ⟨s', hs', hfits', heq⟩ := hholds j w (by omega) hw
      refine ⟨s', ?_, hfits', heq⟩
      rw [getElem?_putDefault, hs']
      simp [hkj]
  · intro m hm
    simp [node?_updateNode hkeeps, hm, h.others m hm]

end Tended

section

variable (hself : ∀ v, .literal v ∈ args → (v == v) = true)

include hself

omit hself in
theorem tended_coerce (v : Value) :
    Ensures (Tended p t kind args n k) (read fun g => coerce g ⟨n, k⟩ v)
      (fun w q => Tended p t kind args n k q ∧ ∃ s, q.graph.inputSocket ⟨n, k⟩ = .ok s ∧
        ¬ (v.type = .vector ∧ s.type = .float) ∧ w = v.convert s.type) fun _ _ => True :=
  Ensures.read (fun _ _ hq hr => ⟨hq, socket_of_coerce hr⟩) fun _ _ _ _ => trivial

theorem tended_hold {v : Value} (hk : args[k]? = some (.literal v)) :
    Ensures (Tended p t kind args n k) (hold ⟨n, k⟩ v) (fun _ => Tended p t kind args n (k + 1))
      fun _ _ => True := by
  refine Ensures.bind (tended_coerce v) fun w => ?_
  refine Ensures.get fun q ⟨hq, s, hs, hfits, hw⟩ => ?_
  subst hw
  split
  · rename_i hsame
    refine Ensures.pure fun q' hq' => ?_
    subst hq'
    exact hq.keep hk hs hfits (by simpa [default?, hs, Except.toOption] using hsame)
  · refine Ensures.bind (Q := fun _ => Tended p t kind args n (k + 1))
      (Ensures.edit_ (fun q' g' hq' hr => ?_) fun _ _ _ _ => trivial)
      fun _ => Ensures.pure fun _ h => h
    subst hq'
    cases (setDefault_convert v hs).symm.trans hr
    exact hq.put hk (hself v (List.mem_of_getElem? hk)) hs hfits

theorem tended_refresh :
    Ensures (Tended p t kind args n 0) (refresh n 0 args)
      (fun _ => Tended p t kind args n args.length) fun _ _ => True :=
  Ensures.refresh (P := fun k _ => Tended p t kind args n k) (fun _ _ hk _ _ h => h.skip hk)
    fun _ _ hk _ => tended_hold hself hk

theorem tended_connect :
    Ensures (Tended p t kind args n 0) (connect n 0 args)
      (fun _ => Tended p t kind args n args.length) fun _ _ => True := by
  refine Ensures.connect (fun k o hk => ?_) (fun _ _ h => { h with }) fun k v hk =>
    ⟨_, tended_coerce v, fun w => ?_⟩
  · refine Ensures.edit (fun q id g' hq hr => ?_) fun _ _ _ _ => trivial
    obtain ⟨hsource, htarget, hfeeds, -, rfl⟩ := hq.wf.link_eq_ok.1 hr
    exact { hq.skip hk with wf := hq.wf.relinked hsource htarget hfeeds }
  · refine Ensures.edit_succeeds fun q ⟨hq, s, hs, hfits, hw⟩ => ?_
    subst hw
    exact ⟨_, setDefault_convert v hs, hq.put hk (hself v (List.mem_of_getElem? hk)) hs hfits⟩

omit hself in
/-- A node whose inputs are all tended serves once it is owned. -/
theorem tended_markAutomated :
    Ensures (Tended p t kind args n args.length) (edit (GraphM.markAutomated n))
      (fun _ q => Tended p t kind args n args.length q ∧
        ∃ a, q.graph.node? n = some a ∧ a.Serves t kind args) fun _ _ => True := by
  refine Ensures.edit_ (fun q g' hq hr => ?_) fun _ _ _ _ => trivial
  let owned : Node → Node := fun node => { node with automated := true }
  have hkeeps : KeepsId owned := fun _ => rfl
  obtain ⟨-, rfl⟩ := modifyNode_eq_ok.1 hr
  obtain ⟨a, ha, htag, hkind, hholds⟩ := hq.node
  have howned : (q.graph.updateNode n owned).node? n = some (owned a) := by
    simp [node?_updateNode hkeeps, ha]
  refine ⟨{ hq with wf := ?_, node := ?_, others := ?_ }, owned a, howned, htag, hkind, rfl, ?_⟩
  · exact hq.wf.updateNode_of_inputs (fun _ => ⟨rfl, rfl, rfl, rfl⟩) fun _ => rfl
  · exact ⟨owned a, howned, htag, hkind, hholds⟩
  · intro m hm
    change (q.graph.updateNode n owned).node? m = _
    simp [node?_updateNode hkeeps, hm, hq.others m hm]
  · exact fun j v hv => hholds j v (List.getElem?_eq_some_iff.1 hv).1 hv

end

/-- **The node of a tag is provided.** The other nodes are those that were there and do not
carry the tag. -/
structure Provided (p : Pass) (t : Tag) (kind : NodeKind) (args : List Operand) (n : NodeId)
    (q : Pass) : Prop where
  wf : q.graph.WellFormed
  face : n ≠ entry ∧ n ≠ exit
  node : ∃ a, q.graph.node? n = some a ∧ a.Serves t kind args
  old : ∀ a, p.graph.node? n = some a → a.tag = some t
  others : ∀ m a, m ≠ n → (q.graph.node? m = some a ↔ p.graph.node? m = some a ∧ a.tag ≠ some t)
  touched : q.touched = if p.touched.contains n then p.touched else n :: p.touched
  derived : q.derived = p.derived
  cached : ∀ x ∈ q.cache, x.1 = t ∨ x ∈ p.cache

namespace Provided

variable (h : Provided p t kind args n q)

include h

theorem mem_touched {m : NodeId} : m ∈ q.touched ↔ m = n ∨ m ∈ p.touched := by
  rw [h.touched]
  exact mem_touch

theorem untagged
    (hp : ∀ m b, m = entry ∨ m = exit → p.graph.node? m = some b → b.tag = none) {m : NodeId}
    {b : Node} (hm : m = entry ∨ m = exit) (hb : q.graph.node? m = some b) : b.tag = none := by
  have hne : m ≠ n := by
    rintro rfl
    exact hm.elim h.face.1 h.face.2
  exact hp m b hm ((h.others m b hne).1 hb).1

/-- The node is the only one with the tag. -/
theorem eq_of_tag {m : NodeId} {b : Node} (hb : q.graph.node? m = some b) (htag : b.tag = some t) :
    m = n := by
  by_contra hne
  exact ((h.others m b hne).1 hb).2 htag

theorem tagsUnique (hp : p.graph.TagsUnique) : q.graph.TagsUnique := by
  intro m m' b b' t' hb hb' htag htag'
  by_cases ht : t' = t
  · subst ht
    rw [h.eq_of_tag hb htag, h.eq_of_tag hb' htag']
  · -- neither is the node of the tag, so both were there before
    obtain ⟨a, ha, hserves⟩ := h.node
    have hold : ∀ {m b}, q.graph.node? m = some b → b.tag = some t' → p.graph.node? m = some b := by
      intro m b hb htag
      have hne : m ≠ n := by
        rintro rfl
        rw [ha] at hb
        cases hb
        exact ht (Option.some.inj (htag.symm.trans hserves.tag))
      exact ((h.others m b hne).1 hb).1
    exact hp m m' b b' t' (hold hb htag) (hold hb' htag') htag htag'

end Provided

section

variable (hself : ∀ v, .literal v ∈ args → (v == v) = true)

include hself

/-- A new node is provided, where no node has the tag. -/
theorem create_provides (hp : p.graph.WellFormed)
    (hnone : ∀ m a, p.graph.node? m = some a → a.tag ≠ some t) :
    Ensures (· = p) (create t kind args) (Provided p t kind args) fun _ _ => True := by
  refine create_names hp (fun _ _ => trivial) fun n made hmade => ?_
  obtain ⟨hbegun, ⟨a, ha, htag, -⟩, htouched⟩ := hmade
  obtain ⟨a', ha', hkind, -⟩ := hbegun.node
  rw [ha] at ha'
  cases ha'
  refine Ensures.bind ((tended_connect hself).weaken
    (fun _ => Tended.start hbegun.wf ha htag hkind) (fun _ _ h => h) fun _ _ h => h) fun _ => ?_
  refine Ensures.bind tended_markAutomated fun _ => ?_
  refine Ensures.bind (Q := fun _ q => Tended made t kind args n args.length q ∧
    ∃ a, q.graph.node? n = some a ∧ a.Serves t kind args)
    (Ensures.edit_succeeds fun q hq => ⟨_, rfl, ?_⟩) fun _ => ?_
  · exact ⟨{ hq.1 with wf := hq.1.wf.setActive _ }, hq.2⟩
  refine Ensures.bind (Q := fun _ => Provided p t kind args n) (Ensures.modify fun q hq => ?_)
    fun _ => Ensures.pure fun _ h => h
  refine
    { wf := hq.1.wf
      face := hp.ne_faces_of_le (Nat.le_of_eq hbegun.id.symm)
      node := hq.2
      old := fun b hb => by rw [hbegun.id, hp.node?_nextNode] at hb; cases hb
      others := fun m b hm => ?_
      touched := hq.1.touched.trans htouched
      derived := hq.1.derived.trans hbegun.derived
      cached := fun x hx => ?_ }
  · rw [show q.graph.node? m = p.graph.node? m from (hq.1.others m hm).trans (hbegun.others m hm)]
    exact ⟨fun hb => ⟨hb, hnone m b hb⟩, And.left⟩
  · rcases List.mem_cons.1 hx with rfl | hx
    · exact Or.inl rfl
    · rw [hq.1.cache, hbegun.cache] at hx
      exact Or.inr hx

/-- A node that has the tag and the kind is provided. -/
theorem reuse_provides (hp : p.graph.WellFormed) (ha : p.graph.node? n = some a)
    (htag : a.tag = some t) (hkind : a.kind = kind) (hface : n ≠ entry ∧ n ≠ exit)
    (hnone : ∀ m b, m ≠ n → p.graph.node? m = some b → b.tag ≠ some t) :
    Ensures (· = p) (reuse n args) (fun m q => m = n ∧ Provided p t kind args n q)
      fun _ _ => True := by
  refine Ensures.bind ((tended_refresh hself).weaken
    (fun _ => Tended.start hp ha htag hkind) (fun _ _ h => h) fun _ _ h => h) fun changed => ?_
  refine Ensures.bind tended_markAutomated fun _ => ?_
  refine Ensures.bind (Q := fun _ => Provided p t kind args n) (Ensures.modify fun q hq => ?_)
    fun _ => ?_
  · refine
      { wf := hq.1.wf
        face := hface
        node := hq.2
        old := fun b hb => by rw [ha] at hb; cases hb; exact htag
        others := fun m b hm => ?_
        touched := by
          change (if q.touched.contains n then q.touched else n :: q.touched) = _
          rw [hq.1.touched]
        derived := hq.1.derived
        cached := fun x hx => Or.inr (hq.1.cache ▸ hx) }
    rw [show q.graph.node? m = p.graph.node? m from hq.1.others m hm]
    exact ⟨fun hb => ⟨hb, hnone m b hm hb⟩, And.left⟩
  · refine Ensures.bind (Q := fun _ => Provided p t kind args n) (Ensures.record fun q hq => ?_)
      fun _ => Ensures.pure fun _ h => ⟨rfl, h⟩
    cases changed with
    | true => exact { hq with }
    | false => exact { hq with }

/-- A node that has the tag has made way for a new one. -/
theorem create_provides_cleared (hp : p.graph.WellFormed) (ha : p.graph.node? n = some a)
    (htag : a.tag = some t) (hface : n ≠ entry ∧ n ≠ exit)
    (hnone : ∀ m b, m ≠ n → p.graph.node? m = some b → b.tag ≠ some t) :
    Ensures (· =
      { p with
        graph := p.graph.without n
        cache := p.cache.filter (·.1 != t)
        report := { p.report with removed := p.report.removed ++ [n] } })
      (create t kind args) (Provided p t kind args) fun _ _ => True := by
  have hothers : ∀ m b, (p.graph.without n).node? m = some b ↔
      p.graph.node? m = some b ∧ b.tag ≠ some t := by
    intro m b
    rw [node?_without]
    split
    · rename_i hm
      subst hm
      constructor
      · intro h
        cases h
      · rintro ⟨hb, hne⟩
        rw [ha] at hb
        cases hb
        exact absurd htag hne
    · rename_i hm
      exact ⟨fun hb => ⟨hb, hnone m b hm hb⟩, And.left⟩
  refine (create_provides hself (hp.without hface.1 hface.2) fun m b hb =>
    ((hothers m b).1 hb).2).weaken (fun _ h => h) (fun m q hprovided => ?_) fun _ _ h => h
  refine
    { hprovided with
      old := fun b hb => ?_
      others := fun m' b hm => ?_
      cached := fun x hx => ?_ }
  · by_contra hne
    exact hne (hprovided.old b ((hothers m b).2 ⟨hb, hne⟩))
  · rw [hprovided.others m' b hm, hothers m' b, and_assoc, and_self_iff]
  · rcases hprovided.cached x hx with h | h
    · exact Or.inl h
    · exact Or.inr (List.mem_of_mem_filter (p := (·.1 != t)) h)

/-- **`findOrCreate` provides the node of a tag** that the pass has not asked for yet, be it
new, found, or put in the place of one of another kind. -/
theorem findOrCreate_provides (hp : p.graph.WellFormed)
    (huntagged : ∀ n node, n = entry ∨ n = exit → p.graph.node? n = some node → node.tag = none)
    (hunique : p.graph.TagsUnique) (hcache : ∀ x ∈ p.cache, x.1 ≠ t) :
    Ensures (· = p) (findOrCreate t kind args)
      (fun n q => args.length = kind.inputs.length ∧ Provided p t kind args n q)
      fun _ _ => True := by
  by_cases hlen : args.length = kind.inputs.length
  swap
  · rw [findOrCreate, if_pos hlen]
    exact fun _ _ => trivial
  -- the tag is not remembered yet, so what is found is the one node that carries it
  have hfound : ∀ n, p.find? t = some n → ∃ a, p.graph.node? n = some a ∧ a.tag = some t ∧
      (n ≠ entry ∧ n ≠ exit) ∧ ∀ m b, m ≠ n → p.graph.node? m = some b → b.tag ≠ some t := by
    intro n hfind
    rw [find?_of_cache hcache] at hfind
    obtain ⟨a, ha, htag⟩ := hp.node?_of_byTag? hfind
    refine ⟨a, ha, htag, not_or.1 fun hn => ?_, fun m b hm hb htag' =>
      hm (hunique m n b a t hb ha htag' htag)⟩
    rw [huntagged n a hn ha] at htag
    cases htag
  refine Ensures.findOrCreate hlen (fun hfind => ?_) (fun n hfind hkind => ?_)
    (fun _ _ _ _ _ => trivial) fun n g hfind _ hremove => ?_
  · exact (create_provides hself hp fun m a ha =>
      not_tagged_of_find?_eq_none hfind a (mem_of_node? ha).1).weaken (fun _ h => h)
      (fun n p' h => ⟨hlen, h⟩) fun _ _ h => h
  · obtain ⟨a, ha, htag, hface, hnone⟩ := hfound n hfind
    rw [kind?, ha, Option.map_some, Option.some.injEq] at hkind
    refine (reuse_provides (p := { p with cache := (t, n) :: p.cache }) hself hp ha htag hkind hface
      hnone).weaken (fun _ h => h) (fun m q h => ?_) fun _ _ h => h
    obtain ⟨rfl, hprovided⟩ := h
    refine ⟨hlen, { hprovided with cached := fun x hx => ?_ }⟩
    rcases hprovided.cached x hx with h | h
    · exact Or.inl h
    · exact (List.mem_cons.1 h).imp_left fun heq => by rw [heq]
  · obtain ⟨a, ha, htag, hface, hnone⟩ := hfound n hfind
    obtain ⟨-, -, -, rfl⟩ := removeNode_eq_ok.1 hremove
    exact (create_provides_cleared hself hp ha htag hface hnone).weaken (fun _ h => h)
      (fun m q h => ⟨hlen, h⟩) fun _ _ h => h

end

end Pass

end NodeFormula
