import NodeFormula.Proofs.Graph.Evaluation
import NodeFormula.Proofs.Pass.Frame
/-!
# NodeFormula — the node that a pass finds or makes

`findOrCreate` succeeds whenever its operands can be connected and a node with the tag, if
there is one, has the kind and the links that are asked for. The node it gives carries the
tag, is linked from the sockets among the operands and holds the constants among them, and
no other node has changed (`Placed`). A new node is shaped input by input (`Shaped`), a node
that is used again has its constants refreshed one by one.
-/

namespace NodeFormula

open Relation

namespace Graph

variable {g : Graph} {n : NodeId}

/-- The links into a node come from the sockets among the operands. -/
def Wired (g : Graph) (n : NodeId) (args : List Operand) : Prop :=
  ∀ j x, args[j]? = some x → (g.incoming? ⟨n, j⟩).map Link.source = x.socket?

theorem WellFormed.incoming?_relinked (hg : g.WellFormed) {source : OutputRef}
    {target : InputRef} (hwf : (g.relinked source target).WellFormed) (i : InputRef) :
    (g.relinked source target).incoming? i
      = if i = target then some ⟨g.nextLink, source, target⟩ else g.incoming? i := by
  refine Option.ext fun l => ?_
  rw [hwf.incoming?_eq_some, mem_links_relinked]
  by_cases hi : i = target
  · subst hi
    rw [if_pos rfl, Option.some.injEq]
    constructor
    · rintro ⟨⟨-, hne⟩ | rfl, htarget⟩
      · exact absurd htarget hne
      · rfl
    · rintro rfl
      exact ⟨Or.inr rfl, rfl⟩
  · rw [if_neg hi, hg.incoming?_eq_some]
    constructor
    · rintro ⟨⟨hl, -⟩ | rfl, htarget⟩
      · exact ⟨hl, htarget⟩
      · exact absurd htarget.symm hi
    · rintro ⟨hl, rfl⟩
      exact ⟨Or.inl ⟨hl, hi⟩, rfl⟩

/-- A node that nothing is linked from leads nowhere. -/
theorem feeds_eq_false {m : NodeId} (hout : ∀ l ∈ g.links, l.source.node ≠ n) (hne : m ≠ n) :
    g.feeds n m = false := by
  rw [Bool.eq_false_iff]
  intro h
  rcases (feeds_iff.1 h).cases_head with heq | ⟨k, ⟨l, hl, hs, -⟩, -⟩
  · exact hne heq.symm
  · exact hout l hl hs

end Graph

namespace Pass

open Graph

variable {p q : Pass} {n : NodeId} {t : Tag} {kind : NodeKind} {args : List Operand}

/-- An operand fits an input: a vector does not fit a float. -/
def Fits (kind : NodeKind) (args : List Operand) : Prop :=
  ∀ (j : Nat) v spec, args[j]? = some (.literal v) → kind.inputs[j]? = some spec →
    ¬ (v.type = .vector ∧ spec.type = .float)

/-! ## Constants, input by input -/

theorem getElem?_putDefault (k j : Nat) (w : Value) (node : Node) :
    (putDefault k w node).inputs[j]? = (node.inputs[j]?).map fun s =>
      if k = j then { s with default := w.convert s.type } else s := by
  rw [putDefault, List.getElem?_modify]
  rfl

/-- The inputs of a node below `k` hold the constants among the operands, and nothing else
has changed but links. -/
structure Adjusted (p : Pass) (n : NodeId) (args : List Operand) (k : Nat) (q : Pass) : Prop where
  wf : q.graph.WellFormed
  node : ∀ a, p.graph.node? n = some a → ∃ b, q.graph.node? n = some b ∧ b.Revised a ∧
    (∀ (j : Nat) v s, j < k → args[j]? = some (.literal v) → b.inputs[j]? = some s →
      s.default = v.convert s.type) ∧
    ∀ (j : Nat) s, b.inputs[j]? = some s →
      (∃ v, args[j]? = some (.literal v) ∧ s.default = v.convert s.type) ∨ a.inputs[j]? = some s
  others : ∀ m, m ≠ n → q.graph.node? m = p.graph.node? m
  touched : q.touched = p.touched
  derived : q.derived = p.derived
  cache : q.cache = p.cache
  removed : q.report.removed = p.report.removed

namespace Adjusted

variable {k : Nat}

theorem refl (hp : p.graph.WellFormed) : Adjusted p n args 0 p where
  wf := hp
  node a ha := ⟨a, ha, .refl a, fun _ _ _ h => absurd h (Nat.not_lt_zero _), fun _ _ h => Or.inr h⟩
  others _ _ := rfl
  touched := rfl
  derived := rfl
  cache := rfl
  removed := rfl

/-- An input that is linked needs no constant. -/
theorem skip (h : Adjusted p n args k q) {o : OutputRef} (hk : args[k]? = some (.socket o)) :
    Adjusted p n args (k + 1) q :=
  { h with
    node := fun a ha => by
      obtain ⟨b, hb, hrev, hconst, hrest⟩ := h.node a ha
      refine ⟨b, hb, hrev, fun j v s hj hv hs => ?_, hrest⟩
      rcases Nat.lt_succ_iff_lt_or_eq.1 hj with hj | rfl
      · exact hconst j v s hj hv hs
      · rw [hk] at hv
        cases hv }

/-- An input that holds its constant already. -/
theorem keep (h : Adjusted p n args k q) {v : Value} (hk : args[k]? = some (.literal v))
    (hd : ∀ s, q.graph.inputSocket ⟨n, k⟩ = .ok s → s.default = v.convert s.type) :
    Adjusted p n args (k + 1) q :=
  { h with
    node := fun a ha => by
      obtain ⟨b, hb, hrev, hconst, hrest⟩ := h.node a ha
      refine ⟨b, hb, hrev, fun j w s hj hw hs => ?_, hrest⟩
      rcases Nat.lt_succ_iff_lt_or_eq.1 hj with hj | rfl
      · exact hconst j w s hj hw hs
      · rw [hk] at hw
        cases hw
        exact hd s (inputSocket_eq_ok.2 ⟨b, hb, hs⟩) }

/-- An input that is given its constant. -/
theorem put (h : Adjusted p n args k q) {v : Value} (hk : args[k]? = some (.literal v))
    {s : Socket} (hs : q.graph.inputSocket ⟨n, k⟩ = .ok s) :
    Adjusted p n args (k + 1)
      { q with graph := q.graph.updateNode n (putDefault k (v.convert s.type)) } := by
  have hkeeps : KeepsId (putDefault k (v.convert s.type)) := fun _ => rfl
  refine { h with wf := h.wf.putDefault ⟨n, k⟩ _, node := ?_, others := ?_ }
  · intro a ha
    obtain ⟨b, hb, hrev, hconst, hrest⟩ := h.node a ha
    obtain ⟨b', hb', hsock⟩ := inputSocket_eq_ok.1 hs
    rw [hb] at hb'
    cases hb'
    have hinput : ∀ j : Nat, (putDefault k (v.convert s.type) b).inputs[j]?
        = if k = j then some { s with default := v.convert s.type } else b.inputs[j]? := by
      intro j
      rw [getElem?_putDefault]
      by_cases hj : k = j
      · subst hj
        simp [show b.inputs[k]? = some s from hsock, Value.convert_convert]
      · simp [hj]
    refine ⟨putDefault k (v.convert s.type) b, ?_, ?_, ?_, ?_⟩
    · simp [node?_updateNode hkeeps, hb]
    · exact .trans ⟨putDefault_alike k _ b, rfl, rfl⟩ hrev
    · intro j w s' hj hw hs'
      rw [hinput j] at hs'
      by_cases hkj : k = j
      · subst hkj
        rw [hk] at hw
        cases hw
        rw [if_pos rfl] at hs'
        cases hs'
        rfl
      · rw [if_neg hkj] at hs'
        exact hconst j w s' (by omega) hw hs'
    · intro j s' hs'
      rw [hinput j] at hs'
      by_cases hkj : k = j
      · subst hkj
        rw [if_pos rfl] at hs'
        cases hs'
        exact Or.inl ⟨v, hk, rfl⟩
      · rw [if_neg hkj] at hs'
        exact hrest j s' hs'
  · intro m hm
    simp [node?_updateNode hkeeps, hm, h.others m hm]

/-- Links are not constants. -/
theorem relinked (h : Adjusted p n args k q) {source : OutputRef} {target : InputRef}
    (hwf : (q.graph.relinked source target).WellFormed) :
    Adjusted p n args k { q with graph := q.graph.relinked source target } :=
  { h with wf := hwf }

end Adjusted

theorem coerce_eq_ok {g : Graph} {i : InputRef} {v : Value} {s : Socket}
    (hs : g.inputSocket i = .ok s) (hfits : ¬ (v.type = .vector ∧ s.type = .float)) :
    coerce g i v = .ok (v.convert s.type) := by
  simp only [coerce, inputType?, hs, Except.toOption, Option.map_some, if_neg hfits]

/-- The socket of an input of a node whose constants have changed, and that a constant fits
that is given to it. -/
theorem exists_socket_of_revised {g : Graph} {a b : Node} (hb : g.node? n = some b)
    (hrev : b.Revised a) (hin : a.inputs.map Socket.spec = kind.inputs)
    (hlen : args.length = kind.inputs.length) (hfits : Fits kind args) {k : Nat} {x : Operand}
    (hk : args[k]? = some x) :
    ∃ s, g.inputSocket ⟨n, k⟩ = .ok s ∧
      ∀ v, x = .literal v → ¬ (v.type = .vector ∧ s.type = .float) := by
  have hspec : (b.inputs[k]?).map Socket.spec = kind.inputs[k]? := by
    rw [hrev.inputs_spec, ← List.getElem?_map, hin]
  have hlt : k < kind.inputs.length := by
    rw [← hlen]
    exact (List.getElem?_eq_some_iff.1 hk).1
  rw [List.getElem?_eq_getElem hlt] at hspec
  obtain ⟨s, hs, hspec⟩ := Option.map_eq_some_iff.1 hspec
  refine ⟨s, inputSocket_eq_ok.2 ⟨b, hb, hs⟩, ?_⟩
  rintro v rfl
  have hfit := hfits k v _ hk (List.getElem?_eq_getElem hlt)
  rwa [← hspec] at hfit

/-- The socket of an input of the node, and that its constant fits. -/
theorem Adjusted.exists_socket {k : Nat} (h : Adjusted p n args k q) {a : Node}
    (ha : p.graph.node? n = some a) (hin : a.inputs.map Socket.spec = kind.inputs)
    (hlen : args.length = kind.inputs.length) (hfits : Fits kind args) {x : Operand}
    (hk : args[k]? = some x) :
    ∃ s, q.graph.inputSocket ⟨n, k⟩ = .ok s ∧
      ∀ v, x = .literal v → ¬ (v.type = .vector ∧ s.type = .float) := by
  obtain ⟨b, hb, hrev, -⟩ := h.node a ha
  exact exists_socket_of_revised hb hrev hin hlen hfits hk

section

variable {a : Node} (ha : p.graph.node? n = some a)
  (hin : a.inputs.map Socket.spec = kind.inputs) (hlen : args.length = kind.inputs.length)
  (hfits : Fits kind args) {k : Nat}

include ha hin hlen hfits

/-- A constant that is an operand is read as its input holds it. -/
theorem coerce_reads {v : Value} (hk : args[k]? = some (.literal v)) {P : Pass → Prop}
    (hP : ∀ q, P q → Adjusted p n args k q) :
    Ensures P (read fun g => coerce g ⟨n, k⟩ v)
      (fun w q => P q ∧ ∃ s, q.graph.inputSocket ⟨n, k⟩ = .ok s ∧ w = v.convert s.type)
      fun _ _ => False := by
  refine Ensures.read (fun q w hq hr => ?_) fun q e hq hr => ?_
  · obtain ⟨s, hs, hfit⟩ := (hP q hq).exists_socket ha hin hlen hfits hk
    rw [coerce_eq_ok hs (hfit v rfl)] at hr
    cases hr
    exact ⟨hq, s, hs, rfl⟩
  · obtain ⟨s, hs, hfit⟩ := (hP q hq).exists_socket ha hin hlen hfits hk
    rw [coerce_eq_ok hs (hfit v rfl)] at hr
    cases hr

omit ha hin hlen hfits in
theorem setDefault_convert {g : Graph} {i : InputRef} {s : Socket} (v : Value)
    (hs : g.inputSocket i = .ok s) :
    g.setDefault i (v.convert s.type)
      = .ok (g.updateNode i.node (putDefault i.index (v.convert s.type))) := by
  refine setDefault_eq_ok.2 ⟨s, hs, ?_, rfl⟩
  rintro ⟨hfloat, hvector⟩
  rw [Value.type_convert, hfloat] at hvector
  cases hvector

/-- One constant is refreshed. -/
theorem hold_adjusts
    (hlaw : ∀ (j : Nat) v s, args[j]? = some (.literal v) → a.inputs[j]? = some s →
      (s.default == v.convert s.type) = true → s.default = v.convert s.type)
    {v : Value} (hk : args[k]? = some (.literal v)) :
    Ensures (fun q => Adjusted p n args k q ∧ q.graph.links = p.graph.links) (hold ⟨n, k⟩ v)
      (fun _ q => Adjusted p n args (k + 1) q ∧ q.graph.links = p.graph.links)
      fun _ _ => False := by
  refine Ensures.bind (coerce_reads ha hin hlen hfits hk fun q hq => hq.1) fun w => ?_
  refine Ensures.get fun q ⟨⟨hq, hlinks⟩, s, hs, hw⟩ => ?_
  subst hw
  split
  · -- the constant is there: it is an operand already, or the old one and equal
    rename_i hsame
    refine Ensures.pure fun q' hq' => ?_
    subst hq'
    refine ⟨hq.keep hk fun s' hs' => ?_, hlinks⟩
    rw [hs] at hs'
    cases hs'
    obtain ⟨b, hb, -, -, hrest⟩ := hq.node a ha
    obtain ⟨b', hb', hsock⟩ := inputSocket_eq_ok.1 hs
    rw [hb] at hb'
    cases hb'
    rcases hrest k s hsock with ⟨v', hv', hd⟩ | hold
    · rw [hk] at hv'
      cases hv'
      exact hd
    · have hbeq : (s.default == v.convert s.type) = true := by
        simpa [default?, hs, Except.toOption] using hsame
      exact hlaw k v s hk hold hbeq
  · refine Ensures.bind (Q := fun _ q => Adjusted p n args (k + 1) q ∧
      q.graph.links = p.graph.links) (Ensures.edit_succeeds fun q' hq' => ?_)
      fun _ => Ensures.pure fun _ h => h
    subst hq'
    exact ⟨_, setDefault_convert v hs, hq.put hk hs, hlinks⟩

omit k in
/-- **Refreshing puts every constant in its place**, if equal constants are the same. -/
theorem refresh_adjusts
    (hlaw : ∀ (j : Nat) v s, args[j]? = some (.literal v) → a.inputs[j]? = some s →
      (s.default == v.convert s.type) = true → s.default = v.convert s.type) :
    Ensures (fun q => Adjusted p n args 0 q ∧ q.graph.links = p.graph.links)
      (refresh n 0 args)
      (fun _ q => Adjusted p n args args.length q ∧ q.graph.links = p.graph.links)
      fun _ _ => False :=
  Ensures.refresh (P := fun k _ q => Adjusted p n args k q ∧ q.graph.links = p.graph.links)
    (fun _ _ hk _ _ h => ⟨h.1.skip hk, h.2⟩)
    fun _ _ hk _ => hold_adjusts ha hin hlen hfits hlaw hk

omit ha hin hlen hfits in
/-- A place or an owner is no constant. -/
theorem Adjusted.updateNode (h : Adjusted p n args k q) {f : Node → Node}
    (hf : ∀ node, (f node).Revised node) (hin : ∀ node, (f node).inputs = node.inputs) :
    Adjusted p n args k { q with graph := q.graph.updateNode n f } := by
  have hkeeps : KeepsId f := fun node => (hf node).id
  refine
    { h with
      wf := h.wf.updateNode_of_inputs (fun node => (hf node).toAlike) hin
      node := fun a ha => ?_
      others := fun m hm => ?_ }
  · obtain ⟨b, hb, hrev, hconst, hrest⟩ := h.node a ha
    refine ⟨f b, by simp [node?_updateNode hkeeps, hb], (hf b).trans hrev, ?_, ?_⟩
    · rw [hin]
      exact hconst
    · rw [hin]
      exact hrest
  · simp [node?_updateNode hkeeps, hm, h.others m hm]

/-- A new node whose inputs below `k` are connected. Nothing is linked from it yet. -/
structure Shaped (p : Pass) (n : NodeId) (args : List Operand) (k : Nat) (q : Pass) : Prop
    extends Adjusted p n args k q where
  wired : ∀ (j : Nat) x, j < k → args[j]? = some x →
    (q.graph.incoming? ⟨n, j⟩).map Link.source = x.socket?
  unwired : ∀ j : Nat, k ≤ j → q.graph.incoming? ⟨n, j⟩ = none
  leaf : ∀ l ∈ q.graph.links, l.source.node ≠ n
  links : ∀ i : InputRef, i.node ≠ n → q.graph.incoming? i = p.graph.incoming? i

omit ha hin hlen hfits in
/-- One operand is linked. -/
theorem Shaped.relinked (h : Shaped p n args k q) {o : OutputRef}
    (hk : args[k]? = some (.socket o)) (hne : o.node ≠ n)
    (hwf : (q.graph.relinked o ⟨n, k⟩).WellFormed) :
    Shaped p n args (k + 1) { q with graph := q.graph.relinked o ⟨n, k⟩ } := by
  have hincoming := h.wf.incoming?_relinked hwf
  refine { (h.toAdjusted.skip hk).relinked hwf with
    wired := ?_, unwired := ?_, leaf := ?_, links := ?_ }
  · intro j x hj hx
    rw [hincoming]
    rcases Nat.lt_succ_iff_lt_or_eq.1 hj with hj | rfl
    · rw [if_neg (by simp only [InputRef.mk.injEq, true_and]; omega)]
      exact h.wired j x hj hx
    · rw [hk] at hx
      cases hx
      rw [if_pos rfl]
      rfl
  · intro j hj
    rw [hincoming, if_neg (by simp only [InputRef.mk.injEq, true_and]; omega)]
    exact h.unwired j (by omega)
  · intro l hl
    rcases mem_links_relinked.1 hl with ⟨hl, -⟩ | rfl
    · exact h.leaf l hl
    · exact hne
  · intro i hi
    rw [hincoming, if_neg (by rintro rfl; exact hi rfl)]
    exact h.links i hi

omit ha hin hlen hfits in
/-- One operand is a constant. -/
theorem Shaped.put (h : Shaped p n args k q) {v : Value} (hk : args[k]? = some (.literal v))
    {s : Socket} (hs : q.graph.inputSocket ⟨n, k⟩ = .ok s) :
    Shaped p n args (k + 1)
      { q with graph := q.graph.updateNode n (putDefault k (v.convert s.type)) } := by
  refine { h.toAdjusted.put hk hs with
    wired := ?_, unwired := fun j hj => h.unwired j (by omega), leaf := h.leaf, links := h.links }
  intro j x hj hx
  rcases Nat.lt_succ_iff_lt_or_eq.1 hj with hj | rfl
  · exact h.wired j x hj hx
  · rw [hk] at hx
    cases hx
    rw [incoming?_updateNode, h.unwired j (Nat.le_refl j)]
    rfl

/-- Nothing is in the way of an operand that is linked: nothing leads from the node yet. -/
theorem Shaped.link_ok (h : Shaped p n args k q) {o : OutputRef}
    (hk : args[k]? = some (.socket o)) (hne : o.node ≠ n)
    (ho : ∃ s, p.graph.outputSocket o = .ok s) :
    q.graph.link o ⟨n, k⟩ = .ok (q.graph.nextLink, q.graph.relinked o ⟨n, k⟩) := by
  obtain ⟨s, hs, -⟩ := h.exists_socket ha hin hlen hfits hk
  rw [← outputSocket_congr (h.others _ hne)] at ho
  exact h.wf.link_eq_ok.2 ⟨ho, ⟨s, hs⟩, feeds_eq_false h.leaf hne, rfl, rfl⟩

omit k in
/-- **Connecting puts every operand in its place.** -/
theorem connect_shapes
    (hsockets : ∀ o, .socket o ∈ args → o.node ≠ n ∧ ∃ s, p.graph.outputSocket o = .ok s) :
    Ensures (Shaped p n args 0) (connect n 0 args)
      (fun _ => Shaped p n args args.length) fun _ _ => False := by
  refine Ensures.connect (fun k o hk => ?_) (fun _ _ h => { h with }) fun k v hk => ⟨_,
    coerce_reads ha hin hlen hfits hk fun _ h => h.toAdjusted, fun w => ?_⟩
  · obtain ⟨hne, ho⟩ := hsockets o (List.mem_of_getElem? hk)
    refine Ensures.edit (fun q id g' hq hr => ?_) fun q e hq hr => ?_
    · obtain ⟨hsource, htarget, hfeeds, -, rfl⟩ := hq.wf.link_eq_ok.1 hr
      exact hq.relinked hk hne (hq.wf.relinked hsource htarget hfeeds)
    · cases (hq.link_ok ha hin hlen hfits hk hne ho).symm.trans hr
  · refine Ensures.edit_succeeds fun q ⟨hq, s, hs, hw⟩ => ?_
    subst hw
    exact ⟨_, setDefault_convert v hs, hq.put hk hs⟩

end

/-- **The node of a tag is in its place.** -/
structure Placed (p : Pass) (t : Tag) (kind : NodeKind) (args : List Operand) (n : NodeId)
    (q : Pass) : Prop where
  wf : q.graph.WellFormed
  face : n ≠ entry ∧ n ≠ exit
  node : ∃ node, q.graph.node? n = some node ∧ node.tag = some t ∧ node.name = t.text ∧
    node.kind = kind ∧
    (∀ (j : Nat) v s, args[j]? = some (.literal v) → node.inputs[j]? = some s →
      s.default = v.convert s.type) ∧
    ∀ (j : Nat) s, node.inputs[j]? = some s →
      (∃ v, args[j]? = some (.literal v) ∧ s.default = v.convert s.type) ∨
      s.default = .zero s.type ∨ ∃ old, p.graph.node? n = some old ∧ s ∈ old.inputs
  wired : q.graph.Wired n args
  old : ∀ node, p.graph.node? n = some node → node.tag = some t
  others : ∀ m, m ≠ n → q.graph.node? m = p.graph.node? m
  links : ∀ i : InputRef, i.node ≠ n → q.graph.incoming? i = p.graph.incoming? i
  touched : ∀ m, m ∈ q.touched ↔ m = n ∨ m ∈ p.touched
  derived : q.derived = p.derived
  removed : q.report.removed = p.report.removed
  cached : ∀ t' m, (t', m) ∈ q.cache → (t' = t ∧ m = n) ∨ (t', m) ∈ p.cache

theorem mem_touch {ns : List NodeId} {m : NodeId} :
    m ∈ (if ns.contains n then ns else n :: ns) ↔ m = n ∨ m ∈ ns := by
  by_cases hmem : n ∈ ns
  · rw [if_pos (by simpa using hmem)]
    exact ⟨Or.inr, fun h => h.elim (fun h => h ▸ hmem) id⟩
  · rw [if_neg (by simpa using hmem), List.mem_cons]

/-! ## A new node -/

/-- A node has just been added. -/
structure Begun (p : Pass) (kind : NodeKind) (n : NodeId) (q : Pass) : Prop where
  wf : q.graph.WellFormed
  id : n = p.graph.nextNode
  node : ∃ a, q.graph.node? n = some a ∧ a.kind = kind ∧ a.inputs = freshSockets kind.inputs
  others : ∀ m, m ≠ n → q.graph.node? m = p.graph.node? m
  links : q.graph.links = p.graph.links
  derived : q.derived = p.derived
  cache : q.cache = p.cache
  removed : q.report.removed = p.report.removed

theorem Begun.insertNode (hp : p.graph.WellFormed) (hk : kind.isInterface = false) (place : Place)
    {report : Report} (hr : report.removed = p.report.removed) :
    Begun p kind p.graph.nextNode
      { p with graph := (p.graph.insertNode kind place).2, report } where
  wf := hp.insertNode hk place
  id := rfl
  node := ⟨p.graph.madeNode kind place, by rw [node?_insertNode hp, if_pos rfl], rfl, rfl⟩
  others m hm := by
    change (p.graph.insertNode kind place).2.node? m = _
    rw [node?_insertNode hp, if_neg hm]
  links := rfl
  derived := rfl
  cache := rfl
  removed := hr

/-- A name, a place or an owner for the new node. -/
theorem Begun.modifyNode (h : Begun p kind n q) {f : Node → Node}
    (hf : ∀ node, (f node).Alike node) (hin : ∀ node, (f node).inputs = node.inputs) :
    q.graph.modifyNode n f = .ok (q.graph.updateNode n f) ∧
      Begun p kind n { q with graph := q.graph.updateNode n f } := by
  have hkeeps : KeepsId f := fun node => (hf node).id
  obtain ⟨a, ha, hkind, hinputs⟩ := h.node
  refine ⟨modifyNode_eq_ok.2 ⟨hasNode_iff.2 ⟨a, ha⟩, rfl⟩,
    { h with wf := h.wf.updateNode_of_inputs hf hin, node := ?_, others := ?_ }⟩
  · refine ⟨f a, by simp [node?_updateNode hkeeps, ha], ?_, ?_⟩
    · rw [(hf a).kind, hkind]
    · rw [hin, hinputs]
  · intro m hm
    simp [node?_updateNode hkeeps, hm, h.others m hm]

/-- A new node is ready to be connected. -/
theorem Begun.shaped (hp : p.graph.WellFormed) (h : Begun p kind n q) : Shaped q n args 0 q where
  toAdjusted := .refl h.wf
  wired j x hj := absurd hj (Nat.not_lt_zero _)
  unwired j _ := by
    rw [incoming?_eq_none, h.links]
    intro l hl heq
    have hlt := hp.lt_nextNode (hp.hasNode_target hl)
    rw [heq, h.id] at hlt
    exact Nat.lt_irrefl _ hlt
  leaf l hl heq := by
    rw [h.links] at hl
    have hlt := hp.lt_nextNode (hp.hasNode_source hl)
    rw [heq, h.id] at hlt
    exact Nat.lt_irrefl _ hlt
  links _ _ := rfl

/-- A node has been added and tagged, and is in use. -/
structure Named (p : Pass) (t : Tag) (kind : NodeKind) (n : NodeId) (q : Pass) : Prop
    extends Begun p kind n q where
  tagged : ∃ a, q.graph.node? n = some a ∧ a.tag = some t ∧ a.name = t.text
  touched : q.touched = if p.touched.contains n then p.touched else n :: p.touched

/-- **A node is made up to its tag**, and what follows goes on from there. -/
theorem create_names (hp : p.graph.WellFormed) {rest : NodeId → PassM GraphError NodeId}
    {Q : NodeId → Pass → Prop} {E : GraphError → Pass → Prop}
    (hface : kind.isInterface = true → ∀ e, E e p)
    (hrest : ∀ n q, Named p t kind n q → Ensures (· = q) (rest n) Q E) :
    Ensures (· = p) (do
      let n ← edit (GraphM.createNode kind)
      record fun r => { r with created := r.created ++ [n] }
      touch n
      let place := (← MonadState.get).nextPlace
      edit (GraphM.setPlace n place)
      edit (GraphM.setTag n t)
      rest n) Q E := by
  refine Ensures.bind (Q := fun n q => q.touched = p.touched ∧ Begun p kind n q)
    (Ensures.edit (fun q n g' hq hr => ?_) fun q e hq hr => ?_) fun n => ?_
  · subst hq
    obtain ⟨hk, rfl, rfl⟩ := createNode_eq_ok.1 hr
    exact ⟨rfl, Begun.insertNode hp hk _ rfl⟩
  · subst hq
    cases hk : kind.isInterface with
    | true => exact hface hk e
    | false =>
      change q.graph.createNode kind = _ at hr
      rw [createNode_eq, hk] at hr
      cases hr
  refine Ensures.bind (Q := fun _ q => q.touched = p.touched ∧ Begun p kind n q)
    (Ensures.record fun q hq => ⟨hq.1, { hq.2 with }⟩) fun _ => ?_
  let Touched (q : Pass) : Prop :=
    q.touched = if p.touched.contains n then p.touched else n :: p.touched
  refine Ensures.bind (Q := fun _ q => Touched q ∧ Begun p kind n q)
    (Ensures.modify fun q hq => ⟨by change (if _ then _ else _) = _; rw [hq.1], { hq.2 with }⟩)
    fun _ => ?_
  refine Ensures.get fun q hq => ?_
  refine Ensures.bind (Q := fun _ q => Touched q ∧ Begun p kind n q)
    (Ensures.edit_succeeds fun q' hq' => ?_) fun _ => ?_
  · subst hq'
    obtain ⟨hok, hbegun⟩ := hq.2.modifyNode (f := fun node => { node with place := q'.nextPlace })
      (fun _ => ⟨rfl, rfl, rfl, rfl⟩) fun _ => rfl
    exact ⟨_, hok, hq.1, hbegun⟩
  refine Ensures.bind (Q := fun _ => Named p t kind n) (Ensures.edit_succeeds fun q' hq' => ?_)
    fun _ q hq => hrest n q hq q rfl
  let named : Node → Node := fun node =>
    { node with tag := some t, name := t.text, label := t.text }
  have hkeeps : KeepsId named := fun _ => rfl
  obtain ⟨hok, hbegun⟩ := hq'.2.modifyNode (f := named) (fun _ => ⟨rfl, rfl, rfl, rfl⟩)
    fun _ => rfl
  obtain ⟨a, ha, -⟩ := hq'.2.node
  exact ⟨_, hok, { hbegun with
    tagged := ⟨named a, by simp [node?_updateNode hkeeps, ha], rfl, rfl⟩, touched := hq'.1 }⟩

/-- **A node is made and put in its place.** -/
theorem create_places (hp : p.graph.WellFormed) (hk : kind.isInterface = false)
    (hlen : args.length = kind.inputs.length) (hfits : Fits kind args)
    (hsockets : ∀ o, .socket o ∈ args → ∃ s, p.graph.outputSocket o = .ok s) :
    Ensures (· = p) (create t kind args) (Placed p t kind args) fun _ _ => False := by
  have hne : ∀ o, .socket o ∈ args → o.node ≠ p.graph.nextNode ∧
      ∃ s, p.graph.outputSocket o = .ok s := by
    intro o ho
    obtain ⟨s, hs⟩ := hsockets o ho
    obtain ⟨node, hnode, -⟩ := outputSocket_eq_ok.1 hs
    exact ⟨Nat.ne_of_lt (hp.lt_nextNode (hasNode_iff.2 ⟨node, hnode⟩)), s, hs⟩
  refine create_names hp (fun hface => by rw [hk] at hface; cases hface) fun n made hmade => ?_
  -- the tagged node is the one to connect
  obtain ⟨hbegun, ⟨a, ha, htag, hname⟩, htouched⟩ := hmade
  obtain ⟨a', ha', hkind, hinputs⟩ := hbegun.node
  rw [ha] at ha'
  cases ha'
  have hin : a.inputs.map Socket.spec = kind.inputs := by
    rw [hinputs, map_spec_freshSockets]
  have hsources : ∀ o, .socket o ∈ args → o.node ≠ n ∧ ∃ s, made.graph.outputSocket o = .ok s := by
    intro o ho
    obtain ⟨hne', hs⟩ := hne o ho
    rw [← hbegun.id] at hne'
    rw [outputSocket_congr (hbegun.others _ hne')]
    exact ⟨hne', hs⟩
  refine Ensures.bind ((connect_shapes ha hin hlen hfits hsources).weaken
    (by rintro _ rfl; exact hbegun.shaped hp) (fun _ _ h => h) fun _ _ h => h) fun _ => ?_
  refine Ensures.bind (Q := fun _ => Shaped made n args args.length)
    (Ensures.edit_succeeds fun q hq => ?_) fun _ => ?_
  · obtain ⟨b, hb, -⟩ := hq.node a ha
    refine ⟨_, modifyNode_eq_ok.2 ⟨hasNode_iff.2 ⟨b, hb⟩, rfl⟩, ?_⟩
    exact { hq.toAdjusted.updateNode (f := fun node => { node with automated := true })
      (fun _ => ⟨⟨rfl, rfl, rfl, rfl⟩, rfl, rfl⟩) (fun _ => rfl) with
      wired := hq.wired, unwired := hq.unwired, leaf := hq.leaf, links := hq.links }
  refine Ensures.bind (Q := fun _ => Shaped made n args args.length)
    (Ensures.edit_succeeds fun q hq => ⟨_, rfl, ?_⟩) fun _ => ?_
  · exact { hq with wf := hq.wf.setActive _ }
  refine Ensures.bind (Q := fun _ => Placed p t kind args n) (Ensures.modify fun q hq => ?_)
    fun _ => Ensures.pure fun _ h => h
  obtain ⟨b, hb, hrev, hconst, hrest⟩ := hq.node a ha
  have hnone : p.graph.node? n = none := by
    rw [hbegun.id]
    exact hp.node?_nextNode
  refine
    { wf := hq.wf
      face := hp.ne_faces_of_le (Nat.le_of_eq hbegun.id.symm)
      node := ⟨b, hb, hrev.tag.trans htag, hrev.name.trans hname, hrev.kind.trans hkind,
        fun j v s hv => hconst j v s (List.getElem?_eq_some_iff.1 hv).1 hv, fun j s hj => ?_⟩
      wired := fun j x hx => hq.wired j x (List.getElem?_eq_some_iff.1 hx).1 hx
      old := fun node hnode => by rw [hnone] at hnode; cases hnode
      others := fun m hm => (hq.others m hm).trans (hbegun.others m hm)
      links := fun i hi => (hq.links i hi).trans (by rw [incoming?, hbegun.links]; rfl)
      touched := fun m => by
        change m ∈ q.touched ↔ _
        rw [hq.touched, htouched]
        exact mem_touch
      derived := hq.derived.trans hbegun.derived
      removed := hq.removed.trans hbegun.removed
      cached := fun t' m hm => ?_ }
  · rcases hrest j s hj with ⟨v, hv, hd⟩ | hold
    · exact Or.inl ⟨v, hv, hd⟩
    · refine Or.inr (Or.inl ?_)
      have hmem := List.mem_of_getElem? hold
      rw [hinputs] at hmem
      obtain ⟨spec, -, rfl⟩ := List.mem_map.1 hmem
      rfl
  · rcases List.mem_cons.1 hm with hm | hm
    · cases hm
      exact Or.inl ⟨rfl, rfl⟩
    · rw [hq.cache, hbegun.cache] at hm
      exact Or.inr hm

/-! ## A node that is used again -/

/-- **A node is used again and is in its place.** -/
theorem reuse_places (hp : p.graph.WellFormed) {a : Node} (ha : p.graph.node? n = some a)
    (htag : a.tag = some t) (hname : a.name = t.text) (hkind : a.kind = kind)
    (hface : n ≠ entry ∧ n ≠ exit) (hwired : p.graph.Wired n args)
    (hlen : args.length = kind.inputs.length) (hfits : Fits kind args)
    (hlaw : ∀ (j : Nat) v s, args[j]? = some (.literal v) → a.inputs[j]? = some s →
      (s.default == v.convert s.type) = true → s.default = v.convert s.type) :
    Ensures (· = p) (reuse n args) (fun m q => m = n ∧ Placed p t kind args n q)
      fun _ _ => False := by
  obtain ⟨hmem, hid⟩ := mem_of_node? ha
  have hin : a.inputs.map Socket.spec = kind.inputs := by
    rw [(hp.fits a hmem).inputs (hid ▸ hface.2), hkind]
  refine Ensures.bind ((refresh_adjusts ha hin hlen hfits hlaw).weaken
    (fun q hq => by subst hq; exact ⟨.refl hp, rfl⟩) (fun _ _ h => h) fun _ _ h => h)
    fun changed => ?_
  refine Ensures.bind (Q := fun _ q => Adjusted p n args args.length q ∧
    q.graph.links = p.graph.links) (Ensures.edit_succeeds fun q hq => ?_) fun _ => ?_
  · obtain ⟨b, hb, -⟩ := hq.1.node a ha
    refine ⟨_, modifyNode_eq_ok.2 ⟨hasNode_iff.2 ⟨b, hb⟩, rfl⟩, ?_, hq.2⟩
    exact hq.1.updateNode (f := fun node => { node with automated := true })
      (fun _ => ⟨⟨rfl, rfl, rfl, rfl⟩, rfl, rfl⟩) fun _ => rfl
  refine Ensures.bind (Q := fun _ => Placed p t kind args n) (Ensures.modify fun q hq => ?_)
    fun _ => ?_
  · obtain ⟨hq, hlinks⟩ := hq
    obtain ⟨b, hb, hrev, hconst, hrest⟩ := hq.node a ha
    have hincoming : ∀ i, q.graph.incoming? i = p.graph.incoming? i := by
      intro i
      rw [incoming?, hlinks]
      rfl
    refine
      { wf := hq.wf
        face := hface
        node := ⟨b, hb, hrev.tag.trans htag, hrev.name.trans hname, hrev.kind.trans hkind,
          fun j v s hv => hconst j v s (List.getElem?_eq_some_iff.1 hv).1 hv, fun j s hj => ?_⟩
        wired := fun j x hx => by
          change (q.graph.incoming? ⟨n, j⟩).map Link.source = _
          rw [hincoming]
          exact hwired j x hx
        old := fun node hnode => by rw [ha] at hnode; cases hnode; exact htag
        others := hq.others
        links := fun i _ => hincoming i
        touched := fun m => ?_
        derived := hq.derived
        removed := hq.removed
        cached := fun t' m hm => Or.inr (hq.cache ▸ hm) }
    · rcases hrest j s hj with ⟨v, hv, hd⟩ | hold
      · exact Or.inl ⟨v, hv, hd⟩
      · exact Or.inr (Or.inr ⟨a, ha, List.mem_of_getElem? hold⟩)
    · change m ∈ (if q.touched.contains n then q.touched else n :: q.touched) ↔ _
      rw [hq.touched]
      exact mem_touch
  · refine Ensures.bind (Q := fun _ => Placed p t kind args n) (Ensures.record fun q hq => ?_)
      fun _ => Ensures.pure fun _ h => ⟨rfl, h⟩
    cases changed with
    | true => exact { hq with }
    | false => exact { hq with }

theorem find?_eq_some (hcached : ∀ t n, (t, n) ∈ p.cache →
      ∃ node, p.graph.node? n = some node ∧ node.tag = some t) (hp : p.graph.WellFormed)
    (h : p.find? t = some n) : ∃ node, p.graph.node? n = some node ∧ node.tag = some t := by
  rcases cached_or_tagged h with ⟨hmem, -⟩ | htagged
  · exact hcached t n hmem
  · exact hp.node?_of_byTag? htagged

/-- A node is asked for: it is made where no node has the tag, and used again where one has it
and the kind as well. -/
theorem findOrCreate_of_find (hp : p.graph.WellFormed)
    (hcached : ∀ t n, (t, n) ∈ p.cache → ∃ node, p.graph.node? n = some node ∧ node.tag = some t)
    (hlen : args.length = kind.inputs.length) {Q : NodeId → Pass → Prop}
    {E : GraphError → Pass → Prop}
    (hnew : (∀ m a, p.graph.node? m = some a → a.tag ≠ some t) →
      Ensures (· = p) (create t kind args) Q E)
    (hold : ∀ n a, p.graph.node? n = some a → a.tag = some t → a.kind = kind ∧
      Ensures (· = { p with cache := (t, n) :: p.cache }) (reuse n args) Q E) :
    Ensures (· = p) (findOrCreate t kind args) Q E := by
  have hfound : ∀ n, p.find? t = some n → p.graph.kind? n = some kind ∧
      Ensures (· = { p with cache := (t, n) :: p.cache }) (reuse n args) Q E := by
    intro n hfind
    obtain ⟨a, ha, htag⟩ := find?_eq_some hcached hp hfind
    obtain ⟨hkind, hreuse⟩ := hold n a ha htag
    exact ⟨by rw [kind?, ha, Option.map_some, hkind], hreuse⟩
  exact Ensures.findOrCreate hlen
    (fun hfind => hnew fun m a ha => not_tagged_of_find?_eq_none hfind a (mem_of_node? ha).1)
    (fun n hfind _ => (hfound n hfind).2)
    (fun n _ hfind hkind _ => absurd (hfound n hfind).1 hkind)
    fun n _ hfind hkind _ => absurd (hfound n hfind).1 hkind

/-- What a pass knew before it found a node for a tag. -/
theorem mem_cache_of_found {q : Pass} {t' : Tag} {m : NodeId}
    (h : (t' = t ∧ m = n) ∨ (t', m) ∈ (t, n) :: q.cache) :
    (t' = t ∧ m = n) ∨ (t', m) ∈ q.cache := by
  rcases h with h | h
  · exact Or.inl h
  · rcases List.mem_cons.1 h with h | h
    · cases h
      exact Or.inl ⟨rfl, rfl⟩
    · exact Or.inr h

/-- **`findOrCreate` puts the node of a tag in its place** when a node that has the tag
already has the kind and the links that are asked for, and constants that are the same
when they are equal. -/
theorem findOrCreate_places (hp : p.graph.WellFormed)
    (hcached : ∀ t n, (t, n) ∈ p.cache → ∃ node, p.graph.node? n = some node ∧ node.tag = some t)
    (hk : kind.isInterface = false) (hlen : args.length = kind.inputs.length)
    (hfits : Fits kind args)
    (hsockets : ∀ o, .socket o ∈ args → ∃ s, p.graph.outputSocket o = .ok s)
    (hfound : ∀ n a, p.graph.node? n = some a → a.tag = some t →
      (n ≠ entry ∧ n ≠ exit) ∧ a.kind = kind ∧ a.name = t.text ∧ p.graph.Wired n args ∧
      ∀ (j : Nat) v s, args[j]? = some (.literal v) → a.inputs[j]? = some s →
        (s.default == v.convert s.type) = true → s.default = v.convert s.type) :
    Ensures (· = p) (findOrCreate t kind args) (fun n q => Placed p t kind args n q ∧
      ((∃ a, p.graph.node? n = some a ∧ a.tag = some t) ∨
        ∀ m a, p.graph.node? m = some a → a.tag ≠ some t)) fun _ _ => False := by
  refine findOrCreate_of_find hp hcached hlen (fun hnone => ?_) fun n a ha htag => ?_
  · exact (create_places hp hk hlen hfits hsockets).weaken (fun _ h => h)
      (fun n p' h => ⟨h, Or.inr hnone⟩) fun _ _ h => h
  · obtain ⟨hface, hkind, hname, hwired, hlaw⟩ := hfound n a ha htag
    refine ⟨hkind, (reuse_places (p := { p with cache := (t, n) :: p.cache }) hp ha htag hname
      hkind hface hwired hlen hfits hlaw).weaken (fun _ h => h) (fun m p' h => ?_) fun _ _ h => h⟩
    obtain ⟨rfl, hplaced⟩ := h
    exact ⟨{ hplaced with cached := fun t' k hmem => mem_cache_of_found (hplaced.cached t' k hmem) },
      Or.inl ⟨a, ha, htag⟩⟩

end Pass

end NodeFormula
