import NodeFormula.Proofs.Build.Framed
import NodeFormula.Proofs.Build.Simulation
import NodeFormula.Proofs.Pass.Refound
/-!
# NodeFormula — a pass and its repetition

A second pass over the graph that a first one left runs in step with it. After each operation
it has derived the same tags and touched the same nodes, and has changed nothing: it is an
`Echo` of the first pass. For that the graph has to show the nodes that the first pass builds
with as they were then, and it does, since such nodes change no more (`Settled`). `Repeats`
says all of this of one operation, and its rules follow the operation's parts.
-/

namespace NodeFormula

open Graph

/-- A graph shows what a pass builds with: the entry, and the nodes it has touched. -/
def Graph.Shows (g : Graph) (p : Pass) : Prop := ∀ n, p.InUse n → g.node? n = p.graph.node? n

theorem Graph.Shows.sameFace {g : Graph} {p : Pass} (h : g.Shows p) {n : NodeId} (hn : p.InUse n) :
    p.graph.SameFace g n :=
  sameFace_of_node? (h n hn)

theorem Graph.Shows.inputSockets {g : Graph} {p : Pass} (h : g.Shows p) :
    g.inputSockets = p.graph.inputSockets := by
  rw [Graph.inputSockets, Graph.inputSockets, h entry (Or.inl rfl)]

namespace Pass

variable {g : Graph} {p p' q : Pass} {t : Tag}

/-- A tag of a node that the pass has touched. -/
def Uses (p : Pass) (t : Tag) : Prop :=
  ∃ n ∈ p.touched, ∃ a, p.graph.node? n = some a ∧ a.tag = some t

/-- **What holds of a pass that is to be repeated.** Its cache knows the tags it has used. -/
structure Steady (p : Pass) : Prop where
  ready : p.graph.Ready
  unique : p.graph.TagsUnique
  touched : ∀ n ∈ p.touched, ∃ a t, p.graph.node? n = some a ∧ a.tag = some t
  cached : ∀ x ∈ p.cache, p.Uses x.1

/-- The nodes in use have not changed since. -/
structure Settled (p p' : Pass) : Prop where
  touched : ∀ n ∈ p.touched, n ∈ p'.touched
  shows : p'.graph.Shows p

namespace Settled

theorem refl (p : Pass) : Settled p p := ⟨fun _ h => h, fun _ _ => rfl⟩

theorem inUse (h : Settled p p') {n : NodeId} (hn : p.InUse n) : p'.InUse n :=
  hn.imp_right (h.touched n)

/-- What shows the later pass shows the earlier one. -/
theorem shows_of (h : Settled p p') (hg : g.Shows p') : g.Shows p :=
  fun n hn => (hg n (h.inUse hn)).trans (h.shows n hn)

theorem trans (h : Settled p p') (h' : Settled p' q) : Settled p q :=
  ⟨fun n hn => h'.touched n (h.touched n hn), h.shows_of h'.shows⟩

theorem uses (h : Settled p p') (ht : p.Uses t) : p'.Uses t := by
  obtain ⟨n, hn, a, ha, htag⟩ := ht
  exact ⟨n, h.touched n hn, a, (h.shows n (Or.inr hn)).trans ha, htag⟩

end Settled

/-- **A pass over `g` that stands where `p` stood**, and has changed nothing. -/
structure Echo (g : Graph) (p q : Pass) : Prop where
  graph : q.graph = g
  derived : q.derived = p.derived
  touched : q.touched = p.touched
  cached : ∀ x ∈ q.cache, p.Uses x.1
  noop : q.report.isNoop = true

theorem Steady.start (hg : g.Ready) (hunique : g.TagsUnique) (spacing : Float32) :
    Steady (Pass.start g spacing) where
  ready := hg
  unique := hunique
  touched _ hn := absurd hn List.not_mem_nil
  cached _ hx := absurd hx List.not_mem_nil

theorem Echo.start (g g' : Graph) (spacing : Float32) :
    Echo g' (Pass.start g spacing) (Pass.start g' spacing) where
  graph := rfl
  derived := rfl
  touched := rfl
  cached := List.forall_mem_nil _
  noop := rfl

variable {ε ε' α β : Type} {x : PassM ε α} {Q Q' : α → Pass → Prop} {R : β → Pass → Prop}

/-- **An operation repeats.** Where it succeeds from `p`, and `g` shows the pass that it ends
with, it comes to the same from every echo of `p`, and ends in an echo. -/
def Repeats (g : Graph) (p : Pass) (x : PassM ε α) (Q : α → Pass → Prop) : Prop :=
  Ensures (· = p) x (fun a p' => Steady p' ∧ Settled p p' ∧ Q a p' ∧
    (g.Shows p' → Ensures (Echo g p) x (fun b q => b = a ∧ Echo g p' q) fun _ _ => False))
    fun _ _ => True

namespace Repeats

theorem weaken (h : Repeats g p x Q) (hQ : ∀ a p', Settled p p' → Q a p' → Q' a p') :
    Repeats g p x Q' := by
  refine Ensures.weaken h (fun _ h => h) (fun a p' h => ?_) fun _ _ h => h
  obtain ⟨hsteady, hsettled, hq, hagain⟩ := h
  exact ⟨hsteady, hsettled, hQ a p' hsettled hq, hagain⟩

theorem pure {a : α} (hp : Steady p) (h : Q a p) : Repeats g p (Pure.pure a : PassM ε α) Q := by
  refine Ensures.pure fun p' hp' => ?_
  subst hp'
  exact ⟨hp, .refl p', h, fun _ => Ensures.pure fun q hq => ⟨rfl, hq⟩⟩

theorem throw (e : ε) : Repeats g p (throw e : PassM ε α) Q := Ensures.throw fun _ _ => trivial

/-- One operation after another. -/
theorem bind {f : α → PassM ε β} (hx : Repeats g p x Q)
    (hf : ∀ a p', Steady p' → Settled p p' → Q a p' → Repeats g p' (f a) R) :
    Repeats g p (x >>= f) R := by
  refine Ensures.bind hx fun a p' h => ?_
  obtain ⟨hsteady, hsettled, hq, hagain⟩ := h
  refine Ensures.weaken (hf a p' hsteady hsettled hq) (fun _ h => h) (fun b p'' h => ?_)
    (fun _ _ h => h) p' rfl
  obtain ⟨hsteady', hsettled', hr, hagain'⟩ := h
  refine ⟨hsteady', hsettled.trans hsettled', hr, fun hshows => ?_⟩
  refine Ensures.bind (hagain (hsettled'.shows_of hshows)) fun a' => ?_
  rintro q ⟨rfl, hecho⟩
  exact hagain' hshows q hecho

/-- An operation that starts with a look at the pass, and sees the same in an echo. -/
theorem get {f : Pass → PassM ε α} (hsame : g.Shows p → ∀ q, Echo g p q → f q = f p)
    (h : Repeats g p (f p) Q) : Repeats g p (MonadState.get >>= f) Q := by
  refine Ensures.get fun p' hp' => ?_
  subst hp'
  refine Ensures.weaken h (fun _ h => h) (fun a p'' h => ?_) fun _ _ h => h
  obtain ⟨hsteady, hsettled, hq, hagain⟩ := h
  refine ⟨hsteady, hsettled, hq, fun hshows => Ensures.get fun q hecho => ?_⟩
  rw [hsame (hsettled.shows_of hshows) q hecho]
  rintro q' rfl
  exact hagain hshows q' hecho

theorem read {f : Graph → Except ε α} (hp : Steady p) (hsame : g.Shows p → f g = f p.graph)
    (h : ∀ a, f p.graph = .ok a → Q a p) : Repeats g p (Pass.read f) Q := by
  refine Ensures.read (fun p' a hp' hr => ?_) fun _ _ _ _ => trivial
  subst hp'
  refine ⟨hp, .refl p', h a hr, fun hshows => Ensures.read (fun q b hq hr' => ?_) fun q e hq hr' => ?_⟩
  · rw [hq.graph, hsame hshows, hr] at hr'
    exact ⟨(Except.ok.inj hr').symm, hq⟩
  · rw [hq.graph, hsame hshows, hr] at hr'
    cases hr'

theorem adaptExcept (h : Repeats g p x Q) (f : ε → ε') : Repeats g p (x.adaptExcept f) Q := by
  refine Ensures.adaptExcept (Ensures.weaken h (fun _ h => h) (fun a p' h => ?_) fun _ _ h => h)
  obtain ⟨hsteady, hsettled, hq, hagain⟩ := h
  exact ⟨hsteady, hsettled, hq, fun hshows => Ensures.adaptExcept (hagain hshows)⟩

end Repeats

/-! ## Operands -/

end Pass

/-- An operand that can be given again: a socket in use, or a constant that equals itself. -/
def Operand.Apt (p : Pass) : Operand → Prop
  | .socket o => p.InUse o.node
  | .literal v => (v == v) = true

namespace Pass

variable {g : Graph} {p p' : Pass} {t : Tag} {args : List Operand}

theorem Settled.apt (h : Settled p p') {x : Operand} (hx : x.Apt p) : x.Apt p' := by
  cases x with
  | socket o => exact h.inUse hx
  | literal v => exact hx

section

variable (hargs : ∀ x ∈ args, x.Apt p)

include hargs

theorem identities_of_shows (hshows : g.Shows p) :
    args.map (·.identity g) = args.map (·.identity p.graph) :=
  map_identity_eq fun o ho => (hshows.sameFace (hargs (.socket o) ho)).socket

theorem isVector_of_shows (hshows : g.Shows p) :
    args.map (·.isVector g) = args.map (·.isVector p.graph) := by
  refine List.map_congr_left fun x hx => ?_
  cases x with
  | socket o => exact (hshows.sameFace (hargs _ hx)).socket.isVector
  | literal v => rfl

end

/-! ## The node of a tag -/

section

variable {n : NodeId} {kind : NodeKind} (hp : Steady p) (hfresh : ¬ p.Uses t)
  (h : Provided p t kind args n p')

include hp hfresh h

/-- A node in use does not carry the tag, so it has stayed. -/
theorem Provided.settled : Settled p p' := by
  refine ⟨fun m hm => h.mem_touched.2 (Or.inr hm), fun m hm => ?_⟩
  obtain ⟨b, hb, htag⟩ : ∃ b, p.graph.node? m = some b ∧ b.tag ≠ some t := by
    rcases hm with rfl | hm
    · obtain ⟨b, hb⟩ := hasNode_iff.1 hp.ready.wf.hasEntry
      refine ⟨b, hb, ?_⟩
      rw [hp.ready.untagged _ b (Or.inl rfl) hb]
      exact nofun
    · obtain ⟨b, -, hb, -⟩ := hp.touched m hm
      exact ⟨b, hb, fun htag => hfresh ⟨m, hm, b, hb, htag⟩⟩
  have hne : m ≠ n := by
    rintro rfl
    exact htag (h.old b hb)
  rw [hb]
  exact (h.others m b hne).2 ⟨hb, htag⟩

/-- One more tag is in use. -/
theorem Provided.uses_iff {t' : Tag} : p'.Uses t' ↔ p.Uses t' ∨ t' = t := by
  obtain ⟨a, ha, hserves⟩ := h.node
  constructor
  · rintro ⟨m, hm, b, hb, htag⟩
    by_cases hmn : m = n
    · subst hmn
      rw [ha] at hb
      cases hb
      exact Or.inr (Option.some.inj (htag.symm.trans hserves.tag))
    · exact Or.inl ⟨m, (h.mem_touched.1 hm).resolve_left hmn, b, ((h.others m b hmn).1 hb).1, htag⟩
  · rintro (hused | rfl)
    · exact (h.settled hp hfresh).uses hused
    · exact ⟨n, h.mem_touched.2 (Or.inl rfl), a, ha, hserves.tag⟩

theorem Provided.steady : Steady p' where
  ready := ⟨h.wf, fun _ _ => h.untagged hp.ready.untagged⟩
  unique := h.tagsUnique hp.unique
  touched m hm := by
    rcases h.mem_touched.1 hm with rfl | hm
    · obtain ⟨a, ha, hserves⟩ := h.node
      exact ⟨a, t, ha, hserves.tag⟩
    · obtain ⟨b, t', hb, htag⟩ := hp.touched m hm
      exact ⟨b, t', ((h.settled hp hfresh).shows m (Or.inr hm)).trans hb, htag⟩
  cached x hx := (h.uses_iff hp hfresh).2 ((h.cached x hx).symm.imp_left (hp.cached x))

end

/-- **The node of a tag that is not in use yet is found again.** -/
theorem repeats_findOrCreate (hg : g.WellFormed) (hunique : g.TagsUnique) (hp : Steady p)
    (hfresh : ¬ p.Uses t) (hargs : ∀ x ∈ args, x.Apt p) (kind : NodeKind) :
    Repeats g p (findOrCreate t kind args) fun n p' =>
      n ∈ p'.touched ∧ p'.derived = p.derived ∧ ∀ t', p'.Uses t' → p.Uses t' ∨ t' = t := by
  have hself : ∀ v, .literal v ∈ args → (v == v) = true := fun v hv => hargs _ hv
  have hcache : ∀ {q : Pass}, (∀ x ∈ q.cache, p.Uses x.1) → ∀ x ∈ q.cache, x.1 ≠ t := by
    rintro q hq x hx rfl
    exact hfresh (hq x hx)
  refine (findOrCreate_provides hself hp.ready.wf hp.ready.untagged hp.unique
    (hcache hp.cached)).weaken (fun _ h => h) (fun n p' h => ?_) fun _ _ h => h
  obtain ⟨hlen, h⟩ := h
  have hmem : n ∈ p'.touched := h.mem_touched.2 (Or.inl rfl)
  refine ⟨h.steady hp hfresh, h.settled hp hfresh,
    ⟨hmem, h.derived, fun t' => (h.uses_iff hp hfresh).1⟩, fun hshows q hq => ?_⟩
  obtain ⟨a, ha, hserves⟩ := h.node
  have hgraph := hq.graph
  have hnode : q.graph.node? n = some a := by
    rw [hgraph, hshows n (Or.inr hmem), ha]
  refine (findOrCreate_again (hgraph ▸ hg) (hgraph ▸ hunique) (hcache hq.cached) hlen hnode
    hserves).weaken (fun _ h => h) (fun m q' hm => ?_) (fun _ _ h => h) q rfl
  obtain ⟨rfl, rfl⟩ := hm
  refine ⟨rfl, ⟨hgraph, hq.derived.trans h.derived.symm, ?_, fun x hx => ?_, hq.noop⟩⟩
  · rw [h.touched, hq.touched]
  · rw [h.uses_iff hp hfresh]
    rcases List.mem_cons.1 hx with rfl | hx
    · exact Or.inr rfl
    · exact Or.inl (hq.cached x hx)

end Pass

end NodeFormula
