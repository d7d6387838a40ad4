import NodeFormula.Pass
import NodeFormula.Proofs.Graph.Atomic
import NodeFormula.Proofs.Result
/-!
# NodeFormula — what an operation of a pass ensures

`Ensures P x Q E` is a triple with two ends: from a pass with `P`, the operation `x` ends
with a result and a pass that satisfy `Q`, or fails with an error and a pass that satisfy
`E`. A failed operation leaves a pass behind as well, and what holds of it is what taking
the pass back relies on. One rule for each way to put operations together follows.
-/

namespace NodeFormula

namespace Pass

variable {ε ε' α β : Type} {P P' : Pass → Prop} {Q Q' : α → Pass → Prop} {R : β → Pass → Prop}
  {E E' : ε → Pass → Prop} {x : PassM ε α}

/-- **What an operation ensures**, of its result and of its failure. -/
def Ensures (P : Pass → Prop) (x : PassM ε α) (Q : α → Pass → Prop) (E : ε → Pass → Prop) : Prop :=
  ∀ p, P p →
    match x p with
    | .ok a p' => Q a p'
    | .error e p' => E e p'

/-! ## Operations on the graph -/

section

variable {p : Pass} {a : α} {g : Graph}

theorem edit_of_outcome {m : GraphM α} (h : m.outcome p.graph = .ok (a, g)) :
    edit m p = .ok a { p with graph := g } := by
  rw [edit, GraphM.outcome_eq_ok.1 h]

theorem edit_of_after {m : GraphM Unit} (h : m.after p.graph = .ok g) :
    edit m p = .ok () { p with graph := g } := by
  obtain ⟨x, hx, rfl⟩ := map_eq_ok h
  exact edit_of_outcome hx

/-- A node that the graph does not let go stays, and nothing is recorded. -/
theorem discard_eq (p : Pass) (n : NodeId) :
    p.discard n =
      match p.graph.removeNode n with
      | .error _ => p
      | .ok g =>
        { p with
          graph := g
          touched := p.touched.filter (· != n)
          report := { p.report with removed := p.report.removed ++ [n] } } := by
  rw [discard]
  cases h : GraphM.removeNode n p.graph with
  | ok a g => rw [Graph.removeNode, GraphM.after_of_ok h]
  | error e g =>
    rw [Graph.removeNode, GraphM.after_of_error h, (GraphM.Atomic.removeNode n).unchanged h]

end

namespace Ensures

/-- A weaker start, and stronger ends. -/
theorem weaken (h : Ensures P x Q E) (hP : ∀ p, P' p → P p) (hQ : ∀ a p, Q a p → Q' a p)
    (hE : ∀ e p, E e p → E' e p) : Ensures P' x Q' E' := by
  intro p hp
  have hx := h p (hP p hp)
  cases hr : x p with
  | ok a p' => rw [hr] at hx; exact hQ a p' hx
  | error e p' => rw [hr] at hx; exact hE e p' hx

/-- Two things that an operation ensures. -/
theorem and (h : Ensures P x Q E) (h' : Ensures P' x Q' E') :
    Ensures (fun p => P p ∧ P' p) x (fun a p => Q a p ∧ Q' a p) fun e p => E e p ∧ E' e p := by
  rintro p ⟨hp, hp'⟩
  have hx := h p hp
  have hx' := h' p hp'
  cases hr : x p with
  | ok a p' => rw [hr] at hx hx'; exact ⟨hx, hx'⟩
  | error e p' => rw [hr] at hx hx'; exact ⟨hx, hx'⟩

/-- An operation that cannot fail. -/
theorem exists_ok {p : Pass} (h : Ensures P x Q fun _ _ => False) (hp : P p) :
    ∃ a q, x p = .ok a q ∧ Q a q := by
  have hx := h p hp
  cases hr : x p with
  | ok a q => rw [hr] at hx; exact ⟨a, q, rfl, hx⟩
  | error e q => rw [hr] at hx; exact hx.elim

/-- An operation that runs as another does. -/
theorem of_run {p q : Pass} {y : PassM ε α} (hrun : x p = y q) (h : Ensures (· = q) y Q E) :
    Ensures (· = p) x Q E := by
  intro p' hp'
  subst hp'
  rw [hrun]
  exact h q rfl

theorem pure {a : α} (h : ∀ p, P p → Q a p) : Ensures P (Pure.pure a : PassM ε α) Q E := h

theorem throw {e : ε} (h : ∀ p, P p → E e p) : Ensures P (throw e : PassM ε α) Q E := h

/-- One operation after another. -/
theorem bind {f : α → PassM ε β} (hx : Ensures P x Q E) (hf : ∀ a, Ensures (Q a) (f a) R E) :
    Ensures P (x >>= f) R E := by
  intro p hp
  have hstep := hx p hp
  have hrun : (x >>= f) p = EStateM.bind x f p := rfl
  rw [hrun, EStateM.bind]
  cases hr : x p with
  | ok a p' => rw [hr] at hstep; exact hf a p' hstep
  | error e p' => rw [hr] at hstep; exact hstep

/-- What an operation ensures of what is made of its result. -/
theorem of_bind_pure {g : α → β} (h : Ensures P (x >>= fun a => Pure.pure (g a)) R E) :
    Ensures P x (fun a => R (g a)) E := by
  intro p hp
  have hrest := h p hp
  have hrun : (x >>= fun a => Pure.pure (g a)) p = EStateM.bind x (fun a => Pure.pure (g a)) p := rfl
  rw [hrun, EStateM.bind] at hrest
  cases hr : x p with
  | ok a p' => rw [hr] at hrest; exact hrest
  | error e p' => rw [hr] at hrest; exact hrest

/-- An operation that starts with a look at the pass. -/
theorem get {f : Pass → PassM ε β} (h : ∀ p, P p → Ensures (· = p) (f p) R E) :
    Ensures P (MonadState.get >>= f) R E :=
  fun p hp => h p hp p rfl

theorem modify {f : Pass → Pass} {Q : Unit → Pass → Prop} (h : ∀ p, P p → Q () (f p)) :
    Ensures P (modify f : PassM ε Unit) Q E := h

theorem record {f : Report → Report} {Q : Unit → Pass → Prop}
    (h : ∀ p, P p → Q () { p with report := f p.report }) :
    Ensures P (Pass.record f : PassM ε Unit) Q E := h

/-- An operation on the graph. Where it fails the graph is as it was. -/
theorem edit {m : GraphM α} [hm : m.Atomic] {E : GraphError → Pass → Prop}
    (hok : ∀ p a g, P p → m.outcome p.graph = .ok (a, g) → Q a { p with graph := g })
    (herror : ∀ p e, P p → m.outcome p.graph = .error e → E e p) : Ensures P (Pass.edit m) Q E := by
  intro p hp
  rw [Pass.edit]
  cases hr : m p.graph with
  | ok a g => exact hok p a g hp (GraphM.outcome_of_ok hr)
  | error e g =>
    have hsame : { p with graph := g } = p := by rw [hm.unchanged hr]
    change E e { p with graph := g }
    rw [hsame]
    exact herror p e hp (GraphM.outcome_of_error hr)

/-- An operation on the graph without a result. -/
theorem edit_ {m : GraphM Unit} [m.Atomic] {Q : Unit → Pass → Prop} {E : GraphError → Pass → Prop}
    (hok : ∀ p g, P p → m.after p.graph = .ok g → Q () { p with graph := g })
    (herror : ∀ p e, P p → m.after p.graph = .error e → E e p) : Ensures P (Pass.edit m) Q E := by
  refine edit (fun p a g hp hr => hok p g hp ?_) fun p e hp hr => herror p e hp ?_
  · rw [GraphM.after, hr]
    rfl
  · rw [GraphM.after, hr]
    rfl

/-- An operation that the graph does not refuse. -/
theorem edit_succeeds {m : GraphM Unit} [m.Atomic] {Q : Unit → Pass → Prop}
    {E : GraphError → Pass → Prop}
    (h : ∀ p, P p → ∃ g, m.after p.graph = .ok g ∧ Q () { p with graph := g }) :
    Ensures P (Pass.edit m) Q E := by
  refine edit_ (fun p g hp hr => ?_) fun p e hp hr => ?_
  · obtain ⟨g', hok, hQ⟩ := h p hp
    rw [hok] at hr
    cases hr
    exact hQ
  · obtain ⟨g', hok, -⟩ := h p hp
    rw [hok] at hr
    cases hr

theorem read {f : Graph → Except ε α} (hok : ∀ p a, P p → f p.graph = .ok a → Q a p)
    (herror : ∀ p e, P p → f p.graph = .error e → E e p) : Ensures P (Pass.read f) Q E := by
  intro p hp
  rw [Pass.read]
  cases hr : f p.graph with
  | ok a => exact hok p a hp hr
  | error e => exact herror p e hp hr

theorem adaptExcept {f : ε → ε'} {F : ε' → Pass → Prop}
    (h : Ensures P x Q fun e p => F (f e) p) : Ensures P (x.adaptExcept f) Q F := by
  intro p hp
  have hx := h p hp
  rw [EStateM.adaptExcept]
  cases hr : x p with
  | ok a p' => rw [hr] at hx; exact hx
  | error e p' => rw [hr] at hx; exact hx

/-! ## The operands of a node, one after another

`P k` is what holds once the operands below `k` have been seen to. -/

section Operands

variable {n : NodeId} {args : List Operand}

private theorem getElem?_of_drop_eq {k : Nat} {x : Operand} {rest : List Operand}
    (h : args.drop k = x :: rest) : args[k]? = some x ∧ args.drop (k + 1) = rest := by
  refine ⟨?_, ?_⟩
  · rw [← List.head?_drop, h]
    rfl
  · rw [← List.tail_drop, h]
    rfl

/-- **Operands are refreshed one by one.** A socket needs nothing and a constant is held; what
is known of the node may depend on whether a constant has changed. -/
theorem refresh {P : Nat → Bool → Pass → Prop} {E : GraphError → Pass → Prop}
    (hsocket : ∀ k o, args[k]? = some (.socket o) → ∀ c p, P k c p → P (k + 1) c p)
    (hliteral : ∀ k v, args[k]? = some (.literal v) → ∀ c, Ensures (P k c) (hold ⟨n, k⟩ v)
      (fun changed => P (k + 1) (c || changed)) E) :
    Ensures (P 0 false) (Pass.refresh n 0 args) (P args.length) E := by
  -- from any operand on, with what the operands before it have come to
  have hfrom : ∀ operands k c, k ≤ args.length → args.drop k = operands →
      Ensures (P k c) (Pass.refresh n k operands) (fun more => P args.length (c || more)) E := by
    intro operands
    induction operands with
    | nil =>
      intro k c hk hdrop
      rw [Nat.le_antisymm hk (List.drop_eq_nil_iff.1 hdrop)]
      exact Ensures.pure fun _ h => by rwa [Bool.or_false]
    | cons x rest ih =>
      intro k c hk hdrop
      obtain ⟨hx, hrest⟩ := getElem?_of_drop_eq hdrop
      have hlt := (List.getElem?_eq_some_iff.1 hx).1
      cases x with
      | socket o =>
        exact (ih (k + 1) c hlt hrest).weaken (hsocket k o hx c) (fun _ _ h => h) fun _ _ h => h
      | literal v =>
        refine Ensures.bind (hliteral k v hx c) fun changed => ?_
        refine Ensures.bind (ih (k + 1) (c || changed) hlt hrest) fun more => ?_
        exact Ensures.pure fun _ h => by rwa [← Bool.or_assoc]
  simpa only [Bool.false_or] using hfrom args 0 false (Nat.zero_le _) List.drop_zero

/-- **Operands are connected one by one.** A socket is linked and counted, a constant is
converted and put in its place. -/
theorem connect {P : Nat → Pass → Prop} {E : GraphError → Pass → Prop}
    (hlink : ∀ k o, args[k]? = some (.socket o) →
      Ensures (P k) (Pass.edit (GraphM.link o ⟨n, k⟩)) (fun _ => P (k + 1)) E)
    (hcount : ∀ k p, P k p →
      P k { p with report := { p.report with linksCreated := p.report.linksCreated + 1 } })
    (hliteral : ∀ k v, args[k]? = some (.literal v) → ∃ C : Value → Pass → Prop,
      Ensures (P k) (Pass.read fun g => coerce g ⟨n, k⟩ v) C E ∧
      ∀ w, Ensures (C w) (Pass.edit (GraphM.setDefault ⟨n, k⟩ w)) (fun _ => P (k + 1)) E) :
    Ensures (P 0) (Pass.connect n 0 args) (fun _ => P args.length) E := by
  have hfrom : ∀ operands k, k ≤ args.length → args.drop k = operands →
      Ensures (P k) (Pass.connect n k operands) (fun _ => P args.length) E := by
    intro operands
    induction operands with
    | nil =>
      intro k hk hdrop
      rw [Nat.le_antisymm hk (List.drop_eq_nil_iff.1 hdrop)]
      exact Ensures.pure fun _ h => h
    | cons x rest ih =>
      intro k hk hdrop
      obtain ⟨hx, hrest⟩ := getElem?_of_drop_eq hdrop
      have hlt := (List.getElem?_eq_some_iff.1 hx).1
      cases x with
      | socket o =>
        exact Ensures.bind (hlink k o hx) fun _ => Ensures.bind (Q := fun _ => P (k + 1))
          (Ensures.record (hcount (k + 1))) fun _ => ih (k + 1) hlt hrest
      | literal v =>
        obtain ⟨C, hcoerce, hput⟩ := hliteral k v hx
        exact Ensures.bind hcoerce fun w => Ensures.bind (hput w) fun _ => ih (k + 1) hlt hrest
  exact hfrom args 0 (Nat.zero_le _) List.drop_zero

end Operands

/-- **The ways to come by the node of a tag**, where there is an operand for each input: it is
made, it is used again, or it is put in the place of one of another kind, which the graph may
not let go. -/
theorem findOrCreate {p : Pass} {t : Tag} {kind : NodeKind} {args : List Operand}
    {Q : NodeId → Pass → Prop} {E : GraphError → Pass → Prop}
    (hlen : args.length = kind.inputs.length)
    (hnew : p.find? t = none → Ensures (· = p) (create t kind args) Q E)
    (hreuse : ∀ n, p.find? t = some n → p.graph.kind? n = some kind →
      Ensures (· = { p with cache := (t, n) :: p.cache }) (reuse n args) Q E)
    (hstuck : ∀ n e, p.find? t = some n → p.graph.kind? n ≠ some kind →
      p.graph.removeNode n = .error e → E e { p with cache := (t, n) :: p.cache })
    (hreplace : ∀ n g, p.find? t = some n → p.graph.kind? n ≠ some kind →
      p.graph.removeNode n = .ok g → Ensures (· =
        { p with
          graph := g
          cache := p.cache.filter (·.1 != t)
          report := { p.report with removed := p.report.removed ++ [n] } })
        (create t kind args) Q E) :
    Ensures (· = p) (Pass.findOrCreate t kind args) Q E := by
  rw [Pass.findOrCreate, if_neg (fun hne => hne hlen)]
  refine Ensures.get fun q hq => ?_
  subst hq
  cases hfind : q.find? t with
  | none => exact hnew hfind
  | some n =>
    let known : Pass := { q with cache := (t, n) :: q.cache }
    refine Ensures.bind (Q := fun _ r => r = known) (Ensures.modify fun r hr => by rw [hr])
      fun _ => Ensures.get fun r hr => ?_
    subst hr
    split
    · rename_i hkind
      exact hreuse n hfind hkind
    rename_i hkind
    refine Ensures.bind (Q := fun _ r => ∃ g, q.graph.removeNode n = .ok g ∧
      r = { known with graph := g }) (Ensures.edit_ ?_ ?_) fun _ => ?_
    · rintro r g rfl hr
      exact ⟨g, hr, rfl⟩
    · rintro r e rfl hr
      exact hstuck n e hfind hkind hr
    rintro r ⟨g, hremove, rfl⟩
    let forgotten : Pass := { q with graph := g, cache := q.cache.filter (·.1 != t) }
    refine Ensures.bind (Q := fun _ r => r = forgotten) (Ensures.modify ?_) (fun _ => ?_)
      { known with graph := g } rfl
    · rintro r rfl
      simp [known, forgotten]
    exact Ensures.bind (Ensures.record fun r hr => by rw [hr]) fun _ => hreplace n g hfind hkind hremove

end Ensures

end Pass

end NodeFormula
