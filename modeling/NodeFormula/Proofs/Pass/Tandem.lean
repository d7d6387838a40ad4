import NodeFormula.Pass
import NodeFormula.Proofs.Graph.Unnamed
import NodeFormula.Proofs.Pass.Fresh
/-!
# NodeFormula — passes in tandem

Two operations are in tandem when both succeed, with related ends, or both fail; one rule for
each way to put operations together follows. Passes whose graphs are the same, names apart,
make the same nodes under different tags (`tandem_create`), and so they find or make the same
nodes for tags that neither has used (`tandem_findOrCreate`).
-/

namespace NodeFormula

open Graph

/-! ## Two operations -/

section

variable {σ τ ε ε' α α' β β' : Type} {S S' : σ → τ → Prop} {Q Q' : α → α' → σ → τ → Prop}
  {R : β → β' → σ → τ → Prop} {x : EStateM ε σ α} {y : EStateM ε' τ α'}

/-- **Two operations in tandem.** From states in `S` both succeed, with results and states in
`Q`, or both fail. -/
def Tandem (S : σ → τ → Prop) (x : EStateM ε σ α) (y : EStateM ε' τ α')
    (Q : α → α' → σ → τ → Prop) : Prop :=
  ∀ s t, S s t →
    match x s, y t with
    | .ok a s', .ok b t' => Q a b s' t'
    | .error _ _, .error _ _ => True
    | _, _ => False

namespace Tandem

theorem weaken (h : Tandem S x y Q) (hS : ∀ s t, S' s t → S s t)
    (hQ : ∀ a b s t, Q a b s t → Q' a b s t) : Tandem S' x y Q' := by
  intro s t hst
  have hxy := h s t (hS s t hst)
  cases hx : x s with
  | ok a s' =>
    cases hy : y t with
    | ok b t' => rw [hx, hy] at hxy; exact hQ a b s' t' hxy
    | error e t' => rw [hx, hy] at hxy; exact hxy
  | error e s' =>
    cases hy : y t with
    | ok b t' => rw [hx, hy] at hxy; exact hxy
    | error e' t' => trivial

theorem pure {a : α} {b : α'} (h : ∀ s t, S s t → Q a b s t) :
    Tandem S (Pure.pure a : EStateM ε σ α) (Pure.pure b : EStateM ε' τ α') Q := h

theorem throw (S : σ → τ → Prop) (Q : α → α' → σ → τ → Prop) (e : ε) (e' : ε') :
    Tandem S (throw e : EStateM ε σ α) (throw e' : EStateM ε' τ α') Q := fun _ _ _ => trivial

/-- Both fail, wherever they fail. -/
theorem of_error (hx : ∀ s, ∃ e s', x s = .error e s') (hy : ∀ t, ∃ e t', y t = .error e t') :
    Tandem S x y Q := by
  intro s t _
  obtain ⟨e, s', hx⟩ := hx s
  obtain ⟨e', t', hy⟩ := hy t
  rw [hx, hy]
  trivial

/-- One pair of operations after another. -/
theorem bind {f : α → EStateM ε σ β} {g : α' → EStateM ε' τ β'} (h : Tandem S x y Q)
    (hfg : ∀ a b, Tandem (Q a b) (f a) (g b) R) : Tandem S (x >>= f) (y >>= g) R := by
  intro s t hst
  have hxy := h s t hst
  have hrun : (x >>= f) s = EStateM.bind x f s := rfl
  have hrun' : (y >>= g) t = EStateM.bind y g t := rfl
  rw [hrun, hrun', EStateM.bind, EStateM.bind]
  cases hx : x s with
  | ok a s' =>
    cases hy : y t with
    | ok b t' => rw [hx, hy] at hxy; exact hfg a b s' t' hxy
    | error e t' => rw [hx, hy] at hxy; exact hxy.elim
  | error e s' =>
    cases hy : y t with
    | ok b t' => rw [hx, hy] at hxy; exact hxy.elim
    | error e' t' => trivial

/-- An operation that starts with a look at the state. -/
theorem get_left {f : σ → EStateM ε σ α}
    (h : ∀ s t, S s t → Tandem (fun s' t' => s' = s ∧ t' = t) (f s) y Q) :
    Tandem S (MonadState.get >>= f) y Q :=
  fun s t hst => h s t hst s t ⟨rfl, rfl⟩

/-- Two operations that do. -/
theorem get {f : σ → EStateM ε σ α} {g : τ → EStateM ε' τ α'}
    (h : ∀ s t, S s t → Tandem (fun s' t' => s' = s ∧ t' = t) (f s) (g t) Q) :
    Tandem S (MonadState.get >>= f) (MonadState.get >>= g) Q :=
  fun s t hst => h s t hst s t ⟨rfl, rfl⟩

theorem modify {f : σ → σ} {g : τ → τ} {Q : Unit → Unit → σ → τ → Prop}
    (h : ∀ s t, S s t → Q () () (f s) (g t)) :
    Tandem S (modify f : EStateM ε σ Unit) (modify g : EStateM ε' τ Unit) Q := h

/-- How an error is told does not matter. -/
theorem adaptExcept_left {ε₁ : Type} {f : ε → ε₁} (h : Tandem S x y Q) :
    Tandem S (x.adaptExcept f) y Q := by
  intro s t hst
  have hxy := h s t hst
  rw [EStateM.adaptExcept]
  cases hx : x s with
  | ok a s' =>
    cases hy : y t with
    | ok b t' => rw [hx, hy] at hxy; exact hxy
    | error e t' => rw [hx, hy] at hxy; exact hxy
  | error e s' =>
    cases hy : y t with
    | ok b t' => rw [hx, hy] at hxy; exact hxy
    | error e' t' => trivial

theorem adaptExcept_right {ε₁ : Type} {f : ε' → ε₁} (h : Tandem S x y Q) :
    Tandem S x (y.adaptExcept f) Q := by
  intro s t hst
  have hxy := h s t hst
  rw [EStateM.adaptExcept]
  cases hx : x s with
  | ok a s' =>
    cases hy : y t with
    | ok b t' => rw [hx, hy] at hxy; exact hxy
    | error e t' => rw [hx, hy] at hxy; exact hxy
  | error e s' =>
    cases hy : y t with
    | ok b t' => rw [hx, hy] at hxy; exact hxy
    | error e' t' => trivial

end Tandem

end

/-- What each operation ensures by itself. -/
theorem Tandem.and_ensures {ε ε' α α' : Type} {S : Pass → Pass → Prop} {x : PassM ε α}
    {y : PassM ε' α'} {Q : α → α' → Pass → Pass → Prop} {P P' : Pass → Prop}
    {R : α → Pass → Prop} {R' : α' → Pass → Prop} {E : ε → Pass → Prop} {E' : ε' → Pass → Prop}
    (h : Tandem S x y Q) (hx : Pass.Ensures P x R E) (hy : Pass.Ensures P' y R' E') :
    Tandem (fun p q => S p q ∧ P p ∧ P' q) x y fun a b p q => Q a b p q ∧ R a p ∧ R' b q := by
  rintro p q ⟨hS, hP, hP'⟩
  have hxy := h p q hS
  have hp := hx p hP
  have hq := hy q hP'
  cases hr : x p with
  | ok a p' =>
    cases hr' : y q with
    | ok b q' => rw [hr] at hp hxy; rw [hr'] at hq hxy; exact ⟨hxy, hp, hq⟩
    | error e q' => rw [hr, hr'] at hxy; exact hxy
  | error e p' =>
    cases hr' : y q with
    | ok b q' => rw [hr, hr'] at hxy; exact hxy
    | error e' q' => trivial

namespace Pass

variable {ε α : Type} {p q : Pass} {t t' : Tag} {n : NodeId}

/-! ## Passes that mirror each other -/

/-- **The graphs are the same, names apart**, and new nodes have the same places. -/
structure Mirror (p q : Pass) : Prop where
  graph : p.graph.unnamed = q.graph.unnamed
  spacing : p.spacing = q.spacing

/-- What two passes come to that mirror each other. -/
def Mirrored (a b : α) (p q : Pass) : Prop := a = b ∧ Mirror p q

theorem Mirror.nextPlace (h : Mirror p q) : p.nextPlace = q.nextPlace := by
  have hplace : ∀ p : Pass, p.graph.active.bind p.graph.place? =
      p.graph.unnamed.active.bind p.graph.unnamed.place? := by
    intro p
    have hplace : p.graph.unnamed.place? = p.graph.place? :=
      funext fun n => place?_unnamed p.graph n
    rw [hplace]
    rfl
  rw [Pass.nextPlace, Pass.nextPlace, hplace p, hplace q, h.graph, h.spacing]

theorem Mirror.isVector (h : Mirror p q) (x : Operand) : x.isVector p.graph = x.isVector q.graph := by
  rw [← isVector_unnamed p.graph, h.graph, isVector_unnamed]

theorem tandem_edit {m m' : GraphM α} (hm : AlikeOn m m') :
    Tandem Mirror (edit m) (edit m') Mirrored := by
  intro p q h
  have hfg := hm p.graph q.graph h.graph
  rw [edit, edit]
  cases hp : m p.graph with
  | ok a g =>
    rw [GraphM.outcome_of_ok hp] at hfg
    cases hq : m' q.graph with
    | ok a' g' =>
      rw [GraphM.outcome_of_ok hq] at hfg
      obtain ⟨ha, hg⟩ := Prod.mk.inj (Except.ok.inj hfg)
      exact ⟨ha, hg, h.spacing⟩
    | error e g' =>
      rw [GraphM.outcome_of_error hq] at hfg
      cases hfg
  | error e g =>
    rw [GraphM.outcome_of_error hp] at hfg
    cases hq : m' q.graph with
    | ok a' g' =>
      rw [GraphM.outcome_of_ok hq] at hfg
      cases hfg
    | error e' g' => trivial

theorem tandem_modify {f f' : Pass → Pass} (hf : ∀ p, (f p).graph = p.graph ∧ (f p).spacing = p.spacing)
    (hf' : ∀ p, (f' p).graph = p.graph ∧ (f' p).spacing = p.spacing) :
    Tandem Mirror (modify f : PassM ε Unit) (modify f' : PassM ε Unit) Mirrored := by
  refine .modify fun p q h => ⟨rfl, ?_, ?_⟩
  · rw [(hf p).1, (hf' q).1, h.graph]
  · rw [(hf p).2, (hf' q).2, h.spacing]

/-- Readings that are the same on both sides. -/
theorem tandem_read {S : Pass → Pass → Prop} {f : Graph → Except ε α}
    (hf : ∀ p q, S p q → f p.graph = f q.graph) :
    Tandem S (read f) (read f) fun a b p q => a = b ∧ S p q := by
  intro p q h
  rw [read, read, hf p q h]
  cases f q.graph with
  | ok a => exact ⟨rfl, h⟩
  | error e => trivial

/-- A step that mirrors, and then another. -/
theorem Tandem.mirrored_bind {ε' β : Type} {S : Pass → Pass → Prop} {x : PassM ε α} {y : PassM ε' α}
    {f : α → PassM ε β} {g : α → PassM ε' β} {R : β → β → Pass → Pass → Prop}
    (h : Tandem S x y Mirrored) (hfg : ∀ a, Tandem Mirror (f a) (g a) R) :
    Tandem S (x >>= f) (y >>= g) R := by
  refine .bind h fun a b => ?_
  rintro p q ⟨rfl, hpq⟩
  exact hfg a p q hpq

theorem tandem_connect (n : NodeId) (index : Nat) (operands : List Operand) :
    Tandem Mirror (connect n index operands) (connect n index operands) Mirrored := by
  have hcoerce : ∀ i v p q, Mirror p q → coerce p.graph i v = coerce q.graph i v := by
    intro i v p q h
    rw [← coerce_unnamed p.graph, h.graph, coerce_unnamed]
  induction operands generalizing index with
  | nil => exact .pure fun _ _ h => ⟨rfl, h⟩
  | cons x rest ih =>
    cases x with
    | socket o =>
      refine Tandem.mirrored_bind (tandem_edit (alike_link o ⟨n, index⟩)) fun _ => ?_
      exact Tandem.mirrored_bind (tandem_modify (fun _ => ⟨rfl, rfl⟩) fun _ => ⟨rfl, rfl⟩)
        fun _ => ih (index + 1)
    | literal v =>
      refine Tandem.mirrored_bind (tandem_read (hcoerce ⟨n, index⟩ v)) fun v => ?_
      exact Tandem.mirrored_bind (tandem_edit (alike_setDefault ⟨n, index⟩ v)) fun _ => ih (index + 1)

/-- **Nodes are made alike under different tags.** -/
theorem tandem_create (t t' : Tag) (kind : NodeKind) (operands : List Operand) :
    Tandem Mirror (create t kind operands) (create t' kind operands) Mirrored := by
  have hmodify : ∀ {f f' : Pass → Pass}, (∀ p, (f p).graph = p.graph ∧ (f p).spacing = p.spacing) →
      (∀ p, (f' p).graph = p.graph ∧ (f' p).spacing = p.spacing) →
      Tandem Mirror (modify f : PassM GraphError Unit) (modify f' : PassM GraphError Unit) Mirrored :=
    tandem_modify
  refine Tandem.mirrored_bind (tandem_edit (alike_createNode kind)) fun n => ?_
  refine Tandem.mirrored_bind (hmodify (fun _ => ⟨rfl, rfl⟩) fun _ => ⟨rfl, rfl⟩) fun _ => ?_
  refine Tandem.mirrored_bind (hmodify (fun _ => ⟨rfl, rfl⟩) fun _ => ⟨rfl, rfl⟩) fun _ => ?_
  refine .get fun p q h => ?_
  rw [h.nextPlace]
  refine Tandem.weaken (S := Mirror) ?_ (by rintro _ _ ⟨rfl, rfl⟩; exact h) fun _ _ _ _ h => h
  refine Tandem.mirrored_bind (tandem_edit (alike_setPlace n _)) fun _ => ?_
  refine Tandem.mirrored_bind (tandem_edit (alike_setTag n t t')) fun _ => ?_
  refine Tandem.mirrored_bind (tandem_connect n 0 operands) fun _ => ?_
  refine Tandem.mirrored_bind (tandem_edit (alike_markAutomated n)) fun _ => ?_
  refine Tandem.mirrored_bind (tandem_edit (alike_setActive _)) fun _ => ?_
  refine Tandem.mirrored_bind (hmodify (fun _ => ⟨rfl, rfl⟩) fun _ => ⟨rfl, rfl⟩) fun _ => ?_
  exact .pure fun _ _ h => ⟨rfl, h⟩

/-- The sink is linked alike. -/
theorem tandem_linkOutput (o : OutputRef) (i : InputRef) :
    Tandem Mirror (linkOutput o i) (linkOutput o i) Mirrored := by
  refine .get fun p q h => ?_
  have hincoming : p.graph.incoming? i = q.graph.incoming? i := by
    have hlinks : p.graph.unnamed.links = q.graph.unnamed.links := by rw [h.graph]
    exact congrArg (fun links : List Link => links.find? (·.target == i)) hlinks
  rw [hincoming]
  refine Tandem.weaken (S := Mirror) ?_ (by rintro _ _ ⟨rfl, rfl⟩; exact h) fun _ _ _ _ h => h
  split
  · exact .pure fun _ _ h => ⟨rfl, h⟩
  · refine Tandem.mirrored_bind (tandem_edit (alike_link o i)) fun _ => ?_
    exact Tandem.mirrored_bind (tandem_modify (fun _ => ⟨rfl, rfl⟩) fun _ => ⟨rfl, rfl⟩)
      fun _ => .pure fun _ _ h => ⟨rfl, h⟩

/-! ## Passes with tags of their own -/

/-- **Passes over a graph that mirror each other**, each with tags of its own. -/
structure Abreast (g : Graph) (T T' : Tag → Prop) (derived derived' : List Tag) (p q : Pass) :
    Prop where
  mirror : Mirror p q
  left : Frame g (fun _ => False) (fun _ => False) p ∧ Tags T derived p
  right : Frame g (fun _ => False) (fun _ => False) q ∧ Tags T' derived' q

variable {g : Graph} {T T' U U' : Tag → Prop} {derived derived' : List Tag}

theorem Abreast.mono (h : Abreast g T T' derived derived' p q) (hT : ∀ t, T t → U t)
    (hT' : ∀ t, T' t → U' t) : Abreast g U U' derived derived' p q :=
  ⟨h.mirror, h.left.imp_right (·.mono hT), h.right.imp_right (·.mono hT')⟩

theorem Abreast.start (hg : g.WellFormed) (huntagged : ∀ a ∈ g.nodes, a.tag = none)
    (spacing : Float32) : Abreast g T T' [] [] (Pass.start g spacing) (Pass.start g spacing) := by
  have hside : ∀ T : Tag → Prop, Frame g (fun _ => False) (fun _ => False) (Pass.start g spacing) ∧
      Tags T [] (Pass.start g spacing) := fun T =>
    ⟨.start hg (fun _ _ _ hnode => huntagged _ (mem_of_node? hnode).1) spacing,
      .start huntagged spacing⟩
  exact ⟨⟨rfl, rfl⟩, hside T, hside T'⟩

/-- **For fresh tags the same node is made.** -/
theorem tandem_findOrCreate (hg : g.WellFormed) (ht : ¬ T t) (ht' : ¬ T' t') (kind : NodeKind)
    (operands : List Operand) :
    Tandem (Abreast g T T' derived derived') (findOrCreate t kind operands)
      (findOrCreate t' kind operands) fun n n' p q => n = n' ∧
        Abreast g (fun u => T u ∨ u = t) (fun u => T' u ∨ u = t') derived derived' p q := by
  have hside : ∀ (T : Tag → Prop) (t : Tag) (derived : List Tag), T t → Ensures
      (fun p => Frame g (fun _ => False) (fun _ => False) p ∧ Tags T derived p)
      (create t kind operands)
      (fun _ p => Frame g (fun _ => False) (fun _ => False) p ∧ Tags T derived p)
      fun _ _ => True := by
    intro T t derived ht
    exact ((framed_create hg t kind operands).and (ensures_create_tags ht kind operands)).weaken
      (fun _ h => h) (fun _ _ h => h) fun _ _ _ => trivial
  by_cases hlen : operands.length = kind.inputs.length
  · intro p q h
    rw [findOrCreate_of_fresh (h.left.2.find?_eq_none ht) hlen,
      findOrCreate_of_fresh (h.right.2.find?_eq_none ht') hlen]
    have hcreate := (tandem_create t t' kind operands).and_ensures
      (hside (fun u => T u ∨ u = t) t derived (Or.inr rfl))
      (hside (fun u => T' u ∨ u = t') t' derived' (Or.inr rfl))
    have hstart : Abreast g (fun u => T u ∨ u = t) (fun u => T' u ∨ u = t') derived derived' p q :=
      h.mono (fun _ => Or.inl) fun _ => Or.inl
    refine hcreate.weaken (fun p q h => ⟨h.mirror, h.left, h.right⟩) ?_ p q hstart
    rintro n n' p' q' ⟨⟨rfl, hmirror⟩, hleft, hright⟩
    exact ⟨rfl, hmirror, hleft, hright⟩
  · rw [findOrCreate, findOrCreate, if_pos hlen, if_pos hlen]
    exact fun _ _ _ => trivial

end Pass

end NodeFormula
