import NodeFormula.Proofs.Build.Simulation
import NodeFormula.Proofs.Pass.Tandem
/-!
# NodeFormula — calls in tandem

A call derives a tag that its pass has not used, whatever the identities of its operands. So
two passes that mirror each other, each with keys of its own, make the same nodes for a call
of the same function on the same operands (`tandem_call`).
-/

namespace NodeFormula

open Graph Pass

section

variable [TagDigest] {g : Graph} {k k' : Key} {keys keys' : List Key} {derived derived' : List Tag}
  {stages done rest : List Stage} {s : Stage} {operands : List Operand} {p q : Pass} {t t' : Tag}

/-- The tags of earlier calls, and of the stages of a call that are made. -/
def SpentBy (k : Key) (keys : List Key) (done : List Stage) (t : Tag) : Prop :=
  Spent keys t ∨ ∃ s ∈ done, t = s.tag (k.next keys)

theorem SpentBy.spent (h : SpentBy k keys done t) : Spent (k :: keys) t := by
  rcases h with h | ⟨s, -, rfl⟩
  · exact h.cons
  · exact ⟨k.next keys, List.mem_cons_self, s, rfl⟩

theorem SpentBy.of_last (h : SpentBy k keys done t ∨ t = s.tag (k.next keys)) :
    SpentBy k keys (done ++ [s]) t := by
  rcases h with (h | ⟨s', hs', rfl⟩) | rfl
  · exact Or.inl h
  · exact Or.inr ⟨s', List.mem_append_left _ hs', rfl⟩
  · exact Or.inr ⟨s, List.mem_append_right _ List.mem_cons_self, rfl⟩

/-- **Passes that mirror each other**, each with tags from keys of its own. -/
def InStep (g : Graph) (p q : Pass) : Prop :=
  ∃ keys keys' : List Key, (∀ k ∈ keys, k.Sound) ∧ (∀ k ∈ keys', k.Sound) ∧
    Abreast g (Spent keys) (Spent keys') (keys.map Key.base) (keys'.map Key.base) p q

/-- They have just derived the tags of a call. -/
def Dealt (g : Graph) (function : String) (t t' : Tag) (p q : Pass) : Prop :=
  ∃ (k k' : Key) (keys keys' : List Key), (k.function = function ∧ t = k.next keys) ∧
    (k'.function = function ∧ t' = k'.next keys') ∧
    (∀ k ∈ keys, k.Sound) ∧ (∀ k ∈ keys', k.Sound) ∧
    Abreast g (Spent keys) (Spent keys') ((k :: keys).map Key.base) ((k' :: keys').map Key.base) p q

theorem InStep.mirror (h : InStep g p q) : Mirror p q := by
  obtain ⟨_, _, -, -, h⟩ := h
  exact h.mirror

theorem InStep.start (hg : g.WellFormed) (huntagged : ∀ a ∈ g.nodes, a.tag = none)
    (spacing : Float32) : InStep g (Pass.start g spacing) (Pass.start g spacing) :=
  ⟨[], [], List.forall_mem_nil _, List.forall_mem_nil _, .start hg huntagged spacing⟩

/-- The inputs of the graph are what they were. -/
theorem InStep.inputSockets (h : InStep g p q) :
    p.graph.inputSockets = g.inputSockets ∧ q.graph.inputSockets = g.inputSockets := by
  obtain ⟨_, _, -, -, h⟩ := h
  have hside : ∀ {p : Pass}, Frame g (fun _ => False) (fun _ => False) p →
      p.graph.inputSockets = g.inputSockets := fun h => by
    rw [Graph.inputSockets, Graph.inputSockets, h.faces entry (Or.inl rfl)]
  exact ⟨hside h.left.1, hside h.right.1⟩

theorem InStep.outputSockets (h : InStep g p q) : q.graph.outputSockets = g.outputSockets := by
  obtain ⟨_, _, -, -, h⟩ := h
  rw [Graph.outputSockets, Graph.outputSockets, h.right.1.faces exit (Or.inr rfl)]

/-- **Tags are derived on both sides**, from operands under identities of either side. -/
theorem tandem_nextTag {ε ε' : Type} (function : String) (identities identities' : List String) :
    Tandem (InStep g) (nextTag function identities : PassM ε Tag)
      (nextTag function identities' : PassM ε' Tag) (Dealt g function) := by
  rintro p q ⟨keys, keys', hkeys, hkeys', hmirror, hleft, hright⟩
  refine ⟨⟨function, identities⟩, ⟨function, identities'⟩, keys, keys', ⟨rfl, ?_⟩, ⟨rfl, ?_⟩,
    hkeys, hkeys', ⟨hmirror.graph, hmirror.spacing⟩, ?_, ?_⟩
  · rw [Key.next, ← hleft.2.derived]
    rfl
  · rw [Key.next, ← hright.2.derived]
    rfl
  · refine ⟨hleft.1.congr rfl rfl rfl rfl rfl, { hleft.2 with derived := ?_ }⟩
    rw [List.map_cons, ← hleft.2.derived]
    rfl
  · refine ⟨hright.1.congr rfl rfl rfl rfl rfl, { hright.2 with derived := ?_ }⟩
    rw [List.map_cons, ← hright.2.derived]
    rfl

/-! ## The stages of a call -/

section

variable (hg : g.WellFormed) (hkeys : ∀ k ∈ keys, k.Sound) (hkeys' : ∀ k ∈ keys', k.Sound)
  (hstages : stages? k.function = some stages) (hstages' : stages? k'.function = some stages)

include hg hkeys hkeys' hstages hstages'

/-- **A stage is made on both sides.** -/
theorem tandem_buildStage (hs : stages = done ++ s :: rest) (previous : Operand) :
    Tandem (Abreast g (SpentBy k keys done) (SpentBy k' keys' done) derived derived')
      (Builtin.buildStage (k.next keys) operands previous s)
      (Builtin.buildStage (k'.next keys') operands previous s)
      fun o o' p q => o = o' ∧ Abreast g (SpentBy k keys (done ++ [s]))
        (SpentBy k' keys' (done ++ [s])) derived derived' p q := by
  refine .get fun p q h => ?_
  have hsame := argOperand_congr previous (any_eq_of_forall_mem fun x (_ : x ∈ operands) =>
    h.mirror.isVector x)
  simp only [hsame, h.mirror.isVector]
  refine Tandem.weaken ?_ (by rintro _ _ ⟨rfl, rfl⟩; exact h) fun _ _ _ _ h => h
  refine .bind (tandem_findOrCreate hg (not_spent_stage hkeys hstages hs)
    (not_spent_stage hkeys' hstages' hs) _ _) fun n n' => ?_
  refine .pure fun p q h => ?_
  obtain ⟨rfl, h⟩ := h
  exact ⟨rfl, h.mono (fun _ => SpentBy.of_last) fun _ => SpentBy.of_last⟩

/-- The stages that remain. -/
theorem tandem_rest (hs : stages = done ++ rest) (o : OutputRef) :
    Tandem (Abreast g (SpentBy k keys done) (SpentBy k' keys' done) derived derived')
      (rest.foldlM (fun o s => Builtin.buildStage (k.next keys) operands (.socket o) s) o)
      (rest.foldlM (fun o s => Builtin.buildStage (k'.next keys') operands (.socket o) s) o)
      fun o o' p q => o = o' ∧ Abreast g (SpentBy k keys stages) (SpentBy k' keys' stages)
        derived derived' p q := by
  induction rest generalizing done o with
  | nil =>
    rw [List.append_nil] at hs
    subst hs
    exact .pure fun _ _ h => ⟨rfl, h⟩
  | cons s rest ih =>
    rw [List.foldlM_cons, List.foldlM_cons]
    refine .bind (tandem_buildStage hg hkeys hkeys' hstages hstages' hs (.socket o))
      fun o o' => ?_
    rintro p q ⟨rfl, h⟩
    exact ih (by rw [hs, List.append_assoc]; rfl) o p q h

end

/-- **A call makes the same nodes on both sides.** -/
theorem tandem_call (hg : g.WellFormed) {function : String} {f : Builtin}
    (hf : Catalogue.get? function = some f) (operands : List Operand) :
    Tandem (Dealt g function t t') (f.call t operands) (f.call t' operands)
      fun o o' p q => o = o' ∧ InStep g p q := by
  rintro p q ⟨k, k', keys, keys', ⟨hk, rfl⟩, ⟨hk', rfl⟩, hkeys, hkeys', h⟩
  have hstages : stages? k.function = some f.stages := hk ▸ stages?_of_get? hf
  have hstages' : stages? k'.function = some f.stages := hk' ▸ stages?_of_get? hf
  have hstart : Abreast g (SpentBy k keys []) (SpentBy k' keys' []) ((k :: keys).map Key.base)
      ((k' :: keys').map Key.base) p q := h.mono (fun _ => Or.inl) fun _ => Or.inl
  refine Tandem.bind (Q := fun _ _ => Abreast g (SpentBy k keys []) (SpentBy k' keys' [])
    ((k :: keys).map Key.base) ((k' :: keys').map Key.base)) ?_ (fun _ _ => ?_) p q hstart
  · -- what is checked is which operands are vectors
    refine Tandem.adaptExcept_left (.adaptExcept_right ((tandem_read fun p q h => ?_).weaken
      (fun _ _ h => h) fun _ _ _ _ h => h.2))
    rw [Builtin.checkCall_eq_checkVectors, Builtin.checkCall_eq_checkVectors,
      funext h.mirror.isVector]
  refine .adaptExcept_left (.adaptExcept_right ?_)
  refine .bind (tandem_buildStage hg hkeys hkeys' hstages hstages' (List.nil_append _).symm _)
    fun o o' => ?_
  rintro p q ⟨rfl, h⟩
  refine (tandem_rest hg hkeys hkeys' hstages hstages' rfl o).weaken (fun _ _ h => h) ?_ p q h
  rintro o o' p q ⟨rfl, h⟩
  have hsound : k.Sound := (orderly_of_stages? hstages).2
  have hsound' : k'.Sound := (orderly_of_stages? hstages').2
  exact ⟨rfl, k :: keys, k' :: keys', List.forall_mem_cons.2 ⟨hsound, hkeys⟩,
    List.forall_mem_cons.2 ⟨hsound', hkeys'⟩, h.mono (fun _ => SpentBy.spent) fun _ => SpentBy.spent⟩

end

end NodeFormula
