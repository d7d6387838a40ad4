import NodeFormula.Proofs.Build.Correct
import NodeFormula.Proofs.Build.Echoed
import NodeFormula.Proofs.Expr.Literals
/-!
# NodeFormula — a build that is repeated changes nothing

Every operation of a build repeats (`Repeats`), since no tag is given out twice within a pass
and the operands have the identities that they had. So a second build of an expression, over
the graph that the first one left, derives the tags of the first, finds its nodes, finds the
sink linked and nothing stale (`build_repeats`). The digest does not matter.
-/

namespace NodeFormula

open Graph Pass

theorem defined_zero : Defined 0 := by decide +kernel

/-- The zeros equal themselves. -/
theorem zero_beq_self (type : SocketType) : (Value.zero type == Value.zero type) = true := by
  cases type with
  | float => decide +kernel
  | vector => decide +kernel

theorem defined_constants : ∀ f ∈ Catalogue.functions, ∀ s ∈ f.stages, ∀ a, .constant a ∈ s.args →
    Defined a := by
  have hall : ∀ f ∈ Catalogue.functions, ∀ s ∈ f.stages, ∀ x ∈ s.args, ∀ a ∈ x.constant?,
      Defined a := by decide +kernel
  exact fun f hf s hs a ha => hall f hf s hs _ ha a rfl

section

variable [TagDigest] {g : Graph} {p : Pass} {k : Key} {keys : List Key} {operands : List Operand}
  {previous : Operand} {stages done rest : List Stage} {s : Stage}

/-- **The tags in use were derived from keys**, which are all that the pass has used. -/
structure Keyed (keys : List Key) (p : Pass) : Prop where
  derived : p.derived = keys.map Key.base
  sound : ∀ k ∈ keys, k.Sound
  spent : ∀ t, p.Uses t → Spent keys t

/-- Some stages of a call are made. -/
structure Midway (k : Key) (keys : List Key) (operands : List Operand) (done : List Stage)
    (previous : Operand) (p : Pass) : Prop where
  derived : p.derived = (k :: keys).map Key.base
  sound : ∀ k ∈ keys, k.Sound
  spent : ∀ t, p.Uses t → Spent keys t ∨ ∃ s ∈ done, t = s.tag (k.next keys)
  operands : ∀ x ∈ operands, x.Apt p
  previous : previous.Apt p

/-- The tags of a call are spent when its stages are made. -/
theorem Midway.keyed (h : Midway k keys operands done previous p) (hk : k.Sound) :
    Keyed (k :: keys) p where
  derived := h.derived
  sound := List.forall_mem_cons.2 ⟨hk, h.sound⟩
  spent t ht := by
    rcases h.spent t ht with hspent | ⟨s, -, rfl⟩
    · exact hspent.cons
    · exact ⟨k.next keys, List.mem_cons_self, s, rfl⟩

/-- **A tag is derived again**, and no stage of its call is made yet. -/
theorem repeats_tagFor {ε : Type} (hp : Steady p) (hkeyed : Keyed keys p)
    (hoperands : ∀ x ∈ operands, x.Apt p) (function : String) :
    Repeats g p (tagFor function operands : PassM ε Tag) fun t p' =>
      t = Key.next keys ⟨function, operands.map (·.identity p.graph)⟩ ∧
      Midway ⟨function, operands.map (·.identity p.graph)⟩ keys operands []
        (.literal (.float 0)) p' := by
  refine Repeats.get (fun hshows q hq => ?_) ?_
  · rw [hq.graph, identities_of_shows hoperands hshows]
  rintro p' rfl
  refine ⟨{ hp with }, ⟨fun _ h => h, fun _ _ => rfl⟩, ⟨?_, ?_⟩, fun hshows q hq => ?_⟩
  · rw [Key.next, ← hkeyed.derived]
    rfl
  · exact
      { derived := by rw [List.map_cons, ← hkeyed.derived]; rfl
        sound := hkeyed.sound
        spent := fun t ht => Or.inl (hkeyed.spent t ht)
        operands := hoperands
        previous := defined_zero }
  · refine ⟨?_, { hq with derived := ?_ }⟩
    · rw [hq.derived]
    · change _ :: q.derived = _ :: p'.derived
      rw [hq.derived]

theorem apt_argOperand (h : Midway k keys operands done previous p)
    (hconstants : ∀ a, .constant a ∈ s.args → Defined a) :
    ∀ x ∈ s.args.map (Builtin.argOperand p.graph operands previous), x.Apt p := by
  intro x hx
  cases x with
  | literal v =>
    rcases literal_of_mem_args hx with ⟨a, ha, rfl⟩ | hv | ⟨type, -, rfl⟩ | hv
    · exact hconstants a ha
    · exact h.operands _ hv
    · exact zero_beq_self type
    · exact hv ▸ h.previous
  | socket o =>
    rcases socket_of_mem_args hx with ho | ho
    · exact h.operands _ ho
    · exact ho ▸ h.previous

variable (hg : g.WellFormed) (hunique : g.TagsUnique)

include hg hunique

/-- **The node of a stage is found again.** -/
theorem repeats_buildStage (hp : Steady p) (hstages : stages? k.function = some stages)
    (hs : stages = done ++ s :: rest) (hconstants : ∀ a, .constant a ∈ s.args → Defined a)
    (h : Midway k keys operands done previous p) :
    Repeats g p (Builtin.buildStage (k.next keys) operands previous s) fun o =>
      Midway k keys operands (done ++ [s]) (.socket o) := by
  have hargs := apt_argOperand h hconstants
  have hfresh : ¬ p.Uses (s.tag (k.next keys)) := fun hused =>
    not_spent_stage h.sound hstages hs (h.spent _ hused)
  refine Repeats.get (fun hshows q hq => ?_) ?_
  · have hsame := argOperand_congr previous (any_isVector_eq fun o ho =>
      (hshows.sameFace (h.operands (.socket o) ho)).socket)
    have hvectors := any_isVector_eq fun o ho => (hshows.sameFace (hargs (.socket o) ho)).socket
    simp only [hq.graph, hsame, hvectors]
  refine Repeats.bind (repeats_findOrCreate hg hunique hp hfresh hargs _)
    fun n p' hp' hsettled hn => ?_
  obtain ⟨htouched, hderived, huses⟩ := hn
  refine Repeats.pure hp' ⟨hderived.trans h.derived, h.sound, fun t ht => ?_, fun x hx =>
    hsettled.apt (h.operands x hx), Or.inr htouched⟩
  rcases huses t ht with ht | rfl
  · rcases h.spent t ht with hspent | ⟨s', hs', rfl⟩
    · exact Or.inl hspent
    · exact Or.inr ⟨s', List.mem_append_left _ hs', rfl⟩
  · exact Or.inr ⟨s, List.mem_append_right _ List.mem_cons_self, rfl⟩

/-- The stages that remain. -/
theorem repeats_rest (hstages : stages? k.function = some stages)
    (hconstants : ∀ s ∈ stages, ∀ a, .constant a ∈ s.args → Defined a) {o : OutputRef}
    (hp : Steady p) (hs : stages = done ++ rest) (h : Midway k keys operands done (.socket o) p) :
    Repeats g p
      (rest.foldlM (fun o s => Builtin.buildStage (k.next keys) operands (.socket o) s) o)
      fun o => Midway k keys operands stages (.socket o) := by
  induction rest generalizing done o p with
  | nil =>
    rw [List.append_nil] at hs
    exact Repeats.pure hp (hs ▸ h)
  | cons s rest ih =>
    rw [List.foldlM_cons]
    have hmem : s ∈ stages := by
      rw [hs]
      exact List.mem_append_right _ List.mem_cons_self
    refine Repeats.bind (repeats_buildStage hg hunique hp hstages hs (hconstants s hmem) h)
      fun o' p' hp' _ h' => ?_
    exact ih hp' (by rw [hs, List.append_assoc]; rfl) h'

/-- **A call is built again.** -/
theorem repeats_call {f : Builtin} (hf : Catalogue.get? k.function = some f) (hp : Steady p)
    (h : Midway k keys operands [] (.literal (.float 0)) p) :
    Repeats g p (f.call (k.next keys) operands) fun o p' =>
      p'.InUse o.node ∧ Keyed (k :: keys) p' := by
  have hmem := (mem_of_get? hf).1
  have hstages := stages?_of_get? hf
  have hconstants := defined_constants f hmem
  refine Repeats.bind (Q := fun _ => Midway k keys operands [] (.literal (.float 0)))
    ((Repeats.read hp (fun hshows => ?_) fun _ _ => h).adaptExcept _) fun _ p₁ hp₁ _ h₁ => ?_
  · rw [Builtin.checkCall_eq_checkVectors, Builtin.checkCall_eq_checkVectors,
      isVector_of_shows h.operands hshows]
  refine Repeats.adaptExcept ?_ _
  refine Repeats.bind (repeats_buildStage hg hunique hp₁ hstages (List.nil_append _).symm
    (hconstants _ List.mem_cons_self) h₁) fun o p₂ hp₂ _ h₂ => ?_
  refine (repeats_rest hg hunique hstages hconstants hp₂ rfl h₂).weaken fun o' p₃ _ h₃ => ?_
  exact ⟨h₃.previous, h₃.keyed (orderly_of_stages? hstages).2⟩

/-- A node under a name that is no function's is found again. -/
theorem repeats_node (hp : Steady p) (hkeyed : Keyed keys p) (hoperands : ∀ x ∈ operands, x.Apt p)
    {name : String} (hname : Unmarked name) (kind : NodeKind) :
    Repeats g p (Build.node name kind operands) fun o p' =>
      p'.InUse o.node ∧ ∃ keys, Keyed keys p' := by
  refine Repeats.bind (repeats_tagFor hp hkeyed hoperands name) fun t p₁ hp₁ _ ht => ?_
  obtain ⟨rfl, h₁⟩ := ht
  have hsound : Key.Sound ⟨name, operands.map (·.identity p.graph)⟩ := hname
  have hspent : ∀ t, p₁.Uses t → Spent keys t := by
    intro t ht
    rcases h₁.spent t ht with hspent | ⟨s, hs, -⟩
    · exact hspent
    · exact absurd hs List.not_mem_nil
  have hfresh : ¬ p₁.Uses (Key.next keys ⟨name, operands.map (·.identity p.graph)⟩) := fun hused =>
    not_spent_next hkeyed.sound hsound (.single kind) (hspent _ hused)
  refine Repeats.bind ((repeats_findOrCreate hg hunique hp₁ hfresh h₁.operands kind).adaptExcept _)
    fun n p₂ hp₂ hsettled hn => ?_
  obtain ⟨htouched, hderived, huses⟩ := hn
  have h₂ : Midway ⟨name, operands.map (·.identity p.graph)⟩ keys operands [.single kind]
      (.literal (.float 0)) p₂ :=
    { derived := hderived.trans h₁.derived
      sound := hkeyed.sound
      spent := fun t ht => (huses t ht).imp (hspent t)
        fun ht => ⟨.single kind, List.mem_singleton_self _, ht⟩
      operands := fun x hx => hsettled.apt (h₁.operands x hx)
      previous := defined_zero }
  exact Repeats.pure hp₂ ⟨Or.inr htouched, _, h₂.keyed hsound⟩

/-- What comes of an expression can be given again. -/
theorem repeats_vector (hp : Steady p) (hkeyed : Keyed keys p)
    (hoperands : ∀ x ∈ operands, x.Apt p) :
    Repeats g p (Build.vector operands) fun x p' => x.Apt p' ∧ ∃ keys, Keyed keys p' := by
  rw [Build.vector]
  cases hnumbers : Build.numbers? operands with
  | some v =>
    rw [numbers?_eq_some] at hnumbers
    subst hnumbers
    have hx : Defined v.x := hoperands (.literal (.float v.x)) (by simp [Vec3.toList])
    have hy : Defined v.y := hoperands (.literal (.float v.y)) (by simp [Vec3.toList])
    have hz : Defined v.z := hoperands (.literal (.float v.z)) (by simp [Vec3.toList])
    refine Repeats.pure hp ⟨?_, keys, hkeyed⟩
    change (v.x == v.x && (v.y == v.y && v.z == v.z)) = true
    rw [hx, hy, hz]
    rfl
  | none =>
    exact Repeats.bind (repeats_node hg hunique hp hkeyed hoperands (by decide) _)
      fun o p' hp' _ h => Repeats.pure hp' h

end

section

variable [TagDigest] {g : Graph} (sink : InputRef)

mutual

/-- **An expression is built again**, by recursion over it. -/
theorem repeats_operand (hg : g.WellFormed) (hunique : g.TagsUnique) (tuples : Bool) :
    ∀ (e : Expr) {keys : List Key} {p : Pass},
    e.Literals Defined → Steady p → Keyed keys p →
    Repeats g p (Build.operand (.atInterface sink) tuples e) fun x p' =>
      x.Apt p' ∧ ∃ keys, Keyed keys p'
  | .number span v text, keys, p, he, hp, hkeyed => by
    rw [Build.operand]
    refine Repeats.pure hp ⟨?_, keys, hkeyed⟩
    exact he span v text (by rw [Expr.preorder]; exact List.mem_singleton_self _)
  | .ident _ x, keys, p, he, hp, hkeyed => by
    rw [Build.operand]
    refine Repeats.get (fun hshows q hq => ?_) ?_
    · rw [hq.graph, resolve?_atInterface, resolve?_atInterface, hshows.inputSockets]
    · rw [resolve?_atInterface]
      cases findSocket? x p.graph.inputSockets with
      | none => exact Repeats.throw _
      | some s => exact Repeats.pure hp ⟨Or.inl rfl, keys, hkeyed⟩
  | .call _ f args, keys, p, he, hp, hkeyed => by
    rw [Build.operand]
    refine Repeats.bind (Q := fun function p' => Catalogue.get? f = some function ∧ Keyed keys p')
      (Repeats.read hp (fun _ => rfl) fun function hfunction => ⟨?_, hkeyed⟩)
      fun function p₁ hp₁ _ h₁ => ?_
    · exact Catalogue.require_eq_ok.1 (mapError_eq_ok hfunction)
    obtain ⟨hfunction, hkeyed₁⟩ := h₁
    refine Repeats.bind (repeats_operands hg hunique true args he.args hp₁ hkeyed₁)
      fun xs p₂ hp₂ _ h₂ => ?_
    obtain ⟨hxs, keys₂, hkeyed₂⟩ := h₂
    refine Repeats.bind (repeats_tagFor hp₂ hkeyed₂ hxs f) fun t p₃ hp₃ _ h₃ => ?_
    obtain ⟨rfl, hmidway⟩ := h₃
    refine Repeats.bind ((repeats_call hg hunique hfunction hp₃ hmidway).adaptExcept _)
      fun o p₄ hp₄ _ h₄ => ?_
    exact Repeats.pure hp₄ ⟨h₄.1, _, h₄.2⟩
  | .tuple _ items, keys, p, he, hp, hkeyed => by
    rw [Build.operand]
    split
    · refine Repeats.bind (repeats_operands hg hunique false items he.items hp hkeyed)
        fun xs p' hp' _ hxs => ?_
      obtain ⟨hxs, keys', hkeyed'⟩ := hxs
      exact repeats_vector hg hunique hp' hkeyed' hxs
    · exact Repeats.throw _
  | .binary .., keys, p, he, hp, hkeyed => by
    rw [Build.operand]
    exact Repeats.throw _
  | .unary .., keys, p, he, hp, hkeyed => by
    rw [Build.operand]
    exact Repeats.throw _

theorem repeats_operands (hg : g.WellFormed) (hunique : g.TagsUnique) (tuples : Bool) :
    ∀ (es : List Expr) {keys : List Key} {p : Pass},
    Expr.LiteralsAll Defined es → Steady p → Keyed keys p →
    Repeats g p (Build.operands (.atInterface sink) tuples es) fun xs p' =>
      (∀ x ∈ xs, x.Apt p') ∧ ∃ keys, Keyed keys p'
  | [], keys, p, hes, hp, hkeyed => by
    rw [Build.operands]
    exact Repeats.pure hp ⟨List.forall_mem_nil _, keys, hkeyed⟩
  | e :: es, keys, p, hes, hp, hkeyed => by
    rw [Build.operands]
    refine Repeats.bind (repeats_operand hg hunique tuples e (hes e List.mem_cons_self) hp hkeyed)
      fun x p₁ hp₁ _ hx => ?_
    obtain ⟨hx, keys₁, hkeyed₁⟩ := hx
    refine Repeats.bind (repeats_operands hg hunique tuples es
      (fun e' he' => hes e' (List.mem_cons_of_mem _ he')) hp₁ hkeyed₁)
      fun xs p₂ hp₂ hsettled hxs => ?_
    exact Repeats.pure hp₂ ⟨List.forall_mem_cons.2 ⟨hsettled.apt hx, hxs.1⟩, hxs.2⟩

end

/-- A whole expression is built again, to the same output. -/
theorem repeats_root (hg : g.WellFormed) (hunique : g.TagsUnique) {p : Pass} {keys : List Key}
    {e : Expr} (he : e.Literals Defined) (hp : Steady p) (hkeyed : Keyed keys p) :
    Repeats g p (Build.root (.atInterface sink) e) fun o p' => p'.InUse o.node := by
  refine Repeats.bind (repeats_operand sink hg hunique true e he hp hkeyed) fun x p' hp' _ hx => ?_
  obtain ⟨hx, keys', hkeyed'⟩ := hx
  cases x with
  | socket o => exact Repeats.pure hp' hx
  | literal v =>
    cases v with
    | float a =>
      refine (repeats_node hg hunique hp' hkeyed' ?_ (by decide) _).weaken fun o p'' _ h => h.1
      intro y hy
      rw [List.mem_singleton.1 hy]
      exact hx
    | vector v =>
      have hbeq : (v.x == v.x && (v.y == v.y && v.z == v.z)) = true := hx
      rw [Bool.and_eq_true, Bool.and_eq_true] at hbeq
      refine (repeats_node hg hunique hp' hkeyed' ?_ (by decide) _).weaken fun o p'' _ h => h.1
      simp only [Vec3.toList, List.map_cons, List.map_nil, List.forall_mem_cons]
      exact ⟨hbeq.1, hbeq.2.1, hbeq.2.2, List.forall_mem_nil _⟩

end

/-! ## The sink, and what is stale -/

section

variable {g g' : Graph} {p q : Pass} {o : OutputRef} {i : InputRef}

namespace Pass

/-- A link to the sink changes no node. -/
theorem linkOutput_links (hp : p.graph.WellFormed) :
    Ensures (· = p) (linkOutput o i) (fun _ q => q.graph.WellFormed ∧
      (∀ n, q.graph.node? n = p.graph.node? n) ∧ q.touched = p.touched ∧
      (q.graph.incoming? i).map Link.source = some o) fun _ _ => True := by
  refine Ensures.get fun p' hp' => ?_
  subst hp'
  split
  · rename_i hlinked
    refine Ensures.pure fun q hq => ?_
    subst hq
    exact ⟨hp, fun _ => rfl, rfl, hlinked⟩
  · let Linked (_ : LinkId) (q : Pass) : Prop := q.graph.WellFormed ∧
      (∀ n, q.graph.node? n = p'.graph.node? n) ∧ q.touched = p'.touched ∧
      (q.graph.incoming? i).map Link.source = some o
    refine Ensures.bind (Q := Linked) (Ensures.edit (fun q id g' hq hr => ?_) fun _ _ _ _ => trivial)
      fun id => ?_
    · subst hq
      obtain ⟨hsource, htarget, hfeeds, -, rfl⟩ := hp.link_eq_ok.1 hr
      have hwf := hp.relinked hsource htarget hfeeds
      refine ⟨hwf, fun _ => rfl, rfl, ?_⟩
      change ((q.graph.relinked o i).incoming? i).map Link.source = some o
      rw [hp.incoming?_relinked hwf, if_pos rfl, Option.map_some]
    · exact Ensures.bind (Q := fun _ => Linked id) (Ensures.record fun _ h => h) fun _ =>
        Ensures.pure fun _ h => h

/-- A sink that is linked is not linked again. -/
theorem linkOutput_again (h : (p.graph.incoming? i).map Link.source = some o) :
    Ensures (· = p) (linkOutput o i) (fun made q => made = false ∧ q = p) fun _ _ => False := by
  refine Ensures.get fun p' hp' => ?_
  subst hp'
  rw [if_pos h]
  exact Ensures.pure fun q hq => ⟨rfl, hq⟩

/-- Where nothing is stale, pruning removes nothing. -/
theorem prune_again (h : p.stale = []) :
    Ensures (· = p) prune (fun tags q => tags = [] ∧ q.graph = p.graph ∧ q.report = p.report)
      fun _ _ => False := by
  refine Ensures.get fun p' hp' => ?_
  subst hp'
  rw [h]
  rintro q rfl
  exact ⟨rfl, rfl, rfl⟩

/-- When what is stale has been removed, nothing is stale. -/
theorem stale_eq_nil_of_pruned
    (hns : ∀ n ∈ p.stale.map Prod.snd, n ≠ exit ∧ n ∉ p.graph.live)
    (hwf : (p.graph.withoutAll (p.stale.map Prod.snd)).WellFormed)
    (hgraph : q.graph = p.graph.withoutAll (p.stale.map Prod.snd)) (htouched : q.touched = p.touched) :
    q.stale = [] := by
  refine List.eq_nil_iff_forall_not_mem.2 fun x hx => ?_
  obtain ⟨t, n⟩ := x
  obtain ⟨⟨node, hnode, rfl, htag⟩, hunused, hdead⟩ := mem_stale.1 hx
  rw [hgraph] at hnode hdead
  rw [htouched] at hunused
  have hlook := hwf.node?_eq hnode
  rw [node?_withoutAll] at hlook
  split at hlook
  · cases hlook
  · rename_i hkept
    -- it was not removed, so it was live then, and it is live now
    have hlive : node.id ∈ p.graph.live := by
      by_contra hlive
      exact hkept (List.mem_map.2 ⟨(t, node.id), mem_stale.2
        ⟨⟨node, (mem_of_node? hlook).1, rfl, htag⟩, hunused, hlive⟩, rfl⟩)
    exact hdead (mem_live_withoutAll hns hlive)

end Pass

/-- **What a build leaves behind** of a pass that came to an output: its nodes in use, and the
link to the sink. -/
structure Leaves (p : Pass) (o : OutputRef) (i : InputRef) (g : Graph) : Prop where
  wf : g.WellFormed
  unique : g.TagsUnique
  shows : g.Shows p
  linked : (g.incoming? i).map Link.source = some o

/-- Nodes that are not in use may go. -/
theorem Leaves.withoutAll (h : Leaves p o i g) {ns : List NodeId}
    (hns : ∀ n ∈ ns, n ≠ entry ∧ n ≠ exit ∧ n ∉ p.touched) (ho : p.InUse o.node)
    (hi : i.node = exit) : Leaves p o i (g.withoutAll ns) := by
  have hnode : ∀ {n a}, (g.withoutAll ns).node? n = some a → g.node? n = some a := by
    intro n a hn
    rw [node?_withoutAll] at hn
    split at hn
    · cases hn
    · exact hn
  have huse : ∀ n, p.InUse n → n ∉ ns := fun n hn hmem =>
    hn.elim (hns n hmem).1 (hns n hmem).2.2
  have hwf := h.wf.withoutAll fun n hn => ⟨(hns n hn).1, (hns n hn).2.1⟩
  refine ⟨hwf, fun m n a b t ha hb => h.unique m n a b t (hnode ha) (hnode hb), fun n hn => ?_, ?_⟩
  · rw [node?_withoutAll, if_neg (huse n hn), h.shows n hn]
  · obtain ⟨l, hl, hsource⟩ := Option.map_eq_some_iff.1 h.linked
    obtain ⟨hmem, htarget⟩ := h.wf.incoming?_eq_some.1 hl
    have hkept : l ∈ (g.withoutAll ns).links := mem_links_withoutAll.2
      ⟨hmem, hsource ▸ huse _ ho, fun hm => (hns _ hm).2.1 (htarget ▸ hi)⟩
    rw [hwf.incoming?_eq_some.2 ⟨hkept, htarget⟩, Option.map_some, hsource]

end

/-! ## Builds -/

section

variable [TagDigest] {g g' : Graph} {o : BuildOptions} {b : Bindings} {e : Expr} {r : BuildReport}
  {i : InputRef}

/-- How a build ends that has had nothing to do. -/
theorem noop_of_linked {out : OutputRef} {p : Pass} (hcheck : Build.check b o e g = .ok ())
    (hlinked : Build.linked b e (Pass.start g o.spacing) = .ok (out, false) p)
    (hnoop : p.report.isNoop = true) (hstale : o.prune = true → p.stale = []) :
    ∃ r, build o b e g = (.ok r, p.graph) ∧ r.isNoop = true ∧ r.output = out := by
  rw [build, hcheck]
  simp only [hlinked]
  cases hprune : o.prune with
  | false => exact ⟨⟨out, false, p.report, []⟩, rfl, by simp [BuildReport.isNoop, hnoop], rfl⟩
  | true =>
    obtain ⟨tags, q, hpruned, rfl, hgraph, hreport⟩ :=
      (prune_again (hstale hprune)).exists_ok (rfl : p = p)
    rw [hpruned]
    refine ⟨⟨out, false, q.report, []⟩, ?_, ?_, rfl⟩
    · rw [← hgraph]
      rfl
    · simp [BuildReport.isNoop, hreport, hnoop]

theorem keyed_start (g : Graph) (spacing : Float32) : Keyed [] (Pass.start g spacing) where
  derived := rfl
  sound := List.forall_mem_nil _
  spent t ht := by
    obtain ⟨n, hn, -⟩ := ht
    exact absurd hn List.not_mem_nil

/-- What a build does up to its link, when it succeeds. -/
theorem root_of_linked {made : Bool} {out : OutputRef} {p : Pass}
    (hg : g.Ready) (hunique : g.TagsUnique) (he : e.Literals Defined) {spacing : Float32}
    (h : Build.linked (.atInterface i) e (Pass.start g spacing) = .ok (out, made) p) :
    ∃ p₁, p₁.InUse out.node ∧ Settled (Pass.start g spacing) p₁ ∧ Leaves p₁ out i p.graph ∧
      p.touched = p₁.touched ∧ ∀ g' : Graph, g'.WellFormed → g'.TagsUnique → g'.Shows p₁ →
        Ensures (Echo g' (Pass.start g spacing)) (Build.root (.atInterface i) e)
          (fun out' q => out' = out ∧ Echo g' p₁ q) fun _ _ => False := by
  obtain ⟨out', p₁, hroot, h⟩ := run_bind_eq_ok h
  obtain ⟨made', p₂, hlink, h⟩ := run_bind_eq_ok h
  cases h
  have hrepeats : ∀ {g' : Graph}, g'.WellFormed → g'.TagsUnique →
      Steady p₁ ∧ Settled (Pass.start g spacing) p₁ ∧ p₁.InUse out.node ∧ (g'.Shows p₁ →
        Ensures (Echo g' (Pass.start g spacing)) (Build.root (.atInterface i) e)
          (fun out' q => out' = out ∧ Echo g' p₁ q) fun _ _ => False) := by
    intro g' hwf' hunique'
    have h := repeats_root i hwf' hunique' he (.start hg hunique spacing)
      (keyed_start g spacing) _ rfl
    rwa [hroot] at h
  obtain ⟨hsteady, hsettled, huse, -⟩ := hrepeats hg.wf hunique
  have hlinks := Ensures.adaptExcept (F := fun _ _ => True) (f := fun _ => BuildError.finalLink)
    (linkOutput_links (o := out) (i := (Bindings.atInterface i).sink) hsteady.ready.wf) p₁ rfl
  rw [hlink] at hlinks
  obtain ⟨hwf, hnodes, htouched, hlinked⟩ := hlinks
  refine ⟨p₁, huse, hsettled, ⟨hwf, ?_, fun n _ => hnodes n, hlinked⟩, htouched,
    fun g' hwf' hunique' => (hrepeats hwf' hunique').2.2.2⟩
  intro m n a b t ha hb
  exact hsteady.unique m n a b t ((hnodes m).symm.trans ha) ((hnodes n).symm.trans hb)

/-- **What a build that succeeds leaves behind.** Run again over it, the build comes to the
same output, and nothing is stale then. -/
theorem leaves_of_build (hg : g.Ready) (hunique : g.TagsUnique) (he : e.Literals Defined)
    (hi : i.node = exit) (h : build o (.atInterface i) e g = (.ok r, g')) :
    ∃ p, Settled (Pass.start g o.spacing) p ∧ Leaves p r.output i g' ∧
      Ensures (Echo g' (Pass.start g o.spacing)) (Build.root (.atInterface i) e)
        (fun out q => out = r.output ∧ Echo g' p q) (fun _ _ => False) ∧
      (o.prune = true → ∀ q : Pass, q.graph = g' → q.touched = p.touched → q.stale = []) := by
  obtain ⟨-, made, p, hlinked, hend⟩ := linked_of_build h
  obtain ⟨p₁, huse, hsettled, hleaves, htouched, hagain⟩ := root_of_linked hg hunique he hlinked
  rcases hend with ⟨hprune, rfl, -⟩ | ⟨hprune, tags, p', hstale, rfl, -⟩
  · refine ⟨p₁, hsettled, hleaves, hagain _ hleaves.wf hleaves.unique hleaves.shows, fun h => ?_⟩
    rw [hprune] at h
    cases h
  have hstart : Frame g (fun _ => False) (fun _ => False) (Pass.start g o.spacing) :=
    Frame.start hg.wf hg.untagged o.spacing
  have hframe := Build.ensures_linked (.atInterface i) hg.wf e _ hstart
  rw [hlinked] at hframe
  obtain ⟨p'', hp'', -, hgraph⟩ := Frame.prune_eq_ok hframe
  rw [hstale] at hp''
  cases hp''
  -- what is stale is none of the interface, not in use, and not live
  have hns : ∀ n ∈ p.stale.map Prod.snd, n ≠ entry ∧ n ≠ exit ∧ n ∉ p.touched ∧ n ∉ p.graph.live := by
    intro n hn
    obtain ⟨⟨t, m⟩, hm, rfl⟩ := List.mem_map.1 hn
    obtain ⟨h0, h1, -, hlive⟩ := stale_removable hframe.ready hm
    exact ⟨h0, h1, (mem_stale.1 hm).2.1, hlive⟩
  have hleft : Leaves p₁ r.output i p'.graph := by
    rw [hgraph]
    exact hleaves.withoutAll (fun n hn => ⟨(hns n hn).1, (hns n hn).2.1, htouched ▸ (hns n hn).2.2.1⟩)
      huse hi
  refine ⟨p₁, hsettled, hleft, hagain _ hleft.wf hleft.unique hleft.shows, fun _ q hq hq' => ?_⟩
  exact stale_eq_nil_of_pruned (fun n hn => ⟨(hns n hn).2.1, (hns n hn).2.2.2⟩) (hgraph ▸ hleft.wf)
    (hq.trans hgraph) (hq'.trans htouched.symm)

/-- **A build that is repeated changes nothing.** Whatever the digest, the options and the graph
it starts from, a build that succeeds is followed by one that succeeds, has nothing to do, comes
to the same output and leaves the graph as it is. -/
theorem build_repeats (hg : g.Ready) (hunique : g.TagsUnique) {limit : Nat} {text name : String}
    (he : lower limit text = .ok e) (hb : Bindings.ofInterface g name = .ok b)
    (h : build o b e g = (.ok r, g')) :
    ∃ r', build o b e g' = (.ok r', g') ∧ r'.isNoop = true ∧ r'.output = r.output := by
  obtain ⟨i, type, hout, rfl⟩ := exists_of_ofInterface hb
  obtain ⟨p, hsettled, hleaves, hagain, hstale⟩ :=
    leaves_of_build hg hunique (defined_of_lower he) (output?_eq_some hout).1 h
  have hcheck : Build.check (.atInterface i) o e g' = .ok () := by
    have hinputs := (hsettled.shows_of hleaves.shows).inputSockets
    rw [check_congr hinputs]
    exact (linked_of_build h).1
  have hlinked : Ensures (Echo g' (Pass.start g o.spacing)) (Build.linked (.atInterface i) e)
      (fun x q => x = (r.output, false) ∧ Echo g' p q) fun _ _ => False := by
    refine Ensures.bind hagain fun out => ?_
    rintro q ⟨rfl, hq⟩
    have hsink : (q.graph.incoming? (Bindings.atInterface i).sink).map Link.source =
        some r.output := hq.graph ▸ hleaves.linked
    refine Ensures.bind (P := (· = q)) (Ensures.adaptExcept (linkOutput_again hsink))
      (fun made => ?_) q rfl
    rintro q' ⟨rfl, rfl⟩
    exact ⟨rfl, hq⟩
  obtain ⟨x, q, hlast, rfl, hq⟩ := hlinked.exists_ok (Echo.start g g' o.spacing)
  rw [← hq.graph]
  refine noop_of_linked (hq.graph ▸ hcheck) (hq.graph ▸ hlast) hq.noop fun hprune => ?_
  exact hstale hprune q hq.graph hq.touched

end

/-- A quotient rounded down, twice: two nodes each time, and each tag is taken a second time. -/
theorem build_repeats_quotients :
    ∃ e r g', callForm? "x//2 + x//2" = some e ∧
      build .standard (.atInterface ⟨exit, 0⟩) e plain = (.ok r, g') ∧
      ∃ r', build .standard (.atInterface ⟨exit, 0⟩) e g' = (.ok r', g') ∧
        r'.isNoop = true ∧ r'.output = r.output := by
  have hface : withInterface [("x", .float)] [("a", .float)] = .ok plain := by rfl
  have hclean : ∀ n ∈ plain.nodes, n.tag = none := by decide +kernel
  have hb : Bindings.ofInterface plain "a" = .ok (.atInterface ⟨exit, 0⟩) := by decide +kernel
  have hsome : (callForm? "x//2 + x//2").isSome := by decide +kernel
  have hbuilds : ∀ e ∈ callForm? "x//2 + x//2",
      (build .standard (.atInterface ⟨exit, 0⟩) e plain).1.isOk := by decide +kernel
  obtain ⟨e, he⟩ := Option.isSome_iff_exists.1 hsome
  have hok := hbuilds e he
  cases hfirst : build .standard (.atInterface ⟨exit, 0⟩) e plain with
  | mk outcome g' =>
    rw [hfirst] at hok
    cases outcome with
    | error err => cases hok
    | ok r =>
      have hg : plain.Ready := ⟨wellFormed_of_withInterface hface,
        fun n node _ hnode => hclean node (mem_of_node? hnode).1⟩
      have hunique : plain.TagsUnique := by
        intro m n a b t ha _ htag
        rw [hclean a (mem_of_node? ha).1] at htag
        cases htag
      exact ⟨e, r, g', he, hfirst, build_repeats hg hunique (lower_of_callForm? he) hb hfirst⟩

end NodeFormula
