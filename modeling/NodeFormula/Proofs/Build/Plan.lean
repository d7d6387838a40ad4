import NodeFormula.Proofs.Build.Tags
/-!
# NodeFormula — the nodes that a call stands for

A call with a tag stands for one node for each stage of its function, and the tag and the
identities of the operands say all there is to know of each: its tag, its stage and the
identities of its arguments (`planned`). What is planned for a tag is planned for no other
key (`Expects.unique`) where keys with the same base are the same key. The catalogue is
checked once for what plans rely on (`Orderly`).
-/

namespace NodeFormula

/-! ## What holds of every function -/

/-- The kind of the node is settled by the stage alone. -/
def StageNode.isFixed : StageNode → Bool
  | .fixed _ => true
  | .componentwise _ _ => false

/-- The math node and the vector math node of a stage perform the same operation. -/
def StageNode.Paired : StageNode → Prop
  | .fixed _ => True
  | .componentwise scalar vector => scalar = vector.component

instance : (node : StageNode) → Decidable node.Paired
  | .fixed _ => inferInstanceAs (Decidable True)
  | .componentwise _ _ => inferInstanceAs (Decidable (_ = _))

/-- The node of a stage has an input for each argument, and one output. -/
structure Stage.Sane (s : Stage) : Prop where
  inputs : ∀ v, (s.node.kind v).inputs.length = s.args.length
  outputs : ∀ v, (s.node.kind v).outputs.length = 1
  inner : ∀ v, (s.node.kind v).isInterface = false
  paired : s.node.Paired

instance (s : Stage) : Decidable s.Sane :=
  decidable_of_iff ((∀ v, (s.node.kind v).inputs.length = s.args.length) ∧
    (∀ v, (s.node.kind v).outputs.length = 1) ∧ (∀ v, (s.node.kind v).isInterface = false) ∧
    s.node.Paired)
    ⟨fun h => ⟨h.1, h.2.1, h.2.2.1, h.2.2.2⟩, fun h => ⟨h.inputs, h.outputs, h.inner, h.paired⟩⟩

/-- **The stages of a function lead from one to the next**, each under a name of its own. -/
structure Orderly (stages : List Stage) : Prop where
  children : (stages.map Stage.child).Nodup
  chained : ∀ s ∈ stages.tail, StageArg.previous ∈ s.args
  sane : ∀ s ∈ stages, s.Sane

instance (stages : List Stage) : Decidable (Orderly stages) :=
  decidable_of_iff ((stages.map Stage.child).Nodup ∧
    (∀ s ∈ stages.tail, StageArg.previous ∈ s.args) ∧ ∀ s ∈ stages, s.Sane)
    ⟨fun h => ⟨h.1, h.2.1, h.2.2⟩, fun h => ⟨h.children, h.chained, h.sane⟩⟩

theorem orderly_of_mem {f : Builtin} (hf : f ∈ Catalogue.functions) : Orderly f.stages := by
  have hall : ∀ f ∈ Catalogue.functions, Orderly f.stages := by decide +kernel
  exact hall f hf

theorem orderly_combine : Orderly [.single .combineXyz] := by decide

theorem orderly_value : Orderly [.single .value] := by decide

/-- The constant that an argument is. -/
def StageArg.constant? : StageArg → Option Float
  | .constant a => some a
  | .param _ | .zero | .previous => none

/-- Every parameter is an argument of some stage. -/
theorem param_used {f : Builtin} (hf : f ∈ Catalogue.functions) {i : Nat} (hi : i < f.arity) :
    ∃ s ∈ f.stages, StageArg.param i ∈ s.args := by
  have hall : ∀ f ∈ Catalogue.functions, ∀ i < f.arity,
      ∃ s ∈ f.stages, StageArg.param i ∈ s.args := by decide +kernel
  exact hall f hf i hi

/-- The stages of a function are all of fixed kind, or all work on components. -/
theorem isFixed_eq {f : Builtin} (hf : f ∈ Catalogue.functions) {s : Stage} (hs : s ∈ f.stages) :
    s.node.isFixed = (f.support == .scalarOnly) := by
  have hall : ∀ f ∈ Catalogue.functions, ∀ s ∈ f.stages,
      s.node.isFixed = (f.support == .scalarOnly) := by decide +kernel
  exact hall f hf s hs

/-- **The type of a zero shows in the arguments beside it**, if a call has that many operands. -/
structure Stage.SettlesZeros (s : Stage) (count : Nat) : Prop where
  dual : .zero ∈ s.args → s.node.isFixed = false
  params : .zero ∈ s.args → ∀ i < count, .param i ∈ s.args
  first : .zero ∈ s.args → .previous ∉ s.args

theorem settlesZeros_of_mem {f : Builtin} (hf : f ∈ Catalogue.functions) {s : Stage}
    (hs : s ∈ f.stages) : s.SettlesZeros f.arity := by
  have hall : ∀ f ∈ Catalogue.functions, ∀ s ∈ f.stages, .zero ∈ s.args →
      s.node.isFixed = false ∧ (∀ i < f.arity, .param i ∈ s.args) ∧ .previous ∉ s.args := by
    decide +kernel
  exact ⟨fun h => (hall f hf s hs h).1, fun h => (hall f hf s hs h).2.1,
    fun h => (hall f hf s hs h).2.2⟩

/-- A node of fixed kind in a function takes numbers and gives a number. -/
theorem resultType_of_isFixed {f : Builtin} (hf : f ∈ Catalogue.functions) {s : Stage}
    (hs : s ∈ f.stages) (hfixed : s.node.isFixed) (v : Bool) :
    (s.node.kind v).resultType = .float := by
  have hall : ∀ f ∈ Catalogue.functions, ∀ s ∈ f.stages, s.node.isFixed →
      ∀ v, (s.node.kind v).resultType = .float := by decide +kernel
  exact hall f hf s hs hfixed v

theorem mem_of_get? {name : String} {f : Builtin} (h : Catalogue.get? name = some f) :
    f ∈ Catalogue.functions ∧ f.name = name := by
  rw [Catalogue.get?] at h
  split at h
  · cases h
  · have hname := List.find?_some h
    simp only [beq_iff_eq] at hname
    exact ⟨List.mem_of_find?_eq_some h, hname⟩

theorem Catalogue.require_eq_ok {name : String} {f : Builtin} :
    Catalogue.require name = .ok f ↔ Catalogue.get? name = some f := by
  rw [Catalogue.require]
  cases Catalogue.get? name <;> simp

/-- A function has a name without marks, which is neither of the two that are no function's. -/
theorem name_of_mem {f : Builtin} (hf : f ∈ Catalogue.functions) :
    Unmarked f.name ∧ f.name ≠ "combine" ∧ f.name ≠ "value" := by
  have hall : ∀ f ∈ Catalogue.functions,
      Unmarked f.name ∧ f.name ≠ "combine" ∧ f.name ≠ "value" := by decide +kernel
  exact hall f hf

theorem stages?_of_get? {name : String} {f : Builtin} (h : Catalogue.get? name = some f) :
    stages? name = some f.stages := by
  obtain ⟨hmem, rfl⟩ := mem_of_get? h
  obtain ⟨-, hcombine, hvalue⟩ := name_of_mem hmem
  rw [stages?, if_neg hcombine, if_neg hvalue, h, Option.map_some]

/-- **Whatever has stages has orderly ones**, and a name without marks. -/
theorem orderly_of_stages? {function : String} {stages : List Stage}
    (h : stages? function = some stages) : Orderly stages ∧ Unmarked function := by
  rw [stages?] at h
  split at h
  · rename_i hname
    cases h
    exact ⟨orderly_combine, hname ▸ by decide⟩
  · split at h
    · rename_i hname
      cases h
      exact ⟨orderly_value, hname ▸ by decide⟩
    · obtain ⟨f, hf, rfl⟩ := Option.map_eq_some_iff.1 h
      obtain ⟨hmem, rfl⟩ := mem_of_get? hf
      exact ⟨orderly_of_mem hmem, (name_of_mem hmem).1⟩

/-! ## Plans -/

/-- A node that a call stands for. -/
structure Planned where
  tag : Tag
  stage : Stage
  /-- The identities of the arguments. A zero has none, since its type is that of others. -/
  identities : List (Option String)

/-- The identity of an argument of a stage. -/
def StageArg.identity? (ids : List String) (before : String) : StageArg → Option String
  | .param i => some (ids.getD i Tag.floatIdentity)
  | .constant _ => some Tag.floatIdentity
  | .zero => none
  | .previous => some before

/-- The nodes of a call, given the identity that comes before the first. -/
def planned (t : Tag) (ids : List String) : String → List Stage → List Planned
  | _, [] => []
  | previous, s :: rest =>
    ⟨s.tag t, s, s.args.map (StageArg.identity? ids previous)⟩
      :: planned t ids (socketIdentity (s.tag t).text 0) rest

variable {t t' : Tag} {ids : List String} {stages : List Stage} {x y : Planned}

theorem planned_append (previous : String) (first rest : List Stage) :
    planned t ids previous (first ++ rest) = planned t ids previous first
      ++ planned t ids
        (first.foldl (fun _ s => socketIdentity (s.tag t).text 0) previous) rest := by
  induction first generalizing previous with
  | nil => rfl
  | cons s first ih =>
    rw [List.cons_append, planned, planned, ih]
    rfl

theorem stage_of_mem_planned {previous : String} (h : x ∈ planned t ids previous stages) :
    x.stage ∈ stages ∧ x.tag = x.stage.tag t := by
  induction stages generalizing previous with
  | nil => exact absurd h List.not_mem_nil
  | cons s rest ih =>
    rcases List.mem_cons.1 h with rfl | h
    · exact ⟨List.mem_cons_self, rfl⟩
    · exact ⟨List.mem_cons_of_mem _ (ih h).1, (ih h).2⟩

theorem length_identities {previous : String} (h : x ∈ planned t ids previous stages) :
    x.identities.length = x.stage.args.length := by
  induction stages generalizing previous with
  | nil => exact absurd h List.not_mem_nil
  | cons s rest ih =>
    rcases List.mem_cons.1 h with rfl | h
    · exact List.length_map _
    · exact ih h

/-- One node a tag, since the stages have names of their own. -/
theorem planned_unique (ht : '/' ∉ t.text.toList) (hchildren : (stages.map Stage.child).Nodup)
    {previous : String} (hx : x ∈ planned t ids previous stages)
    (hy : y ∈ planned t ids previous stages) (htag : x.tag = y.tag) : x = y := by
  induction stages generalizing previous with
  | nil => exact absurd hx List.not_mem_nil
  | cons s rest ih =>
    rw [List.map_cons, List.nodup_cons] at hchildren
    -- a later stage has another name than the first
    have hlater : ∀ z ∈ planned t ids (socketIdentity (s.tag t).text 0) rest, z.tag ≠ s.tag t := by
      intro z hz heq
      obtain ⟨hmem, hztag⟩ := stage_of_mem_planned hz
      rw [hztag] at heq
      have hchild := (Stage.tag_inj ht ht heq).2
      exact hchildren.1 (hchild ▸ List.mem_map_of_mem hmem)
    rcases List.mem_cons.1 hx with rfl | hx
    · rcases List.mem_cons.1 hy with rfl | hy
      · rfl
      · exact absurd htag.symm (hlater y hy)
    · rcases List.mem_cons.1 hy with rfl | hy
      · exact absurd htag (hlater x hx)
      · exact ih hchildren.2 hx hy

section

variable [TagDigest] {K K' keys : List Key} {k : Key}

/-- A node is one that some call with one of the keys stands for. -/
def Expects (K : List Key) (x : Planned) : Prop :=
  ∃ k ∈ K, ∃ stages, stages? k.function = some stages ∧
    ∃ n, x ∈ planned (k.base.withOccurrence n) k.identities Tag.floatIdentity stages

/-- **The node of a stage is expected**, given the identity of what the stages before it make. -/
theorem expects_stage {done rest : List Stage} {s : Stage}
    (h : stages? k.function = some (done ++ s :: rest)) (n : Nat) :
    Expects (k :: keys) ⟨s.tag (k.base.withOccurrence n), s, s.args.map (StageArg.identity? k.identities
      (done.foldl (fun _ s => socketIdentity (s.tag (k.base.withOccurrence n)).text 0)
        Tag.floatIdentity))⟩ := by
  refine ⟨k, List.mem_cons_self, _, h, n, ?_⟩
  rw [planned_append, List.mem_append]
  exact Or.inr List.mem_cons_self

theorem Expects.mono (h : Expects K x) (hK : ∀ k ∈ K, k ∈ K') : Expects K' x := by
  obtain ⟨k, hk, hrest⟩ := h
  exact ⟨k, hK k hk, hrest⟩

theorem Expects.sane (h : Expects K x) : x.stage.Sane := by
  obtain ⟨k, -, stages, hstages, n, hx⟩ := h
  exact (orderly_of_stages? hstages).1.sane _ (stage_of_mem_planned hx).1

/-- The node of a plan has an input for each identity. -/
theorem Expects.length_inputs (h : Expects K x) (v : Bool) :
    (x.stage.node.kind v).inputs.length = x.identities.length := by
  obtain ⟨k, -, stages, -, n, hx⟩ := id h
  rw [h.sane.inputs, length_identities hx]

/-- The tag of a node has a point in it. -/
theorem Expects.point_mem (h : Expects K x) : '.' ∈ x.tag.text.toList := by
  obtain ⟨k, -, stages, -, n, hx⟩ := h
  rw [(stage_of_mem_planned hx).2]
  have hbase : '.' ∈ k.base.text.toList := by simp [Key.base, Tag.derive]
  have hnumbered : '.' ∈ (k.base.withOccurrence n).text.toList := by
    rw [Tag.withOccurrence_toList]
    exact List.mem_append_left _ hbase
  cases hc : x.stage.child with
  | none => simpa [Stage.tag, hc] using hnumbered
  | some c =>
    simp only [Stage.tag, hc, Option.map_some, Option.getD_some, Tag.child, String.toList_append]
    exact List.mem_append_left _ (List.mem_append_left _ hnumbered)

/-- **A tag is planned for one key**, and then for one node, if keys with the same base are
the same. -/
theorem Expects.unique (hdistinct : ∀ a ∈ K, ∀ b ∈ K', a.base = b.base → a = b)
    (hx : Expects K x) (hy : Expects K' y) (htag : x.tag = y.tag) : x = y := by
  obtain ⟨a, ha, stages, hstages, n, hx⟩ := hx
  obtain ⟨b, hb, stages', hstages', n', hy⟩ := hy
  obtain ⟨horderly, ha'⟩ := orderly_of_stages? hstages
  have hb' := (orderly_of_stages? hstages').2
  have hmark := Tag.slash_not_mem_withOccurrence (Key.Sound.base (k := a) ha') n
  have hmark' := Tag.slash_not_mem_withOccurrence (Key.Sound.base (k := b) hb') n'
  have hcall : a.base.withOccurrence n = b.base.withOccurrence n' := by
    rw [(stage_of_mem_planned hx).2, (stage_of_mem_planned hy).2] at htag
    exact (Stage.tag_inj hmark hmark' htag).1
  obtain ⟨hbase, rfl⟩ := Tag.withOccurrence_inj (Key.Sound.base (k := a) ha')
    (Key.Sound.base (k := b) hb') hcall
  obtain rfl := hdistinct a ha b hb hbase
  rw [hstages] at hstages'
  cases hstages'
  exact planned_unique hmark horderly.children hx hy htag

/-- The tags of calls that have been given out, with all their nodes. -/
def Spent (keys : List Key) (T : Tag) : Prop := ∃ t ∈ issued keys, ∃ s : Stage, T = s.tag t

theorem Spent.cons {T : Tag} (h : Spent keys T) : Spent (k :: keys) T := by
  obtain ⟨t, ht, hrest⟩ := h
  exact ⟨t, List.mem_cons_of_mem _ ht, hrest⟩

/-- **The nodes of a new call have new tags**, whatever the digest. -/
theorem not_spent_next (hkeys : ∀ k ∈ keys, k.Sound) (hk : k.Sound) (s : Stage) :
    ¬ Spent keys (s.tag (k.next keys)) := by
  rintro ⟨t, ht, s', heq⟩
  obtain ⟨k', earlier, hsuffix, rfl⟩ := mem_issued ht
  have hk' : k'.Sound := hkeys k' (hsuffix.subset List.mem_cons_self)
  have hcall : k.next keys = k'.next earlier := (Stage.tag_inj
    (Tag.slash_not_mem_withOccurrence hk.base _) (Tag.slash_not_mem_withOccurrence hk'.base _) heq).1
  exact next_not_mem_issued k (hcall ▸ ht)

/-- **So has the next stage of a call that is being built.** -/
theorem not_spent_stage {done rest : List Stage} {s : Stage} (hkeys : ∀ k ∈ keys, k.Sound)
    (hstages : stages? k.function = some stages) (hs : stages = done ++ s :: rest) :
    ¬ (Spent keys (s.tag (k.next keys)) ∨
      ∃ s' ∈ done, s.tag (k.next keys) = s'.tag (k.next keys)) := by
  obtain ⟨horderly, hk⟩ := orderly_of_stages? hstages
  have hmark := Tag.slash_not_mem_withOccurrence (Key.Sound.base (k := k) hk)
    ((keys.map Key.base).count k.base)
  rintro (hspent | ⟨s', hs', htag⟩)
  · exact not_spent_next hkeys hk s hspent
  · have hchild := (Stage.tag_inj hmark hmark htag).2
    have hnodup := horderly.children
    rw [hs, List.map_append, List.map_cons] at hnodup
    exact (List.nodup_append.1 hnodup).2.2 _ (List.mem_map_of_mem hs') _ List.mem_cons_self
      hchild.symm

end

end NodeFormula
