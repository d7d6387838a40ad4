import NodeFormula.Proofs.Build.Plan
import NodeFormula.Proofs.Pass.Fitted
import NodeFormula.Proofs.Pass.Removal
/-!
# NodeFormula — graphs whose nodes are as planned

A tagged node conforms to a plan when it has the kind and is linked from the sockets that
the plan's identities name (`Conforms`); where the plan names none, the node holds a zero,
of the type of the arguments beside it (`Matches`). A graph is charted when every tagged node
conforms to what its tag stands for, carries its tag as its name and shares it with no other
node (`Charted`). In a charted graph the identity of an operand says which socket it is
(`Charted.operand_eq`), so that a node found by its tag is linked as a new one would be
(`Charted.found`).
-/

namespace NodeFormula

open Graph

theorem any_eq_of_forall_mem {α : Type} {l : List α} {f f' : α → Bool} (h : ∀ a ∈ l, f a = f' a) :
    l.any f = l.any f' := by
  induction l with
  | nil => rfl
  | cons a l ih =>
    rw [List.any_cons, List.any_cons, h a List.mem_cons_self,
      ih fun b hb => h b (List.mem_cons_of_mem _ hb)]

/-- What stands at a place of one list stands at it in the other. -/
theorem exists_of_forall₂ {α β : Type} {R : α → β → Prop} {l : List α} {l' : List β}
    (h : List.Forall₂ R l l') {j : Nat} {a : α} (ha : l[j]? = some a) :
    ∃ b, l'[j]? = some b ∧ R a b := by
  induction h generalizing j with
  | nil => cases ha
  | cons hx _ ih =>
    cases j with
    | zero => cases ha; exact ⟨_, rfl, hx⟩
    | succ j => exact ih ha

theorem any_eq_of_forall₂ {α β : Type} {R : α → β → Prop} {l : List α} {l' : List β} {f : α → Bool}
    {f' : β → Bool} (h : List.Forall₂ R l l') (hR : ∀ a b, R a b → f a = f' b) :
    l.any f = l'.any f' := by
  induction h with
  | nil => rfl
  | cons hx _ ih => rw [List.any_cons, List.any_cons, hR _ _ hx, ih]

/-- Every float of a value satisfies a property. -/
def Value.All (pos : Float → Prop) : Value → Prop
  | .float a => pos a
  | .vector v => pos v.x ∧ pos v.y ∧ pos v.z

namespace Value

variable {pos : Float → Prop} {v w : Value}

theorem All.convert (h : v.All pos) {type : SocketType} (hfits : ¬ (v.type = .vector ∧ type = .float)) :
    (v.convert type).All pos := by
  cases v with
  | float a =>
    cases type with
    | float => exact h
    | vector => exact ⟨h, h, h⟩
  | vector v =>
    cases type with
    | float => exact absurd ⟨rfl, rfl⟩ hfits
    | vector => exact h

theorem all_zero (h : pos 0) (type : SocketType) : (zero type).All pos := by
  cases type with
  | float => exact h
  | vector => exact ⟨h, h, h⟩

/-- Equal values are the same if that holds of their floats. -/
theorem eq_of_beq (hlaw : ∀ a b, pos a → pos b → (a == b) = true → a = b) (hv : v.All pos)
    (hw : w.All pos) (h : (v == w) = true) : v = w := by
  cases v with
  | float a =>
    cases w with
    | float b => rw [hlaw a b hv hw h]
    | vector _ => cases h
  | vector v =>
    cases w with
    | float _ => cases h
    | vector w =>
      obtain ⟨x, y, z⟩ := v
      obtain ⟨x', y', z'⟩ := w
      have hbeq : (x == x' && (y == y' && z == z')) = true := h
      rw [Bool.and_eq_true, Bool.and_eq_true] at hbeq
      obtain ⟨hx, hy, hz⟩ := hbeq
      rw [hlaw x x' hv.1 hw.1 hx, hlaw y y' hv.2.1 hw.2.1 hy, hlaw z z' hv.2.2 hw.2.2 hz]

end Value

namespace Graph

variable {g g' : Graph} {n : NodeId} {node : Node} {o o' : OutputRef} {x y : Planned}
  {args args' : List Operand} {named named' : List (Option Operand)} {ids : List (Option String)}

/-- A node that operands are taken from: the entry, or a tagged node. -/
def Owned (g : Graph) (n : NodeId) : Prop :=
  n = entry ∨ ∃ node t, g.node? n = some node ∧ node.tag = some t

/-- The zero of the type that the arguments beside it settle. -/
def zeroBeside (g : Graph) (named : List (Option Operand)) : Operand :=
  .literal (.zero (if named.any (·.any (·.isVector g)) then .vector else .float))

/-- **Arguments match the identities of a plan.** Where the plan has none, they are zeros. -/
def Matches (g : Graph) (args : List Operand) (ids : List (Option String)) : Prop :=
  ∃ named : List (Option Operand), named.map (·.getD (g.zeroBeside named)) = args ∧
    named.map (Option.map (·.identity g)) = ids

theorem Matches.length_eq (h : g.Matches args ids) : args.length = ids.length := by
  obtain ⟨named, rfl, rfl⟩ := h
  rw [List.length_map, List.length_map]

/-- Which zero an argument is, depends on the graph by whether an operand is a vector. -/
theorem argOperand_congr {operands : List Operand} (previous : Operand)
    (h : operands.any (·.isVector g') = operands.any (·.isVector g)) :
    Builtin.argOperand g' operands previous = Builtin.argOperand g operands previous := by
  funext a
  cases a with
  | zero => rw [Builtin.argOperand, h, Builtin.argOperand]
  | param i => rfl
  | constant x => rfl
  | previous => rfl

/-- A vector among the arguments is an operand, or what comes before. -/
theorem isVector_of_mem_args {stageArgs : List StageArg} {operands : List Operand}
    {previous : Operand} {a : StageArg} (ha : a ∈ stageArgs)
    (h : (Builtin.argOperand g operands previous a).isVector g = true) :
    operands.any (·.isVector g) = true ∨ .previous ∈ stageArgs ∧ previous.isVector g = true := by
  cases a with
  | param i =>
    rw [Builtin.argOperand, List.getD_eq_getElem?_getD] at h
    cases hi : operands[i]? with
    | some x =>
      rw [hi] at h
      exact Or.inl (List.any_eq_true.2 ⟨x, List.mem_of_getElem? hi, h⟩)
    | none =>
      rw [hi] at h
      cases h
  | constant x => cases h
  | zero =>
    cases hany : operands.any (·.isVector g) with
    | true => exact Or.inl rfl
    | false =>
      rw [Builtin.argOperand, hany] at h
      cases h
  | previous => exact Or.inr ⟨ha, h⟩

/-- A vector among the operands is an argument where all of them are. -/
theorem exists_param_isVector {stageArgs : List StageArg} {operands : List Operand}
    (previous : Operand) (h : ∀ i < operands.length, .param i ∈ stageArgs)
    (hany : operands.any (·.isVector g) = true) :
    ∃ i, .param i ∈ stageArgs ∧
      (Builtin.argOperand g operands previous (.param i)).isVector g = true := by
  obtain ⟨x, hx, hvector⟩ := List.any_eq_true.1 hany
  obtain ⟨i, hi⟩ := List.mem_iff_getElem?.1 hx
  refine ⟨i, h i (List.getElem?_eq_some_iff.1 hi).1, ?_⟩
  rw [Builtin.argOperand, List.getD_eq_getElem?_getD, hi]
  exact hvector

/-- The operand that an argument of a stage names. -/
def namedOperand (g : Graph) (operands : List Operand) (previous : Operand) : StageArg → Option Operand
  | .zero => none
  | a => some (Builtin.argOperand g operands previous a)

/-- A vector among the operands shows beside a zero. -/
theorem any_isVector_named {s : Stage} {operands : List Operand} (previous : Operand)
    (h : s.SettlesZeros operands.length) (hzero : .zero ∈ s.args) :
    (s.args.map (g.namedOperand operands previous)).any (·.any (·.isVector g))
      = operands.any (·.isVector g) := by
  rw [Bool.eq_iff_iff, List.any_map, List.any_eq_true]
  constructor
  · rintro ⟨a, ha, hvector⟩
    have harg : (Builtin.argOperand g operands previous a).isVector g = true := by
      cases a with
      | zero => cases hvector
      | param i => exact hvector
      | constant x => exact hvector
      | previous => exact hvector
    exact (isVector_of_mem_args ha harg).resolve_right fun hp => h.first hzero hp.1
  · intro hany
    obtain ⟨i, hi, hvector⟩ := exists_param_isVector previous (h.params hzero) hany
    exact ⟨.param i, hi, hvector⟩

/-- **The arguments of a stage match its plan.** -/
theorem matches_args {s : Stage} {operands : List Operand} (previous : Operand)
    (h : s.SettlesZeros operands.length) :
    g.Matches (s.args.map (Builtin.argOperand g operands previous))
      (s.args.map (StageArg.identity? (operands.map (·.identity g)) (previous.identity g))) := by
  refine ⟨s.args.map (g.namedOperand operands previous), ?_, ?_⟩
  · rw [List.map_map]
    refine List.map_congr_left fun a ha => ?_
    cases a with
    | zero => rw [Function.comp_apply, zeroBeside, any_isVector_named previous h ha]; rfl
    | param i => rfl
    | constant x => rfl
    | previous => rfl
  · rw [List.map_map]
    refine List.map_congr_left fun a _ => ?_
    cases a with
    | param i =>
      change some ((operands.getD i (.literal (.float 0))).identity g) = some _
      rw [List.getD_eq_getElem?_getD, List.getD_eq_getElem?_getD, List.getElem?_map]
      cases operands[i]? <;> rfl
    | constant x => rfl
    | zero => rfl
    | previous => rfl

/-- **A node is as planned.** -/
structure Conforms (g : Graph) (n : NodeId) (node : Node) (x : Planned) (args : List Operand) :
    Prop where
  owned : ∀ o, .socket o ∈ args → g.Owned o.node
  matched : g.Matches args x.identities
  wired : g.Wired n args
  kind : node.kind = x.stage.node.kind (args.any (·.isVector g))

/-- What operands see of a socket stays as it is. -/
def SameSocket (g g' : Graph) (o : OutputRef) : Prop :=
  g'.name? o.node = g.name? o.node ∧ g'.outputType? o = g.outputType? o

/-- What operands see of a node stays as it is. -/
def SameFace (g g' : Graph) (n : NodeId) : Prop :=
  g'.name? n = g.name? n ∧ ∀ index, g'.outputType? ⟨n, index⟩ = g.outputType? ⟨n, index⟩

theorem SameFace.socket (h : g.SameFace g' o.node) : g.SameSocket g' o := ⟨h.1, h.2 o.index⟩

theorem sameFace_of_node? (h : g'.node? n = g.node? n) : g.SameFace g' n :=
  ⟨by rw [name?, name?, h], fun index => by simp only [outputType?, outputSocket, h]⟩

theorem exists_outputSocket {type : SocketType} (h : g.outputType? o = some type) :
    ∃ s, g.outputSocket o = .ok s := by
  rw [outputType?] at h
  cases hs : g.outputSocket o with
  | ok s => exact ⟨s, rfl⟩
  | error e =>
    rw [hs] at h
    cases h

theorem SameSocket.identity (h : g.SameSocket g' o) :
    (Operand.socket o).identity g' = (Operand.socket o).identity g := by
  rw [Operand.identity, Operand.identity, h.1]

theorem SameSocket.isVector (h : g.SameSocket g' o) :
    (Operand.socket o).isVector g' = (Operand.socket o).isVector g := by
  rw [Operand.isVector, Operand.isVector, Operand.type?, Operand.type?, h.2]

/-- Operands whose sockets stay have the identities they had. -/
theorem map_identity_eq (h : ∀ o, .socket o ∈ args → g.SameSocket g' o) :
    args.map (·.identity g') = args.map (·.identity g) := by
  refine List.map_congr_left fun a ha => ?_
  cases a with
  | socket o => exact (h o ha).identity
  | literal v => cases v <;> rfl

theorem any_isVector_eq (h : ∀ o, .socket o ∈ args → g.SameSocket g' o) :
    args.any (·.isVector g') = args.any (·.isVector g) := by
  refine any_eq_of_forall_mem fun a ha => ?_
  cases a with
  | socket o => exact (h o ha).isVector
  | literal v => rfl

/-- They match the identities that they matched. -/
theorem Matches.congr (h : g.Matches args ids) (hsockets : ∀ o, .socket o ∈ args → g.SameSocket g' o) :
    g'.Matches args ids := by
  obtain ⟨named, rfl, rfl⟩ := h
  have hmem : ∀ o, some (.socket o) ∈ named → g.SameSocket g' o := fun o ho =>
    hsockets o (List.mem_map.2 ⟨_, ho, rfl⟩)
  have hany : named.any (·.any (·.isVector g')) = named.any (·.any (·.isVector g)) := by
    refine any_eq_of_forall_mem fun a ha => ?_
    match a, ha with
    | none, _ => rfl
    | some (.literal v), _ => rfl
    | some (.socket o), ha => exact (hmem o ha).isVector
  have hzero : g'.zeroBeside named = g.zeroBeside named := by rw [zeroBeside, zeroBeside, hany]
  refine ⟨named, by rw [hzero], List.map_congr_left fun a ha => ?_⟩
  match a, ha with
  | none, _ => rfl
  | some (.literal (.float _)), _ => rfl
  | some (.literal (.vector _)), _ => rfl
  | some (.socket o), ha => exact congrArg some (hmem o ha).identity

/-- Operands are the same but for the constants they hold. -/
def Alike (g : Graph) (a b : Operand) : Prop :=
  a.socket? = b.socket? ∧ a.isVector g = b.isVector g

namespace Alike

theorem any_isVector (h : List.Forall₂ g.Alike args args') :
    args.any (·.isVector g) = args'.any (·.isVector g) :=
  any_eq_of_forall₂ h fun _ _ hx => hx.2

/-- Zeros are filled in alike. -/
theorem filled (h : List.Forall₂ (Option.Rel g.Alike) named named') :
    List.Forall₂ g.Alike (named.map (·.getD (g.zeroBeside named)))
      (named'.map (·.getD (g.zeroBeside named'))) := by
  have hany : named.any (·.any (·.isVector g)) = named'.any (·.any (·.isVector g)) := by
    refine any_eq_of_forall₂ h fun a b hab => ?_
    cases hab with
    | none => rfl
    | some hx => exact hx.2
  rw [List.forall₂_map_left_iff, List.forall₂_map_right_iff, zeroBeside, zeroBeside, hany]
  refine h.imp fun a b hab => ?_
  cases hab with
  | none => exact ⟨rfl, rfl⟩
  | some hx => exact hx

/-- Arguments with the same identities are alike, if that holds of operands. -/
theorem of_identities (howned : ∀ o, some (.socket o) ∈ named → g.Owned o.node)
    (howned' : ∀ o, some (.socket o) ∈ named' → g.Owned o.node)
    (hsame : ∀ a b, (∀ o, a = .socket o → g.Owned o.node) → (∀ o, b = .socket o → g.Owned o.node) →
      a.identity g = b.identity g → g.Alike a b)
    (h : named.map (Option.map (·.identity g)) = named'.map (Option.map (·.identity g))) :
    List.Forall₂ (Option.Rel g.Alike) named named' := by
  induction named generalizing named' with
  | nil =>
    cases named' with
    | nil => exact .nil
    | cons b named' => cases h
  | cons a named ih =>
    cases named' with
    | nil => cases h
    | cons b named' =>
      rw [List.map_cons, List.map_cons, List.cons.injEq] at h
      refine .cons ?_ (ih (fun o ho => howned o (List.mem_cons_of_mem _ ho))
        (fun o ho => howned' o (List.mem_cons_of_mem _ ho)) h.2)
      match a, b, h.1 with
      | none, none, _ => exact .none
      | some a, some b, hab =>
        exact .some (hsame a b (fun o ho => howned o (ho ▸ List.mem_cons_self))
          (fun o ho => howned' o (ho ▸ List.mem_cons_self)) (Option.some.inj hab))

end Alike

/-- A node stays as planned while its links and what it is linked from stay. -/
theorem Conforms.transfer (h : g.Conforms n node x args) {node' : Node}
    (hkind : node'.kind = node.kind)
    (hlinks : ∀ index, (g'.incoming? ⟨n, index⟩).map Link.source
      = (g.incoming? ⟨n, index⟩).map Link.source)
    (howned : ∀ o, .socket o ∈ args → g'.Owned o.node)
    (hsockets : ∀ o, .socket o ∈ args → g.SameSocket g' o) : g'.Conforms n node' x args where
  owned := howned
  matched := h.matched.congr hsockets
  wired j a ha := by
    rw [hlinks j]
    exact h.wired j a ha
  kind := by rw [hkind, h.kind, any_isVector_eq hsockets]

/-- **A graph whose tagged nodes are as planned**, and hold constants with a property. -/
structure Charted (pos : Float → Prop) (expects : NodeId → Planned → Prop) (g : Graph) : Prop where
  wf : g.WellFormed
  face : ∀ n node t, g.node? n = some node → node.tag = some t → n ≠ entry ∧ n ≠ exit
  name : ∀ n node t, g.node? n = some node → node.tag = some t → node.name = t.text
  constants : ∀ n node t, g.node? n = some node → node.tag = some t →
    ∀ s ∈ node.inputs, s.default.All pos
  planned : ∀ n node t, g.node? n = some node → node.tag = some t →
    ∃ x args, x.tag = t ∧ expects n x ∧ g.Conforms n node x args
  unique : ∀ m n a b t, g.node? m = some a → g.node? n = some b → a.tag = some t →
    b.tag = some t → m = n

namespace Charted

variable {pos : Float → Prop} {expects : NodeId → Planned → Prop}

theorem mono (h : g.Charted pos expects) {expects' : NodeId → Planned → Prop}
    (hmono : ∀ n x, expects n x → expects' n x) : g.Charted pos expects' :=
  { h with
    planned := fun n node t hnode ht => by
      obtain ⟨x, args, hx, he, hc⟩ := h.planned n node t hnode ht
      exact ⟨x, args, hx, hmono n x he, hc⟩ }

/-- **A graph stays charted while its tagged nodes stay**, with their links and the sockets they
are linked from. Some of them may be gone. -/
theorem transfer (h : g.Charted pos expects) (hwf : g'.WellFormed)
    (hnodes : ∀ n node t, g'.node? n = some node → node.tag = some t → g.node? n = some node)
    (hlinks : ∀ n node t, g'.node? n = some node → node.tag = some t → ∀ index,
      (g'.incoming? ⟨n, index⟩).map Link.source = (g.incoming? ⟨n, index⟩).map Link.source)
    (hsources : ∀ l ∈ g.links, ∀ node t, g'.node? l.target.node = some node → node.tag = some t →
      g.Owned l.source.node → g'.Owned l.source.node ∧ g.SameSocket g' l.source) :
    g'.Charted pos expects where
  wf := hwf
  face n node t hn ht := h.face n node t (hnodes n node t hn ht) ht
  name n node t hn ht := h.name n node t (hnodes n node t hn ht) ht
  constants n node t hn ht := h.constants n node t (hnodes n node t hn ht) ht
  unique m n a b t ha hb ht ht' :=
    h.unique m n a b t (hnodes m a t ha ht) (hnodes n b t hb ht') ht ht'
  planned n node t hn ht := by
    obtain ⟨x, args, hx, he, hc⟩ := h.planned n node t (hnodes n node t hn ht) ht
    have hsocket : ∀ o, .socket o ∈ args → g'.Owned o.node ∧ g.SameSocket g' o := by
      intro o ho
      obtain ⟨j, hj⟩ := List.mem_iff_getElem?.1 ho
      obtain ⟨l, hl, hsource⟩ := Option.map_eq_some_iff.1 ((hc.wired j _ hj).trans rfl)
      obtain ⟨hmem, htarget⟩ := h.wf.incoming?_eq_some.1 hl
      obtain rfl : l.source = o := hsource
      exact hsources l hmem node t (by rw [htarget]; exact hn) ht (hc.owned _ ho)
    exact ⟨x, args, hx, he, hc.transfer rfl (hlinks n node t hn ht) (fun o ho => (hsocket o ho).1)
      fun o ho => (hsocket o ho).2⟩

/-- The identity of a socket, by the name of its node. -/
theorem identity_socket {name : String} (h : g.name? o.node = some name) :
    (Operand.socket o).identity g = socketIdentity name o.index := by
  rw [Operand.identity, h, Option.getD_some, socketIdentity]

theorem exists_name (h : g.Charted pos expects) {entryName : String}
    (hentry : g.name? entry = some entryName) (ho : g.Owned n) :
    ∃ name, g.name? n = some name ∧
      (n = entry ∧ name = entryName ∨
        ∃ node t, g.node? n = some node ∧ node.tag = some t ∧ name = t.text) := by
  rcases ho with rfl | ⟨node, t, hnode, ht⟩
  · exact ⟨entryName, hentry, Or.inl ⟨rfl, rfl⟩⟩
  · refine ⟨t.text, ?_, Or.inr ⟨node, t, hnode, ht, rfl⟩⟩
    rw [name?, hnode, Option.map_some, h.name n node t hnode ht]

section

variable (h : g.Charted pos expects) (hpoint : ∀ n x, expects n x → '.' ∈ x.tag.text.toList)
  {entryName : String} (hentry : g.name? entry = some entryName)
  (hname : '.' ∉ entryName.toList)

include h hpoint hentry hname

/-- **An identity names one socket.** -/
theorem socket_eq (ho : g.Owned o.node) (ho' : g.Owned o'.node)
    (heq : (Operand.socket o).identity g = (Operand.socket o').identity g) : o = o' := by
  obtain ⟨name, hn, hcase⟩ := h.exists_name hentry ho
  obtain ⟨name', hn', hcase'⟩ := h.exists_name hentry ho'
  rw [identity_socket hn, identity_socket hn'] at heq
  obtain ⟨rfl, hindex⟩ := socketIdentity_inj heq
  have htagged : ∀ n node t, g.node? n = some node → node.tag = some t → t.text ≠ entryName := by
    intro n node t hnode ht hsame
    obtain ⟨x, -, hx, he, -⟩ := h.planned n node t hnode ht
    exact hname (hsame ▸ hx ▸ hpoint n x he)
  have hnode : o.node = o'.node := by
    rcases hcase with ⟨he, rfl⟩ | ⟨a, t, ha, ht, rfl⟩
    · rcases hcase' with ⟨he', -⟩ | ⟨b, t', hb, ht', hsame⟩
      · rw [he, he']
      · exact absurd hsame.symm (htagged _ _ _ hb ht')
    · rcases hcase' with ⟨-, hsame⟩ | ⟨b, t', hb, ht', hsame⟩
      · exact absurd hsame (htagged _ _ _ ha ht)
      · obtain rfl := Tag.text_inj.1 hsame
        exact h.unique _ _ a b t ha hb ht ht'
  cases o
  cases o'
  exact OutputRef.mk.injEq .. ▸ ⟨hnode, hindex⟩

/-- **An identity says what an operand is**, up to the constant it holds. -/
theorem operand_eq {a b : Operand} (ha : ∀ o, a = .socket o → g.Owned o.node)
    (hb : ∀ o, b = .socket o → g.Owned o.node) (heq : a.identity g = b.identity g) :
    g.Alike a b := by
  have hmixed : ∀ (o : OutputRef) (v : Value), g.Owned o.node →
      (Operand.socket o).identity g ≠ (Operand.literal v).identity g := by
    intro o v ho
    obtain ⟨name, hn, -⟩ := h.exists_name hentry ho
    rw [identity_socket hn]
    cases v with
    | float a => exact socketIdentity_ne.1
    | vector w => exact socketIdentity_ne.2
  cases a with
  | socket o =>
    cases b with
    | socket o' =>
      rw [h.socket_eq hpoint hentry hname (ha o rfl) (hb o' rfl) heq]
      exact ⟨rfl, rfl⟩
    | literal w => exact absurd heq (hmixed o w (ha o rfl))
  | literal v =>
    cases b with
    | socket o' => exact absurd heq.symm (hmixed o' v (hb o' rfl))
    | literal w =>
      have hne : Tag.floatIdentity ≠ Tag.vectorIdentity := by decide
      cases v with
      | float a =>
        cases w with
        | float b => exact ⟨rfl, rfl⟩
        | vector b => exact absurd heq hne
      | vector a =>
        cases w with
        | float b => exact absurd heq.symm hne
        | vector b => exact ⟨rfl, rfl⟩

/-- **So do the identities of a plan**, for all the arguments that match them. -/
theorem alike_of_matches (hargs : ∀ o, .socket o ∈ args → g.Owned o.node)
    (hargs' : ∀ o, .socket o ∈ args' → g.Owned o.node) (h₁ : g.Matches args ids)
    (h₂ : g.Matches args' ids) : List.Forall₂ g.Alike args args' := by
  obtain ⟨named, rfl, hids⟩ := h₁
  obtain ⟨named', rfl, hids'⟩ := h₂
  refine Alike.filled (Alike.of_identities (fun o ho => hargs o ?_) (fun o ho => hargs' o ?_)
    (fun a b => h.operand_eq hpoint hentry hname) (hids.trans hids'.symm))
  · exact List.mem_map.2 ⟨_, ho, rfl⟩
  · exact List.mem_map.2 ⟨_, ho, rfl⟩

/-- **A node that is found is linked as asked.** -/
theorem found (hc : g.Conforms n node x args) (hargs : ∀ o, .socket o ∈ args' → g.Owned o.node)
    (hids : g.Matches args' x.identities) :
    g.Wired n args' ∧ node.kind = x.stage.node.kind (args'.any (·.isVector g)) := by
  have halike := h.alike_of_matches hpoint hentry hname hc.owned hargs hc.matched hids
  constructor
  · intro j a' ha'
    obtain ⟨a, ha, hsame⟩ := exists_of_forall₂ halike.flip ha'
    rw [hc.wired j a ha, hsame.1]
  · rw [hc.kind, Alike.any_isVector halike]

end

end Charted

/-! ## The node of a tag -/

namespace Gains

variable {t : Tag} {kind : NodeKind} {m : NodeId} (hq : g.Gains t kind args n g')

include hq

theorem owned (hm : g.Owned m) : g'.Owned m := by
  rcases hm with rfl | ⟨node, t', hnode, ht⟩
  · exact Or.inl rfl
  · by_cases hmn : m = n
    · subst hmn
      obtain ⟨node', hnode', htag, -⟩ := hq.node
      exact Or.inr ⟨node', t, hnode', htag⟩
    · exact Or.inr ⟨node, t', by rw [hq.others m hmn, hnode], ht⟩

/-- What is linked into the node is an operand. -/
theorem socket_of_incoming (hlen : args.length = kind.inputs.length) {index : Nat} {l : Link}
    (hl : g'.incoming? ⟨n, index⟩ = some l) : args[index]? = some (.socket l.source) := by
  obtain ⟨hmem, htarget⟩ := hq.wf.incoming?_eq_some.1 hl
  obtain ⟨s, hs⟩ := hq.wf.targets l hmem
  obtain ⟨node, hnode, hsocket⟩ := inputSocket_eq_ok.1 hs
  rw [htarget] at hnode hsocket
  obtain ⟨node', hnode', -, -, hinputs, -⟩ := hq.exists_node
  rw [hnode] at hnode'
  cases hnode'
  have hlt : index < args.length := by
    rw [hlen, ← hinputs, List.length_map]
    exact (List.getElem?_eq_some_iff.1 hsocket).1
  have hwired := hq.wired index _ (List.getElem?_eq_getElem hlt)
  rw [hl, Option.map_some] at hwired
  rw [List.getElem?_eq_getElem hlt]
  cases ha : args[index] with
  | socket o =>
    rw [ha] at hwired
    cases hwired
    rfl
  | literal v =>
    rw [ha] at hwired
    cases hwired

variable {pos : Float → Prop} {expects expects' : NodeId → Planned → Prop}
  (h : g.Charted pos expects) (hkind : ∀ a, g.node? n = some a → a.kind = kind)

include h hkind

/-- Operands see no difference, if a node that had the tag had the kind. -/
theorem sameFace (hm : g.hasNode m) : g.SameFace g' m := by
  by_cases hmn : m = n
  · subst hmn
    obtain ⟨old, hold⟩ := hasNode_iff.1 hm
    have htag := hq.old old hold
    obtain ⟨node, hnode, -, hname, -, houtputs, -⟩ := hq.exists_node
    obtain ⟨hmem, hid⟩ := mem_of_node? hold
    have hold' := (h.wf.fits old hmem).outputs (hid ▸ hq.face.1)
    rw [hkind old hold, ← houtputs] at hold'
    constructor
    · rw [name?, name?, hnode, hold, Option.map_some, Option.map_some, hname,
        h.name m old _ hold htag]
    · intro index
      have hspec : (node.outputs[index]?).map Socket.spec = (old.outputs[index]?).map Socket.spec := by
        rw [← List.getElem?_map, ← List.getElem?_map, hold']
      have htype : (node.outputs[index]?).map Socket.type = (old.outputs[index]?).map Socket.type := by
        have := congrArg (Option.map SocketSpec.type) hspec
        rwa [Option.map_map, Option.map_map] at this
      simp only [outputType?, outputSocket, hnode, hold]
      cases hs : node.outputs[index]? <;> cases hs' : old.outputs[index]? <;>
        simp [hs, hs', Except.toOption] at htype ⊢
      exact htype
  · exact sameFace_of_node? (hq.others m hmn)

/-- **The graph stays charted**, with the plan that the node was asked for by. -/
theorem charted {x : Planned} (htag : x.tag = t)
    (hx : kind = x.stage.node.kind (args.any (·.isVector g)))
    (hids : g.Matches args x.identities)
    (howned : ∀ o, .socket o ∈ args → g.Owned o.node)
    (hold : (∃ a, g.node? n = some a ∧ a.tag = some t) ∨ ∀ m a, g.node? m = some a → a.tag ≠ some t)
    (hconstants : ∀ node, g'.node? n = some node → ∀ s ∈ node.inputs, s.default.All pos)
    (hexpects : expects' n x) (hmono : ∀ m y, expects m y → expects' m y) :
    g'.Charted pos expects' := by
  obtain ⟨node, hnode, ht, hname, -, -, hnkind⟩ := hq.exists_node
  -- a node of `g'` that is not `n` is a node of `g`
  have hother : ∀ {m a}, m ≠ n → g'.node? m = some a → g.node? m = some a := by
    intro m a hm ha
    rwa [hq.others m hm] at ha
  have hface : ∀ m, g.Owned m → g.SameFace g' m := by
    rintro m (rfl | ⟨b, t', hb, -⟩)
    · exact hq.sameFace h hkind h.wf.hasEntry
    · exact hq.sameFace h hkind (hasNode_iff.2 ⟨b, hb⟩)
  have hsockets : ∀ o, .socket o ∈ args → g.SameSocket g' o := fun o ho =>
    (hface o.node (howned o ho)).socket
  have hconforms : g'.Conforms n node x args :=
    { owned := fun o ho => hq.owned (howned o ho)
      matched := hids.congr hsockets
      wired := hq.wired
      kind := by rw [hnkind, any_isVector_eq hsockets, hx] }
  have hself : ∀ {a t'}, g'.node? n = some a → a.tag = some t' → a = node ∧ t' = t := by
    intro a t' ha hta
    rw [hnode] at ha
    cases ha
    exact ⟨rfl, Option.some.inj (hta.symm.trans ht)⟩
  -- the tag of the node is that of no other
  have hfresh : ∀ {m a}, m ≠ n → g'.node? m = some a → a.tag ≠ some t := by
    intro m a hm ha htm
    rcases hold with ⟨b, hb, htb⟩ | hnone
    · exact hm (h.unique m n a b _ (hother hm ha) hb htm htb)
    · exact hnone m a (hother hm ha) htm
  refine
    { wf := hq.wf
      face := fun m a t' ha hta => ?_
      name := fun m a t' ha hta => ?_
      constants := fun m a t' ha hta => ?_
      planned := fun m a t' ha hta => ?_
      unique := fun m m' a b t' ha hb hta htb => ?_ }
  · by_cases hm : m = n
    · exact hm ▸ hq.face
    · exact h.face m a t' (hother hm ha) hta
  · by_cases hm : m = n
    · subst hm
      obtain ⟨rfl, rfl⟩ := hself ha hta
      exact hname
    · exact h.name m a t' (hother hm ha) hta
  · by_cases hm : m = n
    · subst hm
      exact hconstants a ha
    · exact h.constants m a t' (hother hm ha) hta
  · by_cases hm : m = n
    · subst hm
      obtain ⟨rfl, rfl⟩ := hself ha hta
      exact ⟨x, args, htag, hexpects, hconforms⟩
    · -- the sockets of the others stay, so they conform as before
      obtain ⟨y, old, hy, he, hc⟩ := h.planned m a t' (hother hm ha) hta
      exact ⟨y, old, hy, hmono m y he, hc.transfer rfl
        (fun index => by rw [hq.links ⟨m, index⟩ hm]) (fun o ho => hq.owned (hc.owned o ho))
        fun o ho => (hface o.node (hc.owned o ho)).socket⟩
  · by_cases hm : m = n
    · by_cases hm' : m' = n
      · rw [hm, hm']
      · subst hm
        obtain ⟨-, rfl⟩ := hself ha hta
        exact absurd htb (hfresh hm' hb)
    · by_cases hm' : m' = n
      · subst hm'
        obtain ⟨-, rfl⟩ := hself hb htb
        exact absurd hta (hfresh hm ha)
      · exact h.unique m m' a b t' (hother hm ha) (hother hm' hb) hta htb

end Gains

end Graph

end NodeFormula
