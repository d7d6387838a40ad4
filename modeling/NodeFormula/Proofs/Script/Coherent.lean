import NodeFormula.Proofs.Build.Standing
import NodeFormula.Proofs.Pass.Constants
import NodeFormula.Proofs.Script.Actions
import NodeFormula.Proofs.Script.Interpreted
/-!
# NodeFormula — sessions that hold together

A session is coherent when its pass stands and its separators are nodes that separate vectors.
From a coherent session, with values at hand, an action either ends in a coherent session, with
values that are at hand there, or is refused and has built nothing (`Coherent.ends_run`): what
could go wrong in the middle of it has been ruled out by then. The values that it gives have
the kinds of their sockets if its arguments have.
-/

namespace NodeFormula

open Graph Pass

/-! ## Writing an output of the graph -/

namespace Pass

variable {p q : Pass} {o : OutputRef} {i : InputRef} {v : Value} {s : Socket}

/-- Nothing but the node that takes the outputs has changed. -/
structure Writes (p q : Pass) : Prop where
  wf : q.graph.WellFormed
  nodes : ∀ n, n ≠ exit → q.graph.node? n = p.graph.node? n
  tags : ∀ a, q.graph.node? exit = some a → ∃ b, p.graph.node? exit = some b ∧ a.tag = b.tag
  touched : q.touched = p.touched
  derived : q.derived = p.derived
  cache : q.cache = p.cache

namespace Standing

variable (hp : Standing p)

include hp

/-- The pass stands as before, with the same nodes in use. -/
theorem writes (h : Writes p q) : Standing q ∧ Settled p q ∧ ∀ t, q.Uses t → p.Uses t := by
  have hshows : q.graph.Shows p := fun n hn => h.nodes n (hp.ne_exit hn)
  have hsettled : Settled p q := ⟨fun n hn => h.touched ▸ hn, hshows⟩
  refine ⟨⟨⟨h.wf, fun n a hn ha => ?_⟩, fun n hn => ?_, fun x hx => ?_⟩, hsettled, ?_⟩
  · rcases hn with rfl | rfl
    · exact hp.ready.untagged _ a (Or.inl rfl) ((h.nodes _ (by decide)).symm.trans ha)
    · obtain ⟨b, hb, htag⟩ := h.tags a ha
      exact htag.trans (hp.ready.untagged _ b (Or.inr rfl) hb)
  · rw [h.touched] at hn
    obtain ⟨a, t, ha, htag⟩ := hp.touched n hn
    exact ⟨a, t, (hshows n (Or.inr hn)).trans ha, htag⟩
  · exact hsettled.uses (hp.cached x (h.cache ▸ hx))
  · rintro t ⟨n, hn, a, ha, htag⟩
    rw [h.touched] at hn
    exact ⟨n, hn, a, (hshows n (Or.inr hn)).symm.trans ha, htag⟩

/-- **An output at hand is linked to an output of the graph**: nothing leads back from there. -/
theorem linkOutput_writes (ho : (Operand.socket o).AtHand p) (hi : i.node = exit)
    (hs : p.graph.inputSocket i = .ok s) :
    Ensures (· = p) (linkOutput o i) (fun _ => Writes p) fun (_ : GraphError) _ => False := by
  have hwf := hp.ready.wf
  have hleaf : ∀ l ∈ p.graph.links, l.source.node ≠ exit := by
    intro l hl hexit
    obtain ⟨socket, hsocket⟩ := hwf.sources l hl
    obtain ⟨a, ha, hget⟩ := outputSocket_eq_ok.1 hsocket
    obtain ⟨hmem, hid⟩ := mem_of_node? ha
    rw [hexit] at hid
    have hfits := hwf.fits a hmem
    have houtputs := hfits.outputs (by rw [hid]; decide)
    rw [hfits.exit_iff.2 hid, NodeKind.outputs, List.map_eq_nil_iff] at houtputs
    rw [houtputs] at hget
    cases hget
  have hfeeds : p.graph.feeds i.node o.node = false :=
    feeds_eq_false (hi ▸ hleaf) (hi ▸ hp.ne_exit ho.1)
  intro p' hp'
  subst hp'
  rw [linkOutput_eq hwf ho.2 ⟨s, hs⟩ hfeeds]
  by_cases hlinked : (p'.graph.incoming? i).map Link.source = some o
  · rw [if_pos hlinked]
    exact ⟨hwf, fun _ _ => rfl, fun a ha => ⟨a, ha, rfl⟩, rfl, rfl, rfl⟩
  · rw [if_neg hlinked]
    exact ⟨hwf.relinked ho.2 ⟨s, hs⟩ hfeeds, fun _ _ => rfl, fun a ha => ⟨a, ha, rfl⟩, rfl, rfl, rfl⟩

/-- **An output of the graph holds a constant** that fits it. -/
theorem setConstant_writes (hi : i.node = exit) (hs : p.graph.inputSocket i = .ok s)
    (hfits : ¬ (v.type = .vector ∧ s.type = .float)) :
    Ensures (· = p) (setConstant i v) (fun _ => Writes p) fun (_ : GraphError) _ => False := by
  have hwf := hp.ready.wf
  obtain ⟨b, hrun⟩ := setConstant_eq hwf hs hfits
  intro p' hp'
  subst hp'
  rw [hrun]
  refine ⟨(hwf.unlinked i).holding i v, fun n hn => ?_, fun a ha => ?_, rfl, rfl, rfl⟩
  · rcases node?_holding (g := p'.graph.unlinked i) (i := i) (v := v) n with hnode | ⟨heq, -⟩
    · exact hnode
    · exact absurd (heq.trans hi) hn
  · rcases node?_holding (g := p'.graph.unlinked i) (i := i) (v := v) exit with hnode | ⟨-, w, hnode⟩
    · exact ⟨a, hnode.symm.trans ha, rfl⟩
    · obtain ⟨c, hc, rfl⟩ := Option.map_eq_some_iff.1 (hnode.symm.trans ha)
      exact ⟨c, hc, rfl⟩

end Standing

end Pass

/-! ## Values -/

/-- The input of a name is an output of the entry. -/
theorem Graph.input?_eq_some {g : Graph} {name : String} {o : OutputRef} {type : SocketType}
    (h : g.input? name = some (o, type)) : o.node = entry ∧ g.outputType? o = some type := by
  rw [input?] at h
  obtain ⟨⟨index, type'⟩, hfind, heq⟩ := Option.map_eq_some_iff.1 h
  simp only [Prod.mk.injEq] at heq
  obtain ⟨rfl, rfl⟩ := heq
  obtain ⟨s, hs, -, rfl⟩ := findSocket?_eq_some hfind
  refine ⟨rfl, ?_⟩
  rw [inputSockets] at hs
  cases hnode : g.node? entry with
  | none =>
    rw [hnode] at hs
    cases hs
  | some a =>
    rw [hnode, Option.map_some, Option.getD_some] at hs
    have hsocket : g.outputSocket ⟨entry, index⟩ = .ok s := outputSocket_eq_ok.2 ⟨a, hnode, hs⟩
    rw [outputType?, hsocket]
    rfl

namespace ScriptValue

variable {p q : Pass} {g : Graph} {v : ScriptValue}

/-- A value that can be used: a view of an output that is there, on a node in use. An output of
the graph that was written is a value as well, which no operation takes. -/
def AtHand (p : Pass) (v : ScriptValue) : Prop :=
  match v.target with
  | .output o => (Operand.socket o).AtHand p ∧ v.kind ≠ .sink
  | .sink _ => v.kind = .sink

/-- **The kind of a value is that of its socket.** -/
def Typed (g : Graph) (v : ScriptValue) : Prop := v.output?.bind g.outputType? = v.kind.socketType?

theorem AtHand.of_settled (hv : v.AtHand p) (h : Settled p q) : v.AtHand q := by
  rw [AtHand] at hv ⊢
  cases htarget : v.target with
  | output o =>
    rw [htarget] at hv
    exact ⟨h.atHand hv.1, hv.2⟩
  | sink i =>
    rw [htarget] at hv
    exact hv

theorem AtHand.output (hv : v.AtHand p) {o : OutputRef} (ho : v.output? = some o) :
    (Operand.socket o).AtHand p := by
  rw [AtHand] at hv
  rw [output?] at ho
  cases htarget : v.target with
  | output o' =>
    rw [htarget] at hv ho
    cases ho
    exact hv.1
  | sink i =>
    rw [htarget] at ho
    cases ho

/-- Sockets in use keep their types. -/
theorem Typed.of_settled (hv : v.Typed p.graph) (hat : v.AtHand p) (h : Settled p q) :
    v.Typed q.graph := by
  rw [Typed] at hv ⊢
  cases ho : v.output? with
  | none =>
    rw [ho] at hv
    exact hv
  | some o =>
    rw [ho] at hv
    exact (h.outputType? (hat.output ho).1).trans hv

end ScriptValue

/-! ## Arguments -/

section

variable {p : Pass} {g : Graph} {function : String} {args : List Arg} {xs : List Operand}
  {ks : List Kind}

/-- What an argument is as an operand. -/
theorem Arg.atHand_operand {a : Arg} {x : Operand} (h : a.operand function = .ok x)
    (hv : ∀ v, a = .value v → v.AtHand p) : x.AtHand p := by
  cases x with
  | literal v => trivial
  | socket o =>
    obtain ⟨v, rfl, ho⟩ := value_of_operand h
    exact (hv v rfl).output ho

/-- An operand is a vector if its argument is of that kind. -/
theorem Arg.isVector_operand {a : Arg} {x : Operand} {k : Kind} (h : a.operand function = .ok x)
    (hk : a.kind = .ok k) (hv : ∀ v, a = .value v → v.Typed g) :
    x.isVector g = (k == .vector) := by
  cases a with
  | value v =>
    cases hk
    rw [operand] at h
    cases ho : v.output? with
    | none =>
      rw [ho] at h
      cases h
    | some o =>
      rw [ho] at h
      cases h
      have htyped := hv v rfl
      rw [ScriptValue.Typed, ho, Option.bind_some] at htyped
      rw [Operand.isVector, Operand.type?, htyped]
      cases v.kind <;> rfl
  | float a =>
    cases hk
    cases h
    rfl
  | sequence items =>
    rw [kind] at hk
    rcases items with _ | ⟨x, _ | ⟨y, _ | ⟨z, _ | ⟨w, rest⟩⟩⟩⟩ <;> cases h
    cases hk
    rfl

/-- Operands hold a vector if their arguments do. -/
theorem Arg.any_isVector (h : args.mapM (·.operand function) = .ok xs) (hk : Arg.kinds args = .ok ks)
    (hv : ∀ v, .value v ∈ args → v.Typed g) :
    xs.any (·.isVector g) = ks.contains .vector := by
  induction args generalizing xs ks with
  | nil =>
    cases h
    cases hk
    rfl
  | cons a args ih =>
    rw [List.mapM_cons] at h
    rw [kinds, List.mapM_cons] at hk
    obtain ⟨x, hx, h⟩ := bind_eq_ok h
    obtain ⟨xs', hxs, h⟩ := bind_eq_ok h
    obtain ⟨k, hkind, hk⟩ := bind_eq_ok hk
    obtain ⟨ks', hks, hk⟩ := bind_eq_ok hk
    cases h
    cases hk
    rw [List.any_cons, List.contains_cons, ih hxs hks fun v hv' => hv v (List.mem_cons_of_mem _ hv'),
      Arg.isVector_operand hx hkind fun v heq => hv v (heq ▸ List.mem_cons_self), Bool.beq_comm]

theorem Arg.length_kinds (h : Arg.kinds args = .ok ks) : ks.length = args.length := by
  induction args generalizing ks with
  | nil =>
    cases h
    rfl
  | cons a args ih =>
    rw [kinds, List.mapM_cons] at h
    obtain ⟨k, -, h⟩ := bind_eq_ok h
    obtain ⟨ks', hks, h⟩ := bind_eq_ok h
    cases h
    rw [List.length_cons, List.length_cons, ih hks]

end

/-- What an operator gives has the type that its function gives. -/
theorem Operator.socketType?_of_result? {op : Operator} {l kind : Kind} {r : Option Kind}
    (h : op.result? l r = some kind) : kind ≠ .sink ∧
      kind.socketType? = some (if (l :: r.toList).contains .vector then .vector else .float) := by
  cases r with
  | none => cases op <;> cases l <;> cases h <;> exact ⟨nofun, rfl⟩
  | some r => cases op <;> cases l <;> cases r <;> cases h <;> exact ⟨nofun, rfl⟩

theorem Operator.support_function {op : Operator} {f : Builtin}
    (hf : Catalogue.get? op.function = some f) : f.support = .scalarOrVector := by
  have hall : ∀ f ∈ Catalogue.get? op.function, f.support = .scalarOrVector := by
    cases op <;> decide +kernel
  exact hall f hf

namespace Session

variable [TagDigest] {s s' s'' : Session} {v : ScriptValue}

/-- **What holds of a session between two actions.** -/
structure Coherent (s : Session) : Prop where
  standing : Standing s.pass
  keyed : ∃ keys, Keyed keys s.pass
  separators : ∀ x ∈ s.separators,
    x.2 ∈ s.pass.touched ∧ s.pass.graph.kind? x.2 = some .separateXyz

/-- A later session, in which what was in use is as it was. -/
structure Advances (s s' : Session) : Prop where
  coherent : s'.Coherent
  settled : Settled s.pass s'.pass

/-- A later session in which nothing has been built. -/
structure Refused (s s' : Session) : Prop extends Advances s s' where
  graph : s'.pass.graph = s.pass.graph
  report : s'.pass.report = s.pass.report

theorem Advances.trans (h : Advances s s') (h' : Advances s' s'') : Advances s s'' :=
  ⟨h'.coherent, h.settled.trans h'.settled⟩

/-- Values are counted, and that is all. -/
theorem Advances.counting (h : Advances s s') (counters : Counters) :
    Advances s { s' with counters } :=
  ⟨⟨h.coherent.standing, h.coherent.keyed, h.coherent.separators⟩, h.settled⟩

theorem Coherent.start {g : Graph} (hg : g.Ready) (spacing : Float32) :
    (start g spacing).Coherent where
  standing := .start hg spacing
  keyed := ⟨[], rfl, List.forall_mem_nil _, fun _ ⟨_, hn, _⟩ => absurd hn List.not_mem_nil⟩
  separators := List.forall_mem_nil _

namespace Coherent

variable (hs : s.Coherent)

include hs

theorem refl : Advances s s := ⟨hs, .refl _⟩

theorem refused : Refused s s := ⟨hs.refl, rfl, rfl⟩

/-- The pass has gone on. -/
theorem advances {p : Pass} {keys : List Key} (hp : Standing p) (hkeyed : Keyed keys p)
    (h : Settled s.pass p) : Advances s { s with pass := p } := by
  refine ⟨⟨hp, ⟨keys, hkeyed⟩, fun x hx => ?_⟩, h⟩
  obtain ⟨hmem, hkind⟩ := hs.separators x hx
  refine ⟨h.touched _ hmem, ?_⟩
  rw [← hkind, kind?, kind?]
  exact congrArg (Option.map Node.kind) (h.shows _ (Or.inr hmem))

/-! ## One action after the other -/

theorem ends_input (kind : Kind) (name : String) :
    Ends s (input kind name)
      (fun v s' => Advances s s' ∧ v.AtHand s'.pass ∧ v.Typed s'.pass.graph) (Refused s) := by
  refine .graph ?_
  cases hinput : s.pass.graph.input? name with
  | none => exact .throw hs.refused
  | some found =>
    obtain ⟨o, type⟩ := found
    obtain ⟨hentry, htype⟩ := input?_eq_some hinput
    simp only
    split
    · rename_i hkind
      refine .newValue fun id counters => ⟨hs.refl.counting counters,
        ⟨⟨Or.inl hentry, exists_outputSocket htype⟩, ?_⟩, htype.trans hkind⟩
      rintro rfl
      cases hkind
    · exact .throw hs.refused

/-- An output of the graph is written, or the action is refused. -/
theorem ends_write {i : InputRef} {socket : Socket} {taker given : Kind} {arg : Arg}
    (hi : i.node = exit) (hsocket : s.pass.graph.inputSocket i = .ok socket)
    (htype : some socket.type = taker.socketType?) (hkind : arg.kind = .ok given)
    (haccepts : accepts taker given = true) (harg : ∀ v, arg = .value v → v.AtHand s.pass) :
    Ends s (write i taker given arg) (fun _ s' => Advances s s') (Refused s) := by
  obtain ⟨keys, hkeyed⟩ := hs.keyed
  -- a write derives no tag, so the keys are the same
  have hwritten : ∀ {q}, Writes s.pass q → Advances s { s with pass := q } := by
    intro q hq
    obtain ⟨hstanding, hsettled, huses⟩ := hs.standing.writes hq
    exact hs.advances hstanding
      ⟨hq.derived.trans hkeyed.derived, hkeyed.sound, fun t ht => hkeyed.spent t (huses t ht)⟩ hsettled
  have hconstant : ∀ v : Value, ¬ (v.type = .vector ∧ socket.type = .float) →
      Ends s (onPass graphError (Pass.setConstant i v)) (fun _ s' => Advances s s') (Refused s) :=
    fun v hfits => .onPass (hs.standing.setConstant_writes hi hsocket hfits)
      (fun _ _ hq => hwritten hq) fun _ _ h => h.elim
  cases arg with
  | value v =>
    rw [write]
    cases ho : v.output? with
    | none => exact .throw hs.refused
    | some o =>
      exact (Ends.onPass (hs.standing.linkOutput_writes ((harg v rfl).output ho) hi hsocket)
        (fun _ _ hq => hwritten hq) fun _ _ h => h.elim).bind fun _ _ h => h
  | float a => exact (hconstant (.float a) (by simp [Value.type])).bind fun _ _ h => h
  | sequence items =>
    rw [Arg.kind] at hkind
    rcases items with _ | ⟨x, _ | ⟨y, _ | ⟨z, _ | ⟨w, rest⟩⟩⟩⟩ <;> cases hkind
    refine (hconstant (.vector ⟨x, y, z⟩) ?_).bind fun _ _ h => h
    rintro ⟨-, hfloat⟩
    rw [hfloat] at htype
    cases taker <;> cases htype
    cases haccepts

theorem ends_output (kind : Kind) (name : String) {arg : Arg}
    (harg : ∀ v, arg = .value v → v.AtHand s.pass) :
    Ends s (output kind name arg)
      (fun v s' => Advances s s' ∧ v.AtHand s'.pass ∧ v.Typed s'.pass.graph) (Refused s) := by
  refine .graph ?_
  cases houtput : s.pass.graph.output? name with
  | none => exact .throw hs.refused
  | some found =>
    obtain ⟨i, type⟩ := found
    obtain ⟨hexit, socket, hsocket, -, rfl⟩ := output?_eq_some houtput
    simp only
    split
    · exact .throw hs.refused
    rename_i htype
    refine .check hs.refused fun given hgiven => ?_
    split
    · exact .throw hs.refused
    rename_i haccepts
    refine (hs.ends_write hexit hsocket (not_not.1 htype) hgiven (by simpa using haccepts)
      harg).bind fun _ s₁ h => .newValue fun id counters => ?_
    exact ⟨h.counting counters, rfl, rfl⟩

/-- A tag is derived, and that is all. -/
theorem ends_nextTag (k : Key) {E : Session → Prop} :
    Ends s (onPass graphError (nextTag k.function k.identities)) (fun t s' => ∃ keys,
      t = k.next keys ∧ s' = { s with pass := s.pass.deriving k } ∧
        Settled s.pass (s.pass.deriving k) ∧ Assembling k keys [] (s.pass.deriving k)) E := by
  obtain ⟨keys, hkeyed⟩ := hs.keyed
  obtain ⟨hrun, hassembling⟩ := hs.standing.nextTag (ε := GraphError) hkeyed k
  rw [Ends, onPass, hrun]
  exact ⟨keys, rfl, rfl, ⟨fun _ h => h, fun _ _ => rfl⟩, hassembling⟩

/-- **A function makes all its nodes, or none.** -/
theorem ends_materialize {function : String} {args : List Arg} {kind : Kind} (hkind : kind ≠ .sink)
    (hargs : ∀ v, .value v ∈ args → v.AtHand s.pass) :
    Ends s (materialize function args kind)
      (fun v s' => Advances s s' ∧ v.AtHand s'.pass ∧ v.kind = kind ∧
        ∃ f xs, Catalogue.get? function = some f ∧ args.mapM (·.operand function) = .ok xs ∧
          v.output?.bind s'.pass.graph.outputType?
            = some (f.resultType (xs.any (·.isVector s.pass.graph)))) (Refused s) := by
  refine .check hs.refused fun xs hxs => .graph (.check hs.refused fun f hrequired => ?_)
  have hf := Catalogue.require_eq_ok.1 (mapError_eq_ok hrequired)
  let k : Key := ⟨function, args.map (·.identity s.pass.graph)⟩
  have hsound : k.Sound := (orderly_of_stages? (stages?_of_get? hf)).2
  have hatHand : ∀ x ∈ xs, x.AtHand s.pass := by
    intro x hx
    obtain ⟨a, ha, hoperand⟩ := exists_of_mapM_eq_ok hxs x hx
    exact Arg.atHand_operand hoperand fun v hv => hargs v (hv ▸ ha)
  -- the tag is derived, and only that is left of a call that is refused
  refine (hs.ends_nextTag k).bind fun t s₁ ⟨keys, ht, hs₁, hsame, hassembling⟩ => ?_
  subst ht hs₁
  refine (Ends.onPass (s := { s with pass := s.pass.deriving k }) (Q := fun o s' => Advances s s' ∧
    (Operand.socket o).AtHand s'.pass ∧ s'.pass.graph.outputType? o
      = some (f.resultType (xs.any (·.isVector s.pass.graph))))
    (ensures_call (k := k) hf hassembling fun x hx => hsame.atHand (hatHand x hx))
    (fun o p h => ?_) fun e p h => ?_).bind fun o s₂ h => .newValue fun id counters => ?_
  · obtain ⟨⟨hstanding, hkeyed', hsettled⟩, ho, htype⟩ := h
    exact ⟨hs.advances hstanding hkeyed' (hsame.trans hsettled), ho, htype⟩
  · obtain ⟨rfl, -⟩ := h
    exact ⟨hs.advances hassembling.standing (hassembling.keyed hsound) hsame, rfl, rfl⟩
  · obtain ⟨hadvances, ho, htype⟩ := h
    exact ⟨hadvances.counting counters, ⟨ho, hkind⟩, rfl, f, xs, hf, hxs, htype⟩

theorem ends_call {function : String} {args : List Arg}
    (hargs : ∀ v, .value v ∈ args → v.AtHand s.pass) :
    Ends s (call function args) (fun v s' => Advances s s' ∧ v.AtHand s'.pass ∧
      ((∀ v, .value v ∈ args → v.Typed s.pass.graph) → v.Typed s'.pass.graph)) (Refused s) := by
  refine .check hs.refused fun f hrequired => .check hs.refused fun ks hks => ?_
  have hf := Catalogue.require_eq_ok.1 (mapError_eq_ok hrequired)
  split
  · exact .throw hs.refused
  refine (hs.ends_materialize (by split <;> exact nofun) hargs).weaken (fun v s' h => ?_)
    fun _ h => h
  obtain ⟨hadvances, hv, hkind, f', xs, hf', hxs, htype⟩ := h
  refine ⟨hadvances, hv, fun htyped => ?_⟩
  rw [hf] at hf'
  cases hf'
  rw [ScriptValue.Typed, htype, hkind, Arg.any_isVector hxs hks htyped, Builtin.resultType]
  split <;> rfl

theorem ends_callAs {function : String} {args : List Arg} (kind : Kind)
    (hargs : ∀ v, .value v ∈ args → v.AtHand s.pass) :
    Ends s (callAs function args kind) (fun v s' => Advances s s' ∧ v.AtHand s'.pass)
      (Refused s) := by
  refine .check hs.refused fun ks _ => ?_
  split
  · exact .throw hs.refused
  rename_i hkind
  have hsink : kind ≠ .sink := by
    rintro rfl
    exact hkind (by simp)
  exact (hs.ends_materialize hsink hargs).weaken (fun v s' h => ⟨h.1, h.2.1⟩) fun _ h => h

theorem ends_operate (op : Operator) {lhs : Arg} {rhs : Option Arg}
    (hargs : ∀ v, .value v ∈ lhs :: rhs.toList → v.AtHand s.pass) :
    Ends s (operate op lhs rhs) (fun v s' => Advances s s' ∧ v.AtHand s'.pass ∧
      ((∀ v, .value v ∈ lhs :: rhs.toList → v.Typed s.pass.graph) → v.Typed s'.pass.graph))
      (Refused s) := by
  refine .check hs.refused fun ks hks => ?_
  cases ks with
  | nil => exact .throw hs.refused
  | cons l rest =>
    simp only
    cases hresult : op.result? l rest.head? with
    | none => exact .throw hs.refused
    | some kind =>
      obtain ⟨hsink, hkindType⟩ := Operator.socketType?_of_result? hresult
      refine (hs.ends_materialize hsink hargs).weaken (fun v s' h => ?_) fun _ h => h
      obtain ⟨hadvances, hv, hkind, f, xs, hf, hxs, htype⟩ := h
      refine ⟨hadvances, hv, fun htyped => ?_⟩
      have hrest : rest.head?.toList = rest := by
        have hlength := Arg.length_kinds hks
        match rest, rhs with
        | [], _ => rfl
        | [_], _ => rfl
        | _ :: _ :: _, none => simp at hlength
        | _ :: _ :: _, some _ => simp at hlength
      rw [hrest] at hkindType
      rw [ScriptValue.Typed, htype, hkind, hkindType, Arg.any_isVector hxs hks htyped,
        Builtin.resultType, Operator.support_function hf]
      rfl

/-- **A vector is separated** by a node that is there, or that is made. -/
theorem ends_separate {o : OutputRef} (hkind : v.kind = .vector) (ho : v.output? = some o)
    (hv : v.AtHand s.pass) :
    Ends s (separate v) (fun n s' => Advances s s' ∧
      n ∈ s'.pass.touched ∧ s'.pass.graph.kind? n = some .separateXyz) fun _ => False := by
  rw [separate, hkind, ho]
  refine .get ?_
  cases hlookup : s.separators.lookup o with
  | some n =>
    exact .pure ⟨hs.refl, hs.separators _ (mem_of_lookup hlookup)⟩
  -- the first component of a vector makes the node, under a tag of its own
  | none =>
    refine .graph ?_
    let k : Key := ⟨"separate", [v.identity s.pass.graph]⟩
    let stage : Stage := .single .separateXyz
    have hsound : k.Sound := (by decide : Unmarked "separate")
    refine (hs.ends_nextTag k).bind fun t s₁ ⟨keys, ht, hs₁, hsame, hassembling⟩ => ?_
    subst ht hs₁
    have hfresh : ¬ (s.pass.deriving k).Uses (stage.tag (k.next keys)) := by
      intro hused
      rcases hassembling.spent _ hused with hspent | ⟨_, hmem, -⟩
      · exact not_spent_next hassembling.sound hsound stage hspent
      · exact absurd hmem List.not_mem_nil
    have hfits : Fits .separateXyz [.socket o] := by
      intro j w spec hw
      rcases List.mem_singleton.1 (List.mem_of_getElem? hw) with hw
      cases hw
    have hargs : ∀ x ∈ [Operand.socket o], x.AtHand (s.pass.deriving k) := by
      intro x hx
      rw [List.mem_singleton.1 hx]
      exact hsame.atHand (hv.output ho)
    refine (Ends.onPass (s := { s with pass := s.pass.deriving k }) (Q := fun n s' => Advances s s' ∧
      s'.separators = s.separators ∧ n ∈ s'.pass.touched ∧
      s'.pass.graph.kind? n = some .separateXyz)
      (hassembling.standing.findOrCreate_obtains hfresh rfl rfl hfits hargs) (fun n p h => ?_)
      fun _ _ h => h.elim).bind fun n s₂ h => ?_
    · exact ⟨hs.advances h.standing ((hassembling.obtained h).keyed hsound)
        (hsame.trans h.settled), rfl, h.touched, h.kind⟩
    · obtain ⟨hadvances, hseparators, hmem, hseparate⟩ := h
      refine ⟨⟨⟨hadvances.coherent.standing, hadvances.coherent.keyed, ?_⟩, hadvances.settled⟩, hmem,
        hseparate⟩
      exact List.forall_mem_cons.2 ⟨⟨hmem, hseparate⟩, hadvances.coherent.separators⟩

/-- **A vector has its components.** -/
theorem ends_component_of_vector {o : OutputRef} (hkind : v.kind = .vector)
    (ho : v.output? = some o) (hv : v.AtHand s.pass) {index : Nat} (hindex : index < 3) :
    Ends s (component v index)
      (fun w s' => Advances s s' ∧ w.AtHand s'.pass ∧ w.Typed s'.pass.graph) fun _ => False := by
  refine (hs.ends_separate hkind ho hv).bind fun n s₁ h => .newValue fun id counters => ?_
  obtain ⟨hadvances, hmem, hseparate⟩ := h
  have htype : s₁.pass.graph.outputType? ⟨n, index⟩ = some .float := by
    rw [hadvances.coherent.standing.ready.wf.outputType?_of_kind? hseparate rfl]
    match index with
    | 0 | 1 | 2 => rfl
  exact ⟨hadvances.counting counters, ⟨⟨Or.inr hmem, exists_outputSocket htype⟩, nofun⟩, htype⟩

omit hs in
/-- Nothing else has components. -/
theorem component_of_not_vector (h : ∀ o, ¬ (v.kind = .vector ∧ v.output? = some o)) (index : Nat) :
    ∃ e, component v index s = .error e s := by
  have hseparate : ∃ e, separate v s = .error e s := by
    rw [separate]
    cases hkind : v.kind with
    | scalar | sink => exact ⟨_, rfl⟩
    | vector =>
      cases ho : v.output? with
      | none => exact ⟨_, rfl⟩
      | some o => exact absurd ⟨hkind, ho⟩ (h o)
  obtain ⟨e, he⟩ := hseparate
  refine ⟨e, ?_⟩
  change EStateM.bind (separate v) _ s = _
  rw [EStateM.bind, he]

theorem ends_component (hv : v.AtHand s.pass) {index : Nat} (hindex : index < 3) :
    Ends s (component v index)
      (fun w s' => Advances s s' ∧ w.AtHand s'.pass ∧ w.Typed s'.pass.graph) (Refused s) := by
  by_cases h : ∃ o, v.kind = .vector ∧ v.output? = some o
  · obtain ⟨o, hkind, ho⟩ := h
    exact (hs.ends_component_of_vector hkind ho hv hindex).weaken (fun _ _ h => h)
      fun _ h => h.elim
  · obtain ⟨e, he⟩ := component_of_not_vector (s := s) (not_exists.1 h) index
    rw [Ends, he]
    exact hs.refused

/-- **The components of a vector are there together.** What is none is refused at the first. -/
theorem ends_mapM_component (hv : v.AtHand s.pass) {indices : List Nat}
    (hindices : ∀ i ∈ indices, i < 3) :
    Ends s (indices.mapM (component v))
      (fun ws s' => Advances s s' ∧ ∀ w ∈ ws, w.AtHand s'.pass ∧ w.Typed s'.pass.graph)
      (Refused s) := by
  by_cases h : ∃ o, v.kind = .vector ∧ v.output? = some o
  · obtain ⟨o, hkind, ho⟩ := h
    have hmapM : Ends s (indices.mapM (component v)) (fun ws s' => Advances s s' ∧
        (∀ w ∈ ws, w.AtHand s'.pass ∧ w.Typed s'.pass.graph) ∧
        ∀ w : ScriptValue, w.AtHand s.pass ∧ w.Typed s.pass.graph →
          w.AtHand s'.pass ∧ w.Typed s'.pass.graph) fun _ => False := by
      refine .mapM (P := fun (w : ScriptValue) s => w.AtHand s.pass ∧ w.Typed s.pass.graph) hs.refl
        fun i hi s₁ hs₁ => ?_
      refine (hs₁.coherent.ends_component_of_vector hkind ho (hv.of_settled hs₁.settled)
        (hindices i hi)).weaken (fun w s₂ h => ?_) fun _ h => h
      exact ⟨hs₁.trans h.1, h.2, fun b hb =>
        ⟨hb.1.of_settled h.1.settled, hb.2.of_settled hb.1 h.1.settled⟩⟩
    exact hmapM.weaken (fun _ _ h => ⟨h.1, h.2.1⟩) fun _ h => h.elim
  · cases indices with
    | nil => exact ⟨hs.refl, List.forall_mem_nil _⟩
    | cons i indices =>
      obtain ⟨e, he⟩ := component_of_not_vector (s := s) (not_exists.1 h) i
      rw [List.mapM_cons]
      have hfirst : Ends s (component v i) (fun (_ : ScriptValue) _ => False) (Refused s) := by
        rw [Ends, he]
        exact hs.refused
      exact hfirst.bind fun _ _ h => h.elim

theorem ends_index (hv : v.AtHand s.pass) (i : Int) :
    Ends s (index v i)
      (fun w s' => Advances s s' ∧ w.AtHand s'.pass ∧ w.Typed s'.pass.graph) (Refused s) := by
  simp only [index]
  generalize (if i < 0 then i + 3 else i) = resolved
  split
  · rename_i hresolved
    exact hs.ends_component hv (by omega)
  · exact .throw hs.refused

/-- **An action is carried out, or refused with nothing built.** The values it gives have the
kinds of their sockets if its arguments have, unless it says what kind they are of. -/
theorem ends_run (a : Action) (hvalues : ∀ v ∈ a.values, v.AtHand s.pass) :
    Ends s a.run (fun vs s' => Advances s s' ∧ ∀ v ∈ vs, v.AtHand s'.pass ∧
      (a.isCallAs = false → (∀ v ∈ a.values, v.Typed s.pass.graph) → v.Typed s'.pass.graph))
      (Refused s) := by
  have hargs : ∀ v, .value v ∈ a.args → v.AtHand s.pass :=
    fun v hv => hvalues v (Action.mem_values.2 hv)
  -- an operation that gives one value
  have hone : ∀ {x : ScriptM ScriptValue} {T : ScriptValue → Session → Prop},
      Ends s x (fun v s' => Advances s s' ∧ v.AtHand s'.pass ∧ T v s') (Refused s) →
      Ends s (x >>= fun v => Pure.pure [v])
        (fun vs s' => Advances s s' ∧ ∀ v ∈ vs, v.AtHand s'.pass ∧ T v s') (Refused s) :=
    fun hx => .map (hx.weaken (fun v s' h => ⟨h.1, List.forall_mem_singleton.2 h.2⟩) fun _ h => h)
  have htyped : ∀ {x : ScriptM (List ScriptValue)} {typed : Prop},
      Ends s x (fun vs s' => Advances s s' ∧ ∀ v ∈ vs, v.AtHand s'.pass ∧ v.Typed s'.pass.graph)
        (Refused s) →
      Ends s x (fun vs s' => Advances s s' ∧ ∀ v ∈ vs, v.AtHand s'.pass ∧
        (a.isCallAs = false → typed → v.Typed s'.pass.graph)) (Refused s) :=
    fun hx => hx.weaken (fun vs s' h => ⟨h.1, fun v hv => ⟨(h.2 v hv).1, fun _ _ => (h.2 v hv).2⟩⟩)
      fun _ h => h
  cases a with
  | input kind name => exact htyped (hone (hs.ends_input kind name))
  | output kind name arg =>
    exact htyped (hone (hs.ends_output kind name fun v hv => hargs v (hv ▸ List.mem_cons_self)))
  | operate op lhs rhs =>
    exact (hone (hs.ends_operate op hargs)).weaken
      (fun vs s' h => ⟨h.1, fun v hv => ⟨(h.2 v hv).1, fun _ htypes =>
        (h.2 v hv).2 fun w hw => htypes w (Action.mem_values.2 hw)⟩⟩) fun _ h => h
  | call function args =>
    exact (hone (hs.ends_call hargs)).weaken
      (fun vs s' h => ⟨h.1, fun v hv => ⟨(h.2 v hv).1, fun _ htypes =>
        (h.2 v hv).2 fun w hw => htypes w (Action.mem_values.2 hw)⟩⟩) fun _ h => h
  | callAs function args kind =>
    exact hone ((hs.ends_callAs kind hargs).weaken
      (fun v s' h => ⟨h.1, h.2, fun hnot => by cases hnot⟩) fun _ h => h)
  | component v axis =>
    exact htyped (hone (hs.ends_component (hargs v List.mem_cons_self) axis.isLt))
  | index v i => exact htyped (hone (hs.ends_index (hargs v List.mem_cons_self) i))
  | slice v first last =>
    refine htyped (hs.ends_mapM_component (hargs v List.mem_cons_self) fun i hi => ?_)
    rw [List.mem_range'_1] at hi
    omega
  | components v =>
    exact htyped (hs.ends_mapM_component (hargs v List.mem_cons_self) fun i hi =>
      List.mem_range.1 hi)

end Coherent

end Session

end NodeFormula
