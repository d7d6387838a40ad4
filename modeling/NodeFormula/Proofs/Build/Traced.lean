import NodeFormula.Proofs.Build.Called
/-!
# NodeFormula — the calls that a build makes

`Build.callsOf` lists the calls that a build makes for nodes, in their order, also if it fails
later. Every operation of a build asks for nodes by its calls alone, each node that it is given
meets its operands, and in the end the pass accounts for all of them (`Traced`). The proof is by
recursion over the expression (`traced_operand`), and `build_traced` is the result for a whole
build of a graph whose tagged nodes are on record.
-/

namespace NodeFormula

open Graph Pass

/-! ## The calls -/

namespace Build

variable {α : Type}

/-- The calls that follow a result, if there is one. -/
def onward (r : EStateM.Result BuildError Pass α) (f : α → Pass → List Call) : List Call :=
  match r with
  | .ok a p => f a p
  | .error _ _ => []

/-- The call for a node of its own. -/
def nodeCall (name : String) (kind : NodeKind) (values : List Operand) (p : Pass) : Call :=
  ⟨name, values, [.single kind], p⟩

/-- The calls for three elements of a tuple. -/
def vectorCalls (values : List Operand) (p : Pass) : List Call :=
  match numbers? values with
  | some _ => []
  | none => [nodeCall "combine" .combineXyz values p]

/-- The call for a function. One that is refused asks for no node. -/
def functionCall (name : String) (f : Builtin) (values : List Operand) (p : Pass) : Call :=
  match f.checkCall values p.graph with
  | .ok _ => ⟨name, values, f.stages, p⟩
  | .error _ => ⟨name, values, [], p⟩

/-- The calls for a whole expression after those for its parts. -/
def sinkCalls : Operand → Pass → List Call
  | .socket _, _ => []
  | .literal (.float a), p => [nodeCall "value" .value [.literal (.float a)] p]
  | .literal (.vector v), p =>
    [nodeCall "combine" .combineXyz (v.toList.map fun a => .literal (.float a)) p]

variable [TagDigest] (b : Bindings)

mutual

/-- The calls for an expression. -/
def calls (tuples : Bool) : Expr → Pass → List Call
  | .number .., _ => []
  | .ident .., _ => []
  | .call _ f args, p =>
    match Catalogue.require f with
    | .error _ => []
    | .ok function =>
      callsAll true args p ++ onward (operands b true args p) fun values q =>
        [functionCall f function values q]
  | .tuple _ items, p =>
    if tuples && items.length == 3 then
      callsAll false items p ++ onward (operands b false items p) vectorCalls
    else []
  | .binary .., _ => []
  | .unary .., _ => []

/-- The calls for expressions, from left to right. -/
def callsAll (tuples : Bool) : List Expr → Pass → List Call
  | [], _ => []
  | e :: es, p =>
    calls tuples e p ++ onward (operand b tuples e p) fun _ q => callsAll tuples es q

end

/-- The calls for a whole expression. -/
def rootCalls (e : Expr) (p : Pass) : List Call :=
  calls b true e p ++ onward (operand b true e p) sinkCalls

/-- **The calls that a build makes.** -/
def callsOf (o : BuildOptions) (e : Expr) (g : Graph) : List Call :=
  match check b o e g with
  | .error _ => []
  | .ok _ => rootCalls b e (Pass.start g o.spacing)

end Build

/-- The keys that a pass has derived after calls, the latest first. -/
def Call.keysAfter (cs : List Call) (keys : List Key) : List Key := (cs.map key).reverse ++ keys

theorem Call.keysAfter_append (cs ds : List Call) (keys : List Key) :
    keysAfter (cs ++ ds) keys = keysAfter ds (keysAfter cs keys) := by
  rw [keysAfter, keysAfter, keysAfter, List.map_append, List.reverse_append, List.append_assoc]

/-! ## What the calls ensure -/

section

variable [TagDigest] {known keys : List Key} {name : String} {p q : Pass} {cs : List Call}
  {α β : Type}

/-- **A pass after calls** accounts for the nodes that it was given, and has no others. -/
structure After (known : List Key) (name : String) (keys : List Key) (p : Pass) (cs : List Call)
    (q : Pass) : Prop where
  accounts : Accounts (fun _ => True) known name (Spent (Call.keysAfter cs keys))
    (Call.keysAfter cs keys) q
  advances : Advances (cs.flatMap Call.queries) p q

theorem After.nil (h : Accounts (fun _ => True) known name (Spent keys) keys p) :
    After known name keys p [] p := ⟨h, .refl p⟩

theorem After.append {ds : List Call} {r : Pass} (h : After known name keys p cs q)
    (h' : After known name (Call.keysAfter cs keys) q ds r) :
    After known name keys p (cs ++ ds) r := by
  refine ⟨Call.keysAfter_append cs ds keys ▸ h'.accounts, ?_⟩
  rw [List.flatMap_append]
  exact h.advances.trans h'.advances

/-- **An operation asks for nodes by calls.** If the digest tells their keys from those of
earlier builds, every node that it is given meets its operands, and the pass accounts for it. -/
def Traced (known : List Key) (name : String) (keys : List Key) (p : Pass)
    (x : PassM BuildError α) (cs : List Call) (R : α → Pass → Prop) : Prop :=
  (∀ a ∈ known, ∀ b ∈ Call.keysAfter cs keys, a.base = b.base → a = b) →
    (∀ c ∈ cs, c.Met) ∧ Ensures (· = p) x (fun a q => After known name keys p cs q ∧ R a q)
      fun _ q => After known name keys p cs q

namespace Traced

variable {x : PassM BuildError α} {R : α → Pass → Prop}

theorem pure (hp : Accounts (fun _ => True) known name (Spent keys) keys p) {a : α} (h : R a p) :
    Traced known name keys p (Pure.pure a) [] R := by
  refine fun _ => ⟨List.forall_mem_nil _, Ensures.pure fun q hq => ?_⟩
  subst hq
  exact ⟨.nil hp, h⟩

theorem throw (hp : Accounts (fun _ => True) known name (Spent keys) keys p) (e : BuildError) :
    Traced known name keys p (throw e : PassM BuildError α) [] R := by
  refine fun _ => ⟨List.forall_mem_nil _, Ensures.throw fun q hq => ?_⟩
  subst hq
  exact .nil hp

/-- A look at the pass. -/
theorem get {f : Pass → PassM BuildError α} (h : Traced known name keys p (f p) cs R) :
    Traced known name keys p (MonadState.get >>= f) cs R := by
  intro hdistinct
  obtain ⟨hmet, hrun⟩ := h hdistinct
  refine ⟨hmet, Ensures.get fun q hq => ?_⟩
  subst hq
  exact hrun

theorem bind {f : α → PassM BuildError β} {h : α → Pass → List Call} {S : β → Pass → Prop}
    (hx : Traced known name keys p x cs R)
    (hf : ∀ a q, After known name keys p cs q → R a q →
      Traced known name (Call.keysAfter cs keys) q (f a) (h a q) S) :
    Traced known name keys p (x >>= f) (cs ++ Build.onward (x p) h) S := by
  intro hdistinct
  rw [Call.keysAfter_append] at hdistinct
  obtain ⟨hmet, hrun⟩ := hx fun a ha b hb => hdistinct a ha b (List.mem_append_right _ hb)
  have hstep := hrun p rfl
  have hbind : (x >>= f) p = EStateM.bind x f p := rfl
  cases hr : x p with
  | error e q =>
    -- the second part makes no calls
    rw [hr] at hstep
    rw [Build.onward, List.append_nil]
    refine ⟨hmet, fun p' hp' => ?_⟩
    subst hp'
    rw [hbind, EStateM.bind, hr]
    exact hstep
  | ok a q =>
    rw [hr] at hstep
    rw [hr, Build.onward] at hdistinct
    rw [Build.onward]
    obtain ⟨hmet', hrun'⟩ := hf a q hstep.1 hstep.2 hdistinct
    refine ⟨fun c hc => (List.mem_append.1 hc).elim (hmet c) (hmet' c), fun p' hp' => ?_⟩
    subst hp'
    rw [hbind, EStateM.bind, hr]
    exact (hrun'.weaken (fun _ h => h) (fun b r h => ⟨hstep.1.append h.1, h.2⟩)
      fun _ r h => hstep.1.append h) q rfl

/-- What is made of a result. -/
theorem map {g : α → β} {S : β → Pass → Prop} (hx : Traced known name keys p x cs R)
    (hS : ∀ a q, After known name keys p cs q → R a q → S (g a) q) :
    Traced known name keys p (x >>= fun a => Pure.pure (g a)) cs S := by
  have hbind := hx.bind (f := fun a => Pure.pure (g a)) (h := fun _ _ => []) (S := S)
    fun a q hq hR => Traced.pure hq.accounts (hS a q hq hR)
  have hnone : Build.onward (x p) (fun _ _ => []) = [] := by
    cases x p <;> rfl
  rwa [hnone, List.append_nil] at hbind

end Traced

/-! ## Calls one by one -/

/-- A tag that no node is asked for with. -/
theorem after_tagFor {c : Call} (hstages : c.stages = []) (hsound : Unmarked c.function)
    (h : Accounts (fun _ => True) known name (Spent keys) keys c.pass) :
    c.Met ∧ After known name keys c.pass [c] c.begun := by
  have hqueries : c.queries = [] := by
    rw [c.queries_eq h.derived, hstages, Stage.queries]
  refine ⟨fun a ha => ?_, (h.derive (k := c.key) hsound).weaken fun _ => Spent.cons, ?_⟩
  · rw [hqueries] at ha
    exact absurd ha List.not_mem_nil
  · rw [List.flatMap_singleton, hqueries]
    exact ⟨⟨fun _ hn => hn, fun _ _ => rfl⟩, fun _ hn => Or.inl hn⟩

/-- **The nodes of a call**, which is for the stages that its function has. -/
theorem after_stages {c : Call} {first : Stage} {rest : List Stage}
    (hdistinct : ∀ a ∈ known, ∀ b ∈ Call.keysAfter [c] keys, a.base = b.base → a = b)
    (hname : '.' ∉ name.toList) (hs : c.stages = first :: rest)
    (hstages : stages? c.function = some c.stages)
    (hsuits : ∀ s ∈ c.stages, s.Suits c.operands)
    (hoperands : ∀ x ∈ c.operands, x.AtHand c.pass)
    (h : Accounts (fun _ => True) known name (Spent keys) keys c.pass) :
    c.Met ∧ ∃ o q, (do
        let o ← Builtin.buildStage (c.key.next keys) c.operands (.literal (.float 0)) first
        rest.foldlM
          (fun o s => Builtin.buildStage (c.key.next keys) c.operands (.socket o) s) o :
            PassM GraphError OutputRef) c.begun = .ok o q ∧
      After known name keys c.pass [c] q ∧ (Operand.socket o).AtHand q := by
  have hbegun : Accounts (fun _ => True) known name (Spent keys) (c.key :: keys) c.begun :=
    h.derive (orderly_of_stages? hstages).2
  have hkeys : ∀ a ∈ known, ∀ b ∈ c.key :: keys, a.base = b.base → a = b := hdistinct
  obtain ⟨hmet, o, q, hrun, hamid, hmoves⟩ := stages_met hkeys hname hstages hsuits hs hbegun
    hoperands rfl
  rw [← c.queries_eq h.derived] at hmet hmoves
  refine ⟨hmet, o, q, hrun, ⟨hamid.spent, ?_⟩, hamid.previous_atHand⟩
  rw [List.flatMap_singleton]
  exact ⟨⟨hmoves.settled.touched, hmoves.settled.shows⟩, hmoves.asked⟩

/-- What comes of an expression: an operand at hand, and a number where no tuple may stand. -/
structure Usable (tuples : Bool) (p : Pass) (x : Operand) : Prop where
  atHand : x.AtHand p
  scalar : tuples = false → ∀ v, x = .literal v → v.type = .float

omit [TagDigest] in
theorem Usable.settled {tuples : Bool} {x : Operand} (h : Usable tuples p x) (hq : Settled p q) :
    Usable tuples q x := ⟨hq.atHand h.atHand, h.scalar⟩

variable (hname : '.' ∉ name.toList)

include hname

/-- **A node of its own.** -/
theorem traced_node {function : String} {kind : NodeKind} {values : List Operand}
    (hp : Accounts (fun _ => True) known name (Spent keys) keys p)
    (hstages : stages? function = some [.single kind]) (hlen : values.length = kind.inputs.length)
    (hvalues : ∀ x ∈ values, Usable false p x) :
    Traced known name keys p (Build.node function kind values)
      [Build.nodeCall function kind values p] fun o q => (Operand.socket o).AtHand q := by
  intro hdistinct
  let c := Build.nodeCall function kind values p
  obtain ⟨hmet, o, q, hrun, hafter, hhand⟩ := after_stages (c := c) hdistinct hname rfl hstages
    (suits_single fun v hv => (hvalues _ hv).scalar rfl v rfl) (fun x hx => (hvalues x hx).atHand) hp
  refine ⟨List.forall_mem_singleton.2 hmet, fun p' hp' => ?_⟩
  subst hp'
  have hnode : Build.node function kind values p' = .ok o q := by
    simp only [List.foldlM_nil, bind_pure] at hrun
    rw [show c.operands = values from rfl, buildStage_single hlen] at hrun
    change EStateM.bind (findOrCreate _ kind values) _ _ = _ at hrun
    refine (c.tagFor_bind hp.derived).trans ?_
    change EStateM.bind ((findOrCreate _ kind values).adaptExcept BuildError.ofGraph) _ _ = _
    rw [EStateM.bind] at hrun ⊢
    rw [EStateM.adaptExcept]
    cases hr : findOrCreate (c.key.next keys) kind values c.begun with
    | ok n r =>
      rw [hr] at hrun
      cases hrun
      rfl
    | error e r =>
      rw [hr] at hrun
      cases hrun
  rw [hnode]
  exact ⟨hafter, hhand⟩

/-- **A function call.** -/
theorem traced_call {function : String} {f : Builtin} {values : List Operand} (tuples : Bool)
    (hp : Accounts (fun _ => True) known name (Spent keys) keys p)
    (hf : Catalogue.get? function = some f) (hvalues : ∀ x ∈ values, Usable true p x) :
    Traced known name keys p
      (do let t ← Pass.tagFor function values
          let o ← (f.call t values).adaptExcept BuildError.ofFunction
          return .socket o)
      [Build.functionCall function f values p] fun x q => Usable tuples q x := by
  obtain ⟨hmem, -⟩ := mem_of_get? hf
  have hstages := stages?_of_get? hf
  have hrun : ∀ {c : Call}, c.function = function → c.operands = values → c.pass = p →
      (do let t ← Pass.tagFor function values
          let o ← (f.call t values).adaptExcept BuildError.ofFunction
          return (.socket o) : PassM BuildError Operand) p
        = ((f.call (c.key.next keys) values).adaptExcept BuildError.ofFunction >>=
          fun o => Pure.pure (.socket o)) c.begun := by
    rintro c rfl rfl rfl
    exact c.tagFor_bind hp.derived
  cases hcheck : f.checkCall values p.graph with
  | error e =>
    -- the tag comes before the check, so a call that is refused has a key as well
    rw [Build.functionCall, hcheck]
    intro _
    let c : Call := ⟨function, values, [], p⟩
    obtain ⟨hmet, hafter⟩ := after_tagFor (c := c) rfl (orderly_of_stages? hstages).2 hp
    refine ⟨List.forall_mem_singleton.2 hmet, fun p' hp' => ?_⟩
    subst hp'
    have hcall : f.call (c.key.next keys) values c.begun = .error (.call e) c.begun :=
      Builtin.call_of_error hcheck
    rw [hrun (c := c) rfl rfl rfl]
    simp only [Bind.bind, EStateM.bind, EStateM.adaptExcept, hcall]
    exact hafter
  | ok _ =>
    rw [Build.functionCall, hcheck]
    intro hdistinct
    let c : Call := ⟨function, values, f.stages, p⟩
    obtain ⟨hmet, o, q, hbuild, hafter, hhand⟩ := after_stages (c := c) hdistinct hname rfl hstages
      (Builtin.suits_of_checkCall hmem hcheck) (fun x hx => (hvalues x hx).atHand) hp
    refine ⟨List.forall_mem_singleton.2 hmet, fun p' hp' => ?_⟩
    subst hp'
    have hcall : f.call (c.key.next keys) values c.begun = .ok o q := by
      rw [Builtin.call_of_ok (p := c.begun) hcheck, EStateM.adaptExcept, Builtin.build]
      rw [show c.operands = values from rfl] at hbuild
      rw [hbuild]
    rw [hrun (c := c) rfl rfl rfl]
    simp only [Bind.bind, EStateM.bind, EStateM.adaptExcept, hcall]
    exact ⟨hafter, hhand, fun _ v hv => by cases hv⟩

/-- **Three elements of a tuple.** -/
theorem traced_vector {values : List Operand}
    (hp : Accounts (fun _ => True) known name (Spent keys) keys p) (hlen : values.length = 3)
    (hvalues : ∀ x ∈ values, Usable false p x) :
    Traced known name keys p (Build.vector values) (Build.vectorCalls values p)
      fun x q => Usable true q x := by
  rw [Build.vector, Build.vectorCalls]
  cases Build.numbers? values with
  | some v => exact Traced.pure hp ⟨trivial, fun h => by cases h⟩
  | none =>
    have hstages : stages? "combine" = some [.single .combineXyz] := rfl
    exact (traced_node hname hp hstages hlen hvalues).map
      fun o q _ hhand => ⟨hhand, fun h => by cases h⟩

variable (sink : InputRef)

mutual

/-- **An expression asks for nodes by its calls.** -/
theorem traced_operand (tuples : Bool) : ∀ (e : Expr) {keys : List Key} {p : Pass},
    Accounts (fun _ => True) known name (Spent keys) keys p →
    Traced known name keys p (Build.operand (.atInterface sink) tuples e)
      (Build.calls (.atInterface sink) tuples e p) fun x q => Usable tuples q x
  | .number .., keys, p, hp => by
    rw [Build.operand, Build.calls]
    exact Traced.pure hp ⟨trivial, fun _ v hv => by cases hv; rfl⟩
  | .ident _ x, keys, p, hp => by
    rw [Build.operand, Build.calls]
    refine Traced.get ?_
    rw [resolve?_atInterface]
    cases hx : findSocket? x p.graph.inputSockets with
    | none => exact Traced.throw hp _
    | some s =>
      obtain ⟨socket, hs, -⟩ := findSocket?_eq_some hx
      exact Traced.pure hp ⟨⟨Or.inl rfl, socket,
        (outputSocket_entry hp.charted.wf.hasEntry).2 hs⟩, fun _ v hv => by cases hv⟩
  | .call _ f args, keys, p, hp => by
    rw [Build.operand, Build.calls]
    cases hf : Catalogue.require f with
    | error e => exact Traced.throw hp _
    | ok function =>
      have hget := Catalogue.require_eq_ok.1 hf
      exact (traced_operands true args hp).bind fun values q hafter hvalues =>
        traced_call hname tuples hafter.accounts hget hvalues.2
  | .tuple _ items, keys, p, hp => by
    rw [Build.operand, Build.calls]
    by_cases hitems : (tuples && items.length == 3) = true
    · rw [if_pos hitems, if_pos hitems]
      rw [Bool.and_eq_true, beq_iff_eq] at hitems
      obtain ⟨rfl, hlen⟩ := hitems
      exact (traced_operands false items hp).bind fun values q hafter hvalues =>
        traced_vector hname hafter.accounts (hvalues.1.trans hlen) hvalues.2
    · rw [if_neg hitems, if_neg hitems]
      exact Traced.throw hp _
  | .binary .., keys, p, hp => by
    rw [Build.operand, Build.calls]
    exact Traced.throw hp _
  | .unary .., keys, p, hp => by
    rw [Build.operand, Build.calls]
    exact Traced.throw hp _

/-- Expressions ask for nodes by their calls, from left to right. -/
theorem traced_operands (tuples : Bool) : ∀ (es : List Expr) {keys : List Key} {p : Pass},
    Accounts (fun _ => True) known name (Spent keys) keys p →
    Traced known name keys p (Build.operands (.atInterface sink) tuples es)
      (Build.callsAll (.atInterface sink) tuples es p)
      fun xs q => xs.length = es.length ∧ ∀ x ∈ xs, Usable tuples q x
  | [], keys, p, hp => by
    rw [Build.operands, Build.callsAll]
    exact Traced.pure hp ⟨rfl, List.forall_mem_nil _⟩
  | e :: es, keys, p, hp => by
    rw [Build.operands, Build.callsAll]
    refine (traced_operand tuples e hp).bind fun x q hafter hx => ?_
    exact (traced_operands tuples es hafter.accounts).map fun xs r hafter' hxs =>
      ⟨congrArg Nat.succ hxs.1,
        List.forall_mem_cons.2 ⟨hx.settled hafter'.advances.settled, hxs.2⟩⟩

end

/-- **A whole expression asks for nodes by its calls.** -/
theorem traced_root (e : Expr) (hp : Accounts (fun _ => True) known name (Spent keys) keys p) :
    Traced known name keys p (Build.root (.atInterface sink) e)
      (Build.rootCalls (.atInterface sink) e p) fun o q => (Operand.socket o).AtHand q := by
  refine (traced_operand hname sink true e hp).bind fun x q hafter hx => ?_
  have hscalar : ∀ a : Float, Usable false q (.literal (.float a)) :=
    fun a => ⟨trivial, fun _ v hv => by cases hv; rfl⟩
  cases x with
  | socket o => exact Traced.pure hafter.accounts hx.atHand
  | literal v =>
    -- a constant gets a node of its own
    cases v with
    | float a =>
      exact traced_node hname hafter.accounts rfl rfl
        (List.forall_mem_singleton.2 (hscalar a))
    | vector v =>
      refine traced_node hname hafter.accounts rfl rfl fun x hx => ?_
      obtain ⟨a, -, rfl⟩ := List.mem_map.1 hx
      exact hscalar a

end

/-! ## Builds -/

section

variable [TagDigest] {known : List Key} {name : String} {sockets : List Socket} {g : Graph}

/-- **A build of a graph on record** asks for nodes by its calls, and every node that it is given
meets its operands. It leaves the graph on record, also when it fails. -/
theorem build_traced (hg : g.OnRecord known (fun _ => True) name sockets)
    (hname : '.' ∉ name.toList) {sink : InputRef} (hexit : sink.node = exit)
    (hsocket : ∃ s, g.inputSocket sink = .ok s) (o : BuildOptions) (e : Expr)
    (hdistinct : ∀ a ∈ known, ∀ b ∈ Call.keysAfter (Build.callsOf (.atInterface sink) o e g) [],
      a.base = b.base → a = b) :
    (∀ c ∈ Build.callsOf (.atInterface sink) o e g, c.Met) ∧
      (build o (.atInterface sink) e g).2.OnRecord
        (known ++ Call.keysAfter (Build.callsOf (.atInterface sink) o e g) [])
        (fun _ => True) name sockets := by
  rw [Build.callsOf] at hdistinct ⊢
  cases hcheck : Build.check (.atInterface sink) o e g with
  | error err =>
    rw [build, hcheck]
    exact ⟨List.forall_mem_nil _, by simpa [Call.keysAfter] using hg⟩
  | ok _ =>
    rw [hcheck] at hdistinct
    have hstart : Frame g (fun _ => False) (fun _ => False) (Pass.start g o.spacing) :=
      Frame.start hg.ready.wf hg.ready.untagged o.spacing
    have hroot := Build.framed_root (.atInterface sink) hg.ready.wf e _ hstart
    have hlinked := Build.ensures_linked (.atInterface sink) hg.ready.wf e _ hstart
    obtain ⟨hmet, hrun⟩ := traced_root hname sink e (hg.accounts o.spacing) hdistinct
    refine ⟨hmet, ?_⟩
    have hend := hrun _ rfl
    cases hr : Build.root (.atInterface sink) e (Pass.start g o.spacing) with
    | error err q =>
      -- nothing is linked into the exit yet, so taking the pass back restores the rest
      rw [hr] at hend
      have hfail := Build.linked_eq_error hr
      rw [hfail] at hlinked
      have hrecord := hend.accounts.onRecord_rollBack hlinked
      rw [build, hcheck]
      simp only [hfail]
      exact hlinked.inputSockets.trans hg.given ▸ hrecord
    | ok out p =>
      rw [hr] at hend hroot
      obtain ⟨hafter, hhand⟩ := hend
      rw [← hroot.inputSocket_exit hexit] at hsocket
      obtain ⟨made, q, hlink, hsunk⟩ :=
        (hafter.accounts.linkOutput_sinks hhand.1 hhand.2 hexit hsocket).exists_ok rfl
      have hdone := Build.linked_eq_ok hr hlink
      rw [hdone] at hlinked
      obtain ⟨r, hbuild⟩ := Build.build_of_linked hcheck hdone hlinked
      have hrecord := (hsunk.accounts hexit hafter.accounts).onRecord_build hlinked o.prune
      rw [hbuild]
      exact hlinked.inputSockets.trans hg.given ▸ hrecord

end

end NodeFormula
