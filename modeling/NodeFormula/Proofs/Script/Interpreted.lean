import NodeFormula.Proofs.Build.Abreast
import NodeFormula.Proofs.Build.Correct
import NodeFormula.Script.Session
/-!
# NodeFormula — expressions run as scripts

A script can say what a formula says: a variable is an input of the graph, a number and a
tuple of numbers are arguments, a call is a call, and the value of the whole is written to an
output (`Session.formula`). Scripts know the kinds of their values and derive tags from the
names of inputs; builds know neither. Still each step of the script makes the nodes that the
build makes (`tandem_operand`), so a script and a build of the same expression succeed
together and leave graphs that differ in tags, names and labels alone
(`formula_agrees_with_build`).
-/

namespace NodeFormula

open Graph Pass

/-- The kind of the values of a type. -/
def SocketType.kind : SocketType → Kind
  | .float => .scalar
  | .vector => .vector

theorem SocketType.socketType?_kind (type : SocketType) : type.kind.socketType? = some type := by
  cases type <;> rfl

namespace Expr

/-- The number that an expression is. -/
def number? : Expr → Option Float
  | number _ v _ => some v
  | _ => none

theorem number?_eq_some {e : Expr} {v : Float} (h : e.number? = some v) :
    ∃ span text, e = number span v text := by
  cases e with
  | number span w text =>
    cases h
    exact ⟨span, text, rfl⟩
  | ident | binary | unary | call | tuple => cases h

/-- Every tuple is one of three numbers. -/
def NumberTuples (e : Expr) : Prop :=
  ∀ span items, .tuple span items ∈ e.preorder → (items.mapM number?).map List.length = some 3

instance (e : Expr) : Decidable e.NumberTuples :=
  decidable_of_iff (∀ n ∈ e.preorder, ∀ items ∈ n.items?,
    (items.mapM number?).map List.length = some 3) (by
    constructor
    · exact fun h span items hmem => h _ hmem items (items?_eq_some.2 ⟨span, rfl⟩)
    · intro h n hn items hitems
      obtain ⟨span, rfl⟩ := items?_eq_some.1 hitems
      exact h span items hn)

/-- The kind of an expression. -/
def kind (sockets : List Socket) (e : Expr) : Kind :=
  if e.isVector (isVectorInput sockets) then .vector else .scalar

end Expr

namespace Session

section

variable [TagDigest]

mutual

/-- The argument that an expression is in a script. -/
def argument : Expr → ScriptM Arg
  | .number _ v _ => return .float v
  | .ident _ name => do
    match (← graph).input? name with
    | some (_, type) => return .value (← input type.kind name)
    | none => throw (.missingSocket name .scalar)
  | .call _ f args => do
    let values ← arguments args
    return .value (← call f values)
  | .tuple _ items =>
    match items.mapM Expr.number? with
    | some xs => return .sequence xs
    | none => throw (.sequenceLength items.length)
  | .binary _ op .. => throw (Arg.refuse op.symbol [] [])
  | .unary _ op _ => throw (Arg.refuse op.symbol [] [])

/-- The arguments that expressions are, from left to right. -/
def arguments : List Expr → ScriptM (List Arg)
  | [] => return []
  | e :: es => do
    let a ← argument e
    let as ← arguments es
    return a :: as

end

/-- Runs an expression and writes its value to an output. -/
def formula (taker : Kind) (name : String) (e : Expr) : ScriptM ScriptValue := do
  output taker name (← argument e)

/-- Runs an expression as a script of its own. A script that fails is left as it is. -/
def run (prune : Bool) (taker : Kind) (name : String) (e : Expr) (g : Graph) :
    Except ScriptError Report × Graph :=
  match formula taker name e (start g defaultSpacing) with
  | .ok _ s => finish prune s
  | .error err s => (.error err, s.pass.graph)

end

end Session

/-! ## Operations of a session -/

section

variable {ε ε' α β β' : Type} {S : Pass → Session → Prop}
  {R : β → β' → Pass → Session → Prop} {x : PassM ε β}

theorem Tandem.graph_right {h : Graph → ScriptM β'}
    (hrun : ∀ p s, S p s → Tandem (fun p' s' => p' = p ∧ s' = s) x (h s.pass.graph) R) :
    Tandem S x (Session.graph >>= h) R :=
  fun p s hps => hrun p s hps p s ⟨rfl, rfl⟩

theorem Tandem.onPass {P : Pass → Pass → Prop} {Q : β → β' → Pass → Pass → Prop}
    {y : PassM ε' β'} {f : ε' → ScriptError} (h : Tandem P x y Q) :
    Tandem (fun p s => P p s.pass) x (Session.onPass f y) fun a b p s => Q a b p s.pass := by
  intro p s hps
  have hxy := h p s.pass hps
  rw [Session.onPass]
  cases hx : x p with
  | ok a p' =>
    cases hy : y s.pass with
    | ok b q => rw [hx, hy] at hxy; exact hxy
    | error e q => rw [hx, hy] at hxy; exact hxy
  | error e p' =>
    cases hy : y s.pass with
    | ok b q => rw [hx, hy] at hxy; exact hxy
    | error e' q => trivial

/-- A value is made, and nothing happens to the pass. -/
theorem Tandem.newValue {P : Pass → Pass → Prop} {a : β} {target : Target} {kind : Kind}
    {name : Option String} {f : ScriptValue → β'} {Q : β → β' → Pass → Pass → Prop}
    (h : ∀ id p q, P p q → Q a (f ⟨target, kind, name, id, .here⟩) p q) :
    Tandem (fun p s => P p s.pass) (Pure.pure a : PassM ε β)
      (Session.newValue target kind name >>= fun v => Pure.pure (f v))
      fun a b p s => Q a b p s.pass :=
  fun p s hps => h _ p s.pass hps

theorem read_bind {f : Graph → Except ε α} {k : α → PassM ε β} {a : α} (h : ∀ g, f g = .ok a) :
    (Pass.read f >>= k) = k a := by
  funext p
  exact run_bind_of_ok (by rw [Pass.read, h])

/-- What throws in the end fails. -/
theorem fails_after {σ : Type} (x : EStateM ε σ α) (e : ε) (s : σ) :
    ∃ e' s', (x >>= fun _ => (throw e : EStateM ε σ β)) s = .error e' s' := by
  change ∃ e' s', EStateM.bind x _ s = _
  rw [EStateM.bind]
  cases x s with
  | ok a s' => exact ⟨e, s', rfl⟩
  | error e' s' => exact ⟨e', s', rfl⟩

theorem check_ok_bind {a : α} {f : α → ScriptM β} : (Session.check (.ok a) >>= f) = f a := rfl

end

/-! ## Calls -/

section

variable [TagDigest] {g : Graph} {f : String} {function : Builtin} {xs : List Operand}
  {args : List Arg} {kind : Kind}

theorem materialize_eq (hf : Catalogue.get? f = some function)
    (hoperands : args.mapM (·.operand f) = .ok xs) :
    Session.materialize f args kind = (do
      let g ← Session.graph
      let t ← Session.onPass Session.graphError (nextTag f (args.map (·.identity g)))
      let o ← Session.onPass .function (function.call t xs)
      Session.newValue (.output o) kind none) := by
  rw [Session.materialize, hoperands, check_ok_bind, Catalogue.require_eq_ok.2 hf]
  rfl

/-- **A call comes to the output of the same node.** -/
theorem tandem_materialize (hg : g.WellFormed) (hf : Catalogue.get? f = some function)
    (hoperands : args.mapM (·.operand f) = .ok xs) :
    Tandem (fun p s => InStep g p s.pass)
      (do
        let t ← tagFor f xs
        let o ← (function.call t xs).adaptExcept BuildError.ofFunction
        return Operand.socket o)
      (Session.materialize f args kind >>= fun v => Pure.pure (Arg.value v))
      fun x a p s => (∃ o id, x = .socket o ∧ a = .value ⟨.output o, kind, none, id, .here⟩) ∧
        InStep g p s.pass := by
  rw [materialize_eq hf hoperands]
  simp only [bind_assoc]
  refine .graph_right fun p s h => ?_
  refine .bind (Q := fun t t' p s => Dealt g f t t' p s.pass) ?_ fun t t' => ?_
  · refine .get_left ?_
    rintro _ _ ⟨rfl, rfl⟩
    refine (Tandem.onPass (tandem_nextTag f _ _)).weaken ?_ fun _ _ _ _ h => h
    rintro _ _ ⟨rfl, rfl⟩
    exact h
  · refine .bind (Tandem.onPass (tandem_call hg hf xs).adaptExcept_left) fun o o' => ?_
    rintro p s ⟨rfl, h⟩
    exact ⟨⟨o, _, rfl, rfl⟩, h⟩

end

/-! ## Outputs -/

/-- A value with an operand to link is a view of it. -/
theorem value_of_operand {a : Arg} {operation : String} {o : OutputRef}
    (hoperand : a.operand operation = .ok (.socket o)) :
    ∃ v, a = .value v ∧ v.output? = some o := by
  cases a with
  | value v =>
    refine ⟨v, rfl, ?_⟩
    rw [Arg.operand] at hoperand
    cases hv : v.output? with
    | some o' =>
      rw [hv] at hoperand
      cases hoperand
      rfl
    | none =>
      rw [hv] at hoperand
      cases hoperand
  | float a => cases hoperand
  | sequence items =>
    rcases items with _ | ⟨x, _ | ⟨y, _ | ⟨z, _ | ⟨w, rest⟩⟩⟩⟩ <;> cases hoperand

/-- An output that takes a value is linked from it. -/
theorem output_eq {s : Session} {taker : Kind} {name : String} {sink : InputRef} {type : SocketType}
    {v : ScriptValue} {o : OutputRef} (hsink : s.pass.graph.output? name = some (sink, type))
    (htype : taker.socketType? = some type) (haccepts : Session.accepts taker v.kind = true)
    (hv : v.output? = some o) : Session.output taker name (.value v) s = (do
      let _ ← Session.onPass Session.graphError (linkOutput o sink)
      Session.newValue (.sink sink) .sink (some name)) s := by
  have hgraph : Session.graph s = .ok s.pass.graph s := rfl
  rw [Session.output]
  refine (run_bind_of_ok hgraph).trans ?_
  simp only [hsink, htype, ne_eq, not_true_eq_false, if_false, Arg.kind, check_ok_bind, haccepts,
    Bool.not_true, Bool.false_eq_true, Session.write, hv, bind_assoc, pure_bind]

/-! ## Expressions -/

/-- **What an expression comes to**: an operand in a build, and an argument in a script. -/
structure ComesTo (sink : InputRef) (g : Graph) (e : Expr) (x : Operand) (a : Arg) : Prop where
  operand : ∀ operation, a.operand operation = .ok x
  socket : ∀ span f args, e = .call span f args → ∃ o, x = .socket o
  kind : a.kind = .ok (e.kind g.inputSockets)
  known : ∀ n ∈ e.preorder, Build.nodeError? (.atInterface sink) g n = none

/-- What expressions come to. -/
structure AllComeTo (sink : InputRef) (g : Graph) (es : List Expr) (xs : List Operand)
    (args : List Arg) : Prop where
  operands : ∀ operation, args.mapM (·.operand operation) = .ok xs
  kinds : Arg.kinds args = .ok (es.map (Expr.kind g.inputSockets))
  known : ∀ n ∈ Expr.preorderAll es, Build.nodeError? (.atInterface sink) g n = none

section

variable {sink : InputRef} {g : Graph} {e : Expr} {es : List Expr} {x : Operand} {xs : List Operand}
  {a : Arg} {args : List Arg}

theorem AllComeTo.nil : AllComeTo sink g [] [] [] where
  operands _ := rfl
  kinds := rfl
  known n hn := absurd hn (by rw [Expr.preorderAll]; exact List.not_mem_nil)

theorem AllComeTo.cons (h : ComesTo sink g e x a) (hs : AllComeTo sink g es xs args) :
    AllComeTo sink g (e :: es) (x :: xs) (a :: args) where
  operands operation := by
    rw [List.mapM_cons, h.operand, hs.operands]
    rfl
  kinds := by
    have hkinds := hs.kinds
    rw [Arg.kinds] at hkinds ⊢
    rw [List.mapM_cons, h.kind, hkinds]
    rfl
  known n hn := by
    rw [Expr.preorderAll, List.mem_append] at hn
    exact hn.elim (h.known n) (hs.known n)

theorem contains_vector (sockets : List Socket) (es : List Expr) :
    (es.map (Expr.kind sockets)).contains .vector = Expr.anyVector (isVectorInput sockets) es := by
  induction es with
  | nil => rw [Expr.anyVector]; rfl
  | cons e es ih =>
    rw [List.map_cons, List.contains_cons, ih, Expr.anyVector, Expr.kind]
    cases e.isVector (isVectorInput sockets) <;> rfl

theorem contains_sink (sockets : List Socket) (es : List Expr) :
    (es.map (Expr.kind sockets)).contains .sink = false := by
  induction es with
  | nil => rfl
  | cons e es ih =>
    rw [List.map_cons, List.contains_cons, ih, Expr.kind]
    cases e.isVector (isVectorInput sockets) <;> rfl

/-- A call of a script makes a value of the kind that the call has. -/
theorem call_eq [TagDigest] (span : Span) {f : String} {function : Builtin}
    (hf : Catalogue.get? f = some function) (h : AllComeTo sink g es xs args) :
    Session.call f args
      = Session.materialize f args ((Expr.call span f es).kind g.inputSockets) := by
  have hkind : (Expr.call span f es).kind g.inputSockets
      = if function.support == .scalarOrVector && (es.map (Expr.kind g.inputSockets)).contains .vector
        then .vector else .scalar := by
    rw [Expr.kind, Expr.isVector, hf, contains_vector]
    rfl
  rw [Session.call, Catalogue.require_eq_ok.2 hf, h.kinds, hkind]
  refine check_ok_bind.trans ?_
  rw [check_ok_bind, contains_sink]
  rfl

theorem call_of_unknown [TagDigest] {f : String} (hf : Catalogue.get? f = none) :
    Session.call f args = throw (Session.callError (.unknown f)) := by
  rw [Session.call, Catalogue.require, hf]
  rfl

variable [TagDigest]

theorem tandem_ident (span : Span) (name : String) :
    Tandem (fun p s => InStep g p s.pass) (Build.operand (.atInterface sink) true (.ident span name))
      (Session.argument (.ident span name))
      fun x a p s => ComesTo sink g (.ident span name) x a ∧ InStep g p s.pass := by
  rw [Build.operand, Session.argument]
  refine .get_left fun p s h => .graph_right ?_
  rintro _ _ ⟨rfl, rfl⟩
  rw [resolve?_atInterface, input?, h.inputSockets.1, h.inputSockets.2]
  cases hfind : findSocket? name g.inputSockets with
  | none => exact .throw _ _ _ _
  | some socket =>
    obtain ⟨index, type⟩ := socket
    have hknown : Build.nodeError? (.atInterface sink) g (.ident span name) = none := by
      rw [Build.nodeError?, resolve?_atInterface, hfind]
      rfl
    have hkind : (Expr.ident span name).kind g.inputSockets = type.kind := by
      rw [Expr.kind, Expr.isVector, isVectorInput, hfind]
      cases type <;> rfl
    simp only [Option.map_some, Session.input, bind_assoc]
    refine .graph_right ?_
    rintro _ _ ⟨rfl, rfl⟩
    rw [input?, h.inputSockets.2, hfind]
    simp only [Option.map_some, SocketType.socketType?_kind, if_true]
    refine (Tandem.newValue (P := InStep g) (Q := fun x a p q =>
      ComesTo sink g (.ident span name) x a ∧ InStep g p q) fun id p q hpq => ?_).weaken ?_
      fun _ _ _ _ h => h
    · refine ⟨⟨fun _ => rfl, fun _ _ _ h => (by cases h), congrArg Except.ok hkind.symm, ?_⟩, hpq⟩
      intro n hn
      rw [Expr.preorder, List.mem_singleton] at hn
      exact hn ▸ hknown
    · rintro _ _ ⟨rfl, rfl⟩
      exact h

/-- A list of numbers is a list of constants. -/
theorem numbers_of_mapM (sink : InputRef) {values : List Float}
    (h : es.mapM Expr.number? = some values) :
    Build.operands (.atInterface sink) false es
        = Pure.pure (values.map fun v => .literal (.float v)) ∧
      es.length = values.length ∧
      ∀ n ∈ Expr.preorderAll es, ∃ span v text, n = .number span v text := by
  induction es generalizing values with
  | nil =>
    cases h
    rw [Build.operands, Expr.preorderAll]
    exact ⟨rfl, rfl, List.forall_mem_nil _⟩
  | cons e es ih =>
    rw [List.mapM_cons] at h
    obtain ⟨v, hv, h⟩ := Option.bind_eq_some_iff.1 h
    obtain ⟨vs, hvs, h⟩ := Option.bind_eq_some_iff.1 h
    cases h
    obtain ⟨span, text, rfl⟩ := Expr.number?_eq_some hv
    obtain ⟨hoperands, hlength, hnodes⟩ := ih hvs
    rw [Build.operands, Build.operand, hoperands, Expr.preorderAll, Expr.preorder]
    refine ⟨rfl, congrArg (· + 1) hlength, ?_⟩
    exact List.forall_mem_cons.2 ⟨⟨span, v, text, rfl⟩, hnodes⟩

/-- A tuple of three numbers is a vector on both sides. -/
theorem tandem_tuple (span : Span) {items : List Expr}
    (hitems : (items.mapM Expr.number?).map List.length = some 3) :
    Tandem (fun p s => InStep g p s.pass) (Build.operand (.atInterface sink) true (.tuple span items))
      (Session.argument (.tuple span items))
      fun x a p s => ComesTo sink g (.tuple span items) x a ∧ InStep g p s.pass := by
  obtain ⟨values, hvalues, hlen⟩ := Option.map_eq_some_iff.1 hitems
  obtain ⟨x, y, z, rfl⟩ := List.length_eq_three.1 hlen
  obtain ⟨hoperands, hlength, hnodes⟩ := numbers_of_mapM sink hvalues
  rw [Build.operand, Session.argument, hvalues, hoperands, if_pos (by rw [hlength]; rfl)]
  refine .pure fun p s h => ⟨⟨fun _ => rfl, fun _ _ _ => nofun, ?_, fun n hn => ?_⟩, h⟩
  · rw [Expr.kind, Expr.isVector]
    rfl
  · rw [Expr.preorder] at hn
    rcases List.mem_cons.1 hn with rfl | hn
    · rfl
    · obtain ⟨span, v, text, rfl⟩ := hnodes n hn
      rfl

mutual

/-- **An expression comes to the same on both sides**, by recursion over it. -/
theorem tandem_operand (hg : g.WellFormed) : ∀ e : Expr, e.NumberTuples →
    Tandem (fun p s => InStep g p s.pass) (Build.operand (.atInterface sink) true e)
      (Session.argument e) fun x a p s => ComesTo sink g e x a ∧ InStep g p s.pass
  | .number span v text, _ => by
    rw [Build.operand, Session.argument]
    refine .pure fun p s h => ⟨⟨fun _ => rfl, fun _ _ _ => nofun, ?_, fun n hn => ?_⟩, h⟩
    · rw [Expr.kind, Expr.isVector]
      rfl
    · rw [Expr.preorder, List.mem_singleton] at hn
      exact hn ▸ rfl
  | .ident span name, _ => tandem_ident span name
  | .tuple span items, htuples =>
    tandem_tuple span (htuples span items (by rw [Expr.preorder]; exact List.mem_cons_self))
  | .call span f args, htuples => by
    rw [Build.operand, Session.argument]
    cases hf : Catalogue.get? f with
    | none =>
      refine .of_error (fun p => ⟨.call (.unknown f), p, ?_⟩) fun s => ?_
      · rw [Catalogue.require, hf]
        rfl
      · simp only [call_of_unknown hf]
        exact fails_after _ _ s
    | some function =>
      have hrequire : ∀ _ : Graph, (Catalogue.require f).mapError BuildError.call = .ok function := by
        rw [Catalogue.require_eq_ok.2 hf]
        exact fun _ => rfl
      rw [read_bind hrequire]
      have hargs : ∀ x ∈ args, x.NumberTuples := fun x hx span' items hmem =>
        htuples span' items (Expr.preorder_subset_call hx span f hmem)
      refine .bind (tandem_operands hg args hargs) fun xs values => ?_
      rintro p s ⟨hall, h⟩
      rw [call_eq span hf hall]
      refine (tandem_materialize hg hf (hall.operands f)).weaken (fun _ _ h => h) ?_ p s h
      rintro x a p s ⟨⟨o, id, rfl, rfl⟩, h⟩
      refine ⟨⟨fun _ => rfl, fun _ _ _ _ => ⟨o, rfl⟩, rfl, fun n hn => ?_⟩, h⟩
      rw [Expr.preorder] at hn
      rcases List.mem_cons.1 hn with rfl | hn
      · rw [Build.nodeError?, Catalogue.require_eq_ok.2 hf]
      · exact hall.known n hn
  | .binary .., _ => by
    rw [Build.operand, Session.argument]
    exact .throw _ _ _ _
  | .unary .., _ => by
    rw [Build.operand, Session.argument]
    exact .throw _ _ _ _

theorem tandem_operands (hg : g.WellFormed) : ∀ es : List Expr, (∀ e ∈ es, e.NumberTuples) →
    Tandem (fun p s => InStep g p s.pass) (Build.operands (.atInterface sink) true es)
      (Session.arguments es) fun xs args p s => AllComeTo sink g es xs args ∧ InStep g p s.pass
  | [], _ => by
    rw [Build.operands, Session.arguments]
    exact .pure fun _ _ h => ⟨.nil, h⟩
  | e :: es, htuples => by
    rw [Build.operands, Session.arguments]
    refine .bind (tandem_operand hg e (htuples e List.mem_cons_self)) fun x a => ?_
    rintro p s ⟨hx, h⟩
    refine (Tandem.bind (tandem_operands hg es fun e' he' => htuples e' (List.mem_cons_of_mem _ he'))
      fun xs args => ?_) p s h
    exact .pure fun p s h => ⟨.cons hx h.1, h.2⟩

end

/-- What two runs end with: graphs that are the same, names apart, and nothing stale. -/
structure Ends (p q : Pass) : Prop where
  mirror : Mirror p q
  left : ∃ T derived, Tags T derived p
  right : ∃ T derived, Tags T derived q

/-- The sink is linked on both sides. -/
theorem tandem_sink (o : OutputRef) :
    Tandem (InStep g) (linkOutput o sink) (linkOutput o sink) fun _ _ p q => Ends p q := by
  rintro p q ⟨keys, keys', -, -, hmirror, hleft, hright⟩
  exact ((tandem_linkOutput o sink).and_ensures (ensures_linkOutput_tags o sink)
    (ensures_linkOutput_tags o sink)).weaken (fun _ _ h => h)
    (fun _ _ _ _ h => ⟨h.1.2, ⟨_, _, h.2.1⟩, ⟨_, _, h.2.2⟩⟩) p q ⟨hmirror, hleft.2, hright.2⟩

/-- **A whole call is built and run in tandem.** -/
theorem tandem_formula (hg : g.WellFormed) {name : String} {type : SocketType}
    (hsink : g.output? name = some (sink, type)) (span : Span) (f : String) (args : List Expr)
    (htuples : (Expr.call span f args).NumberTuples)
    (hkind : type = .vector ∨
      (Expr.call span f args).isVector (isVectorInput g.inputSockets) = false) :
    Tandem (fun p s => InStep g p s.pass) (Build.linked (.atInterface sink) (.call span f args))
      (Session.formula type.kind name (.call span f args)) fun _ _ p s => Ends p s.pass ∧
        ∀ n ∈ (Expr.call span f args).preorder, Build.nodeError? (.atInterface sink) g n = none := by
  rw [Build.linked, Build.root, Session.formula, bind_assoc]
  refine .bind (tandem_operand hg _ htuples) fun x a => ?_
  rintro p s ⟨hx, h⟩
  obtain ⟨o, rfl⟩ := hx.socket span f args rfl
  obtain ⟨v, rfl, hv⟩ := value_of_operand (hx.operand "=")
  have haccepts : Session.accepts type.kind ((Expr.call span f args).kind g.inputSockets) = true := by
    rw [Expr.kind]
    rcases hkind with rfl | hkind
    · cases (Expr.call span f args).isVector (isVectorInput g.inputSockets) <;> rfl
    · rw [hkind]
      cases type <;> rfl
  have houtput : s.pass.graph.output? name = some (sink, type) := by
    rw [output?, h.outputSockets]
    exact hsink
  have hgiven : v.kind = (Expr.call span f args).kind g.inputSockets := Except.ok.inj hx.kind
  rw [output_eq houtput type.socketType?_kind (hgiven ▸ haccepts) hv]
  refine Tandem.bind (tandem_sink o).adaptExcept_left.onPass (fun _ _ => ?_) p s h
  exact fun p s h => ⟨h, hx.known⟩

/-- A build that ends with nothing stale. -/
theorem build_of_linked {o : BuildOptions} {b : Bindings} (hdepth : e.depth ≤ o.maxDepth)
    (hknown : ∀ n ∈ e.preorder, Build.nodeError? b g n = none) {r : OutputRef × Bool} {p : Pass}
    (hlinked : Build.linked b e (Pass.start g o.spacing) = .ok r p) {T : Tag → Prop}
    {derived : List Tag} (h : Tags T derived p) :
    build o b e g = (.ok ⟨r.1, r.2, p.report, []⟩, p.graph) := by
  rw [build, Build.check, if_neg (Nat.not_lt.2 hdepth), List.findSome?_eq_none_iff.2 hknown]
  simp only [hlinked]
  cases o.prune with
  | false => rfl
  | true =>
    rw [if_pos rfl, h.prune_eq]
    rfl

theorem isOk_build_of_error {o : BuildOptions} {b : Bindings} {err : BuildError} {p : Pass}
    (hlinked : Build.linked b e (Pass.start g o.spacing) = .error err p) :
    (build o b e g).1.isOk = false := by
  rw [build]
  cases Build.check b o e g with
  | error err => rfl
  | ok _ => rw [hlinked]; rfl

omit [TagDigest] in
theorem finish_eq {T : Tag → Prop} {derived : List Tag} {s : Session} (h : Tags T derived s.pass)
    (prune : Bool) : Session.finish prune s = (.ok s.pass.report, s.pass.graph) := by
  cases prune with
  | false => rfl
  | true =>
    rw [Session.finish, if_pos rfl, h.prune_eq]
    rfl

/-- **A script and a build of the same call succeed together, and leave the same graph**, names
apart. The script may end with pruning or without, since every tagged node is in use. -/
theorem run_agrees_with_build (hg : g.WellFormed) (huntagged : ∀ a ∈ g.nodes, a.tag = none)
    {name : String} {type : SocketType} (hsink : g.output? name = some (sink, type))
    (span : Span) (f : String) (args : List Expr)
    (hdepth : (Expr.call span f args).depth ≤ BuildOptions.standard.maxDepth)
    (htuples : (Expr.call span f args).NumberTuples)
    (hkind : type = .vector ∨
      (Expr.call span f args).isVector (isVectorInput g.inputSockets) = false) (prune : Bool) :
    (Session.run prune type.kind name (.call span f args) g).1.isOk
        = (build .standard (.atInterface sink) (.call span f args) g).1.isOk ∧
      ((build .standard (.atInterface sink) (.call span f args) g).1.isOk →
        (Session.run prune type.kind name (.call span f args) g).2.unnamed
          = (build .standard (.atInterface sink) (.call span f args) g).2.unnamed) := by
  have hrun := tandem_formula hg hsink span f args htuples hkind (Pass.start g defaultSpacing)
    (Session.start g defaultSpacing) (.start hg huntagged defaultSpacing)
  cases hscripted : Session.formula type.kind name (.call span f args)
      (Session.start g defaultSpacing) with
  | error err s =>
    cases hbuilt : Build.linked (.atInterface sink) (.call span f args)
        (Pass.start g defaultSpacing) with
    | error err' p =>
      rw [isOk_build_of_error hbuilt, Session.run, hscripted]
      exact ⟨rfl, nofun⟩
    | ok r p =>
      rw [hbuilt, hscripted] at hrun
      exact hrun.elim
  | ok v s =>
    cases hbuilt : Build.linked (.atInterface sink) (.call span f args)
        (Pass.start g defaultSpacing) with
    | error err p =>
      rw [hbuilt, hscripted] at hrun
      exact hrun.elim
    | ok r p =>
      rw [hbuilt, hscripted] at hrun
      obtain ⟨⟨hmirror, ⟨_, _, hleft⟩, _, _, hright⟩, hknown⟩ := hrun
      rw [build_of_linked hdepth hknown hbuilt hleft, Session.run, hscripted]
      refine ⟨congrArg (fun r => r.1.isOk) (finish_eq hright prune), fun _ => ?_⟩
      exact (congrArg (fun r => r.2.unnamed) (finish_eq hright prune)).trans hmirror.graph.symm

end

/-- A vector is scaled by a tuple, and a quotient rounded down is added to it. -/
theorem run_agrees_with_build_mixed :
    ∃ e, callForm? "v*(1,2,3) + x//2" = some e ∧
      (build .standard (.atInterface ⟨exit, 0⟩) e mixed).1.isOk ∧
      (Session.run true .vector "a" e mixed).1.isOk ∧
      (Session.run true .vector "a" e mixed).2.unnamed
        = (build .standard (.atInterface ⟨exit, 0⟩) e mixed).2.unnamed := by
  have hface : withInterface [("x", .float), ("v", .vector)] [("a", .vector)] = .ok mixed := by rfl
  have hclean : ∀ n ∈ mixed.nodes, n.tag = none := by decide +kernel
  have hsink : mixed.output? "a" = some (⟨exit, 0⟩, .vector) := by decide +kernel
  have hsome : (callForm? "v*(1,2,3) + x//2").isSome := by decide +kernel
  have hchecks : ∀ e ∈ callForm? "v*(1,2,3) + x//2",
      e.depth ≤ BuildOptions.standard.maxDepth ∧ e.NumberTuples ∧
      (build .standard (.atInterface ⟨exit, 0⟩) e mixed).1.isOk ∧
      (e.number? = none ∧ e.ident? = none ∧ e.items? = none ∧ e.isOperator = false) := by
    decide +kernel
  obtain ⟨e, he⟩ := Option.isSome_iff_exists.1 hsome
  obtain ⟨hdepth, htuples, hok, hnumber, hident, hitems, hoperator⟩ := hchecks e he
  refine ⟨e, he, hok, ?_⟩
  cases e with
  | call span f args =>
    obtain ⟨hsame, hgraph⟩ := run_agrees_with_build (wellFormed_of_withInterface hface) hclean hsink
      span f args hdepth htuples (Or.inl rfl) true
    exact ⟨hsame.trans hok, hgraph hok⟩
  | number => cases hnumber
  | ident => cases hident
  | tuple => cases hitems
  | binary => cases hoperator
  | unary => cases hoperator

end NodeFormula
