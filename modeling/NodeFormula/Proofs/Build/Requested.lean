import NodeFormula.Proofs.Build.Traced
import NodeFormula.Proofs.Pass.Operations
/-!
# NodeFormula — what a build asks for

Whatever a build is bound to and whatever graph it runs over, it moves from pass to pass by its
calls and by nothing else, also when it fails (`Call.Leads`, `Requests`). A call derives a tag
and asks for the nodes of its stages (`Query.Leads`). If the build comes to a result, every
query has been answered, and there were as many as the expression costs (`requests_root`). No
two queries have the same tag (`queries_nodup`). What holds of a pass through every call and
query of a build holds in the end (`Chain.keeps`).
-/

namespace NodeFormula

open Graph Pass

/-- **Steps one after another**, one for each item of a list. -/
inductive Chain {α σ : Type} (step : α → σ → σ → Prop) : List α → σ → σ → Prop where
  | nil (s : σ) : Chain step [] s s
  | cons {a : α} {as : List α} {s t u : σ} (head : step a s t) (tail : Chain step as t u) :
      Chain step (a :: as) s u

namespace Chain

variable {α σ : Type} {step : α → σ → σ → Prop} {as bs : List α} {s t u : σ}

theorem single {a : α} (h : step a s t) : Chain step [a] s t := .cons h (.nil t)

theorem append (h : Chain step as s t) (h' : Chain step bs t u) : Chain step (as ++ bs) s u := by
  induction h with
  | nil _ => exact h'
  | cons head _ ih => exact .cons head (ih h')

end Chain

/-! ## Costs -/

namespace Expr

variable (b : Bindings)

/-- A number that is not bound. -/
def isConstant : Expr → Bool
  | .number _ _ text => (b.constant? text).isNone
  | _ => false

/-- The type of the constant that comes of an expression, if no node does. -/
def constantType? : Expr → Option SocketType
  | .number _ _ text => if (b.constant? text).isNone then some .float else none
  | .tuple _ items => if items.length = 3 ∧ items.all (isConstant b) then some .vector else none
  | _ => none

mutual

/-- **The number of nodes for an expression** that is an argument: one for a call, or two where
the function has two stages, and one for a tuple that is not three numbers. -/
def cost : Expr → Nat
  | .call _ f args => costs args + if f = "floordiv" ∨ f = "nroot" then 2 else 1
  | .tuple _ items => costs items + if items.length = 3 ∧ items.all (isConstant b) then 0 else 1
  | .number .. | .ident .. | .binary .. | .unary .. => 0

/-- The number of nodes for expressions. -/
def costs : List Expr → Nat
  | [] => 0
  | e :: es => cost e + costs es

end

/-- **The number of nodes for a whole expression.** A tuple has a node, and so has a number that
is not bound. -/
def rootCost : Expr → Nat
  | .tuple _ items => costs b items + 1
  | .number _ _ text => if (b.constant? text).isNone then 1 else 0
  | e => cost b e

theorem isConstant_iff {b : Bindings} {e : Expr} :
    e.isConstant b ↔ e.constantType? b = some .float := by
  cases e with
  | number _ _ text => rw [isConstant, constantType?]; split <;> simp_all
  | tuple _ items => simp [isConstant, constantType?]
  | _ => simp [isConstant, constantType?]

/-- A constant costs one node more where it is the whole expression. -/
theorem rootCost_eq (e : Expr) :
    e.rootCost b = e.cost b + if (e.constantType? b).isSome then 1 else 0 := by
  cases e with
  | number _ _ text => rw [rootCost, cost, constantType?]; split <;> rfl
  | tuple _ items =>
    rw [rootCost, cost, constantType?]
    split <;> rfl
  | _ => rfl

end Expr

/-- The functions of two stages are two. -/
theorem length_stages {name : String} {f : Builtin} (h : Catalogue.get? name = some f) :
    f.stages.length = if name = "floordiv" ∨ name = "nroot" then 2 else 1 := by
  have hall : ∀ f ∈ Catalogue.functions,
      f.stages.length = if f.name = "floordiv" ∨ f.name = "nroot" then 2 else 1 := by decide +kernel
  obtain ⟨hmem, rfl⟩ := mem_of_get? h
  exact hall f hmem

/-- The type of an operand that is a constant. -/
def Operand.constantType? (x : Operand) : Option SocketType := x.constant?.map Value.type

/-- Three operands are a vector if they are numbers. -/
theorem isSome_numbers? {values : List Operand} (h : values.length = 3) :
    (Build.numbers? values).isSome ↔
      ∀ type ∈ values.map Operand.constantType?, type = some .float := by
  obtain ⟨x, y, z, rfl⟩ := List.length_eq_three.1 h
  have hfloat : ∀ x : Operand, x.constantType? = some .float ↔ ∃ a, x = .literal (.float a) := by
    rintro (o | a | v) <;> simp [Operand.constantType?, Operand.constant?, Value.type]
  simp only [List.forall_mem_map, List.forall_mem_cons, hfloat]
  constructor
  · rcases x with _ | a | _ <;> rcases y with _ | b | _ <;> rcases z with _ | c | _ <;>
      simp [Build.numbers?]
  · rintro ⟨⟨a, rfl⟩, ⟨b, rfl⟩, ⟨c, rfl⟩, -⟩
    rfl

/-! ## Queries -/

namespace Query

/-- The pass after a query, also one without an answer. -/
def after (a : Query) : Pass := left (findOrCreate a.tag a.kind a.operands) a.pass

/-- A pass moves on by a query. -/
structure Leads (a : Query) (p q : Pass) : Prop where
  pass : a.pass = p
  after : a.after = q

/-- A node is given. -/
def Answered (a : Query) : Prop := a.given?.isSome

theorem after_of_ok {a : Query} {n : NodeId} {q : Pass} (h : a.answer = .ok n q) : a.after = q := by
  rw [after, left, show findOrCreate a.tag a.kind a.operands a.pass = _ from h]

theorem after_of_error {a : Query} {e : GraphError} {q : Pass} (h : a.answer = .error e q) :
    a.after = q := by
  rw [after, left, show findOrCreate a.tag a.kind a.operands a.pass = _ from h]

/-- What comes of a query is what comes of any request. -/
theorem comes (a : Query) (hp : a.pass.graph.WellFormed) :
    Comes a.tag a.kind a.pass (a.given?.map Prod.fst) a.after := by
  have h := @comes_findOrCreate a.pass a.tag a.kind hp a.operands a.pass rfl
  rw [after, left, given?, answer]
  cases hr : findOrCreate a.tag a.kind a.operands a.pass with
  | ok n q =>
    rw [hr] at h
    exact h
  | error e q =>
    rw [hr] at h
    exact h

end Query

/-- **Queries one after another that are all answered.** -/
structure Query.Through (as : List Query) (p q : Pass) : Prop where
  chain : Chain Query.Leads as p q
  answered : ∀ a ∈ as, a.Answered

/-! ## The stages of a call -/

namespace Stage

variable {t : Tag} {operands : List Operand} {previous : Operand} {rest stages : List Stage}
  {s : Stage} {p : Pass}

/-- A stage is built by its query, also when that fails. -/
theorem build_eq : Builtin.buildStage t operands previous s p =
    match (s.query t operands previous p).answer with
    | .ok n q => .ok ⟨n, 0⟩ q
    | .error e q => .error e q := by
  change EStateM.bind (findOrCreate _ _ _) _ p = _
  rw [EStateM.bind]
  simp only [query, Query.answer, tag]
  cases findOrCreate ((Option.map t.child s.child).getD t)
    (s.node.kind ((s.args.map (Builtin.argOperand p.graph operands previous)).any (·.isVector p.graph)))
    (s.args.map (Builtin.argOperand p.graph operands previous)) p <;> rfl

/-- What the queries for some stages have to end in. -/
abbrev Queried (t : Tag) (operands : List Operand) (previous : Operand) (stages : List Stage)
    (p q : Pass) : Prop :=
  Query.Through (queries t operands previous stages p) p q ∧
    (queries t operands previous stages p).length = stages.length

/-- **A stage and those after it are built by their queries.** -/
theorem ensures_queried {f : OutputRef → PassM GraphError OutputRef}
    (hrest : ∀ n q, Ensures (· = q) (f ⟨n, 0⟩)
      (fun _ => Queried t operands (.socket ⟨n, 0⟩) rest q)
      fun _ => Chain Query.Leads (queries t operands (.socket ⟨n, 0⟩) rest q) q) :
    Ensures (· = p) (Builtin.buildStage t operands previous s >>= f)
      (fun _ => Queried t operands previous (s :: rest) p)
      fun _ => Chain Query.Leads (queries t operands previous (s :: rest) p) p := by
  intro p' hp'
  subst hp'
  have hrun : (Builtin.buildStage t operands previous s >>= f) p'
      = EStateM.bind (Builtin.buildStage t operands previous s) f p' := rfl
  rw [hrun, EStateM.bind, build_eq]
  cases hanswer : (s.query t operands previous p').answer with
  | error e q =>
    have hqueries : queries t operands previous (s :: rest) p' = [s.query t operands previous p'] := by
      rw [queries, hanswer]
    rw [hqueries]
    exact .single ⟨rfl, Query.after_of_error hanswer⟩
  | ok n q =>
    have hlead : (s.query t operands previous p').Leads p' q := ⟨rfl, Query.after_of_ok hanswer⟩
    have hgiven : (s.query t operands previous p').Answered := by
      rw [Query.Answered, Query.given?_eq_some.2 hanswer]
      rfl
    have h := hrest n q q rfl
    simp only
    cases hr : f ⟨n, 0⟩ q with
    | ok o r =>
      rw [hr] at h
      obtain ⟨⟨hchain, hanswered⟩, hlen⟩ := h
      simp only [Queried, queries_cons hanswer]
      exact ⟨⟨.cons hlead hchain, List.forall_mem_cons.2 ⟨hgiven, hanswered⟩⟩,
        congrArg Nat.succ hlen⟩
    | error e r =>
      rw [hr] at h
      simp only [queries_cons hanswer]
      exact .cons hlead h

/-- The stages that remain. -/
theorem ensures_rest (rest : List Stage) (o : OutputRef) (p : Pass) :
    Ensures (· = p)
      (rest.foldlM (fun o s => Builtin.buildStage t operands (.socket o) s) o)
      (fun _ => Queried t operands (.socket o) rest p)
      fun _ => Chain Query.Leads (queries t operands (.socket o) rest p) p := by
  induction rest generalizing o p with
  | nil =>
    refine Ensures.pure fun q hq => ?_
    subst hq
    exact ⟨⟨.nil q, List.forall_mem_nil _⟩, rfl⟩
  | cons s rest ih =>
    rw [List.foldlM_cons]
    exact ensures_queried fun n q => ih ⟨n, 0⟩ q

/-- The queries of stages have the tags of the first of them. -/
theorem tags_queries (t : Tag) (operands : List Operand) (previous : Operand)
    (stages : List Stage) (p : Pass) : (queries t operands previous stages p).map Query.tag <+:
    stages.map (·.tag t) := by
  induction stages generalizing previous p with
  | nil => exact List.prefix_refl []
  | cons s rest ih =>
    rw [queries, List.map_cons, List.map_cons]
    refine (List.prefix_cons_inj _).2 ?_
    cases (s.query t operands previous p).answer with
    | ok n q => exact ih _ _
    | error e q => exact List.nil_prefix

/-- The stages of a function have different tags. -/
theorem nodup_tags {function : String} {stages : List Stage} {t : Tag}
    (h : stages? function = some stages) (ht : '/' ∉ t.text.toList) :
    (stages.map (·.tag t)).Nodup := by
  have hchildren := (orderly_of_stages? h).1.children
  rw [List.Nodup, List.pairwise_map] at hchildren ⊢
  exact hchildren.imp fun hne heq => hne (Stage.tag_inj ht ht heq).2

end Stage

/-! ## Calls -/

section

variable [TagDigest] {cs ds : List Call} {p q r : Pass} {m n : Nat} {α β : Type}

/-- The tag that a call derives. -/
def Call.tag (c : Call) : Tag := c.key.base.withOccurrence (c.pass.derived.count c.key.base)

theorem Call.queries_tag (c : Call) :
    c.queries = Stage.queries c.tag c.operands (.literal (.float 0)) c.stages c.begun := rfl

/-- **A pass moves on by a call**: it derives the tag and asks for the nodes of the stages, which
are none or those of the function. -/
structure Call.Leads (c : Call) (p q : Pass) : Prop where
  pass : c.pass = p
  stages : c.stages = [] ∨ stages? c.function = some c.stages
  unmarked : Unmarked c.function
  queries : Chain Query.Leads c.queries c.begun q

/-- **Calls one after another, with all nodes given.** -/
structure Call.Through (cs : List Call) (n : Nat) (p q : Pass) : Prop where
  chain : Chain Call.Leads cs p q
  answered : ∀ a ∈ cs.flatMap Call.queries, a.Answered
  count : (cs.flatMap Call.queries).length = n

theorem Call.Through.append (h : Call.Through cs m p q) (h' : Call.Through ds n q r) :
    Call.Through (cs ++ ds) (m + n) p r where
  chain := h.chain.append h'.chain
  answered := by
    rw [List.flatMap_append]
    exact List.forall_mem_append.2 ⟨h.answered, h'.answered⟩
  count := by rw [List.flatMap_append, List.length_append, h.count, h'.count]

/-- **An operation asks for nodes by calls alone.** If it has a result, it was given the number
of nodes that is told. -/
def Requests (p : Pass) (x : PassM BuildError α) (cs : List Call) (n : Nat) (R : α → Prop) : Prop :=
  Ensures (· = p) x (fun a q => Call.Through cs n p q ∧ R a) fun _ => Chain Call.Leads cs p

namespace Requests

variable {x : PassM BuildError α} {R : α → Prop}

theorem pure {a : α} (h : R a) : Requests p (Pure.pure a : PassM BuildError α) [] 0 R :=
  Ensures.pure fun q hq => by
    subst hq
    exact ⟨⟨.nil q, List.forall_mem_nil _, rfl⟩, h⟩

theorem throw (e : BuildError) (n : Nat) :
    Requests p (throw e : PassM BuildError α) [] n R :=
  Ensures.throw fun q hq => by
    subst hq
    exact .nil q

/-- A look at the pass. -/
theorem get {f : Pass → PassM BuildError α} (h : Requests p (f p) cs n R) :
    Requests p (MonadState.get >>= f) cs n R :=
  Ensures.get fun q hq => by
    subst hq
    exact h

theorem bind {f : α → PassM BuildError β} {h : α → Pass → List Call} {S : β → Prop}
    (hx : Requests p x cs m R) (hf : ∀ a q, R a → Requests q (f a) (h a q) n S) :
    Requests p (x >>= f) (cs ++ Build.onward (x p) h) (m + n) S := by
  intro p' hp'
  subst hp'
  have hstep := hx p' rfl
  have hrun : (x >>= f) p' = EStateM.bind x f p' := rfl
  rw [hrun, EStateM.bind]
  cases hr : x p' with
  | error e q =>
    rw [hr] at hstep
    rw [Build.onward, List.append_nil]
    exact hstep
  | ok a q =>
    rw [hr] at hstep
    obtain ⟨hthrough, hR⟩ := hstep
    have hrest := hf a q hR q rfl
    rw [Build.onward]
    simp only
    cases hr' : f a q with
    | ok b r =>
      rw [hr'] at hrest
      exact ⟨hthrough.append hrest.1, hrest.2⟩
    | error e r =>
      rw [hr'] at hrest
      exact hthrough.chain.append hrest

/-- What is made of a result. -/
theorem map {g : α → β} {S : β → Prop} (hx : Requests p x cs n R) (hS : ∀ a, R a → S (g a)) :
    Requests p (x >>= fun a => Pure.pure (g a)) cs n S := by
  have hbind := hx.bind (f := fun a => Pure.pure (g a)) (h := fun _ _ => []) (S := S)
    fun a q hR => Requests.pure (hS a hR)
  have hnone : Build.onward (x p) (fun _ _ => []) = [] := by
    cases x p <;> rfl
  rwa [hnone, List.append_nil] at hbind

end Requests

/-- **The nodes of a call** are asked for by its queries. -/
theorem requests_stages {c : Call} {first : Stage} {rest : List Stage}
    (hs : c.stages = first :: rest) (hstages : stages? c.function = some c.stages) :
    Ensures (· = c.begun) (do
        let o ← Builtin.buildStage c.tag c.operands (.literal (.float 0)) first
        rest.foldlM (fun o s => Builtin.buildStage c.tag c.operands (.socket o) s) o)
      (fun _ => Call.Through [c] c.stages.length c.pass) fun _ => Chain Call.Leads [c] c.pass := by
  have hleads : ∀ {q : Pass}, Chain Query.Leads c.queries c.begun q → c.Leads c.pass q :=
    fun h => ⟨rfl, Or.inr hstages, (orderly_of_stages? hstages).2, h⟩
  refine (Stage.ensures_queried fun n q => Stage.ensures_rest rest ⟨n, 0⟩ q).weaken
    (fun _ h => h) (fun o q h => ?_) fun e q h => ?_
  · rw [← hs, Stage.Queried, ← c.queries_tag] at h
    obtain ⟨⟨hchain, hanswered⟩, hlen⟩ := h
    refine ⟨.single (hleads hchain), ?_, ?_⟩
    · rw [List.flatMap_singleton]
      exact hanswered
    · rw [List.flatMap_singleton]
      exact hlen
  · rw [← hs, ← c.queries_tag] at h
    exact .single (hleads h)

/-- **A node of its own.** -/
theorem requests_node {function : String} {kind : NodeKind} {values : List Operand}
    (hstages : stages? function = some [.single kind])
    (hlen : values.length = kind.inputs.length) (p : Pass) :
    Requests p (Build.node function kind values) [Build.nodeCall function kind values p] 1
      fun _ => True := by
  let c := Build.nodeCall function kind values p
  have hbuilt := requests_stages (c := c) rfl hstages
  simp only [List.foldlM_nil, bind_pure] at hbuilt
  rw [show c.operands = values from rfl, buildStage_single hlen] at hbuilt
  have hnode := Ensures.of_bind_pure hbuilt
  have hrun : Build.node function kind values p
      = ((findOrCreate c.tag kind values).adaptExcept BuildError.ofGraph >>=
        fun n => Pure.pure ⟨n, 0⟩) c.begun := rfl
  refine Ensures.of_run hrun (Ensures.bind (Ensures.adaptExcept hnode) fun n => ?_)
  exact Ensures.pure fun q hq => ⟨hq, trivial⟩

/-- **A function call.** -/
theorem requests_call {function : String} {f : Builtin} {values : List Operand}
    (hf : Catalogue.get? function = some f) (p : Pass) :
    Requests p
      (do let t ← Pass.tagFor function values
          let o ← (f.call t values).adaptExcept BuildError.ofFunction
          return .socket o)
      [Build.functionCall function f values p] f.stages.length
      fun x : Operand => x.constantType? = none := by
  have hstages := stages?_of_get? hf
  have hunmarked := (orderly_of_stages? hstages).2
  cases hcheck : f.checkCall values p.graph with
  | error e =>
    -- the tag comes before the check, so a call that is refused has derived one as well
    rw [Build.functionCall, hcheck]
    let c : Call := ⟨function, values, [], p⟩
    have hcall : f.call c.tag values c.begun = .error (.call e) c.begun :=
      Builtin.call_of_error hcheck
    refine Ensures.of_run (y := throw (BuildError.ofFunction (.call e))) (q := c.begun) ?_
      (Ensures.throw fun q hq => ?_)
    · change EStateM.bind ((f.call c.tag values).adaptExcept _) _ c.begun = _
      rw [EStateM.bind, EStateM.adaptExcept, hcall]
      rfl
    · subst hq
      exact .single ⟨rfl, Or.inl rfl, hunmarked, .nil _⟩
  | ok _ =>
    rw [Build.functionCall, hcheck]
    let c : Call := ⟨function, values, f.stages, p⟩
    have hcall : f.call c.tag values c.begun
        = ((f.build c.tag values).adaptExcept FunctionError.graph) c.begun :=
      Builtin.call_of_ok hcheck
    have hbuilt : Ensures (· = c.begun) (f.build c.tag values)
        (fun _ => Call.Through [c] f.stages.length p) fun _ => Chain Call.Leads [c] p :=
      requests_stages (c := c) rfl hstages
    refine Ensures.of_run (y := ((f.build c.tag values).adaptExcept FunctionError.graph).adaptExcept
      BuildError.ofFunction >>= fun o => Pure.pure (.socket o)) (q := c.begun) ?_
      (Ensures.bind (Ensures.adaptExcept (Ensures.adaptExcept hbuilt)) fun o =>
        Ensures.pure fun q hq => ⟨hq, rfl⟩)
    change EStateM.bind ((f.call c.tag values).adaptExcept _) _ c.begun = EStateM.bind _ _ _
    rw [EStateM.bind, EStateM.bind, EStateM.adaptExcept, EStateM.adaptExcept, hcall]

/-- What is asked for three elements of a tuple. -/
theorem requests_vector {values : List Operand} (hlen : values.length = 3) (p : Pass) :
    Requests p (Build.vector values) (Build.vectorCalls values p)
      (if (Build.numbers? values).isSome then 0 else 1)
      fun x => x.constantType? = if (Build.numbers? values).isSome then some .vector else none := by
  rw [Build.vector, Build.vectorCalls]
  cases Build.numbers? values with
  | some v => exact Requests.pure rfl
  | none => exact (requests_node rfl hlen p).map fun _ _ => rfl

variable (b : Bindings)

mutual

/-- **An expression asks for nodes by its calls**, as many as it costs. -/
theorem requests_operand (tuples : Bool) : ∀ (e : Expr) (p : Pass),
    Requests p (Build.operand b tuples e) (Build.calls b tuples e p) (e.cost b)
      fun x => x.constantType? = e.constantType? b
  | .number _ v text, p => by
    rw [Build.operand, Build.calls, Expr.cost, Expr.constantType?]
    cases b.constant? text with
    | none => exact Requests.pure rfl
    | some o => exact Requests.pure rfl
  | .ident _ x, p => by
    rw [Build.operand, Build.calls, Expr.cost]
    refine Requests.get ?_
    cases b.resolve? p.graph x with
    | none => exact Requests.throw _ _
    | some o => exact Requests.pure rfl
  | .call _ f args, p => by
    rw [Build.operand, Build.calls, Expr.cost]
    cases hf : Catalogue.require f with
    | error e => exact Requests.throw _ _
    | ok function =>
      have hget := Catalogue.require_eq_ok.1 hf
      rw [← length_stages hget]
      exact (requests_operands true args p).bind fun values q _ => requests_call hget q
  | .tuple _ items, p => by
    rw [Build.operand, Build.calls]
    by_cases hitems : (tuples && items.length == 3) = true
    · rw [if_pos hitems, if_pos hitems]
      rw [Bool.and_eq_true, beq_iff_eq] at hitems
      refine (requests_operands false items p).bind fun values q hvalues => ?_
      have hlen : values.length = 3 := by
        rw [← List.length_map (f := Operand.constantType?), hvalues, List.length_map]
        exact hitems.2
      have hnumbers : (Build.numbers? values).isSome ↔
          items.length = 3 ∧ items.all (Expr.isConstant b) := by
        rw [isSome_numbers? hlen, hvalues, List.forall_mem_map, List.all_eq_true]
        simp only [Expr.isConstant_iff, hitems.2, true_and]
      have hvector := requests_vector hlen q
      simp only [hnumbers] at hvector
      exact hvector
    · rw [if_neg hitems, if_neg hitems]
      exact Requests.throw _ _
  | .binary .., p => by
    rw [Build.operand, Build.calls]
    exact Requests.throw _ _
  | .unary .., p => by
    rw [Build.operand, Build.calls]
    exact Requests.throw _ _

/-- Expressions ask for nodes by their calls, from left to right. -/
theorem requests_operands (tuples : Bool) : ∀ (es : List Expr) (p : Pass),
    Requests p (Build.operands b tuples es) (Build.callsAll b tuples es p) (Expr.costs b es)
      fun xs => xs.map Operand.constantType? = es.map (Expr.constantType? b)
  | [], p => by
    rw [Build.operands, Build.callsAll, Expr.costs]
    exact Requests.pure rfl
  | e :: es, p => by
    rw [Build.operands, Build.callsAll, Expr.costs]
    refine (requests_operand tuples e p).bind fun x q hx => ?_
    exact (requests_operands tuples es q).map fun xs hxs => congrArg₂ List.cons hx hxs

end

/-- **A whole expression asks for nodes by its calls**, as many as it costs. -/
theorem requests_root (e : Expr) (p : Pass) :
    Requests p (Build.root b e) (Build.rootCalls b e p) (e.rootCost b) fun _ => True := by
  rw [Expr.rootCost_eq]
  refine (requests_operand b true e p).bind fun x q hx => ?_
  rw [← hx]
  cases x with
  | socket o => exact Requests.pure trivial
  | literal v =>
    -- a constant gets a node of its own
    cases v with
    | float a => exact requests_node rfl rfl q
    | vector v => exact requests_node rfl rfl q

end

/-! ## What holds through all calls -/

namespace Chain

variable {I : List Query → Pass → Prop} {as bs : List Query} {p q : Pass}

theorem keeps_queries (hask : ∀ as a, I as a.pass → I (as ++ [a]) a.after)
    (h : Chain Query.Leads bs p q) (hp : I as p) : I (as ++ bs) q := by
  induction h generalizing as with
  | nil p => exact (List.append_nil as).symm ▸ hp
  | cons head _ ih =>
    obtain ⟨rfl, rfl⟩ := head
    rw [List.append_cons]
    exact ih (hask _ _ hp)

/-- What holds of a pass and of the queries before and in calls. -/
theorem keeps_append [TagDigest] (hbegin : ∀ as p derived, I as p → I as { p with derived := derived })
    (hask : ∀ as a, I as a.pass → I (as ++ [a]) a.after) {cs : List Call}
    (h : Chain Call.Leads cs p q) (hp : I as p) : I (as ++ cs.flatMap Call.queries) q := by
  induction h generalizing as with
  | nil p => exact (List.append_nil as).symm ▸ hp
  | cons head _ ih =>
    obtain ⟨rfl, -, -, hqueries⟩ := head
    rw [List.flatMap_cons, ← List.append_assoc]
    exact ih (keeps_queries hask hqueries (hbegin _ _ _ hp))

/-- **What holds of a pass through calls** and the queries so far: at the start, whatever tags a
pass has derived, and after any query. -/
theorem keeps [TagDigest] (hbegin : ∀ as p derived, I as p → I as { p with derived := derived })
    (hask : ∀ as a, I as a.pass → I (as ++ [a]) a.after) {cs : List Call}
    (h : Chain Call.Leads cs p q) (hp : I [] p) : I (cs.flatMap Call.queries) q := by
  simpa only [List.nil_append] using h.keeps_append hbegin hask hp

/-- Queries leave a well-formed graph, and derive no tags. -/
theorem wf (h : Chain Query.Leads as p q) (hp : p.graph.WellFormed) :
    q.graph.WellFormed ∧ q.derived = p.derived := by
  induction h with
  | nil p => exact ⟨hp, rfl⟩
  | @cons a _ _ _ _ head _ ih =>
    obtain ⟨rfl, rfl⟩ := head
    have hcomes := a.comes hp
    obtain ⟨hwf, hderived⟩ := ih (hcomes.wf hp)
    exact ⟨hwf, hderived.trans hcomes.derived⟩

end Chain

section

variable [TagDigest] {keys : List Key} {p q : Pass}

/-- The queries of a call have different tags, which are spent from then on. -/
theorem Call.Leads.nodup_tags {c : Call} (h : c.Leads p q) (hkeys : ∀ k ∈ keys, k.Sound)
    (hp : p.derived = keys.map Key.base) :
    (c.queries.map Query.tag).Nodup ∧ ∀ a ∈ c.queries, Spent (c.key :: keys) a.tag ∧
      ¬ Spent keys a.tag := by
  obtain ⟨rfl, hstages, hunmarked, -⟩ := h
  have htag : c.tag = c.key.next keys := by rw [Key.next, ← hp]; rfl
  have hinit := Stage.tags_queries c.tag c.operands (.literal (.float 0)) c.stages c.begun
  rw [← c.queries_tag] at hinit
  have hsound : c.key.Sound := hunmarked
  constructor
  · rcases hstages with hnone | hsome
    · rw [hnone] at hinit
      rw [List.prefix_nil.1 hinit]
      exact List.nodup_nil
    · exact (Stage.nodup_tags hsome
        (Tag.slash_not_mem_withOccurrence hsound.base _)).sublist hinit.sublist
  · intro a ha
    obtain ⟨s, -, hs⟩ := List.mem_map.1 (hinit.subset (List.mem_map_of_mem ha))
    rw [← hs, htag]
    exact ⟨⟨_, List.mem_cons_self, s, rfl⟩, not_spent_next hkeys hsound s⟩

/-- **No two queries of a pass have the same tag**, whatever the digest. -/
theorem queries_nodup {cs : List Call} (h : Chain Call.Leads cs p q) (hwf : p.graph.WellFormed)
    (hkeys : ∀ k ∈ keys, k.Sound) (hp : p.derived = keys.map Key.base) :
    ((cs.flatMap Call.queries).map Query.tag).Nodup ∧
      ∀ a ∈ cs.flatMap Call.queries, ¬ Spent keys a.tag := by
  induction h generalizing keys with
  | nil p => exact ⟨List.nodup_nil, List.forall_mem_nil _⟩
  | @cons c cs p r q head _ ih =>
    obtain ⟨hnodup, hspent⟩ := head.nodup_tags hkeys hp
    obtain ⟨rfl, -, hunmarked, hqueries⟩ := head
    obtain ⟨hwf', hderived⟩ := hqueries.wf hwf
    have hkeys' : ∀ k ∈ c.key :: keys, k.Sound := List.forall_mem_cons.2 ⟨hunmarked, hkeys⟩
    have hp' : r.derived = (c.key :: keys).map Key.base := by
      rw [hderived, List.map_cons, ← hp]
      rfl
    obtain ⟨hnodup', hfresh⟩ := ih hwf' hkeys' hp'
    rw [List.flatMap_cons, List.map_append]
    refine ⟨List.nodup_append'.2 ⟨hnodup, hnodup', ?_⟩, List.forall_mem_append.2
      ⟨fun a ha => (hspent a ha).2, fun a ha hs => hfresh a ha hs.cons⟩⟩
    -- the tags of this call are spent when the later ones are derived
    intro t ht ht'
    obtain ⟨a, ha, rfl⟩ := List.mem_map.1 ht
    obtain ⟨a', ha', heq⟩ := List.mem_map.1 ht'
    exact hfresh a' ha' (heq ▸ (hspent a ha).1)

end

/-- The digest that tells nothing from anything else. -/
@[reducible]
def blankDigest : TagDigest := ⟨fun _ _ => 0⟩

end NodeFormula
