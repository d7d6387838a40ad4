import NodeFormula.Proofs.Graph.History
import NodeFormula.Proofs.Script.Coherent
/-!
# NodeFormula — what a build is refused for

An expression in call form is refused for what its author has written, on any graph whose
interface carries no tags: the nodes that are there may have other kinds, share tags and be
linked in any way. The errors of an author are `BuildError.Authored`; that the graph refuses an
edit, that the result cannot be linked, or that a function is not in the catalogue, is none of
them. Between two steps of a build the pass stands and its tags are accounted for by keys
(`Proceeds`), so every node that is asked for is obtained and every call is refused by its
check alone (`refused_operand`). The graph of such a pass can always be pruned.
-/

namespace NodeFormula

open Graph Pass

/-- **An error that the text of an expression causes.** -/
inductive BuildError.Authored : BuildError → Prop
  | unknownVariable (name : String) : Authored (.unknownVariable name)
  | wrongTuple : Authored .wrongTuple
  | tooLarge : Authored .tooLarge
  | missingParams (function : String) (missing : Nat) :
      Authored (.call (.missingParams function missing))
  | extraParams (function : String) : Authored (.call (.extraParams function))
  | invalidOperand (function param : String) (position : Nat) :
      Authored (.call (.invalidOperand function param position))

/-- The operands of a call are refused by their number or their types. -/
theorem Builtin.authored_of_checkCall {f : Builtin} {operands : List Operand} {g : Graph}
    {err : CallError} (h : f.checkCall operands g = .error err) : (BuildError.call err).Authored := by
  rw [checkCall] at h
  rcases bind_eq_error h with harity | ⟨_, -, hscalar⟩
  · rw [checkArity] at harity
    split at harity
    · cases harity
      exact .missingParams _ _
    · split at harity
      · cases harity
        exact .extraParams _
      · cases harity
  · split at hscalar
    · rw [checkScalar] at hscalar
      split at hscalar
      · cases hscalar
      · cases hscalar
        exact .invalidOperand _ _ _
    · cases hscalar

namespace Pass

/-- **A pass has gone on**: it stands, its tags are accounted for by keys, and what was in use is
as it was. -/
structure Proceeds [TagDigest] (p q : Pass) : Prop where
  standing : Standing q
  keyed : ∃ keys, Keyed keys q
  settled : Settled p q

variable [TagDigest] {p q r : Pass}

theorem Proceeds.refl (hp : Standing p) (hkeyed : ∃ keys, Keyed keys p) : Proceeds p p :=
  ⟨hp, hkeyed, .refl p⟩

theorem Proceeds.trans (h : Proceeds p q) (h' : Proceeds q r) : Proceeds p r :=
  ⟨h'.standing, h'.keyed, h.settled.trans h'.settled⟩

/-- A pass that has gone on may go on from there. -/
theorem Proceeds.self (h : Proceeds p q) : Proceeds q q := .refl h.standing h.keyed

theorem Proceeds.start {g : Graph} (hg : g.Ready) (spacing : Float32) :
    Proceeds (start g spacing) (start g spacing) :=
  .refl (.start hg spacing) ⟨[], keyed_start g spacing⟩

end Pass

namespace Build

/-- **What can be built**: there are no operators, and functions are those of the catalogue. -/
structure Buildable (nodes : List Expr) : Prop where
  operands : ∀ n ∈ nodes, n.isOperator = false
  known : ∀ span f es, .call span f es ∈ nodes → Catalogue.isKnown f = true

theorem Buildable.subset {ms ns : List Expr} (h : Buildable ns) (hsub : ms ⊆ ns) : Buildable ms where
  operands n hn := h.operands n (hsub hn)
  known span f es hmem := h.known span f es (hsub hmem)

theorem buildable_of_lower {limit : Nat} {text : String} {e : Expr} (h : lower limit text = .ok e) :
    Buildable e.preorder where
  operands := isCallForm_of_lower h
  known _ _ _ := isKnown_of_lower h

variable {p : Pass} {args : List Operand} {kind : NodeKind} {name : String}

/-- Numbers fit everywhere. -/
theorem fits_of_scalars (h : ∀ v, .literal v ∈ args → v.type = .float) : Fits kind args := by
  rintro j v spec hv - ⟨hvector, -⟩
  rw [h v (List.mem_of_getElem? hv)] at hvector
  cases hvector

variable [TagDigest]

/-- **A tag is derived**, and none of its nodes is made yet. -/
theorem exists_tagFor (hp : Proceeds p p) (name : String) (args : List Operand) :
    ∃ keys, ∀ {E : BuildError → Pass → Prop}, Ensures (· = p) (tagFor name args)
      (fun t q => t = Key.next keys ⟨name, args.map (·.identity p.graph)⟩ ∧
        Assembling ⟨name, args.map (·.identity p.graph)⟩ keys [] q ∧ Settled p q) E := by
  obtain ⟨keys, hkeyed⟩ := hp.keyed
  refine ⟨keys, fun {E} => Ensures.get fun q hq => ?_⟩
  subst hq
  obtain ⟨hrun, hassembling⟩ := hp.standing.nextTag (ε := BuildError) hkeyed
    ⟨name, args.map (·.identity q.graph)⟩
  rintro r rfl
  rw [hrun]
  exact ⟨rfl, hassembling, fun _ h => h, fun _ _ => rfl⟩

/-- **A node under a name that is no function's is obtained.** -/
theorem obtains_node (hp : Proceeds p p) (hname : Unmarked name) (hk : kind.isInterface = false)
    (houtputs : kind.outputs.length = 1) (hlen : args.length = kind.inputs.length)
    (hfits : Fits kind args) (hargs : ∀ x ∈ args, x.AtHand p) :
    Ensures (· = p) (node name kind args)
      (fun o q => Proceeds p q ∧ (Operand.socket o).AtHand q) fun _ _ => False := by
  obtain ⟨keys, htag⟩ := exists_tagFor hp name args
  refine Ensures.bind htag fun t => ?_
  rintro p₁ ⟨rfl, hassembling, hderived⟩
  have hsound : Key.Sound ⟨name, args.map (·.identity p.graph)⟩ := hname
  have hfresh : ¬ p₁.Uses ((Stage.single kind).tag (Key.next keys
      ⟨name, args.map (·.identity p.graph)⟩)) := by
    intro hused
    rcases hassembling.spent _ hused with hspent | ⟨_, hmem, -⟩
    · exact not_spent_next hassembling.sound hsound _ hspent
    · exact absurd hmem List.not_mem_nil
  have hobtains := hassembling.standing.findOrCreate_obtains hfresh hk hlen hfits fun x hx =>
    hderived.atHand (hargs x hx)
  refine Ensures.bind (P := (· = p₁)) (Ensures.adaptExcept hobtains)
    (fun n => Ensures.pure fun q hq => ?_) p₁ rfl
  obtain ⟨spec, hspec⟩ := List.length_eq_one_iff.1 houtputs
  have htype : q.graph.outputType? ⟨n, 0⟩ = some spec.type := by
    rw [hq.standing.ready.wf.outputType?_of_kind? hq.kind hk, hspec]
    rfl
  exact ⟨⟨hq.standing, ⟨_, (hassembling.obtained hq).keyed hsound⟩, hderived.trans hq.settled⟩,
    Or.inr hq.touched, exists_outputSocket htype⟩

/-- So is one of numbers alone. -/
theorem obtains_constants (hp : Proceeds p p) (hname : Unmarked name)
    (hk : kind.isInterface = false) (houtputs : kind.outputs.length = 1)
    (hlen : args.length = kind.inputs.length) (hargs : ∀ x ∈ args, ∃ a, x = .literal (.float a)) :
    Ensures (· = p) (node name kind args)
      (fun o q => Proceeds p q ∧ (Operand.socket o).AtHand q) fun _ _ => False := by
  refine obtains_node hp hname hk houtputs hlen (fits_of_scalars fun v hv => ?_) fun x hx => ?_
  · obtain ⟨a, heq⟩ := hargs _ hv
    cases heq
    rfl
  · obtain ⟨a, rfl⟩ := hargs x hx
    trivial

/-- Three operands make a vector, if they are numbers where they are constants. -/
theorem obtains_vector (hp : Proceeds p p) (hlen : args.length = 3)
    (hscalars : ∀ v, .literal v ∈ args → v.type = .float) (hargs : ∀ x ∈ args, x.AtHand p) :
    Ensures (· = p) (vector args) (fun x q => Proceeds p q ∧ x.AtHand q) fun _ _ => False := by
  rw [vector]
  cases numbers? args with
  | some v =>
    refine Ensures.pure fun q hq => ?_
    subst hq
    exact ⟨hp, trivial⟩
  | none =>
    exact Ensures.bind (obtains_node hp (by decide) rfl rfl hlen (fits_of_scalars hscalars) hargs)
      fun o => Ensures.pure fun q hq => hq

variable (sink : InputRef)

/-- A variable is an input of the graph, or it is unknown. -/
theorem refused_ident (tuples : Bool) (span : Span) (name : String) (hp : Proceeds p p) :
    Ensures (· = p) (operand (.atInterface sink) tuples (.ident span name))
      (fun x q => Proceeds p q ∧ x.AtHand q ∧ ∀ v, x ≠ .literal v) fun err _ => err.Authored := by
  rw [operand]
  refine Ensures.get fun q hq => ?_
  subst hq
  rw [resolve?_atInterface]
  cases hfind : findSocket? name q.graph.inputSockets with
  | none => exact Ensures.throw fun _ _ => .unknownVariable name
  | some found =>
    refine Ensures.pure fun r hr => ?_
    subst hr
    have hinput : r.graph.input? name = some (⟨entry, found.1⟩, found.2) := by
      rw [input?, hfind]
      rfl
    exact ⟨hp, ⟨Or.inl rfl, exists_outputSocket (input?_eq_some hinput).2⟩,
      fun _ hx => by cases hx⟩

/-- **A call is refused for its arguments**, or it has an output at hand. -/
theorem refused_call {f : String} {function : Builtin} (hf : Catalogue.get? f = some function)
    (hp : Proceeds p p) (hargs : ∀ x ∈ args, x.AtHand p) :
    Ensures (· = p) (do
      let t ← tagFor f args
      let o ← (function.call t args).adaptExcept BuildError.ofFunction
      return Operand.socket o)
      (fun x q => Proceeds p q ∧ x.AtHand q ∧ ∀ v, x ≠ .literal v) fun err _ => err.Authored := by
  obtain ⟨keys, htag⟩ := exists_tagFor hp f args
  refine Ensures.bind htag fun t => ?_
  rintro q ⟨rfl, hassembling, hderived⟩
  have hcall := ensures_call hf hassembling fun x hx => hderived.atHand (hargs x hx)
  refine Ensures.bind (Ensures.adaptExcept (hcall.weaken (fun _ h => h) (fun _ _ h => h)
    fun err r h => ?_)) (fun o => Ensures.pure fun r hr => ?_) q rfl
  · obtain ⟨-, e, rfl, hcheck⟩ := h
    exact Builtin.authored_of_checkCall hcheck
  · obtain ⟨⟨hstanding, hkeyed, hsettled⟩, ho, -⟩ := hr
    exact ⟨⟨hstanding, ⟨_, hkeyed⟩, hderived.trans hsettled⟩, ho,
      fun _ hx => by cases hx⟩

omit [TagDigest] in
/-- The function of a call is in the catalogue. -/
theorem ensures_require {f : String} {function : Builtin} (hf : Catalogue.get? f = some function)
    {E : BuildError → Pass → Prop} :
    Ensures (· = p) (Pass.read fun _ => (Catalogue.require f).mapError .call)
      (fun a q => a = function ∧ q = p) E := by
  refine Ensures.read (fun q a hq hr => ?_) fun q err _ hr => ?_
  · rw [Catalogue.require, hf] at hr
    cases hr
    exact ⟨rfl, hq⟩
  · rw [Catalogue.require, hf] at hr
    cases hr

mutual

/-- **An expression is refused for what is written in it.** By recursion over it: inside a tuple
there is no other one, so the constants there are numbers. -/
theorem refused_operand (tuples : Bool) : ∀ (e : Expr) {p : Pass},
    Buildable e.preorder → Proceeds p p →
    Ensures (· = p) (operand (.atInterface sink) tuples e)
      (fun x q => Proceeds p q ∧ x.AtHand q ∧
        (tuples = false → ∀ v, x = .literal v → v.type = .float))
      fun err _ => err.Authored
  | .number _ v text, p, _, hp => by
    rw [operand]
    refine Ensures.pure fun q hq => ?_
    subst hq
    refine ⟨hp, trivial, fun _ w hw => ?_⟩
    cases hw
    rfl
  | .ident span name, p, _, hp =>
    (refused_ident sink tuples span name hp).weaken (fun _ h => h)
      (fun _ _ h => ⟨h.1, h.2.1, fun _ v hv => absurd hv (h.2.2 v)⟩) fun _ _ h => h
  | .call span f es, p, he, hp => by
    rw [operand]
    obtain ⟨function, hf⟩ := Option.isSome_iff_exists.1
      (he.known span f es (by rw [Expr.preorder]; exact List.mem_cons_self))
    refine Ensures.bind (ensures_require hf) fun a => ?_
    rintro q ⟨rfl, rfl⟩
    have hes : Buildable (Expr.preorderAll es) :=
      he.subset (by rw [Expr.preorder]; exact List.subset_cons_self _ _)
    refine Ensures.bind (refused_operands true es hes hp) (fun xs => ?_) q rfl
    rintro p₁ ⟨hp₁, -, hxs, -⟩
    refine (refused_call hf hp₁.self hxs).weaken (fun _ h => h) (fun x r h => ?_)
      (fun _ _ h => h) p₁ rfl
    exact ⟨hp₁.trans h.1, h.2.1, fun _ v hv => absurd hv (h.2.2 v)⟩
  | .tuple _ items, p, he, hp => by
    rw [operand]
    split
    · rename_i htuple
      rw [Bool.and_eq_true, beq_iff_eq] at htuple
      have hitems : Buildable (Expr.preorderAll items) :=
        he.subset (by rw [Expr.preorder]; exact List.subset_cons_self _ _)
      refine Ensures.bind (refused_operands false items hitems hp) fun xs => ?_
      rintro q ⟨hq, hlen, hxs, hscalars⟩
      refine (obtains_vector hq.self (hlen.trans htuple.2) (hscalars rfl) hxs).weaken
        (fun _ h => h) (fun x r h => ?_) (fun _ _ h => h.elim) q rfl
      exact ⟨hq.trans h.1, h.2, fun hnot => absurd (htuple.1.symm.trans hnot) (by decide)⟩
    · exact Ensures.throw fun _ _ => .wrongTuple
  | .binary .., p, he, _ => by
    cases he.operands _ (by rw [Expr.preorder]; exact List.mem_cons_self)
  | .unary .., p, he, _ => by
    cases he.operands _ (by rw [Expr.preorder]; exact List.mem_cons_self)

theorem refused_operands (tuples : Bool) : ∀ (es : List Expr) {p : Pass},
    Buildable (Expr.preorderAll es) → Proceeds p p →
    Ensures (· = p) (operands (.atInterface sink) tuples es)
      (fun xs q => Proceeds p q ∧ xs.length = es.length ∧ (∀ x ∈ xs, x.AtHand q) ∧
        (tuples = false → ∀ v, .literal v ∈ xs → v.type = .float))
      fun err _ => err.Authored
  | [], p, _, hp => by
    rw [operands]
    refine Ensures.pure fun q hq => ?_
    subst hq
    exact ⟨hp, rfl, List.forall_mem_nil _, fun _ v hv => absurd hv List.not_mem_nil⟩
  | e :: es, p, hall, hp => by
    rw [operands]
    have he : Buildable e.preorder :=
      hall.subset (by rw [Expr.preorderAll]; exact List.subset_append_left _ _)
    have hes : Buildable (Expr.preorderAll es) :=
      hall.subset (by rw [Expr.preorderAll]; exact List.subset_append_right _ _)
    refine Ensures.bind (refused_operand tuples e he hp) fun x => ?_
    rintro q ⟨hq, hx, hscalar⟩
    refine Ensures.bind (refused_operands tuples es hes hq.self)
      (fun xs => Ensures.pure fun r hr => ?_) q rfl
    obtain ⟨hr, hlen, hxs, hscalars⟩ := hr
    refine ⟨hq.trans hr, by rw [List.length_cons, List.length_cons, hlen],
      List.forall_mem_cons.2 ⟨hr.settled.atHand hx, hxs⟩, fun hnot v hv => ?_⟩
    rcases List.mem_cons.1 hv with heq | hv
    · exact hscalar hnot v heq.symm
    · exact hscalars hnot v hv

end

/-- A whole expression is refused for what is written in it, or it has an output at hand. -/
theorem refused_root {e : Expr} (he : Buildable e.preorder) (hp : Proceeds p p) :
    Ensures (· = p) (root (.atInterface sink) e)
      (fun o q => Proceeds p q ∧ (Operand.socket o).AtHand q) fun err _ => err.Authored := by
  refine Ensures.bind (refused_operand sink true e he hp) fun x => ?_
  rintro q ⟨hq, hx, -⟩
  have hnode : ∀ {name kind args}, Unmarked name → kind.isInterface = false →
      kind.outputs.length = 1 → args.length = kind.inputs.length →
      (∀ y ∈ args, ∃ a, y = .literal (.float a)) →
      Ensures (· = q) (node name kind args) (fun o r => Proceeds p r ∧ (Operand.socket o).AtHand r)
        fun err _ => err.Authored := fun hname hk houtputs hlen hargs =>
    (obtains_constants hq.self hname hk houtputs hlen hargs).weaken (fun _ h => h)
      (fun o r hr => ⟨hq.trans hr.1, hr.2⟩) fun _ _ h => h.elim
  match x, hx with
  | .socket o, hx => exact ⟨hq, hx⟩
  | .literal (.float a), _ =>
    exact hnode (by decide) rfl rfl rfl (List.forall_mem_singleton.2 ⟨a, rfl⟩) q rfl
  | .literal (.vector v), _ =>
    exact hnode (by decide) rfl rfl rfl (List.forall_mem_map.2 fun a _ => ⟨a, rfl⟩) q rfl

/-- **The result can be linked**: the sink is where it was, and nothing leads back from it. -/
theorem refused_linked {g : Graph} (hg : g.Ready) {e : Expr} {name : String} {type : SocketType}
    (he : Buildable e.preorder) (hsink : g.output? name = some (sink, type)) (spacing : Float32) :
    Ensures (· = start g spacing) (linked (.atInterface sink) e) (fun _ _ => True)
      fun err _ => err.Authored := by
  obtain ⟨hexit, s, hs, -⟩ := output?_eq_some hsink
  have hframe : Frame g (fun _ => False) (fun _ => False) (start g spacing) :=
    Frame.start hg.wf hg.untagged spacing
  have hframed : Framed g (fun _ => False) (fun _ => False) (root (.atInterface sink) e) :=
    framed_root (.atInterface sink) hg.wf e
  have hroot := (refused_root sink he (.start hg spacing)).and hframed
  refine Ensures.bind (hroot.weaken (fun p hp => ⟨hp, hp ▸ hframe⟩) (fun _ _ h => h)
    fun _ _ h => h.1) fun o => ?_
  rintro p ⟨⟨hp, ho⟩, hkept⟩
  have hsocket : p.graph.inputSocket sink = .ok s := by
    rw [inputSocket, hkept.faces _ (Or.inr hexit), ← inputSocket, hs]
  refine Ensures.bind (P := (· = p)) (Ensures.adaptExcept ((hp.standing.linkOutput_writes ho hexit
    hsocket).weaken (fun _ h => h) (fun _ _ _ => trivial) fun _ _ h => h.elim)) (fun made => ?_) p rfl
  exact Ensures.pure fun _ _ => trivial

omit [TagDigest] in
/-- What is checked first is the depth and the names. -/
theorem authored_of_check {b : Bindings} {o : BuildOptions} {g : Graph} {e : Expr}
    {err : BuildError} (he : Buildable e.preorder) (h : check b o e g = .error err) :
    err.Authored := by
  rw [check] at h
  split at h
  · cases h
    exact .tooLarge
  · split at h
    · rename_i err' hfound
      cases h
      obtain ⟨n, hmem, hn⟩ := List.exists_of_findSome?_eq_some hfound
      rw [nodeError?.eq_def] at hn
      split at hn
      · rename_i f args
        obtain ⟨function, hf⟩ := Option.isSome_iff_exists.1 (he.known _ f args hmem)
        rw [Catalogue.require_eq_ok.2 hf] at hn
        cases hn
      · split at hn
        · cases hn
          exact .unknownVariable _
        · cases hn
      · cases hn
    · cases h

end Build

section

variable [TagDigest] {g : Graph} {b : Bindings} {e : Expr} {limit : Nat} {text name : String}

/-- **A build fails for what its author has written, and for nothing else.** The graph may be any
that is well formed and has no tags on its interface, with whatever nodes, tags and links; the
text is one that has a call form; the options are any. A build that comes to its result can
prune the graph, whether it is asked to or not. -/
theorem build_fails_authored (hg : g.Ready) (he : lower limit text = .ok e)
    (hb : Bindings.ofInterface g name = .ok b) (o : BuildOptions) :
    ((∃ r, (build o b e g).1 = .ok r) ∨ ∃ err, (build o b e g).1 = .error err ∧ err.Authored) ∧
      ∀ a p, Build.linked b e (Pass.start g o.spacing) = .ok a p →
        ∃ tags q, Pass.prune p = .ok tags q := by
  obtain ⟨i, type, hout, rfl⟩ := exists_of_ofInterface hb
  have hbuildable : Build.Buildable e.preorder := Build.buildable_of_lower he
  have hstart : Frame g (fun _ => False) (fun _ => False) (Pass.start g o.spacing) :=
    Frame.start hg.wf hg.untagged o.spacing
  have hlinked := Build.ensures_linked (.atInterface i) hg.wf e _ hstart
  have hprunes : ∀ a p, Build.linked (.atInterface i) e (Pass.start g o.spacing) = .ok a p →
      ∃ tags q, Pass.prune p = .ok tags q := by
    intro a p hrun
    rw [hrun] at hlinked
    obtain ⟨q, hq, -⟩ := Frame.prune_eq_ok hlinked
    exact ⟨_, q, hq⟩
  refine ⟨?_, hprunes⟩
  rw [build]
  cases hcheck : Build.check (.atInterface i) o e g with
  | error err => exact .inr ⟨err, rfl, Build.authored_of_check hbuildable hcheck⟩
  | ok _ =>
    have hrefused := Build.refused_linked i hg hbuildable hout o.spacing _ rfl
    dsimp only
    cases hrun : Build.linked (.atInterface i) e (Pass.start g o.spacing) with
    | error err p =>
      rw [hrun] at hrefused
      exact .inr ⟨err, rfl, hrefused⟩
    | ok a p =>
      obtain ⟨tags, q, hprune⟩ := hprunes a p hrun
      left
      dsimp only
      cases o.prune with
      | false => exact ⟨_, rfl⟩
      | true =>
        simp only [if_true, hprune]
        exact ⟨_, rfl⟩

end

/-- Two nodes that carry the tag of a product, of another kind and linked to the output. -/
def occupied : List Edit :=
  [.newInput "x" .float, .newInput "v" .vector, .newOutput "a" .float,
    .createNode .separateXyz, .setTag 2 (.derive "mult" ["Group Input:0", "f"]),
    .createNode (.math .add), .setTag 3 (.derive "mult" ["Group Input:0", "f"]),
    .link ⟨2, 0⟩ ⟨3, 0⟩, .link ⟨3, 0⟩ ⟨exit, 0⟩]

/-- The tag is taken over in one build; a vector is refused by another. -/
theorem build_fails_authored_occupied :
    (history occupied).Ready ∧
    (∃ e r, callForm? "x*2 + x*2" = some e ∧
      (build .standard (.atInterface ⟨exit, 0⟩) e (history occupied)).1 = .ok r) ∧
    ∃ e err, callForm? "sin(v)" = some e ∧
      (build .standard (.atInterface ⟨exit, 0⟩) e (history occupied)).1 = .error err ∧
      err.Authored := by
  have hclean : ∀ n ∈ (history occupied).nodes, n.id = entry ∨ n.id = exit → n.tag = none := by
    decide +kernel
  have hg : (history occupied).Ready := ⟨wellFormed_history occupied, fun n node hn hnode => by
    obtain ⟨hmem, rfl⟩ := mem_of_node? hnode
    exact hclean node hmem hn⟩
  have hb : Bindings.ofInterface (history occupied) "a" = .ok (.atInterface ⟨exit, 0⟩) := by
    decide +kernel
  have hsome : (callForm? "x*2 + x*2").isSome ∧ (callForm? "sin(v)").isSome := by decide +kernel
  have hbuilds : (∀ e ∈ callForm? "x*2 + x*2",
      (build .standard (.atInterface ⟨exit, 0⟩) e (history occupied)).1.isOk) ∧
      ∀ e ∈ callForm? "sin(v)",
        (build .standard (.atInterface ⟨exit, 0⟩) e (history occupied)).1.isOk = false := by
    decide +kernel
  obtain ⟨e, he⟩ := Option.isSome_iff_exists.1 hsome.1
  obtain ⟨e', he'⟩ := Option.isSome_iff_exists.1 hsome.2
  have hok := hbuilds.1 e he
  have herror := hbuilds.2 e' he'
  refine ⟨hg, ?_, ?_⟩
  · rcases (build_fails_authored hg (lower_of_callForm? he) hb .standard).1 with
      ⟨r, hr⟩ | ⟨err, herr, -⟩
    · exact ⟨e, r, he, hr⟩
    · rw [herr] at hok
      cases hok
  · rcases (build_fails_authored hg (lower_of_callForm? he') hb .standard).1 with
      ⟨r, hr⟩ | ⟨err, herr, hauthored⟩
    · rw [hr] at herror
      cases herror
    · exact ⟨e', err, he', herr, hauthored⟩

end NodeFormula
