import NodeFormula.Proofs.Graph.Evaluation
import NodeFormula.Proofs.Graph.History
import NodeFormula.Proofs.Result
/-!
# NodeFormula — what an evaluation answers

An output draws on the inputs of the graph that links lead from, through the nodes between
them (`Graph.DrawsOn`). Every argument of a node is evaluated, so an outcome is a value if all
these inputs are given, and otherwise names one that is not (`answers_of_yields`). This is all
that an evaluation answers (`evaluation_answers`): in a well-formed graph it never comes to a
cycle or to a socket that is not there, and what it computes with a bound and a memo is the
outcome that `Yields` describes without them.
-/

namespace NodeFormula

open Relation

namespace Graph

variable {g : Graph} {inputs : String → Option Value} {o : OutputRef} {i : InputRef} {k : Nat}
  {name : String} {r : Outcome}

/-! ## Inputs that an output draws on -/

/-- **An output draws on an input of the graph**: links lead from the input to the output,
through the nodes between them. -/
def DrawsOn (g : Graph) (o : OutputRef) (k : Nat) : Prop :=
  o = ⟨entry, k⟩ ∨
    ∃ l ∈ g.links, l.source = ⟨entry, k⟩ ∧ ReflTransGen g.Linked l.target.node o.node

/-- An output draws on an input of the graph that has this name and no value. -/
def Lacks (g : Graph) (inputs : String → Option Value) (o : OutputRef) (name : String) : Prop :=
  ∃ k s, g.DrawsOn o k ∧ g.outputSocket ⟨entry, k⟩ = .ok s ∧ s.name = name ∧ inputs name = none

/-- What is linked into an input socket draws on such an input of the graph. -/
def LacksAt (g : Graph) (inputs : String → Option Value) (i : InputRef) (name : String) : Prop :=
  ∃ l, g.incoming? i = some l ∧ g.Lacks inputs l.source name

/-- A node draws on what its arguments draw on. -/
theorem WellFormed.drawsOn_iff (hg : g.WellFormed) (hne : o.node ≠ entry) :
    g.DrawsOn o k ↔ ∃ index l, g.incoming? ⟨o.node, index⟩ = some l ∧ g.DrawsOn l.source k := by
  constructor
  · rintro (rfl | ⟨first, hfirst, hsource, hpath⟩)
    · exact absurd rfl hne
    · -- the last link of the path is the one into the node
      rcases hpath.cases_tail with heq | ⟨m, hpath, last, hlast, rfl, htarget⟩
      · exact ⟨first.target.index, first, hg.incoming?_eq_some.2 ⟨hfirst, by rw [heq]⟩,
          Or.inl hsource⟩
      · exact ⟨last.target.index, last, hg.incoming?_eq_some.2 ⟨hlast, by rw [← htarget]⟩,
          Or.inr ⟨first, hfirst, hsource, hpath⟩⟩
  · rintro ⟨index, last, hlast, hdraws⟩
    obtain ⟨hmem, htarget⟩ := hg.incoming?_eq_some.1 hlast
    have hnode : last.target.node = o.node := by rw [htarget]
    rcases hdraws with hsource | ⟨first, hfirst, hsource, hpath⟩
    · exact Or.inr ⟨last, hmem, hsource, hnode ▸ .refl⟩
    · exact Or.inr ⟨first, hfirst, hsource, hpath.tail ⟨last, hmem, rfl, hnode⟩⟩

/-- So it lacks what they lack. -/
theorem WellFormed.lacks_iff (hg : g.WellFormed) (hne : o.node ≠ entry) :
    g.Lacks inputs o name ↔ ∃ index, g.LacksAt inputs ⟨o.node, index⟩ name := by
  constructor
  · rintro ⟨k, s, hdraws, hs⟩
    obtain ⟨index, l, hl, hdraws⟩ := (hg.drawsOn_iff hne).1 hdraws
    exact ⟨index, l, hl, k, s, hdraws, hs⟩
  · rintro ⟨index, l, hl, k, s, hdraws, hs⟩
    exact ⟨k, s, (hg.drawsOn_iff hne).2 ⟨index, l, hl, hdraws⟩, hs⟩

/-- An input of the graph draws on itself alone. -/
theorem WellFormed.drawsOn_entry (hg : g.WellFormed) {index : Nat} :
    g.DrawsOn ⟨entry, index⟩ k ↔ k = index := by
  constructor
  · rintro (heq | ⟨l, hl, hsource, hpath⟩)
    · cases heq
      rfl
    · -- the path would close a cycle at the entry
      have hcycle : TransGen g.Linked entry entry :=
        TransGen.head' ⟨l, hl, by rw [hsource], rfl⟩ hpath
      exact absurd hcycle (hg.acyclic entry)
  · rintro rfl
    exact Or.inl rfl

/-! ## Outcomes -/

/-- **What an evaluation answers**: a value of the type, if no input is lacking, and else that
one is missing. -/
structure Answers (lacks : String → Prop) (yields : Outcome → Prop) (type : SocketType)
    (r : Outcome) : Prop where
  succeeds : (∃ v, r = .ok v) ↔ ∀ name, ¬ lacks name
  fails : ∀ e, r = .error e → ∃ name, lacks name ∧ e = .missingInput name
  value : ∀ v, r = .ok v → v.type = type ∧ yields (.ok v)

/-- An answer from what its two ends say. -/
theorem Answers.of_ends {lacks : String → Prop} {yields : Outcome → Prop} {type : SocketType}
    (hyields : yields r) (hok : ∀ v, r = .ok v → v.type = type ∧ ∀ name, ¬ lacks name)
    (herror : ∀ e, r = .error e → ∃ name, lacks name ∧ e = .missingInput name) :
    Answers lacks yields type r where
  succeeds := by
    refine ⟨fun ⟨v, hv⟩ => (hok v hv).2, fun hall => ?_⟩
    cases r with
    | ok v => exact ⟨v, rfl⟩
    | error e =>
      obtain ⟨name, hlacks, -⟩ := herror e rfl
      exact absurd hlacks (hall name)
  fails := herror
  value v hv := ⟨(hok v hv).1, hv ▸ hyields⟩

section

variable {n : NodeId} {sockets : List Socket} {sources : Nat → Outcome} {index : Nat} {s : Socket}

theorem getElem?_arguments_of_linked (hs : sockets[index]? = some s) {l : Link}
    (hl : g.incoming? ⟨n, index⟩ = some l) :
    (g.arguments n sockets sources)[index]? = some ((sources index).map (·.convert s.type)) := by
  rw [arguments, List.getElem?_mapIdx, hs, Option.map_some, hl]

theorem getElem?_arguments_of_unlinked (hs : sockets[index]? = some s)
    (hl : g.incoming? ⟨n, index⟩ = none) :
    (g.arguments n sockets sources)[index]? = some (.ok s.default) := by
  rw [arguments, List.getElem?_mapIdx, hs, Option.map_some, hl]

end

/-- An outcome is a value where nothing is lacking, and else that something is missing. -/
theorem WellFormed.lacks_of_yields (hg : g.WellFormed) (h : g.Yields inputs o r) :
    (∀ v, r = .ok v → ∀ name, ¬ g.Lacks inputs o name) ∧
      ∀ e, r = .error e → ∃ name, g.Lacks inputs o name ∧ e = .missingInput name := by
  -- by induction on the outcome: a node answers as its arguments do
  induction h with
  | @given index s v hs hv =>
    refine ⟨fun _ _ name => ?_, nofun⟩
    rintro ⟨k, s', hdraws, hs', rfl, hnone⟩
    obtain rfl := hg.drawsOn_entry.1 hdraws
    rw [hs] at hs'
    cases hs'
    rw [hv] at hnone
    cases hnone
  | @missing index s hs hv =>
    refine ⟨nofun, fun e he => ?_⟩
    cases he
    exact ⟨s.name, ⟨index, s, Or.inl rfl, hs, rfl, hv⟩, rfl⟩
  | @computed o node sources hne hnode hsources ih =>
    refine ⟨fun v hv name hlacks => ?_, fun e he => ?_⟩
    · obtain ⟨args, hargs, -⟩ := map_eq_ok hv
      obtain ⟨index, l, hl, hlacks⟩ := (hg.lacks_iff hne).1 hlacks
      obtain ⟨hmem, htarget⟩ := hg.incoming?_eq_some.1 hl
      obtain ⟨s, hs⟩ := hg.targets l hmem
      rw [htarget] at hs
      obtain ⟨node', hnode', hsocket⟩ := inputSocket_eq_ok.1 hs
      rw [hnode] at hnode'
      cases hnode'
      obtain ⟨w, hw⟩ := isOk_of_mapM_eq_ok hargs _
        (List.mem_of_getElem? (getElem?_arguments_of_linked hsocket hl))
      obtain ⟨u, hu, -⟩ := map_eq_ok hw
      exact (ih index l hl).1 u hu name hlacks
    · cases hargs : (g.arguments o.node node.inputs sources).mapM id with
      | ok args =>
        rw [hargs] at he
        cases he
      | error e' =>
        rw [hargs] at he
        cases he
        obtain ⟨x, hx, hfails⟩ := exists_of_mapM_eq_error hargs
        obtain ⟨index, hx⟩ := List.mem_iff_getElem?.1 hx
        have hlt : index < node.inputs.length := by
          have hlength := (List.getElem?_eq_some_iff.1 hx).1
          rwa [arguments, List.length_mapIdx] at hlength
        have hs := List.getElem?_eq_getElem hlt
        cases hl : g.incoming? ⟨o.node, index⟩ with
        | none =>
          rw [getElem?_arguments_of_unlinked hs hl] at hx
          cases hx
          cases hfails
        | some l =>
          rw [getElem?_arguments_of_linked hs hl] at hx
          cases hx
          cases hsource : sources index with
          | ok v =>
            rw [hsource] at hfails
            cases hfails
          | error e'' =>
            rw [hsource] at hfails
            cases hfails
            obtain ⟨name, hlacks, heq⟩ := (ih index l hl).2 _ hsource
            exact ⟨name, (hg.lacks_iff hne).2 ⟨index, l, hl, hlacks⟩, heq⟩

/-- A value has the type of its socket. -/
theorem WellFormed.type_of_yields (hg : g.WellFormed) {v : Value} {s : Socket}
    (h : g.Yields inputs o (.ok v)) (hs : g.outputSocket o = .ok s) : v.type = s.type := by
  generalize hr : Except.ok v = r at h
  cases h with
  | given hs' hv =>
    rw [hs] at hs'
    cases hs'
    cases hr
    exact Value.type_convert _ _
  | missing => cases hr
  | @computed _ node sources hne hnode hsources =>
    obtain ⟨args, -, rfl⟩ := map_eq_ok hr.symm
    have hvalue := hg.getElem?_evaluate hne hnode hs args
    obtain ⟨node', hnode', hsocket⟩ := outputSocket_eq_ok.1 hs
    rw [hnode] at hnode'
    cases hnode'
    obtain ⟨hmem, hid⟩ := mem_of_node? hnode
    have htypes := NodeKind.type_evaluate node.kind args
    rw [← (hg.fits node hmem).outputs (hid ▸ hne), List.map_map] at htypes
    have hat := congrArg (·[o.index]?) htypes
    simp only [List.getElem?_map, hvalue, hsocket, Option.map_some, Option.some.injEq] at hat
    exact hat

theorem WellFormed.answers_of_yields (hg : g.WellFormed) {s : Socket} (h : g.Yields inputs o r)
    (hs : g.outputSocket o = .ok s) :
    Answers (g.Lacks inputs o) (g.Yields inputs o) s.type r := by
  obtain ⟨hok, herror⟩ := hg.lacks_of_yields h
  exact .of_ends h (fun v hv => ⟨hg.type_of_yields (hv ▸ h) hs, hok v hv⟩) herror

theorem WellFormed.answers_of_yieldsAt (hg : g.WellFormed) {s : Socket}
    (h : g.YieldsAt inputs i r) (hs : g.inputSocket i = .ok s) :
    Answers (g.LacksAt inputs i) (g.YieldsAt inputs i) s.type r := by
  obtain ⟨s', hs', hr⟩ := id h
  rw [hs] at hs'
  cases hs'
  cases hl : g.incoming? i with
  | none =>
    rw [hl] at hr
    refine .of_ends h (fun v hv => ⟨?_, fun name hlacks => ?_⟩) fun e he => ?_
    · rw [hr] at hv
      cases hv
      obtain ⟨node, hnode, hsocket⟩ := inputSocket_eq_ok.1 hs
      exact (hg.fits node (mem_of_node? hnode).1).defaults s (List.mem_of_getElem? hsocket)
    · obtain ⟨l, hl', -⟩ := hlacks
      rw [hl] at hl'
      cases hl'
    · rw [hr] at he
      cases he
  | some l =>
    rw [hl] at hr
    obtain ⟨r', hyields, rfl⟩ := hr
    obtain ⟨hok, herror⟩ := hg.lacks_of_yields hyields
    refine .of_ends h (fun v hv => ?_) fun e he => ?_
    · obtain ⟨w, hw, rfl⟩ := map_eq_ok hv
      refine ⟨Value.type_convert _ _, fun name hlacks => ?_⟩
      obtain ⟨l', hl', hlacks⟩ := hlacks
      rw [hl] at hl'
      cases hl'
      exact hok w hw name hlacks
    · cases r' with
      | ok w => cases he
      | error e' =>
        cases he
        obtain ⟨name, hlacks, heq⟩ := herror _ rfl
        exact ⟨name, ⟨l, hl, hlacks⟩, heq⟩

/-! ## Evaluations -/

/-- **The value of an output socket is its outcome.** -/
theorem WellFormed.evaluateOutput_eq_of_yields (hg : g.WellFormed) {s : Socket}
    (h : g.Yields inputs o r) (hs : g.outputSocket o = .ok s) : g.evaluateOutput inputs o = r := by
  obtain ⟨rank, hrank, hlt⟩ := hg.exists_rank
  obtain ⟨node, hnode, -⟩ := outputSocket_eq_ok.1 hs
  exact (hg.settles_outputValue hrank h hs
    (Nat.lt_succ_of_lt (hlt o.node (hasNode_iff.2 ⟨node, hnode⟩)))).run'

/-- **What evaluations of a graph answer.** A name that is no output is refused. An output comes
to a value if and only if every input it draws on is given, and otherwise one of these is
missing; the value is of the output's type, and it is the outcome. The same holds of an output
socket of a node. -/
theorem evaluation_answers (hg : g.WellFormed) (inputs : String → Option Value) :
    (∀ name, g.output? name = none → g.evaluate inputs name = .error (.unknownSocket name)) ∧
    (∀ name i type, g.output? name = some (i, type) →
      Answers (g.LacksAt inputs i) (g.YieldsAt inputs i) type (g.evaluate inputs name)) ∧
    ∀ o s, g.outputSocket o = .ok s →
      Answers (g.Lacks inputs o) (g.Yields inputs o) s.type (g.evaluateOutput inputs o) := by
  refine ⟨fun name hnone => ?_, fun name i type hout => ?_, fun o s hs => ?_⟩
  · rw [evaluate, hnone]
  · obtain ⟨-, s, hs, -, rfl⟩ := output?_eq_some hout
    obtain ⟨r, hr⟩ := hg.exists_yieldsAt inputs hs
    rw [hg.evaluate_eq_of_yieldsAt hout hr]
    exact hg.answers_of_yieldsAt hr hs
  · obtain ⟨r, hr⟩ := hg.exists_yields inputs ⟨s, hs⟩
    rw [hg.evaluateOutput_eq_of_yields hr hs]
    exact hg.answers_of_yields hr hs

/-- A sum of two inputs that is squared. -/
def squaring : List Edit :=
  [.newInput "x" .float, .newInput "y" .float, .newOutput "a" .vector, .newOutput "b" .float,
    .createNode (.math .add), .createNode (.math .multiply),
    .link ⟨entry, 0⟩ ⟨2, 0⟩, .link ⟨entry, 1⟩ ⟨2, 1⟩, .link ⟨2, 0⟩ ⟨3, 0⟩, .link ⟨2, 0⟩ ⟨3, 1⟩,
    .link ⟨3, 0⟩ ⟨exit, 0⟩]

/-- One input alone is given. -/
def onlyX (name : String) : Option Value := if name = "x" then some (.float 2) else none

/-- The output of the square, the one that is not linked, and a node behind the square. -/
theorem evaluation_answers_squaring :
    (history squaring).WellFormed ∧
    ((history squaring).output? "a" = some (⟨exit, 0⟩, .vector) ∧
      Answers ((history squaring).LacksAt onlyX ⟨exit, 0⟩)
        ((history squaring).YieldsAt onlyX ⟨exit, 0⟩) .vector
        ((history squaring).evaluate onlyX "a")) ∧
    ((history squaring).output? "b" = some (⟨exit, 1⟩, .float) ∧
      Answers ((history squaring).LacksAt onlyX ⟨exit, 1⟩)
        ((history squaring).YieldsAt onlyX ⟨exit, 1⟩) .float
        ((history squaring).evaluate onlyX "b")) ∧
    ((history squaring).outputSocket ⟨2, 0⟩ = .ok (.fresh "Value" .float) ∧
      Answers ((history squaring).Lacks onlyX ⟨2, 0⟩) ((history squaring).Yields onlyX ⟨2, 0⟩)
        .float ((history squaring).evaluateOutput onlyX ⟨2, 0⟩)) := by
  have hg := wellFormed_history squaring
  have ha : (history squaring).output? "a" = some (⟨exit, 0⟩, .vector) := by decide +kernel
  have hb : (history squaring).output? "b" = some (⟨exit, 1⟩, .float) := by decide +kernel
  have hs : (history squaring).outputSocket ⟨2, 0⟩ = .ok (.fresh "Value" .float) := by
    decide +kernel
  obtain ⟨-, hnamed, hsockets⟩ := evaluation_answers hg onlyX
  exact ⟨hg, ⟨ha, hnamed _ _ _ ha⟩, ⟨hb, hnamed _ _ _ hb⟩, hs, hsockets _ _ hs⟩

end Graph

end NodeFormula
