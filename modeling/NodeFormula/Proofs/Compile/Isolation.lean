import NodeFormula.Proofs.Build.Framed
import NodeFormula.Proofs.Graph.Revised
/-!
# NodeFormula — what a compilation does to the other outputs

A formula is compiled into one output. Another output keeps its links, and what may
change behind it is what a pass changes in nodes it finds again: tags leave out the values
of constants, so the formulas of two outputs share nodes, and a shared node holds the
constant of the formula compiled last. `evaluate_other_output` says exactly when an output
keeps its value, and `evaluate_after_failure` says the same of a compilation that fails:
it takes back the nodes it made, and not the constants it changed.
-/

namespace NodeFormula

open Pass Graph

section

variable [TagDigest] {g g' : Graph} {o : CompileOptions} {b : Bindings} {raw : String}

/-! ## Graphs that compilations reach -/

/-- The graphs that compilations make of an interface, whatever they bind and whether they
succeed or fail. -/
inductive Compiled : Graph → Prop
  | interface {g : Graph} (inputs outputs : List (String × SocketType)) :
      withInterface inputs outputs = .ok g → Compiled g
  | compile {g : Graph} (o : CompileOptions) (b : Bindings) (raw : String) :
      Compiled g → Compiled (compile o b raw g).2

omit [TagDigest] in
/-- No node of an interface carries a tag. -/
theorem untagged_of_withInterface {inputs outputs : List (String × SocketType)}
    (h : withInterface inputs outputs = .ok g) : ∀ node ∈ g.nodes, node.tag = none := by
  refine withInterface_keeps (P := fun g => ∀ node ∈ g.nodes, node.tag = none) (by decide) ?_ ?_ h
  · intro g name type o g' hg hnew node hnode
    obtain ⟨-, -, -, rfl⟩ := newInput_eq_ok.1 hnew
    obtain ⟨old, hold, rfl⟩ := List.mem_map.1 hnode
    split
    · exact hg old hold
    · exact hg old hold
  · intro g name type i g' hg hnew node hnode
    obtain ⟨-, -, -, rfl⟩ := newOutput_eq_ok.1 hnew
    obtain ⟨old, hold, rfl⟩ := List.mem_map.1 hnode
    split
    · exact hg old hold
    · exact hg old hold

omit [TagDigest] in
theorem ready_of_withInterface {inputs outputs : List (String × SocketType)}
    (h : withInterface inputs outputs = .ok g) : g.Ready :=
  ⟨wellFormed_of_withInterface h, fun _ node _ hnode =>
    untagged_of_withInterface h node (mem_of_node? hnode).1⟩

omit [TagDigest] in
/-- A pass that is taken back leaves nodes that were there before. -/
theorem follows_rollBack {p : Pass} {free : InputRef → Prop} {loose : NodeId → Prop}
    (h : Frame g free loose p) :
    g.Follows free p.rollBack.graph ∧ ∀ n, p.rollBack.graph.hasNode n → g.hasNode n := by
  have hface : ∀ n ∈ p.report.created.reverse, n ≠ entry ∧ n ≠ exit := fun n hn =>
    h.base.ne_faces_of_le (h.created_ge n (List.mem_reverse.1 hn))
  refine ⟨?_, fun n hn => ?_⟩
  · rw [h.rollBack_graph]
    refine ⟨h.revises.withoutAll, h.base, h.wf.withoutAll hface, fun n hn => ?_⟩
    rw [node?_withoutAll, if_neg fun hmem => hn.elim (hface n hmem).1 (hface n hmem).2, h.faces n hn]
  · obtain ⟨hhas, hlt⟩ := h.hasNode_rollBack.1 hn
    exact h.revises.hasNode hlt hhas

/-- **A compilation that fails** leaves nodes that were there before, with other constants at
most. -/
theorem compile_eq_error (hg : g.Ready) {err : CompileError}
    (h : compile o b raw g = (.error err, g')) :
    g.Follows (fun _ => False) g' ∧ ∀ n, g'.hasNode n → g.hasNode n := by
  have hself : g.Follows (fun _ => False) g ∧ ∀ n, g.hasNode n → g.hasNode n :=
    ⟨hg.wf.follows_self, fun _ hn => hn⟩
  rw [compile] at h
  cases htext : compileText o raw with
  | error e =>
    simp only [htext, Prod.mk.injEq] at h
    exact h.2 ▸ hself
  | ok r =>
    obtain ⟨canonical, e⟩ := r
    simp only [htext] at h
    cases hbuild : build o.build b e g with
    | mk r g'' =>
      cases r with
      | ok report => simp [hbuild] at h
      | error err =>
        simp only [hbuild, Prod.mk.injEq] at h
        obtain ⟨-, rfl⟩ := h
        rcases build_eq_error hg hbuild with rfl | ⟨-, p, -, hp, rfl⟩
        · exact hself
        · exact follows_rollBack hp

/-- **A compilation that succeeds** ends in a frame that leaves the sink alone free. -/
theorem compile_eq_ok (hg : g.Ready) {report : CompileReport}
    (h : compile o b raw g = (.ok report, g')) :
    ∃ p : Pass, Frame g (· = b.sink) (fun _ => False) p ∧ g' = p.graph ∧
      report.build.nodes = p.report := by
  rw [compile] at h
  cases htext : compileText o raw with
  | error e => simp [htext] at h
  | ok r =>
    obtain ⟨canonical, e⟩ := r
    simp only [htext] at h
    cases hbuild : build o.build b e g with
    | mk r g'' =>
      cases r with
      | error err => simp [hbuild] at h
      | ok built =>
        simp only [hbuild, Prod.mk.injEq, Except.ok.injEq] at h
        obtain ⟨rfl, rfl⟩ := h
        exact build_eq_ok hg hbuild

/-- A compilation keeps a graph well formed, and leaves its interface alone. -/
theorem Graph.Ready.wellFormed_compile (hg : g.Ready) (o : CompileOptions) (b : Bindings)
    (raw : String) : (compile o b raw g).2.WellFormed ∧
      ∀ n, n = entry ∨ n = exit → (compile o b raw g).2.node? n = g.node? n := by
  cases h : NodeFormula.compile o b raw g with
  | mk r g' =>
    cases r with
    | error err =>
      obtain ⟨hfollows, -⟩ := compile_eq_error hg h
      exact ⟨hfollows.wf, hfollows.faces⟩
    | ok report =>
      obtain ⟨p, hp, rfl, -⟩ := compile_eq_ok hg h
      exact ⟨hp.wf, hp.faces⟩

/-- One more compilation leaves a graph that passes run over. -/
theorem Graph.Ready.compile (hg : g.Ready) (o : CompileOptions) (b : Bindings) (raw : String) :
    (compile o b raw g).2.Ready := by
  obtain ⟨hwf, hfaces⟩ := hg.wellFormed_compile o b raw
  exact hg.of_faces hwf hfaces

/-- **Every graph that compilations reach is one that passes run over.** -/
theorem Compiled.ready (h : Compiled g) : g.Ready := by
  induction h with
  | interface inputs outputs hface => exact ready_of_withInterface hface
  | compile o b raw _ ih => exact ih.compile o b raw

end

/-! ## Two outputs of one input -/

/-- One input and two outputs. -/
def fork : Graph :=
  ((withInterface [("x", .float)] [("a", .float), ("b", .float)]).toOption).getD empty

/-- The bindings to an output of the interface. -/
def intoOutput (index : Nat) : Bindings := { Bindings.ofSink ⟨exit, index⟩ with interface := true }

/-- The first output is twice the input. -/
def doubled : Graph := (compile .standard (intoOutput 0) "x*2" fork).2

theorem compiled_doubled : Compiled doubled := by
  have hface : withInterface [("x", .float)] [("a", .float), ("b", .float)] = .ok fork := by rfl
  exact Compiled.compile _ _ _ (Compiled.interface _ _ hface)

/-- Whether a compilation succeeds, by its result. -/
theorem compile_eq_of_isOk {o : CompileOptions} {b : Bindings} {raw : String} {g : Graph} :
    match (compile o b raw g).1.isOk with
    | true => ∃ report, compile o b raw g = (.ok report, (compile o b raw g).2)
    | false => ∃ err, compile o b raw g = (.error err, (compile o b raw g).2) := by
  cases hr : compile o b raw g with
  | mk r g' =>
    cases r with
    | error e => exact ⟨e, rfl⟩
    | ok report => exact ⟨report, rfl⟩

/-! ## The other outputs -/

section

variable [TagDigest] {g g' : Graph} {o : CompileOptions} {b : Bindings} {raw : String}

omit [TagDigest] in
/-- Outputs of different names have different sockets. -/
theorem sink_ne_of_name_ne {s t : String} {i j : InputRef} {typeₛ typeₜ : SocketType}
    (hs : g.output? s = some (i, typeₛ)) (ht : g.output? t = some (j, typeₜ)) (hne : t ≠ s) :
    i.node = exit ∧ i ≠ j := by
  obtain ⟨hexit, a, ha, rfl, -⟩ := output?_eq_some hs
  obtain ⟨-, b, hb, rfl, -⟩ := output?_eq_some ht
  refine ⟨hexit, ?_⟩
  rintro rfl
  rw [ha] at hb
  cases hb
  exact hne rfl

/-- **When another output keeps its value.** After a formula has been compiled into the
output `s`, another output has the value that the old graph gives it with the constants
of the new one. So it keeps its value exactly when these do not show in it, and in
particular when the report names no node behind it as updated or removed. -/
theorem evaluate_other_output (hg : Compiled g) {s t : String} {type : SocketType}
    {report : CompileReport} (hsink : g.output? s = some (b.sink, type))
    (hcompile : compile o b raw g = (.ok report, g')) (hne : t ≠ s) :
    (∀ inputs, g'.evaluate inputs t = (g.revisedBy g').evaluate inputs t) ∧
    ((∀ i type, g.output? t = some (i, type) → ∀ n, g.Behind i n →
      n ∉ report.build.nodes.updated ∧ n ∉ report.build.nodes.removed) →
      ∀ inputs, g'.evaluate inputs t = g.evaluate inputs t) := by
  obtain ⟨p, hp, rfl, hreport⟩ := compile_eq_ok hg.ready hcompile
  have hfollows : g.Follows (· = b.sink) p.graph := ⟨hp.revises, hp.base, hp.wf, hp.faces⟩
  have hfree : ∀ i type, g.output? t = some (i, type) → ∀ j, j = b.sink → j.node = exit ∧ j ≠ i := by
    rintro i type ht j rfl
    exact sink_ne_of_name_ne hsink ht hne
  refine ⟨hfollows.evaluate_eq hfree, fun hkept inputs => ?_⟩
  refine hfollows.evaluate_of_kept hfree (fun i type ht n node hn hnode => ?_) inputs
  obtain ⟨hupdated, hremoved⟩ := hkept i type ht n hn
  rw [hreport] at hupdated hremoved
  cases hnode' : p.graph.node? n with
  | none =>
    have hgone : p.graph.hasNode n = false := by rw [hasNode, hnode']; rfl
    exact absurd (hp.removed n (hasNode_iff.2 ⟨node, hnode⟩) hgone) hremoved
  | some node' =>
    refine ⟨node', rfl, ?_⟩
    rcases hp.constants n node node' hnode hnode' with hsame | hu | hl
    · exact hsame
    · exact absurd hu hupdated
    · exact hl.elim

end

/-- A sine in the second output leaves the first one alone. -/
theorem doubled_keeps_first :
    (compile .standard (intoOutput 1) "sin(x)" doubled).1.isOk = true ∧
    ∀ inputs, (compile .standard (intoOutput 1) "sin(x)" doubled).2.evaluate inputs "a"
      = doubled.evaluate inputs "a" := by
  have hok : (compile .standard (intoOutput 1) "sin(x)" doubled).1.isOk = true := by decide +kernel
  have hresult := @compile_eq_of_isOk .standard (intoOutput 1) "sin(x)" doubled
  rw [hok] at hresult
  obtain ⟨report, hreport⟩ := hresult
  have hnodes : (compile .standard (intoOutput 1) "sin(x)" doubled).1.toOption.map
      (fun r => (r.build.nodes.updated, r.build.nodes.removed)) = some ([], []) := by
    decide +kernel
  rw [hreport] at hnodes
  obtain ⟨hupdated, hremoved⟩ := Prod.mk.inj (Option.some.inj hnodes)
  have hsink : doubled.output? "b" = some ((intoOutput 1).sink, .float) := by decide +kernel
  refine ⟨hok, (evaluate_other_output compiled_doubled hsink hreport (by decide)).2
    fun i type _ n _ => ?_⟩
  rw [hupdated, hremoved]
  exact ⟨List.not_mem_nil, List.not_mem_nil⟩

/-- **A node is shared between outputs**: three times the input in the second output makes
the first one three times the input as well. -/
theorem doubled_changes_first :
    Compiled doubled ∧ doubled.output? "b" = some ((intoOutput 1).sink, .float) ∧
    (compile .standard (intoOutput 1) "x*3" doubled).1.isOk = true ∧
    doubled.evaluate (fun _ => some (.float 1)) "a" = .ok (.float 2) ∧
    (compile .standard (intoOutput 1) "x*3" doubled).2.evaluate (fun _ => some (.float 1)) "a"
      = .ok (.float 3) :=
  ⟨compiled_doubled, by decide +kernel⟩

/-! ## Failures -/

/-- **When a failed compilation shows.** A compilation that fails leaves no node that was
not there. Every output has the value that the old graph gives it with the constants of
the new one, so it keeps its value exactly when these do not show in it, and in particular
when the nodes behind it are still there with the constants they held. -/
theorem evaluate_after_failure [TagDigest] {g g' : Graph} {o : CompileOptions} {b : Bindings}
    {raw : String} (hg : Compiled g) {err : CompileError}
    (hcompile : compile o b raw g = (.error err, g')) :
    (∀ n, g'.hasNode n → g.hasNode n) ∧
    ∀ t, (∀ inputs, g'.evaluate inputs t = (g.revisedBy g').evaluate inputs t) ∧
      (g.KeptBehind g' t → ∀ inputs, g'.evaluate inputs t = g.evaluate inputs t) := by
  obtain ⟨hfollows, hhas⟩ := compile_eq_error hg.ready hcompile
  refine ⟨hhas, fun t => ?_⟩
  have hfree : ∀ i type, g.output? t = some (i, type) → ∀ j, False → j.node = exit ∧ j ≠ i :=
    fun _ _ _ _ h => h.elim
  exact ⟨hfollows.evaluate_eq hfree, hfollows.evaluate_of_kept hfree⟩

/-- A sine of two numbers fails after the inner sine has been built, and that one is taken
back: every output keeps its value. -/
theorem doubled_keeps_after_failure :
    (compile .standard (intoOutput 0) "sin(sin(x),x)" doubled).1.isOk = false ∧
    ∀ t inputs, (compile .standard (intoOutput 0) "sin(sin(x),x)" doubled).2.evaluate inputs t
      = doubled.evaluate inputs t := by
  have hfails : (compile .standard (intoOutput 0) "sin(sin(x),x)" doubled).1.isOk = false := by
    decide +kernel
  have hresult := @compile_eq_of_isOk .standard (intoOutput 0) "sin(sin(x),x)" doubled
  rw [hfails] at hresult
  obtain ⟨err, herr⟩ := hresult
  have hnodes : (compile .standard (intoOutput 0) "sin(sin(x),x)" doubled).2.nodes
      = doubled.nodes := by
    decide +kernel
  refine ⟨hfails, fun t => ((evaluate_after_failure compiled_doubled herr).2 t).2 ?_⟩
  intro i type _ n node _ hnode
  refine ⟨node, ?_, rfl⟩
  rw [node?, hnodes]
  exact hnode

/-- **A constant is not taken back**: a sine of two numbers fails after three times the input
has been found to be the node of the first output, and leaves the three there. -/
theorem doubled_changes_after_failure :
    Compiled doubled ∧
    (compile .standard (intoOutput 0) "sin(x*3,x)" doubled).1.isOk = false ∧
    doubled.evaluate (fun _ => some (.float 1)) "a" = .ok (.float 2) ∧
    (compile .standard (intoOutput 0) "sin(x*3,x)" doubled).2.evaluate
      (fun _ => some (.float 1)) "a" = .ok (.float 3) :=
  ⟨compiled_doubled, by decide +kernel⟩

end NodeFormula
