import NodeFormula.Proofs.Build.Correct
import NodeFormula.Proofs.Compile.Isolation
import NodeFormula.Proofs.Script.Coherent
/-!
# NodeFormula — what a script can rely on

Every session that a script reaches is coherent, and the values that the script has by then can
be used (`Reached.coherent`). So the kind of a value is the type of the socket that it is a view
of, as long as no call has said otherwise (`kinds_sound`), and an action that fails has built
nothing (`refused_builds_nothing`), whatever the calls before it said. That takes values of the
session itself: one of another session may fail an action halfway (`half_built_abroad`).
-/

namespace NodeFormula

open Graph

namespace Session

section

variable [TagDigest] {g : Graph} {spacing : Float32} {allowed : Action → Prop} {s s' : Session}
  {vs : List ScriptValue} {a : Action} {e : ScriptError}

/-- **A script keeps its session coherent**, and its values at hand. -/
theorem Reached.coherent (hg : g.Ready) (h : Reached g spacing allowed s vs) :
    s.Coherent ∧ ∀ v ∈ vs, v.AtHand s.pass := by
  induction h with
  | start => exact ⟨.start hg spacing, List.forall_mem_nil _⟩
  | done h ha hargs hrun ih =>
    obtain ⟨hs, hvs⟩ := ih
    obtain ⟨hadvances, hnew⟩ := (hs.ends_run _ fun v hv => hvs v (hargs hv)).of_ok hrun
    refine ⟨hadvances.coherent, fun v hv => ?_⟩
    rcases List.mem_append.1 hv with hv | hv
    · exact (hvs v hv).of_settled hadvances.settled
    · exact (hnew v hv).1
  | failed h ha hargs hrun ih =>
    obtain ⟨hs, hvs⟩ := ih
    have hrefused := (hs.ends_run _ fun v hv => hvs v (hargs hv)).of_error hrun
    exact ⟨hrefused.coherent, fun v hv => (hvs v hv).of_settled hrefused.settled⟩

/-- **Kinds are types** where no call says what kind its result has. -/
theorem Reached.typed (hg : g.Ready) (h : Reached g spacing (·.isCallAs = false) s vs) :
    ∀ v ∈ vs, v.Typed s.pass.graph := by
  induction h with
  | start => exact List.forall_mem_nil _
  | done h ha hargs hrun ih =>
    obtain ⟨hs, hvs⟩ := h.coherent hg
    obtain ⟨hadvances, hnew⟩ := (hs.ends_run _ fun v hv => hvs v (hargs hv)).of_ok hrun
    intro v hv
    rcases List.mem_append.1 hv with hv | hv
    · exact (ih v hv).of_settled (hvs v hv) hadvances.settled
    · exact (hnew v hv).2 ha fun w hw => ih w (hargs hw)
  | failed h ha hargs hrun ih =>
    obtain ⟨hs, hvs⟩ := h.coherent hg
    have hrefused := (hs.ends_run _ fun v hv => hvs v (hargs hv)).of_error hrun
    exact fun v hv => (ih v hv).of_settled (hvs v hv) hrefused.settled

/-- **The kinds of script values are sound**: at any time, a scalar is a view of a number, a
vector is a view of a vector, and a written output is no view. -/
theorem kinds_sound (hg : g.Ready) (h : Reached g spacing (·.isCallAs = false) s vs) :
    ∀ v ∈ vs,
      (v.kind = .scalar → ∃ o, v.output? = some o ∧ s.pass.graph.outputType? o = some .float) ∧
      (v.kind = .vector → ∃ o, v.output? = some o ∧ s.pass.graph.outputType? o = some .vector) ∧
      (v.kind = .sink → v.output? = none) := by
  intro v hv
  have htyped := h.typed hg v hv
  have hatHand := (h.coherent hg).2 v hv
  rw [ScriptValue.Typed] at htyped
  refine ⟨fun hk => ?_, fun hk => ?_, fun hk => ?_⟩
  · rw [hk] at htyped
    exact Option.bind_eq_some_iff.1 htyped
  · rw [hk] at htyped
    exact Option.bind_eq_some_iff.1 htyped
  · rw [ScriptValue.AtHand] at hatHand
    rw [ScriptValue.output?]
    cases htarget : v.target with
    | output o =>
      rw [htarget] at hatHand
      exact absurd hk hatHand.2
    | sink i => rfl

/-- **An action that fails builds nothing**: the graph and the report are as they were. -/
theorem refused_builds_nothing (hg : g.Ready) (h : Reached g spacing allowed s vs)
    (hargs : a.values ⊆ vs) (hrun : a.run s = .error e s') :
    s'.pass.graph = s.pass.graph ∧ s'.pass.report = s.pass.report := by
  obtain ⟨hs, hvs⟩ := h.coherent hg
  have hrefused := (hs.ends_run a fun v hv => hvs v (hargs hv)).of_error hrun
  exact ⟨hrefused.graph, hrefused.report⟩

end

/-- A vector is scaled by a number, a constant is added, and parts of both vectors are taken. A
call that takes no vectors is refused on the way. -/
def scaling : List Action :=
  let x : ScriptValue := ⟨.output ⟨entry, 0⟩, .scalar, some "x", 1, .here⟩
  let v : ScriptValue := ⟨.output ⟨entry, 1⟩, .vector, some "v", 1, .here⟩
  let scaled : ScriptValue := ⟨.output ⟨2, 0⟩, .vector, none, 2, .here⟩
  let part : ScriptValue := ⟨.output ⟨3, 1⟩, .scalar, none, 2, .here⟩
  let sum : ScriptValue := ⟨.output ⟨4, 0⟩, .vector, none, 3, .here⟩
  [.input .scalar "x", .input .vector "v", .operate .mul (.value v) (some (.value x)),
    .call "asin" [.value v], .index scaled (-2), .operate .add (.float 1) (some (.value scaled)),
    .output .vector "a" (.value sum), .slice sum .unbounded (.excluded 2), .component part 0]

/-- The script gets hold of eight values, each of the kind of its socket. -/
theorem kinds_sound_scaling :
    (play scaling (start mixed 200, [])).2.length = 8 ∧
      ∀ v ∈ (play scaling (start mixed 200, [])).2,
        (v.kind = .scalar → ∃ o, v.output? = some o ∧
          (play scaling (start mixed 200, [])).1.pass.graph.outputType? o = some .float) ∧
        (v.kind = .vector → ∃ o, v.output? = some o ∧
          (play scaling (start mixed 200, [])).1.pass.graph.outputType? o = some .vector) ∧
        (v.kind = .sink → v.output? = none) := by
  have hface : withInterface [("x", .float), ("v", .vector)] [("a", .vector)] = .ok mixed := by rfl
  have hlegal : Legal scaling (start mixed 200, []) := by decide +kernel
  have hreached : Reached mixed 200 (·.isCallAs = false) (play scaling (start mixed 200, [])).1
      (play scaling (start mixed 200, [])).2 :=
    .play (x := (start mixed 200, [])) .start (by decide +kernel) hlegal
  exact ⟨by decide +kernel, kinds_sound (ready_of_withInterface hface) hreached⟩

/-- A sum with a vector passes for a scalar. -/
def relabelling : List Action :=
  [.input .vector "v",
    .callAs "add" [.value ⟨.output ⟨entry, 1⟩, .vector, some "v", 1, .here⟩, .float 1] .scalar]

/-- A function of scalars on what passes for one: its kind is right, and its socket is not. -/
def mistaken : Action := .call "asin" [.value ⟨.output ⟨2, 0⟩, .scalar, none, 1, .here⟩]

theorem refused_builds_nothing_mistaken :
    ∃ e s', mistaken.run (play relabelling (start mixed 200, [])).1 = .error e s' ∧
      s'.pass.graph = (play relabelling (start mixed 200, [])).1.pass.graph ∧
      s'.pass.report = (play relabelling (start mixed 200, [])).1.pass.report := by
  have hface : withInterface [("x", .float), ("v", .vector)] [("a", .vector)] = .ok mixed := by rfl
  have hlegal : Legal relabelling (start mixed 200, []) := by decide +kernel
  have hreached : Reached mixed 200 (fun _ => True) (play relabelling (start mixed 200, [])).1
      (play relabelling (start mixed 200, [])).2 :=
    .play (x := (start mixed 200, [])) .start (fun _ _ => trivial) hlegal
  have hrefused : (mistaken.run.run' (play relabelling (start mixed 200, [])).1).isNone := by
    decide +kernel
  cases hrun : mistaken.run (play relabelling (start mixed 200, [])).1 with
  | ok vs s' =>
    rw [EStateM.run', EStateM.run, hrun] at hrefused
    cases hrefused
  | error e s' =>
    exact ⟨e, s', rfl, refused_builds_nothing (ready_of_withInterface hface) hreached
      (by decide +kernel) hrun⟩

/-- A graph with three inputs. -/
def wide : Graph :=
  ((withInterface [("p", .float), ("q", .float), ("r", .float)] []).toOption).getD empty

/-- A session over a graph with one input, which it has got hold of. -/
def near : Session × List ScriptValue := play [.input .scalar "x"] (start plain 200, [])

/-- Another session over another graph, with the third of its inputs. -/
def far : Session × List ScriptValue := play [.input .scalar "r"] (start wide 200, [])

/-- The sum of the two, in the first session. -/
def mixedUp : Action :=
  .operate .add (.value ⟨.output ⟨entry, 0⟩, .scalar, some "x", 1, .here⟩)
    (some (.value (ScriptValue.abroad far.1.pass.graph
      ⟨.output ⟨entry, 2⟩, .scalar, some "r", 1, .here⟩)))

/-- **A value of another session is found out too late.** Its socket is looked for when it is to
be linked, and by then the sum has a node that the other operand is linked into. -/
theorem half_built_abroad :
    plain.Ready ∧ Reached plain 200 (fun _ => True) near.1 near.2 ∧
      Reached wide 200 (fun _ => True) far.1 far.2 ∧
      (∀ v ∈ mixedUp.values, v ∈ near.2 ∨ ∃ r ∈ far.2, v = r.abroad far.1.pass.graph) ∧
      ∃ e s', mixedUp.run near.1 = .error e s' ∧
        s'.pass.graph ≠ near.1.pass.graph ∧ s'.pass.report ≠ near.1.pass.report := by
  have hface : withInterface [("x", .float)] [("a", .float)] = .ok plain := by rfl
  refine ⟨ready_of_withInterface hface,
    .play (x := (start plain 200, [])) .start (fun _ _ => trivial) (by decide +kernel),
    .play (x := (start wide 200, [])) .start (fun _ _ => trivial) (by decide +kernel),
    by decide +kernel, ?_⟩
  have hrefused : (mixedUp.run.run' near.1).isNone := by decide +kernel
  have hchanged : (perform near mixedUp).1.pass.graph ≠ near.1.pass.graph ∧
      (perform near mixedUp).1.pass.report ≠ near.1.pass.report := by decide +kernel
  cases hrun : mixedUp.run near.1 with
  | ok ws s' =>
    rw [EStateM.run', EStateM.run, hrun] at hrefused
    cases hrefused
  | error e s' =>
    rw [perform, hrun] at hchanged
    exact ⟨e, s', rfl, hchanged⟩

end Session

end NodeFormula
