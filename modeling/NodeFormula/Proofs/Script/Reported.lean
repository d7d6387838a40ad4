import NodeFormula.Proofs.Build.Invariant
import NodeFormula.Proofs.Compile.Isolation
import NodeFormula.Proofs.Pass.Constants
import NodeFormula.Proofs.Pass.Recorded
import NodeFormula.Proofs.Script.Actions
import NodeFormula.Proofs.Script.Interpreted
/-!
# NodeFormula — scripts that report nothing

A constant that is written to an output takes the place of a link and of another constant, and
that is not in the report (`Graph.overwritten`). Everything else that a script does is: a pass
that reports nothing has written its constants, and has left the graph as it was otherwise
(`unowned_of_noop`). So a graph is untouched if the constants were there before; and it may not
be if they were not.
-/

namespace NodeFormula

open Graph Pass

/-! ## Calls -/

namespace Builtin

variable {f : Builtin} {t : Tag} {operands : List Operand} {previous : Operand} {s : Stage}

theorem recording_buildStage (hs : s.Sane)
    (hsuits : s.Suits operands)
    (hnumber : ∀ v, previous = .literal v → v.type = .float) :
    Recording (buildStage t operands previous s) :=
  .get fun _ => .bind (recording_findOrCreate _ (hs.inner _) (fits_args hsuits hnumber))
    fun _ => .pure _

theorem recording_build (hf : f ∈ Catalogue.functions)
    (hsuits : ∀ s ∈ f.stages, s.Suits operands) :
    Recording (f.build t operands) := fun p =>
  ensures_build fun s hs _ hnumber =>
    recording_buildStage ((orderly_of_mem hf).sane s hs) (hsuits s hs) hnumber p

/-- **A call records what it does**: constants that do not fit have been refused before. -/
theorem recording_call (hf : f ∈ Catalogue.functions) : Recording (f.call t operands) := fun p =>
  ensures_call (fun _ _ hq => hq) fun _ hcheck =>
    recording_build hf (suits_of_checkCall hf hcheck) p

end Builtin

/-! ## Constants that are written -/

/-- The constant of an argument. -/
def Arg.constant? : Arg → Option Value
  | .float a => some (.float a)
  | .sequence [x, y, z] => some (.vector ⟨x, y, z⟩)
  | .sequence _ | .value _ => none

theorem Arg.kind_of_constant? {arg : Arg} {v : Value} (h : arg.constant? = some v) :
    arg.kind = .ok v.type.kind := by
  cases arg with
  | value w => cases h
  | float a =>
    cases h
    rfl
  | sequence items =>
    rcases items with _ | ⟨x, _ | ⟨y, _ | ⟨z, _ | ⟨w, rest⟩⟩⟩⟩ <;> cases h
    rfl

/-- An output of a kind takes the constants that fit its socket. -/
theorem Session.accepts_iff {kind : Kind} {type given : SocketType}
    (h : some type = kind.socketType?) :
    accepts kind given.kind = true ↔ ¬ (given = .vector ∧ type = .float) := by
  cases kind <;> cases h <;> cases given <;> decide

namespace Graph

variable {g : Graph} {a : Session.Action} {i : InputRef} {v : Value}

/-- **What an action overwrites in a graph**: an output that is given a constant loses what was
linked into it, and holds the constant. -/
def overwritten (g : Graph) : Session.Action → Graph
  | .output kind name arg =>
    match g.output? name, arg.constant? with
    | some (i, type), some v =>
      if some type = kind.socketType? ∧ ¬ (v.type = .vector ∧ type = .float) then
        (g.unlinked i).holding i v
      else g
    | _, _ => g
  | _ => g

theorem WellFormed.overwritten (hg : g.WellFormed) (a : Session.Action) :
    (g.overwritten a).WellFormed := by
  unfold Graph.overwritten
  split
  · split
    · split
      · exact (hg.unlinked _).holding _ _
      · exact hg
    · exact hg
  · exact hg

theorem inputSocket_unowned (g : Graph) (i : InputRef) :
    g.unowned.inputSocket i = g.inputSocket i :=
  inputSocket_mapNodes (f := Node.unowned) (fun _ => rfl) (fun _ => rfl) i

theorem output?_unowned (g : Graph) (name : String) : g.unowned.output? name = g.output? name := by
  rw [output?, output?, unowned, outputSockets_mapNodes (f := Node.unowned) (fun _ => rfl) fun _ => rfl]

theorem unowned_holding (g : Graph) (i : InputRef) (v : Value) :
    (g.holding i v).unowned = g.unowned.holding i v := by
  simp only [holding, inputType?, default?, inputSocket_unowned]
  cases (g.inputSocket i).toOption.map Socket.type with
  | none => rfl
  | some type =>
    have hput : (g.updateNode i.node (putDefault i.index (v.convert type))).unowned
        = g.unowned.updateNode i.node (putDefault i.index (v.convert type)) :=
      unowned_updateNode fun _ => rfl
    simp only
    rw [← hput]
    exact apply_ite unowned _ _ _

theorem unowned_overwritten (g : Graph) (a : Session.Action) :
    (g.overwritten a).unowned = g.unowned.overwritten a := by
  cases a with
  | output kind name arg =>
    simp only [overwritten, output?_unowned]
    split
    · split
      · exact unowned_holding _ _ _
      · rfl
    · rfl
  | _ => rfl

end Graph

namespace Session

variable {ε α : Type} {g : Graph} {s s' : Session} {v : ScriptValue}

/-- **The report of a session accounts for what tells its graph from `g`**, but for the owners of
nodes. -/
structure Accounts (g : Graph) (s : Session) : Prop where
  wf : s.pass.graph.WellFormed
  noop : s.pass.report.isNoop = true → s.pass.graph.unowned = g.unowned

namespace Accounts

variable (h : Accounts g s)

include h

/-- What is overwritten is accounted for when it is overwritten on both sides. -/
theorem overwritten (a : Action)
    (hs' : s'.pass = { s.pass with graph := s.pass.graph.overwritten a }) :
    Accounts (g.overwritten a) s' where
  wf := by
    rw [hs']
    exact h.wf.overwritten a
  noop := by
    rw [hs']
    intro hnoop
    rw [unowned_overwritten, unowned_overwritten, h.noop hnoop]

/-! ## One action after the other -/

theorem ends_onPass {x : PassM ε α} {f : ε → ScriptError} (hx : Recording x) :
    Ends s (onPass f x) (fun _ => Accounts g) (Accounts g) := by
  have hnext : ∀ {p}, Reported s.pass p → Accounts g { s with pass := p } :=
    fun hp => ⟨hp.wf, fun hnoop => (hp.noop hnoop).2.trans (h.noop (hp.noop hnoop).1)⟩
  refine .onPass ((hx s.pass).weaken (fun p hp => ?_) (fun _ _ h => h) fun _ _ h => h)
    (fun _ _ => hnext) fun _ _ => hnext
  subst hp
  exact .refl h.wf

theorem ends_newValue (target : Target) (kind : Kind) (name : Option String) :
    Ends s (newValue target kind name) (fun _ => Accounts g) (Accounts g) :=
  .newValue fun _ _ => ⟨h.wf, h.noop⟩

theorem ends_input (kind : Kind) (name : String) :
    Ends s (input kind name) (fun _ => Accounts g) (Accounts g) := by
  refine .graph ?_
  split
  · split
    · exact h.ends_newValue _ _ _
    · exact h
  · exact h

/-- A value that is written is linked, and the link is in the report. -/
theorem ends_write_of_none {i : InputRef} {taker given : Kind} {arg : Arg}
    (hnone : arg.constant? = none) :
    Ends s (write i taker given arg) (fun _ => Accounts g) (Accounts g) := by
  cases arg with
  | value v =>
    rw [write]
    split
    · exact h
    · exact (h.ends_onPass (recording_linkOutput _ _)).bind fun _ _ h => h
  | float a => cases hnone
  | sequence items =>
    rcases items with _ | ⟨x, _ | ⟨y, _ | ⟨z, _ | ⟨w, rest⟩⟩⟩⟩
    case cons.cons.cons.nil => cases hnone
    all_goals exact h

theorem ends_output_of_none (kind : Kind) (name : String) {arg : Arg}
    (hnone : arg.constant? = none) :
    Ends s (output kind name arg) (fun _ => Accounts g) (Accounts g) := by
  refine .graph ?_
  split
  · exact h
  split
  · exact h
  refine .check h fun given _ => ?_
  split
  · exact h
  · exact (h.ends_write_of_none hnone).bind fun _ s₁ h₁ => h₁.ends_newValue _ _ _

omit h in
theorem write_of_constant {i : InputRef} {taker given : Kind} {arg : Arg} {v : Value}
    (hv : arg.constant? = some v) : write i taker given arg = (do
      let _ ← onPass graphError (setConstant i v)) := by
  cases arg with
  | value w => cases hv
  | float a =>
    cases hv
    rfl
  | sequence items =>
    rcases items with _ | ⟨x, _ | ⟨y, _ | ⟨z, _ | ⟨w, rest⟩⟩⟩⟩ <;> cases hv
    rfl

omit h in
/-- **A constant that is written overwrites an output**, and nothing else changes. One that is not
taken changes nothing. -/
theorem ends_output_constant (hs : s.pass.graph.WellFormed) (kind : Kind) (name : String)
    {arg : Arg} {v : Value} (hv : arg.constant? = some v) :
    Ends s (output kind name arg)
      (fun _ s' => s'.pass
        = { s.pass with graph := s.pass.graph.overwritten (.output kind name arg) })
      fun s' => s'.pass
        = { s.pass with graph := s.pass.graph.overwritten (.output kind name arg) } := by
  refine .graph ?_
  rw [Graph.overwritten, hv]
  cases houtput : s.pass.graph.output? name with
  | none => exact .throw rfl
  | some found =>
    obtain ⟨i, type⟩ := found
    obtain ⟨-, socket, hsocket, -, rfl⟩ := output?_eq_some houtput
    simp only
    split
    · rename_i htype
      rw [if_neg fun h => htype h.1]
      exact .throw rfl
    rename_i htype
    have hgiven : check arg.kind = Pure.pure v.type.kind := by
      rw [Arg.kind_of_constant? hv]
      rfl
    rw [hgiven, pure_bind]
    -- a constant is accepted exactly where the socket can hold it
    have haccepts : accepts kind v.type.kind = true ↔
        ¬ (v.type = .vector ∧ socket.type = .float) := accepts_iff (not_not.1 htype)
    split
    · rename_i hrefused
      rw [if_neg fun h => by simp [haccepts.2 h.2] at hrefused]
      exact .throw rfl
    · rename_i haccepted
      have hfits := haccepts.1 (by simpa using haccepted)
      obtain ⟨b, hrun⟩ := setConstant_eq hs hsocket hfits
      rw [if_pos ⟨not_not.1 htype, hfits⟩, write_of_constant hv]
      let Written (s' : Session) : Prop :=
        s'.pass = { s.pass with graph := (s.pass.graph.unlinked i).holding i v }
      have hset : Ends s (onPass graphError (setConstant i v)) (fun _ => Written) Written := by
        rw [Ends, onPass, hrun]
      have hwrite : Ends s (do let _ ← onPass graphError (setConstant i v)) (fun _ => Written)
          Written := hset.bind fun _ _ h => h
      exact hwrite.bind fun _ s₁ h₁ => .newValue fun _ _ => h₁

section

variable [TagDigest]

theorem ends_materialize (function : String) (args : List Arg) (kind : Kind) :
    Ends s (materialize function args kind) (fun _ => Accounts g) (Accounts g) := by
  refine .check h fun xs _ => .graph (.check h fun f hf => ?_)
  have hmem := (mem_of_get? (Catalogue.require_eq_ok.1 (mapError_eq_ok hf))).1
  refine (h.ends_onPass (recording_nextTag _ _)).bind fun t s₁ h₁ => ?_
  exact (h₁.ends_onPass (Builtin.recording_call hmem)).bind fun o s₂ h₂ => h₂.ends_newValue _ _ _

theorem ends_separate (v : ScriptValue) :
    Ends s (separate v) (fun _ => Accounts g) (Accounts g) := by
  rw [separate]
  split
  · rename_i o _ _
    refine .get ?_
    split
    · exact h
    · refine .graph ((h.ends_onPass (recording_nextTag _ _)).bind fun t s₁ h₁ => ?_)
      have hfits : Fits .separateXyz [.socket o] := by
        intro j w spec hw
        cases List.mem_singleton.1 (List.mem_of_getElem? hw)
      refine (h₁.ends_onPass (recording_findOrCreate t rfl hfits)).bind fun n s₂ h₂ => ?_
      exact ⟨h₂.wf, h₂.noop⟩
  · exact h

theorem ends_component (v : ScriptValue) (index : Nat) :
    Ends s (component v index) (fun _ => Accounts g) (Accounts g) :=
  (h.ends_separate v).bind fun _ _ h => h.ends_newValue _ _ _

theorem ends_mapM_component (v : ScriptValue) (indices : List Nat) :
    Ends s (indices.mapM (component v)) (fun _ => Accounts g) (Accounts g) :=
  (Ends.mapM (P := fun _ _ => True) h fun i _ _ h => (h.ends_component v i).weaken
    (fun _ _ h => ⟨h, trivial, fun _ _ => trivial⟩) fun _ h => h).weaken (fun _ _ h => h.1)
    fun _ h => h

/-- **An action is accounted for**, but for what it overwrites. -/
theorem ends_run (a : Action) :
    Ends s a.run (fun _ => Accounts (g.overwritten a)) (Accounts (g.overwritten a)) := by
  cases a with
  | output kind name arg =>
    refine .map ?_
    cases hv : arg.constant? with
    | some v =>
      exact (ends_output_constant h.wf kind name hv).weaken (fun _ _ hs' => h.overwritten _ hs')
        fun _ hs' => h.overwritten _ hs'
    | none =>
      have hkept : g.overwritten (.output kind name arg) = g := by
        rw [Graph.overwritten, hv]
        split <;> first | rfl | contradiction
      rw [hkept]
      exact h.ends_output_of_none kind name hv
  | input kind name => exact .map (h.ends_input kind name)
  | operate op lhs rhs =>
    refine .map (.check h fun kinds _ => ?_)
    split
    · exact h
    · split
      · exact h
      · exact h.ends_materialize _ _ _
  | call function args =>
    refine .map (.check h fun f _ => .check h fun kinds _ => ?_)
    split
    · exact h
    · exact h.ends_materialize _ _ _
  | callAs function args kind =>
    refine .map (.check h fun kinds _ => ?_)
    split
    · exact h
    · exact h.ends_materialize _ _ _
  | component v axis => exact .map (h.ends_component v axis)
  | index v i =>
    refine .map ?_
    simp only [index]
    generalize (if i < 0 then i + 3 else i) = resolved
    split
    · exact h.ends_component v _
    · exact h
  | slice v first last => exact h.ends_mapM_component v _
  | components v => exact h.ends_mapM_component v _

omit h in
/-- **So is a script.** -/
theorem play {x : Session × List ScriptValue} {g : Graph} (h : Accounts g x.1)
    (script : List Action) : Accounts (script.foldl Graph.overwritten g) (play script x).1 := by
  induction script generalizing g x with
  | nil => exact h
  | cons a script ih =>
    refine ih (x := perform x a) ?_
    rw [perform]
    cases hrun : a.run x.1 with
    | ok ws s => exact (h.ends_run a).of_ok hrun
    | error e s => exact (h.ends_run a).of_error hrun

end

theorem finish {prune : Bool} {r : Report} {g' : Graph}
    (hfinish : finish prune s = (.ok r, g')) (hnoop : r.isNoop = true) : g'.unowned = g.unowned := by
  rw [Session.finish] at hfinish
  cases prune with
  | false =>
    cases hfinish
    exact h.noop hnoop
  | true =>
    have hprune := recording_prune s.pass s.pass (.refl h.wf)
    rw [if_pos rfl] at hfinish
    cases hrun : Pass.prune s.pass with
    | ok tags p =>
      rw [hrun] at hfinish hprune
      cases hfinish
      obtain ⟨hnone, hsame⟩ := hprune.noop hnoop
      exact hsame.trans (h.noop hnone)
    | error e p =>
      rw [hrun] at hfinish
      cases hfinish

end Accounts

/-- **A pass that reports nothing has written its constants, and changed nothing else.** So the
graph is as it was, owners of nodes apart, if no constant has taken the place of anything. -/
theorem unowned_of_noop [TagDigest] {g g' : Graph} (hg : g.WellFormed) {spacing : Float32}
    {script : List Action} {prune : Bool} {r : Report}
    (hfinish : finish prune (play script (start g spacing, [])).1 = (.ok r, g'))
    (hnoop : r.isNoop = true) :
    g'.unowned = (script.foldl Graph.overwritten g).unowned ∧
      ((∀ a ∈ script, g.overwritten a = g) → g'.unowned = g.unowned) := by
  have hstart : Accounts g (start g spacing) := ⟨hg, fun _ => rfl⟩
  have hscript := (Accounts.play (x := (start g spacing, [])) hstart script).finish hfinish hnoop
  refine ⟨hscript, fun hkept => ?_⟩
  have hfold : script.foldl Graph.overwritten g = g :=
    List.foldlRecOn (motive := (· = g)) script _ rfl fun g' hg' a ha => by rw [hg', hkept a ha]
  rw [hscript, hfold]

/-- One output is linked to a product, and the other one holds a constant. -/
def outfitting : List Action :=
  let x : ScriptValue := ⟨.output ⟨entry, 0⟩, .scalar, some "x", 1, .here⟩
  let product : ScriptValue := ⟨.output ⟨2, 0⟩, .scalar, none, 2, .here⟩
  [.input .scalar "x", .operate .mul (.value x) (some (.float 2)),
    .output .scalar "a" (.value product), .output .scalar "b" (.float 5)]

/-- The graph that comes of it. -/
def outfitted : Graph := (play outfitting (start fork 200, [])).1.pass.graph

theorem wellFormed_outfitted : outfitted.WellFormed := by
  have hface : withInterface [("x", .float)] [("a", .float), ("b", .float)] = .ok fork := by rfl
  have hstart : Accounts fork (start fork 200) := ⟨wellFormed_of_withInterface hface, fun _ => rfl⟩
  exact (hstart.play (x := (start fork 200, [])) outfitting).wf

/-- The same script again finds everything in its place. -/
theorem unowned_of_noop_outfitting :
    ∃ r g', finish true (play outfitting (start outfitted 200, [])).1 = (.ok r, g') ∧
      r.isNoop = true ∧ g'.unowned = outfitted.unowned := by
  have hnoop : (finish true (play outfitting (start outfitted 200, [])).1).1.toOption.any
      Report.isNoop = true := by decide +kernel
  have hkept : ∀ a ∈ outfitting, outfitted.overwritten a = outfitted := by decide +kernel
  cases hfinish : finish true (play outfitting (start outfitted 200, [])).1 with
  | mk result g' =>
    rw [hfinish] at hnoop
    cases result with
    | ok r => exact ⟨r, g', rfl, hnoop, (unowned_of_noop wellFormed_outfitted hfinish hnoop).2 hkept⟩
    | error e => cases hnoop

/-- **A constant for an output that is linked is reported as nothing**, and takes away the link
and what the output held. -/
theorem overwritten_despite_noop :
    ∃ r g', finish false (play [.output .scalar "a" (.float 5)] (start outfitted 200, [])).1
        = (.ok r, g') ∧
      r.isNoop = true ∧ g'.links ≠ outfitted.links ∧
        g'.default? ⟨exit, 0⟩ ≠ outfitted.default? ⟨exit, 0⟩ := by
  refine ⟨_, _, rfl, ?_⟩
  decide +kernel

end Session

end NodeFormula
