import NodeFormula.Graph.Evaluate
import NodeFormula.Proofs.Graph.Outcome
/-!
# NodeFormula — the evaluation arrives at the outcome

`Graph.evaluate` recurses up to a bound and keeps what it has computed. Neither shows in
its result: a kept value is an outcome (`Recalls`), the bound is above the rank of every
node, and so each step of the evaluation settles on an outcome (`settles_outputValue`).
So a named output has the outcome at its socket (`evaluate_eq_of_yieldsAt`), and it
depends on the nodes behind it alone (`evaluate_congr`).
-/

namespace NodeFormula

open Relation

theorem Value.convert_convert (v : Value) (t : SocketType) :
    (v.convert t).convert t = v.convert t := by
  cases t <;> rfl

namespace Graph

variable {g : Graph} {inputs : String → Option Value} {o : OutputRef} {r : Outcome}

/-- A memo that keeps outcomes only. -/
def Recalls (g : Graph) (inputs : String → Option Value) (memo : Memo) : Prop :=
  ∀ n values, memo.lookup n = some values →
    ∀ (index : Nat) v, values[index]? = some v → g.Yields inputs ⟨n, index⟩ (.ok v)

/-- A computation comes to a result, whatever outcomes are kept before it, and keeps
outcomes only. -/
def Settles (g : Graph) (inputs : String → Option Value) {α : Type} (x : EvalM α)
    (r : Except GraphError α) : Prop :=
  ∀ memo, g.Recalls inputs memo →
    match r with
    | .ok a => ∃ memo', x memo = .ok (a, memo') ∧ g.Recalls inputs memo'
    | .error e => x memo = .error e

namespace Settles

variable {α β : Type} {x : EvalM α}

theorem pure (a : α) : g.Settles inputs (Pure.pure a) (.ok a) :=
  fun memo h => ⟨memo, rfl, h⟩

theorem throw (e : GraphError) : g.Settles inputs (throw e : EvalM α) (.error e) :=
  fun _ _ => rfl

theorem lift (r : Except GraphError α) : g.Settles inputs (liftM r : EvalM α) r := by
  intro memo h
  cases r with
  | error e => rfl
  | ok a => exact ⟨memo, rfl, h⟩

/-- One computation after another. -/
theorem bind {f : α → EvalM β} {r : Except GraphError α} {s : α → Except GraphError β}
    (hx : g.Settles inputs x r) (hf : ∀ a, r = .ok a → g.Settles inputs (f a) (s a)) :
    g.Settles inputs (x >>= f) (r >>= s) := by
  intro memo hmemo
  have hstep := hx memo hmemo
  have hrun : (x >>= f) memo = x memo >>= fun p => f p.1 p.2 := rfl
  cases r with
  | error e =>
    change x memo = .error e at hstep
    simp only [hrun, hstep]
    rfl
  | ok a =>
    obtain ⟨memo', heq, hmemo'⟩ := hstep
    have hnext := hf a rfl memo' hmemo'
    simp only [hrun, heq]
    exact hnext

theorem mapM {f : Nat → EvalM α} {r : Nat → Except GraphError α} {xs : List Nat}
    (h : ∀ i ∈ xs, g.Settles inputs (f i) (r i)) :
    g.Settles inputs (xs.mapM f) (xs.mapM r) := by
  induction xs with
  | nil => exact pure []
  | cons i xs ih =>
    rw [List.mapM_cons, List.mapM_cons]
    refine bind (h i List.mem_cons_self) fun a _ => ?_
    exact bind (ih fun j hj => h j (List.mem_cons_of_mem _ hj)) fun as _ => pure (a :: as)

end Settles

/-- The arguments of a node one by one. -/
theorem mapM_range_arguments {n : NodeId} {sockets : List Socket} {sources : Nat → Outcome}
    {f : Nat → Outcome}
    (h : ∀ (index : Nat) s, sockets[index]? = some s →
      (g.arguments n sockets sources)[index]? = some (f index)) :
    (List.range sockets.length).mapM f = (g.arguments n sockets sources).mapM id := by
  have hmap : (List.range sockets.length).map f = g.arguments n sockets sources := by
    refine List.ext_getElem? fun index => ?_
    rw [List.getElem?_map]
    by_cases hlt : index < sockets.length
    · rw [h index _ (List.getElem?_eq_getElem hlt), List.getElem?_range hlt]
      rfl
    · have hle : sockets.length ≤ index := Nat.le_of_not_lt hlt
      rw [List.getElem?_eq_none (by simpa using hle)]
      simp [arguments, List.getElem?_mapIdx, List.getElem?_eq_none hle]
  rw [← hmap, List.mapM_map]
  rfl

theorem settles_inputValue {source : OutputRef → EvalM Value} {i : InputRef} {s : Socket}
    {r : Outcome} (hs : g.inputSocket i = .ok s)
    (hr : ∀ l, g.incoming? i = some l → g.Settles inputs (source l.source) r) :
    g.Settles inputs (inputValue g source i)
      (match g.incoming? i with
        | some _ => r.map (·.convert s.type)
        | none => .ok s.default) := by
  refine Settles.bind (r := .ok s) (s := fun s => match g.incoming? i with
    | some _ => r.map (·.convert s.type)
    | none => .ok s.default) (hs ▸ Settles.lift _) fun s' hs' => ?_
  cases hs'
  cases hl : g.incoming? i with
  | none => exact Settles.pure _
  | some l =>
    have hbind := Settles.bind (f := fun v => Pure.pure (v.convert s.type))
      (s := fun v => .ok (v.convert s.type)) (hr l hl) fun v _ => Settles.pure _
    cases r with
    | error e => exact hbind
    | ok v => exact hbind

theorem kept?_eq_some {memo : Memo} {v : Value} (hmemo : g.Recalls inputs memo)
    (h : kept? memo o = some v) : g.Yields inputs o (.ok v) := by
  obtain ⟨values, hvalues, hv⟩ := Option.bind_eq_some_iff.1 h
  exact hmemo o.node values hvalues o.index v hv

/-- An output that a node has is among the values it computes. -/
theorem WellFormed.getElem?_evaluate (hg : g.WellFormed) {node : Node} {s : Socket}
    (hne : o.node ≠ entry) (hnode : g.node? o.node = some node)
    (hs : g.outputSocket o = .ok s) (args : List Value) :
    (node.kind.evaluate args)[o.index]?
      = some ((node.kind.evaluate args).getD o.index (.float 0)) := by
  obtain ⟨hmem, hid⟩ := mem_of_node? hnode
  obtain ⟨node', hnode', hsock⟩ := outputSocket_eq_ok.1 hs
  rw [hnode] at hnode'
  cases hnode'
  have hlength : (node.kind.evaluate args).length = node.outputs.length := by
    have htypes := congrArg List.length (NodeKind.type_evaluate node.kind args)
    have hspecs := congrArg List.length ((hg.fits node hmem).outputs (hid ▸ hne))
    simp only [List.length_map] at htypes hspecs
    exact htypes.trans hspecs.symm
  have hlt : o.index < (node.kind.evaluate args).length := by
    rw [hlength]
    exact (List.getElem?_eq_some_iff.1 hsock).1
  rw [List.getD_eq_getElem?_getD, List.getElem?_eq_getElem hlt, Option.getD_some]

/-- What is computed for an output that is not kept. -/
def computeOutput (g : Graph) (inputs : String → Option Value) (bound : Nat) (o : OutputRef)
    (node : Node) : EvalM Value := do
  let args ← (List.range node.inputs.length).mapM fun index =>
    inputValue g (outputValue g inputs bound) ⟨o.node, index⟩
  let values := node.kind.evaluate args
  match values[o.index]? with
  | none => throw (.unknownOutput o)
  | some v =>
    modify ((o.node, values) :: ·)
    return v

theorem outputValue_of_ne_entry {s : Socket} {node : Node} {bound : Nat} (hne : o.node ≠ entry)
    (hs : g.outputSocket o = .ok s) (hnode : g.node? o.node = some node) (memo : Memo) :
    outputValue g inputs (bound + 1) o memo =
      match kept? memo o with
      | some v => .ok (v, memo)
      | none => computeOutput g inputs bound o node memo := by
  have hget : ∀ f : Memo → EvalM Value,
      (liftM (Except.ok s : Except GraphError Socket) >>= fun _ => get >>= f : EvalM Value) memo
        = f memo memo := fun _ => rfl
  rw [outputValue, hs]
  simp only [hne, if_false, hnode]
  rw [hget]
  cases kept? memo o with
  | none => rfl
  | some v => rfl

/-- The values of a node are outcomes, so they may be kept. -/
theorem Recalls.keep {memo : Memo} {n : NodeId} {values : List Value}
    (hmemo : g.Recalls inputs memo)
    (h : ∀ (index : Nat) v, values[index]? = some v → g.Yields inputs ⟨n, index⟩ (.ok v)) :
    g.Recalls inputs ((n, values) :: memo) := by
  intro m kept hkept index v hv
  rw [List.lookup_cons] at hkept
  by_cases hm : m = n
  · subst hm
    simp only [beq_self_eq_true, Option.some.injEq] at hkept
    subst hkept
    exact h index v hv
  · rw [beq_false_of_ne hm] at hkept
    exact hmemo m kept hkept index v hv

theorem WellFormed.settles_computeOutput (hg : g.WellFormed) {s : Socket} {node : Node}
    {bound : Nat} {sources : Nat → Outcome} (hne : o.node ≠ entry)
    (hs : g.outputSocket o = .ok s) (hnode : g.node? o.node = some node)
    (hsources : ∀ index l, g.incoming? ⟨o.node, index⟩ = some l →
      g.Yields inputs l.source (sources index))
    (hruns : ∀ index l, g.incoming? ⟨o.node, index⟩ = some l →
      g.Settles inputs (outputValue g inputs bound l.source) (sources index)) :
    g.Settles inputs (computeOutput g inputs bound o node)
      (((g.arguments o.node node.inputs sources).mapM id).map fun args =>
        (node.kind.evaluate args).getD o.index (.float 0)) := by
  have hargs : g.Settles inputs
      ((List.range node.inputs.length).mapM fun index =>
        inputValue g (outputValue g inputs bound) ⟨o.node, index⟩)
      ((g.arguments o.node node.inputs sources).mapM id) := by
    rw [← mapM_range_arguments (f := fun index => match g.incoming? ⟨o.node, index⟩ with
      | some _ => (sources index).map (·.convert ((node.inputs[index]?.map Socket.type).getD .float))
      | none => .ok ((node.inputs[index]?.map Socket.default).getD (.float 0)))]
    · refine Settles.mapM fun index hindex => ?_
      have hlt : index < node.inputs.length := List.mem_range.1 hindex
      have hsocket : g.inputSocket ⟨o.node, index⟩ = .ok node.inputs[index] :=
        inputSocket_eq_ok.2 ⟨node, hnode, List.getElem?_eq_getElem hlt⟩
      rw [List.getElem?_eq_getElem hlt]
      exact settles_inputValue hsocket (hruns index)
    · intro index s hs
      cases hl : g.incoming? ⟨o.node, index⟩ <;> simp [arguments, hs, hl]
  have hmap : ∀ (r : Except GraphError (List Value)) (f : List Value → Value),
      r.map f = r >>= fun args => .ok (f args) := fun r f => by cases r <;> rfl
  rw [hmap]
  refine Settles.bind hargs fun args hok memo hmemo => ?_
  have hvalue := hg.getElem?_evaluate hne hnode hs args
  rw [hvalue]
  refine ⟨(o.node, node.kind.evaluate args) :: memo, rfl, hmemo.keep fun index v hv => ?_⟩
  have hyields := Yields.computed (o := ⟨o.node, index⟩) sources hne hnode hsources
  rw [hok] at hyields
  simpa [Except.map, List.getD_eq_getElem?_getD, hv] using hyields

/-- **The bounded evaluation arrives at the outcome** when the bound is above the rank of
the node. -/
theorem WellFormed.settles_outputValue (hg : g.WellFormed) {rank : NodeId → Nat}
    (hrank : ∀ m n, g.Linked m n → rank m < rank n) {s : Socket} {bound : Nat}
    (h : g.Yields inputs o r) (hs : g.outputSocket o = .ok s) (hbound : rank o.node < bound) :
    g.Settles inputs (outputValue g inputs bound o) r := by
  induction h generalizing s bound with
  | given hs' hv =>
    obtain ⟨bound, rfl⟩ := Nat.exists_eq_add_one_of_ne_zero (Nat.ne_of_gt (Nat.zero_lt_of_lt hbound))
    rw [outputValue, hs']
    refine Settles.bind (s := fun _ => _) (Settles.lift (.ok _)) fun s' hs'' => ?_
    cases hs''
    simp only [if_true, hv]
    exact Settles.pure _
  | missing hs' hv =>
    obtain ⟨bound, rfl⟩ := Nat.exists_eq_add_one_of_ne_zero (Nat.ne_of_gt (Nat.zero_lt_of_lt hbound))
    rw [outputValue, hs']
    refine Settles.bind (s := fun _ => _) (Settles.lift (.ok _)) fun s' hs'' => ?_
    cases hs''
    simp only [if_true, hv]
    exact Settles.throw _
  | @computed o node sources hne hnode hsources ih =>
    obtain ⟨bound, rfl⟩ := Nat.exists_eq_add_one_of_ne_zero (Nat.ne_of_gt (Nat.zero_lt_of_lt hbound))
    have hyields := Yields.computed sources hne hnode hsources
    have hruns : ∀ index l, g.incoming? ⟨o.node, index⟩ = some l →
        g.Settles inputs (outputValue g inputs bound l.source) (sources index) := by
      intro index l hl
      obtain ⟨hmem, htarget⟩ := hg.incoming?_eq_some.1 hl
      obtain ⟨source, hsource⟩ := hg.sources l hmem
      have hlt : rank l.source.node < rank o.node := hrank _ _ ⟨l, hmem, rfl, by rw [htarget]⟩
      exact ih index l hl hsource (Nat.lt_of_lt_of_le hlt (Nat.lt_succ_iff.1 hbound))
    intro memo hmemo
    rw [outputValue_of_ne_entry hne hs hnode]
    cases hkept : kept? memo o with
    | some v =>
      rw [hyields.unique (kept?_eq_some hmemo hkept)]
      exact ⟨memo, rfl, hmemo⟩
    | none => exact hg.settles_computeOutput hne hs hnode hsources hruns memo hmemo

/-! ## Named outputs -/

theorem findSocket?_eq_some {name : String} {sockets : List Socket} {index : Nat}
    {type : SocketType} (h : findSocket? name sockets = some (index, type)) :
    ∃ s, sockets[index]? = some s ∧ s.name = name ∧ s.type = type := by
  rw [findSocket?] at h
  cases hi : sockets.findIdx? (·.name == name) with
  | none => simp [hi] at h
  | some k =>
    obtain ⟨hlt, hname, -⟩ := List.findIdx?_eq_some_iff_getElem.1 hi
    simp only [beq_iff_eq] at hname
    simp only [hi, Option.bind_eq_bind, Option.bind_some, List.getElem?_eq_getElem hlt,
      Option.pure_def, Option.some.injEq, Prod.mk.injEq] at h
    obtain ⟨rfl, rfl⟩ := h
    exact ⟨_, List.getElem?_eq_getElem hlt, hname, rfl⟩

theorem output?_eq_some {name : String} {i : InputRef} {type : SocketType}
    (h : g.output? name = some (i, type)) :
    i.node = exit ∧ ∃ s, g.inputSocket i = .ok s ∧ s.name = name ∧ s.type = type := by
  rw [output?] at h
  obtain ⟨⟨index, type'⟩, hfind, heq⟩ := Option.map_eq_some_iff.1 h
  simp only [Prod.mk.injEq] at heq
  obtain ⟨rfl, rfl⟩ := heq
  obtain ⟨s, hs, hname, htype⟩ := findSocket?_eq_some hfind
  refine ⟨rfl, s, inputSocket_eq_ok.2 ?_, hname, htype⟩
  rw [outputSockets] at hs
  cases hnode : g.node? exit with
  | none => simp [hnode] at hs
  | some node => exact ⟨node, rfl, by simpa [hnode] using hs⟩

theorem Settles.run' {x : EvalM Value} (h : g.Settles inputs x r) : x.run' [] = r := by
  have hrun := h [] fun n values hv => by simp at hv
  have hx : x.run' [] = (x []).map Prod.fst := rfl
  cases r with
  | error e => rw [hx, show x [] = .error e from hrun]; rfl
  | ok v =>
    obtain ⟨memo, heq, -⟩ := hrun
    rw [hx, heq]
    rfl

/-- **The value of a named output is the outcome at its socket.** -/
theorem WellFormed.evaluate_eq_of_yieldsAt (hg : g.WellFormed) {name : String} {i : InputRef}
    {type : SocketType} (hout : g.output? name = some (i, type)) (h : g.YieldsAt inputs i r) :
    g.evaluate inputs name = r := by
  obtain ⟨rank, hrank, hlt⟩ := hg.exists_rank
  obtain ⟨hexit, s, hs, -, rfl⟩ := output?_eq_some hout
  obtain ⟨s', hs', hr⟩ := h
  rw [hs] at hs'
  cases hs'
  rw [evaluate, hout]
  cases hl : g.incoming? i with
  | none =>
    rw [hl] at hr
    subst hr
    have hsettles := @settles_inputValue g inputs (outputValue g inputs g.nodes.length) i s
      (.ok s.default) hs (by simp [hl])
    rw [hl] at hsettles
    simp only [hsettles.run']
    have hfits : s.default.type = s.type := by
      obtain ⟨node, hnode, hsock⟩ := inputSocket_eq_ok.1 hs
      exact (hg.fits node (mem_of_node? hnode).1).defaults s (List.mem_of_getElem? hsock)
    simp only [Except.map, ← hfits, Value.convert_self]
  | some l =>
    rw [hl] at hr
    obtain ⟨r', hr', rfl⟩ := hr
    obtain ⟨hmem, htarget⟩ := hg.incoming?_eq_some.1 hl
    obtain ⟨source, hsource⟩ := hg.sources l hmem
    have hbound : rank l.source.node < g.nodes.length := by
      have h1 : rank l.source.node < rank exit :=
        hrank _ _ ⟨l, hmem, rfl, by rw [htarget, hexit]⟩
      exact Nat.lt_trans h1 (hlt exit hg.hasExit)
    have hsettles := settles_inputValue (r := r') hs fun l' hl' => by
      rw [hl] at hl'
      cases hl'
      exact hg.settles_outputValue hrank hr' hsource hbound
    rw [hl] at hsettles
    simp only [hsettles.run']
    cases r' with
    | error e => rfl
    | ok v => simp only [Except.map, Value.convert_convert]

/-- **A named output keeps its value** when the outputs that it depends on are numbered anew. -/
theorem WellFormed.evaluate_renumbered {g' : Graph} (hg : g.WellFormed) (hg' : g'.WellFormed)
    {name : String} {i i' : InputRef} {type type' : SocketType} {place : OutputRef → OutputRef}
    {S : OutputRef → Prop} (hout : g.output? name = some (i, type))
    (hout' : g'.output? name = some (i', type')) (hplace : g.Renumbers g' place S)
    (hsocket : ∀ s, g.inputSocket i = .ok s → g'.inputSocket i' = .ok s)
    (hlink : (g'.incoming? i').map Link.source = (g.incoming? i).map fun l => place l.source)
    (hS : ∀ l, g.incoming? i = some l → S l.source) :
    g'.evaluate inputs name = g.evaluate inputs name := by
  obtain ⟨-, s, hs, -, -⟩ := output?_eq_some hout
  obtain ⟨r, hr⟩ := hg.exists_yieldsAt inputs hs
  rw [hg.evaluate_eq_of_yieldsAt hout hr]
  exact hg'.evaluate_eq_of_yieldsAt hout' (hr.renumbered hplace hsocket hlink hS)

/-! ## What an output depends on -/

/-- A node is behind an input: links lead from it to what is linked there. -/
def Behind (g : Graph) (i : InputRef) (n : NodeId) : Prop :=
  ∃ l, g.incoming? i = some l ∧ ReflTransGen g.Linked n l.source.node

theorem WellFormed.behind_source (hg : g.WellFormed) {i : InputRef} {n : NodeId} {index : Nat}
    {l : Link} (h : g.Behind i n) (hl : g.incoming? ⟨n, index⟩ = some l) :
    g.Behind i l.source.node := by
  obtain ⟨last, hlast, hpath⟩ := h
  obtain ⟨hmem, htarget⟩ := hg.incoming?_eq_some.1 hl
  exact ⟨last, hlast, ReflTransGen.head ⟨l, hmem, rfl, by rw [htarget]⟩ hpath⟩

theorem WellFormed.path_of_behind (hg : g.WellFormed) {i : InputRef} {n : NodeId}
    (h : g.Behind i n) : TransGen g.Linked n i.node := by
  obtain ⟨l, hl, hpath⟩ := h
  obtain ⟨hmem, htarget⟩ := hg.incoming?_eq_some.1 hl
  exact TransGen.tail' hpath ⟨l, hmem, rfl, by rw [htarget]⟩

theorem WellFormed.hasNode_of_behind (hg : g.WellFormed) {i : InputRef} {n : NodeId}
    (h : g.Behind i n) : g.hasNode n := by
  obtain ⟨l, hl, hpath⟩ := h
  rcases hpath.cases_head with rfl | ⟨m, ⟨l', hl', rfl, -⟩, -⟩
  · exact hg.hasNode_source (hg.incoming?_eq_some.1 hl).1
  · exact hg.hasNode_source hl'

/-- **An output depends on what is behind it alone**: two graphs of the same interface
agree on an output if they agree on the nodes behind it and on the links into these and
into the output. -/
theorem WellFormed.evaluate_congr {g' : Graph} (hg : g.WellFormed) (hg' : g'.WellFormed)
    (hfaces : ∀ n, n = entry ∨ n = exit → g'.node? n = g.node? n) {name : String}
    (hlinks : ∀ i type, g.output? name = some (i, type) →
      ∀ j, j = i ∨ g.Behind i j.node →
        (g'.incoming? j).map Link.source = (g.incoming? j).map Link.source)
    (hnodes : ∀ i type, g.output? name = some (i, type) → ∀ n node, g.Behind i n →
      g.node? n = some node →
      ∃ node', g'.node? n = some node' ∧ node'.kind = node.kind ∧ node'.inputs = node.inputs) :
    g'.evaluate inputs name = g.evaluate inputs name := by
  have hout : g'.output? name = g.output? name := by
    simp only [output?, outputSockets, hfaces exit (Or.inr rfl)]
  cases hname : g.output? name with
  | none => simp only [evaluate, hout, hname]
  | some r =>
    obtain ⟨i, type⟩ := r
    obtain ⟨hexit, -⟩ := output?_eq_some hname
    have hplace : g.Renumbers g' id fun o => g.Behind i o.node :=
      { closed := fun o index l ho _ hl => hg.behind_source ho hl
        given := fun index s _ hs =>
          ⟨index, rfl, (outputSocket_congr (hfaces entry (Or.inl rfl))).trans hs⟩
        nodes := fun o node ho _ hnode => ⟨rfl, hnodes i type hname o.node node ho hnode⟩
        links := fun o index ho _ => hlinks i type hname ⟨o.node, index⟩ (Or.inr ho) }
    refine hg.evaluate_renumbered hg' hname (hout.trans hname) hplace (fun s hs => ?_)
      (hlinks i type hname i (Or.inl rfl)) fun l hl => ⟨l, hl, ReflTransGen.refl⟩
    exact (inputSocket_congr (hfaces i.node (Or.inr hexit))).trans hs

end Graph

end NodeFormula
