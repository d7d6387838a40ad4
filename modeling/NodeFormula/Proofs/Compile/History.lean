import NodeFormula.Proofs.Build.Correct
import NodeFormula.Proofs.Compile.Isolation
import NodeFormula.Proofs.Expr.Literals
/-!
# NodeFormula — compiling again and compiling afresh

A graph that formulas have been compiled into keeps every tagged node as its tag says
(`Recorded`), so that a further compilation finds what it would have made. It fails with the
error that it has on the fresh graph, or its output has the value that it has there, and with
pruning no node is left that no output depends on (`run_agrees_with_fresh`). All of this
rests on tags of different calls being different.
-/

namespace NodeFormula

open Graph Relation

/-- A formula to compile into an output of the interface. -/
structure Request where
  options : CompileOptions
  /-- The name of the output. -/
  output : String
  raw : String

/-- The name of the entry. -/
def Graph.entryName (g : Graph) : String := (g.name? entry).getD ""

/-- What a build comes to by the interface alone: an error or the sketch of the output, and
the keys that tags are derived from on the way. -/
def Build.draft [TagDigest] (b : Bindings) (o : BuildOptions) (e : Expr) (g : Graph) :
    Except BuildError Sketch × List Key :=
  match Build.check b o e g with
  | .error err => (.error err, [])
  | .ok () =>
    match Draft.root g.entryName g.inputSockets e [] with
    | .error err keys => (.error err, keys)
    | .ok s keys => (.ok s, keys)

namespace Request

variable [TagDigest]

/-- Compiles the formula into the output. -/
def run (r : Request) (g : Graph) : Except CompileError CompileReport × Graph :=
  match Bindings.ofInterface g r.output with
  | .error err => (.error (.build err), g)
  | .ok b => compile r.options b r.raw g

/-- What a request comes to, and the keys it derives tags from. -/
def draft (r : Request) (g : Graph) : Except CompileError Sketch × List Key :=
  match Bindings.ofInterface g r.output with
  | .error err => (.error (.build err), [])
  | .ok b =>
    match compileText r.options r.raw with
    | .error err => (.error err, [])
    | .ok (_, e) => (Build.draft b r.options.build e g).map (·.mapError .build) id

/-- The graph after requests, from the first to the last. -/
def after (rs : List Request) (g : Graph) : Graph := rs.foldl (fun g r => (r.run g).2) g

/-- The keys that requests derive tags from. -/
def keys (rs : List Request) (g : Graph) : List Key := rs.flatMap fun r => (r.draft g).2

end Request

/-! ## The interface -/

section

variable {g g' : Graph}

/-- A draft reads nothing but the interface. -/
theorem Request.draft_congr [TagDigest] (h : ∀ n, n = entry ∨ n = exit → g'.node? n = g.node? n)
    (r : Request) : r.draft g' = r.draft g := by
  have hname : g'.entryName = g.entryName := by
    rw [entryName, entryName, name?, name?, h entry (Or.inl rfl)]
  have hinputs : g'.inputSockets = g.inputSockets := by
    rw [inputSockets, inputSockets, h entry (Or.inl rfl)]
  have houtput : Bindings.ofInterface g' r.output = Bindings.ofInterface g r.output := by
    simp only [Bindings.ofInterface, output?, outputSockets, h exit (Or.inr rfl)]
  simp only [Request.draft, Build.draft, houtput, check_congr hinputs, hname, hinputs]

theorem entryName_updateNode {f : Node → Node} (hid : KeepsId f) (hname : ∀ n, (f n).name = n.name)
    (n : NodeId) : (g.updateNode n f).entryName = g.entryName := by
  rw [entryName, entryName, name?, name?, node?_updateNode hid]
  cases g.node? entry with
  | none => rfl
  | some node =>
    simp only [Option.map_some]
    split
    · rw [hname]
    · rfl

theorem entryName_of_withInterface {inputs outputs : List (String × SocketType)}
    (h : withInterface inputs outputs = .ok g) : g.entryName = "Group Input" := by
  refine withInterface_keeps (P := fun g => g.entryName = "Group Input") (by decide) ?_ ?_ h
  · intro g name type o g' hg hnew
    obtain ⟨-, -, -, rfl⟩ := newInput_eq_ok.1 hnew
    rw [entryName_updateNode]
    · exact hg
    · exact fun _ => rfl
    · exact fun _ => rfl
  · intro g name type o g' hg hnew
    obtain ⟨-, -, -, rfl⟩ := newOutput_eq_ok.1 hnew
    rw [entryName_updateNode]
    · exact hg
    · exact fun _ => rfl
    · exact fun _ => rfl

end

/-! ## Runs of requests -/

theorem unsigned_constants : ∀ f ∈ Catalogue.functions, ∀ s ∈ f.stages, ∀ a, .constant a ∈ s.args →
    Unsigned a := by
  have hall : ∀ f ∈ Catalogue.functions, ∀ s ∈ f.stages, ∀ x ∈ s.args, ∀ a ∈ x.constant?,
      Unsigned a := by decide +kernel
  exact fun f hf s hs a ha => hall f hf s hs _ ha a rfl

theorem compileText_eq_ok {o : CompileOptions} {raw : String} {c : Canonical} {e : Expr}
    (h : compileText o raw = .ok (c, e)) : ∃ limit text, lower limit text = .ok e := by
  obtain ⟨-, -, h⟩ := bind_eq_ok h
  obtain ⟨canonical, -, h⟩ := bind_eq_ok h
  obtain ⟨e', he, h⟩ := bind_eq_ok h
  cases h
  exact ⟨_, _, mapError_eq_ok he⟩

/-- A formula that has a call form compiles as that builds. -/
theorem compile_of_compileText [TagDigest] {o : CompileOptions} {b : Bindings} {raw : String}
    {g : Graph} {c : Canonical} {e : Expr} (h : compileText o raw = .ok (c, e)) :
    (compile o b raw g).2 = (build o.build b e g).2 ∧
    ((compile o b raw g).1.isOk = (build o.build b e g).1.isOk) ∧
    ∀ err, (build o.build b e g).1 = .error err → (compile o b raw g).1 = .error (.build err) := by
  rw [compile, h]
  dsimp only
  cases build o.build b e g with
  | mk r g' =>
    cases r with
    | error err' => exact ⟨rfl, rfl, fun err herr => by cases herr; rfl⟩
    | ok report => exact ⟨rfl, rfl, fun err herr => by cases herr⟩

section

variable [TagDigest] {g₀ g : Graph} {K : List Key} {r : Request}

/-- The course of a build over a graph on record. -/
def Course.ofRecord (g : Graph) (known next : List Key) (hname : '.' ∉ g.entryName.toList)
    (hdistinct : ∀ a ∈ known, ∀ b ∈ next, a.base = b.base → a = b) : Course where
  known := known
  next := next
  pos := Unsigned
  name := g.entryName
  sockets := g.inputSockets
  distinct := hdistinct
  same _ _ _ ha hb h := ha.eq_of_beq hb h
  unpointed _ := hname
  zero := unsigned_zero
  constants := unsigned_constants

/-- What a build that comes to a sketch does: the output has the outcome of the sketch, and
with pruning every tagged node leads to an output. -/
structure Delivers (o : BuildOptions) (name : String) (type : SocketType) (s : Sketch) (g : Graph) :
    Prop where
  value : ∀ inputs, g.evaluate inputs name = (s.outcome inputs).map (·.convert type)
  live : o.prune → ∀ n node t, g.node? n = some node → node.tag = some t → n ∈ g.live

/-- **A build over a graph on record does what its draft says**, and keeps the graph on
record. -/
theorem build_of_onRecord {e : Expr} {o : BuildOptions} {name : String} {i : InputRef}
    {type : SocketType} (h : g.OnRecord K Unsigned g.entryName g.inputSockets)
    (hname : '.' ∉ g.entryName.toList) (he : e.Literals Unsigned)
    (hout : g.output? name = some (i, type))
    (hdistinct : ∀ a ∈ K, ∀ b ∈ (Build.draft (.atInterface i) o e g).2, a.base = b.base → a = b) :
    (build o (.atInterface i) e g).2.OnRecord (K ++ (Build.draft (.atInterface i) o e g).2) Unsigned
        g.entryName g.inputSockets ∧
      match (Build.draft (.atInterface i) o e g).1 with
      | .error err => (build o (.atInterface i) e g).1 = .error err
      | .ok s => (build o (.atInterface i) e g).1.isOk ∧
        Delivers o name type s (build o (.atInterface i) e g).2 := by
  rw [Build.draft] at hdistinct ⊢
  cases hcheck : Build.check (.atInterface i) o e g with
  | error err =>
    rw [build, hcheck, List.append_nil]
    exact ⟨h, rfl⟩
  | ok _ =>
    simp only [hcheck] at hdistinct ⊢
    cases hdraft : Draft.root g.entryName g.inputSockets e [] with
    | error err keys =>
      simp only [hdraft] at hdistinct ⊢
      obtain ⟨g', hbuild, hrecord⟩ := build_of_draft_error (c := .ofRecord g K keys hname hdistinct)
        h he (fun _ hk => hk) hdraft hcheck
      rw [hbuild]
      exact ⟨hrecord, rfl⟩
    | ok s keys =>
      simp only [hdraft] at hdistinct ⊢
      obtain ⟨report, g', hbuild, hrecord, hvalue, hlive⟩ :=
        build_of_draft_ok (c := .ofRecord g K keys hname hdistinct)
          h he hout (fun _ hk => hk) hdraft hcheck
      rw [hbuild]
      exact ⟨hrecord, rfl, hvalue, hlive⟩

/-- **A graph keeps what was compiled into it on record**, within the interface of the graph
it began as. -/
structure Recorded (g₀ : Graph) (K : List Key) (g : Graph) : Prop where
  faces : ∀ n, n = entry ∨ n = exit → g.node? n = g₀.node? n
  onRecord : g.OnRecord K Unsigned g₀.entryName g₀.inputSockets

/-- **A request does what its draft says**, and keeps the graph on record. -/
theorem Recorded.run (h : Recorded g₀ K g) (hname : '.' ∉ g₀.entryName.toList)
    (hdistinct : ∀ a ∈ K, ∀ b ∈ (r.draft g₀).2, a.base = b.base → a = b) :
    Recorded g₀ (K ++ (r.draft g₀).2) (r.run g).2 ∧
    match (r.draft g₀).1 with
    | .error err => (r.run g).1 = .error err
    | .ok s => (r.run g).1.isOk ∧ ∃ i type, g₀.output? r.output = some (i, type) ∧
      Delivers r.options.build r.output type s (r.run g).2 := by
  have hself : Recorded g₀ (K ++ []) g := by rwa [List.append_nil]
  have hentry : g.entryName = g₀.entryName := by
    rw [entryName, h.onRecord.entry, Option.getD_some]
  have houtput : g.output? r.output = g₀.output? r.output := by
    simp only [output?, outputSockets, h.faces exit (Or.inr rfl)]
  have hrecord : g.OnRecord K Unsigned g.entryName g.inputSockets := by
    rw [hentry, h.onRecord.given]
    exact h.onRecord
  rw [← r.draft_congr h.faces] at hdistinct ⊢
  rw [Request.draft] at hdistinct ⊢
  rw [Request.run]
  cases hb : Bindings.ofInterface g r.output with
  | error err => exact ⟨hself, rfl⟩
  | ok b =>
    obtain ⟨i, type, hout, rfl⟩ := exists_of_ofInterface hb
    have hfaces := (hrecord.ready.wellFormed_compile r.options (.atInterface i) r.raw).2
    simp only [hb] at hdistinct ⊢
    cases htext : compileText r.options r.raw with
    | error err =>
      rw [compile, htext]
      exact ⟨hself, rfl⟩
    | ok found =>
      obtain ⟨canonical, e⟩ := found
      obtain ⟨limit, text, hlower⟩ := compileText_eq_ok htext
      simp only [htext] at hdistinct ⊢
      obtain ⟨hrecord', hresult⟩ := build_of_onRecord hrecord (hentry ▸ hname)
        (unsigned_of_lower hlower) hout hdistinct
      obtain ⟨hgraph, hok, herror⟩ := compile_of_compileText (b := .atInterface i) (g := g) htext
      rw [hentry, h.onRecord.given, ← hgraph] at hrecord'
      refine ⟨⟨fun n hn => (hfaces n hn).trans (h.faces n hn), hrecord'⟩, ?_⟩
      dsimp only [Prod.map]
      cases hdraft : (Build.draft (.atInterface i) r.options.build e g).1 with
      | error err =>
        rw [hdraft] at hresult
        exact herror err hresult
      | ok s =>
        rw [hdraft, ← hok, ← hgraph] at hresult
        exact ⟨hresult.1, i, type, houtput ▸ hout, hresult.2⟩

/-- The interface itself is on record, with nothing on it. -/
theorem recorded_of_withInterface {inputs outputs : List (String × SocketType)}
    (h : withInterface inputs outputs = .ok g₀) : Recorded g₀ [] g₀ := by
  obtain ⟨name, hrecord⟩ :=
    (wellFormed_of_withInterface h).onRecord (untagged_of_withInterface h) Unsigned
  have hname : g₀.entryName = name := by rw [entryName, hrecord.entry, Option.getD_some]
  exact ⟨fun _ _ => rfl, hname ▸ hrecord⟩

/-- Any number of requests keeps a graph on record. -/
theorem Recorded.after (hname : '.' ∉ g₀.entryName.toList) (rs : List Request)
    (h : Recorded g₀ K g) (hdistinct : ∀ a ∈ K ++ Request.keys rs g₀,
      ∀ b ∈ K ++ Request.keys rs g₀, a.base = b.base → a = b) :
    Recorded g₀ (K ++ Request.keys rs g₀) (Request.after rs g) := by
  induction rs generalizing g K with
  | nil => rwa [Request.keys, List.flatMap_nil, List.append_nil]
  | cons r rs ih =>
    have hkeys : K ++ Request.keys (r :: rs) g₀ = (K ++ (r.draft g₀).2) ++ Request.keys rs g₀ := by
      rw [Request.keys, List.flatMap_cons, ← List.append_assoc, Request.keys]
    rw [hkeys] at hdistinct ⊢
    refine ih (h.run hname fun a ha b hb => ?_).1 hdistinct
    exact hdistinct a (List.mem_append_left _ (List.mem_append_left _ ha)) b
      (List.mem_append_left _ (List.mem_append_right _ hb))

/-- **Compiling again agrees with compiling afresh.** After any requests, one more fails
exactly as it fails on the graph of the interface alone, and where it succeeds its output
has the value that it has there. With pruning, every tagged node that is left has a path to
an output. -/
theorem run_agrees_with_fresh {inputs outputs : List (String × SocketType)}
    (hface : withInterface inputs outputs = .ok g₀) (history : List Request) (r : Request)
    (hdistinct : ∀ a ∈ Request.keys (history ++ [r]) g₀, ∀ b ∈ Request.keys (history ++ [r]) g₀,
      a.base = b.base → a = b) :
    ((r.run (Request.after history g₀)).1.isOk ↔ (r.run g₀).1.isOk) ∧
    (∀ err, (r.run (Request.after history g₀)).1 = .error err ↔ (r.run g₀).1 = .error err) ∧
    ((r.run g₀).1.isOk → ∀ inputs, (r.run (Request.after history g₀)).2.evaluate inputs r.output
      = (r.run g₀).2.evaluate inputs r.output) ∧
    (r.options.build.prune → (r.run (Request.after history g₀)).1.isOk →
      ∀ n node t, (r.run (Request.after history g₀)).2.node? n = some node → node.tag = some t →
        TransGen (r.run (Request.after history g₀)).2.Linked n exit) := by
  have hname : '.' ∉ g₀.entryName.toList := by
    rw [entryName_of_withInterface hface]
    decide
  have hfresh := recorded_of_withInterface hface
  have hkeys : Request.keys (history ++ [r]) g₀ = Request.keys history g₀ ++ (r.draft g₀).2 := by
    rw [Request.keys, List.flatMap_append, List.flatMap_cons, List.flatMap_nil, List.append_nil,
      Request.keys]
  rw [hkeys] at hdistinct
  have hhistory := hfresh.after hname history fun a ha b hb =>
    hdistinct a (List.mem_append_left _ ha) b (List.mem_append_left _ hb)
  have hlast := (hhistory.run (r := r) hname fun a ha b hb =>
    hdistinct a (List.mem_append_left _ ha) b (List.mem_append_right _ hb)).2
  have hafresh := (hfresh.run (r := r) hname fun a ha => absurd ha List.not_mem_nil).2
  cases hdraft : (r.draft g₀).1 with
  | error err =>
    rw [hdraft] at hlast hafresh
    dsimp only at hlast hafresh
    rw [hlast, hafresh]
    exact ⟨Iff.rfl, fun _ => Iff.rfl, nofun, fun _ => nofun⟩
  | ok s =>
    rw [hdraft] at hlast hafresh
    obtain ⟨hok, i, type, hout, hlast⟩ := hlast
    obtain ⟨hok', i', type', hout', hafresh⟩ := hafresh
    rw [hout] at hout'
    cases hout'
    refine ⟨iff_of_true hok hok', fun err => iff_of_false ?_ ?_, fun _ inputs => ?_, ?_⟩
    · intro herr
      rw [herr] at hok
      cases hok
    · intro herr
      rw [herr] at hok'
      cases hok'
    · rw [hlast.value inputs, hafresh.value inputs]
    · exact fun hprune _ n node t hnode ht => mem_live.1 (hlast.live hprune n node t hnode ht)

end

/-- Two outputs get formulas that share nodes, and a third one fails half-way. -/
def edits : List Request :=
  [⟨.standard, "a", "x*2"⟩, ⟨.standard, "b", "sin(x*3)"⟩, ⟨.standard, "a", "sin(x*4,x)"⟩]

/-- What the edits have left in the nodes does not show in the next formula. -/
theorem edits_agree_with_fresh :
    (Request.run ⟨.standard, "a", "x*5+sin(x)"⟩ (Request.after edits fork)).1.isOk ∧
    ∀ inputs, (Request.run ⟨.standard, "a", "x*5+sin(x)"⟩ (Request.after edits fork)).2.evaluate inputs "a"
      = (Request.run ⟨.standard, "a", "x*5+sin(x)"⟩ fork).2.evaluate inputs "a" := by
  have hface : withInterface [("x", .float)] [("a", .float), ("b", .float)] = .ok fork := by rfl
  have hdistinct : ∀ k ∈ Request.keys (edits ++ [⟨.standard, "a", "x*5+sin(x)"⟩]) fork,
      ∀ k' ∈ Request.keys (edits ++ [⟨.standard, "a", "x*5+sin(x)"⟩]) fork,
        k.base = k'.base → k = k' := by decide +kernel
  have hfresh : (Request.run ⟨.standard, "a", "x*5+sin(x)"⟩ fork).1.isOk := by decide +kernel
  obtain ⟨hok, -, hvalue, -⟩ := run_agrees_with_fresh hface edits _ hdistinct
  exact ⟨hok.2 hfresh, hvalue hfresh⟩

end NodeFormula
