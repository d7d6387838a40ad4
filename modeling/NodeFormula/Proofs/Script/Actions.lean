import NodeFormula.Proofs.Pass.Ensures
import NodeFormula.Script.Session
/-!
# NodeFormula — what a script does

A script gets hold of inputs, computes with the values it has and writes outputs: an `Action`
is one such operation with its arguments. The values among the arguments were obtained before,
and an action that fails leaves the session to the next one as it stands; `Reached` are the
sessions that come of this, with the values obtained so far. `Ends` says how an operation of a
session may end, and one rule for each part of an operation follows.
-/

namespace NodeFormula

namespace Session

/-- An operation of a script, with its arguments. -/
inductive Action where
  | input (kind : Kind) (name : String)
  | output (kind : Kind) (name : String) (arg : Arg)
  /-- An operator on one or two arguments, in either order of values and constants. -/
  | operate (op : Operator) (lhs : Arg) (rhs : Option Arg)
  | call (function : String) (args : List Arg)
  | callAs (function : String) (args : List Arg) (kind : Kind)
  /-- The component of an axis. -/
  | component (v : ScriptValue) (axis : Fin 3)
  | index (v : ScriptValue) (i : Int)
  | slice (v : ScriptValue) (first last : Bound)
  | components (v : ScriptValue)
  deriving DecidableEq

namespace Action

/-- Performs an action. -/
def run [TagDigest] : Action → ScriptM (List ScriptValue)
  | input kind name => return [← Session.input kind name]
  | output kind name arg => return [← Session.output kind name arg]
  | operate op lhs rhs => return [← Session.operate op lhs rhs]
  | call function args => return [← Session.call function args]
  | callAs function args kind => return [← Session.callAs function args kind]
  | component v axis => return [← Session.component v axis]
  | index v i => return [← Session.index v i]
  | slice v first last => Session.slice v first last
  | components v => Session.components v

/-- The arguments of an action. -/
def args : Action → List Arg
  | input .. => []
  | output _ _ arg => [arg]
  | operate _ lhs rhs => lhs :: rhs.toList
  | call _ args | callAs _ args _ => args
  | component v _ | index v _ | slice v .. | components v => [.value v]

/-- The values among the arguments. -/
def values (a : Action) : List ScriptValue :=
  a.args.filterMap fun
    | .value v => some v
    | _ => none

theorem mem_values {a : Action} {v : ScriptValue} : v ∈ a.values ↔ .value v ∈ a.args := by
  rw [values, List.mem_filterMap]
  constructor
  · rintro ⟨x, hx, heq⟩
    cases x with
    | value w =>
      cases heq
      exact hx
    | float | sequence => cases heq
  · exact fun h => ⟨_, h, rfl⟩

/-- The action says what kind its result has, whatever the function gives. -/
def isCallAs : Action → Bool
  | callAs .. => true
  | _ => false

end Action

variable [TagDigest]

/-- **The sessions that a script reaches on a graph**, and the values it has by then. The
actions are among the allowed ones. -/
inductive Reached (g : Graph) (spacing : Float32) (allowed : Action → Prop) :
    Session → List ScriptValue → Prop
  | start : Reached g spacing allowed (Session.start g spacing) []
  | done {s s' : Session} {vs ws : List ScriptValue} {a : Action}
      (h : Reached g spacing allowed s vs) (ha : allowed a) (hargs : a.values ⊆ vs)
      (hrun : a.run s = .ok ws s') : Reached g spacing allowed s' (vs ++ ws)
  | failed {s s' : Session} {vs : List ScriptValue} {a : Action} {e : ScriptError}
      (h : Reached g spacing allowed s vs) (ha : allowed a) (hargs : a.values ⊆ vs)
      (hrun : a.run s = .error e s') : Reached g spacing allowed s' vs

/-- Performs an action on a session with the values obtained so far. One that fails gives none. -/
def perform (x : Session × List ScriptValue) (a : Action) : Session × List ScriptValue :=
  match a.run x.1 with
  | .ok ws s => (s, x.2 ++ ws)
  | .error _ s => (s, x.2)

/-- Performs the actions of a script in turn. -/
def play (script : List Action) (x : Session × List ScriptValue) : Session × List ScriptValue :=
  script.foldl perform x

/-- Each action of a script takes values that there are by then. -/
def Legal : List Action → Session × List ScriptValue → Prop
  | [], _ => True
  | a :: script, x => a.values ⊆ x.2 ∧ Legal script (perform x a)

instance : (script : List Action) → (x : Session × List ScriptValue) → Decidable (Legal script x)
  | [], _ => isTrue trivial
  | a :: script, x =>
    have : Decidable (Legal script (perform x a)) := instDecidableLegal script (perform x a)
    inferInstanceAs (Decidable (a.values ⊆ x.2 ∧ Legal script (perform x a)))

/-- What a script reaches when it is played. -/
theorem Reached.play {g : Graph} {spacing : Float32} {allowed : Action → Prop}
    {script : List Action} {x : Session × List ScriptValue} (h : Reached g spacing allowed x.1 x.2)
    (hallowed : ∀ a ∈ script, allowed a) (hlegal : Legal script x) :
    Reached g spacing allowed (play script x).1 (play script x).2 := by
  induction script generalizing x with
  | nil => exact h
  | cons a script ih =>
    refine ih ?_ (fun b hb => hallowed b (List.mem_cons_of_mem _ hb)) hlegal.2
    have ha := hallowed a List.mem_cons_self
    rw [perform]
    cases hrun : a.run x.1 with
    | ok ws s => exact h.done ha hlegal.1 hrun
    | error e s => exact h.failed ha hlegal.1 hrun

/-! ## How an operation ends -/

section

variable {ε α β : Type} {s : Session} {x : ScriptM α} {Q Q' : α → Session → Prop}
  {R : β → Session → Prop} {E E' : Session → Prop}

/-- **How an operation may end** from a session: with a result, or refused. -/
def Ends (s : Session) (x : ScriptM α) (Q : α → Session → Prop) (E : Session → Prop) : Prop :=
  match x s with
  | .ok a s' => Q a s'
  | .error _ s' => E s'

namespace Ends

omit [TagDigest]

theorem of_ok (h : Ends s x Q E) {a : α} {s' : Session} (hrun : x s = .ok a s') : Q a s' := by
  rw [Ends, hrun] at h
  exact h

theorem of_error (h : Ends s x Q E) {e : ScriptError} {s' : Session} (hrun : x s = .error e s') :
    E s' := by
  rw [Ends, hrun] at h
  exact h

theorem weaken (h : Ends s x Q E) (hQ : ∀ a s', Q a s' → Q' a s') (hE : ∀ s', E s' → E' s') :
    Ends s x Q' E' := by
  rw [Ends] at h ⊢
  cases hr : x s with
  | ok a s' => rw [hr] at h; exact hQ a s' h
  | error e s' => rw [hr] at h; exact hE s' h

theorem pure {a : α} (h : Q a s) : Ends s (Pure.pure a : ScriptM α) Q E := h

theorem throw {e : ScriptError} (h : E s) : Ends s (throw e : ScriptM α) Q E := h

/-- One operation after another. -/
theorem bind {f : α → ScriptM β} (hx : Ends s x Q E) (hf : ∀ a s', Q a s' → Ends s' (f a) R E) :
    Ends s (x >>= f) R E := by
  have hrun : (x >>= f) s = EStateM.bind x f s := rfl
  rw [Ends] at hx ⊢
  rw [hrun, EStateM.bind]
  cases hr : x s with
  | ok a s' => rw [hr] at hx; exact hf a s' hx
  | error e s' => rw [hr] at hx; exact hx

theorem map {f : α → β} (hx : Ends s x (fun a => R (f a)) E) :
    Ends s (x >>= fun a => Pure.pure (f a)) R E := hx.bind fun _ _ h => h

/-- An operation that starts with a look at the graph. -/
theorem graph {f : Graph → ScriptM β} (h : Ends s (f s.pass.graph) R E) :
    Ends s (Session.graph >>= f) R E := h

theorem get {f : Session → ScriptM β} (h : Ends s (f s) R E) :
    Ends s (MonadState.get >>= f) R E := h

/-- An operation that starts with a check. -/
theorem check {r : Except ScriptError α} {f : α → ScriptM β} (herror : E s)
    (hok : ∀ a, r = .ok a → Ends s (f a) R E) : Ends s (Session.check r >>= f) R E := by
  cases r with
  | ok a => exact hok a rfl
  | error e => exact herror

theorem onPass {f : ε → ScriptError} {y : PassM ε α} {P : α → Pass → Prop} {F : ε → Pass → Prop}
    (h : Pass.Ensures (· = s.pass) y P F) (hP : ∀ a p, P a p → Q a { s with pass := p })
    (hF : ∀ e p, F e p → E { s with pass := p }) : Ends s (Session.onPass f y) Q E := by
  have hy := h s.pass rfl
  rw [Ends, Session.onPass]
  cases hr : y s.pass with
  | ok a p => rw [hr] at hy; exact hP a p hy
  | error e p => rw [hr] at hy; exact hF e p hy

/-- A value is made, and the pass stays as it is. -/
theorem newValue {target : Target} {kind : Kind} {name : Option String}
    {Q : ScriptValue → Session → Prop}
    (h : ∀ id counters, Q ⟨target, kind, name, id, .here⟩ { s with counters }) :
    Ends s (Session.newValue target kind name) Q E := h _ _

/-- One operation for each element of a list. What holds of a result goes on holding. -/
theorem mapM {γ : Type} {f : γ → ScriptM α} {I : Session → Prop} {P : α → Session → Prop}
    {xs : List γ} (hs : I s)
    (h : ∀ x ∈ xs, ∀ s, I s →
      Ends s (f x) (fun a s' => I s' ∧ P a s' ∧ ∀ b, P b s → P b s') E) :
    Ends s (xs.mapM f) (fun as s' => I s' ∧ (∀ a ∈ as, P a s') ∧ ∀ b, P b s → P b s') E := by
  induction xs generalizing s with
  | nil => exact ⟨hs, List.forall_mem_nil _, fun _ h => h⟩
  | cons x xs ih =>
    rw [List.mapM_cons]
    refine (h x List.mem_cons_self s hs).bind fun a s₁ ⟨hs₁, ha, hkept⟩ => ?_
    refine (ih hs₁ fun y hy => h y (List.mem_cons_of_mem _ hy)).bind fun as s₂ ⟨hs₂, has, hkept'⟩ => ?_
    exact ⟨hs₂, List.forall_mem_cons.2 ⟨hkept' a ha, has⟩, fun b hb => hkept' b (hkept b hb)⟩

end Ends

end

end Session

end NodeFormula
