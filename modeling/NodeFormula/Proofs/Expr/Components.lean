import Mathlib.Data.List.Forall2
import NodeFormula.Expr.Evaluate
/-!
# NodeFormula — expressions on components

An expression with vectors stands for three expressions on numbers: in the one for a
component every tuple is replaced by its element for that component (`Expr.component`).
Variables are read the same way. An expression is a vector when its outermost function is
one on components and an argument is a vector (`Expr.isVector`).
-/

namespace NodeFormula

/-- A component of a vector. -/
def Vec3.get (v : Vec3) : Fin 3 → Float
  | 0 => v.x
  | 1 => v.y
  | 2 => v.z

/-- A component of a value; a number is the same in all of them. -/
def Value.component (k : Fin 3) : Value → Float
  | .float a => a
  | .vector v => v.get k

theorem Value.get_toVec3 (v : Value) (k : Fin 3) : v.toVec3.get k = v.component k := by
  cases v with
  | float a => match k with | 0 | 1 | 2 => rfl
  | vector v => rfl

/-- An operation on vectors is the operation on numbers on each component. -/
theorem VectorOp.get_apply (op : VectorOp) (args : List Vec3) (k : Fin 3) :
    (op.apply args).get k = op.component.apply (args.map (Vec3.get · k)) := by
  match k with
  | 0 | 1 | 2 => rfl

namespace Expr

mutual

/-- The expression for a component: every tuple is replaced by its element. -/
def component (k : Fin 3) : Expr → Expr
  | number s v t => number s v t
  | ident s n => ident s n
  | binary s op l r => binary s op (l.component k) (r.component k)
  | unary s op x => unary s op (x.component k)
  | call s f args => call s f (componentAll k args)
  | tuple s items => (componentAll k items).getD k (tuple s [])

/-- The expressions for a component. -/
def componentAll (k : Fin 3) : List Expr → List Expr
  | [] => []
  | e :: es => e.component k :: componentAll k es

end

mutual

/-- An expression in call form is a vector, given which variables are. -/
def isVector (vector : String → Bool) : Expr → Bool
  | number .. => false
  | ident _ x => vector x
  | binary .. => false
  | unary .. => false
  | call _ f args =>
    (Catalogue.get? f).any (·.support == .scalarOrVector) && anyVector vector args
  | tuple .. => true

/-- One of the expressions is a vector. -/
def anyVector (vector : String → Bool) : List Expr → Bool
  | [] => false
  | e :: es => e.isVector vector || anyVector vector es

end

/-- The elements of tuples are no vectors. -/
def FlatTuples (vector : String → Bool) (e : Expr) : Prop :=
  ∀ span items, .tuple span items ∈ e.preorder → ∀ x ∈ items, x.isVector vector = false

/-- There are no tuples. -/
def TupleFree (e : Expr) : Prop := ∀ span items, .tuple span items ∉ e.preorder

/-- The elements of a tuple. -/
def items? : Expr → Option (List Expr)
  | tuple _ items => some items
  | _ => none

theorem items?_eq_some {e : Expr} {items : List Expr} :
    e.items? = some items ↔ ∃ span, e = tuple span items := by
  cases e <;> simp [items?]

instance (vector : String → Bool) (e : Expr) : Decidable (e.FlatTuples vector) :=
  decidable_of_iff (∀ n ∈ e.preorder, ∀ items ∈ n.items?, ∀ x ∈ items, x.isVector vector = false) (by
    constructor
    · exact fun h span items hmem => h _ hmem items (items?_eq_some.2 ⟨span, rfl⟩)
    · intro h n hn items hitems
      obtain ⟨span, rfl⟩ := items?_eq_some.1 hitems
      exact h span items hn)

instance (e : Expr) : Decidable e.TupleFree :=
  decidable_of_iff (∀ n ∈ e.preorder, n.items? = none) (by
    constructor
    · exact fun h span items hmem => nomatch h _ hmem
    · intro h n hn
      cases n with
      | tuple span items => exact absurd hn (h span items)
      | number | ident | binary | unary | call => rfl)

section

variable {es : List Expr} {e : Expr}

theorem preorder_subset_preorderAll (h : e ∈ es) : e.preorder ⊆ preorderAll es := by
  induction es with
  | nil => cases h
  | cons e' es ih =>
    rw [preorderAll]
    rcases List.mem_cons.1 h with rfl | h
    · exact List.subset_append_left _ _
    · exact List.Subset.trans (ih h) (List.subset_append_right _ _)

/-- The nodes of an argument are nodes of the call. -/
theorem preorder_subset_call (h : e ∈ es) (span : Span) (f : String) :
    e.preorder ⊆ (call span f es).preorder := by
  rw [preorder]
  exact List.Subset.trans (preorder_subset_preorderAll h) (List.subset_cons_self _ _)

theorem preorder_subset_tuple (h : e ∈ es) (span : Span) :
    e.preorder ⊆ (tuple span es).preorder := by
  rw [preorder]
  exact List.Subset.trans (preorder_subset_preorderAll h) (List.subset_cons_self _ _)

end

mutual

/-- Without tuples the components are the expression itself. -/
theorem component_eq (k : Fin 3) : ∀ {e : Expr}, e.TupleFree → e.component k = e
  | number .., _ => by rw [component]
  | ident .., _ => by rw [component]
  | binary s op l r, h => by
    rw [component, component_eq k fun span items hmem => h span items (by
      rw [preorder]; exact List.mem_cons_of_mem _ (List.mem_append_left _ hmem)),
      component_eq k fun span items hmem => h span items (by
        rw [preorder]; exact List.mem_cons_of_mem _ (List.mem_append_right _ hmem))]
  | unary s op x, h => by
    rw [component, component_eq k fun span items hmem => h span items (by
      rw [preorder]; exact List.mem_cons_of_mem _ hmem)]
  | call s f args, h => by
    rw [component, componentAll_eq k fun e he span items hmem =>
      h span items (preorder_subset_call he s f hmem)]
  | tuple s items, h => absurd (by rw [preorder]; exact List.mem_cons_self) (h s items)

theorem componentAll_eq (k : Fin 3) : ∀ {es : List Expr}, (∀ e ∈ es, e.TupleFree) →
    componentAll k es = es
  | [], _ => by rw [componentAll]
  | e :: es, h => by
    rw [componentAll, component_eq k (h e List.mem_cons_self),
      componentAll_eq k fun x hx => h x (List.mem_cons_of_mem _ hx)]

end

end Expr

end NodeFormula
