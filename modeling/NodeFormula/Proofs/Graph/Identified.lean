import NodeFormula.Proofs.Build.Plan
import NodeFormula.Proofs.Graph.History
/-!
# NodeFormula — every node has a name of its own

A node is named after its kind and the number of nodes of that kind before it, and takes its
tag for a name when it gets one. The two never meet, since a label opens with a capital and a
tag of a function with a small letter (`numbered_ne_tag`); the numbers only go up, also when
nodes are removed (`Graph.Identified.insertNode`). An edit that is neither the making nor the
tagging of a node leaves what a node reads here as it is, or removes the node (`Graph.Retains`).
-/

namespace NodeFormula

/-! ## Names -/

theorem ofDigitChars_replicate_zero (k : Nat) (ds : List Char) :
    Nat.ofDigitChars 10 (List.replicate k '0' ++ ds) 0 = Nat.ofDigitChars 10 ds 0 := by
  induction k with
  | zero => rfl
  | succ k ih =>
    rw [List.replicate_succ, List.cons_append, Nat.ofDigitChars_cons]
    exact ih

/-- Zeros in front do not change a number. -/
theorem threeDigits_inj {m n : Nat} (h : Graph.threeDigits m = Graph.threeDigits n) : m = n := by
  have hdigits := congrArg (fun s : String => Nat.ofDigitChars 10 s.toList 0) h
  simpa only [Graph.threeDigits, String.toList_ofList, ofDigitChars_replicate_zero,
    Nat.ofDigitChars_toDigits (show 1 < 10 by decide) (show 10 ≤ 10 by decide)] using hdigits

/-- The name of the node with a label that comes after as many others. -/
def numbered (label : String) : Nat → String
  | 0 => label
  | n + 1 => label ++ "." ++ Graph.threeDigits (n + 1)

theorem freshName_eq_numbered (g : Graph) (label : String) :
    g.freshName label = numbered label (g.labels.count label) := by
  rw [Graph.freshName]
  cases g.labels.count label <;> rfl

theorem numbered_toList (label : String) (n : Nat) : (numbered label n).toList =
    label.toList ++ if n = 0 then [] else '.' :: (Graph.threeDigits n).toList := by
  cases n with
  | zero => rw [numbered, if_pos rfl, List.append_nil]
  | succ n =>
    rw [numbered, if_neg (Nat.succ_ne_zero n), String.toList_append, String.toList_append,
      List.append_assoc]
    rfl

/-- **A numbered label gives back the label and the number.** -/
theorem numbered_inj {a b : String} {m n : Nat} (ha : '.' ∉ a.toList) (hb : '.' ∉ b.toList)
    (h : numbered a m = numbered b n) : a = b ∧ m = n := by
  have htext := congrArg String.toList h
  rw [numbered_toList, numbered_toList] at htext
  obtain ⟨hlabel, hnumber⟩ := append_inj_of_mark ha hb (by split <;> simp) (by split <;> simp) htext
  refine ⟨String.toList_inj.1 hlabel, ?_⟩
  split at hnumber
  · split at hnumber
    · omega
    · cases hnumber
  · split at hnumber
    · cases hnumber
    · rw [List.cons.injEq] at hnumber
      exact threeDigits_inj (String.toList_inj.1 hnumber.2)

theorem NodeKind.point_not_mem_label (kind : NodeKind) : '.' ∉ kind.label.toList := by
  cases kind with
  | math op => cases op <;> decide
  | vectorMath op => cases op <;> decide
  | clamp | mapRange | mix | separateXyz | combineXyz | value | groupInput | groupOutput => decide

/-- What a text opens with satisfies a property. -/
def Opens (p : Char → Bool) (s : String) : Prop := s.toList.head?.any p = true

instance (p : Char → Bool) (s : String) : Decidable (Opens p s) :=
  inferInstanceAs (Decidable (_ = true))

theorem Opens.append {p : Char → Bool} {s : String} (h : Opens p s) (s' : String) :
    Opens p (s ++ s') := by
  rw [Opens] at h ⊢
  rw [String.toList_append, List.head?_append]
  cases hs : s.toList.head? with
  | none =>
    rw [hs] at h
    cases h
  | some c =>
    rw [hs] at h
    exact h

theorem NodeKind.opens_label (kind : NodeKind) : Opens Char.isUpper kind.label := by
  have hmath : Opens Char.isUpper "Math " := rfl
  have hvector : Opens Char.isUpper "Vector Math " := rfl
  cases kind with
  | math op => exact hmath.append _
  | vectorMath op => exact hvector.append _
  | clamp | mapRange | mix | separateXyz | combineXyz | value | groupInput | groupOutput => rfl

theorem Catalogue.opens_of_get? {name : String} {f : Builtin} (h : get? name = some f) :
    Opens Char.isLower name := by
  have hall : ∀ f ∈ functions, f.name.toList.head?.any Char.isLower = true := by decide +kernel
  obtain ⟨hmem, rfl⟩ := mem_of_get? h
  exact hall f hmem

namespace Tag

/-- **A tag of a function** opens as the names of functions do. -/
def Made (t : Tag) : Prop := Opens Char.isLower t.text

theorem made_derive [TagDigest] {function : String} (h : Opens Char.isLower function)
    (identities : List String) : (derive function identities).Made :=
  (h.append _).append _

theorem Made.withOccurrence {t : Tag} (h : t.Made) (n : Nat) : (t.withOccurrence n).Made := by
  rw [Tag.withOccurrence]
  split
  · exact h
  · exact (Opens.append h _).append _

theorem Made.child {t : Tag} (h : t.Made) (name : String) : (t.child name).Made :=
  (Opens.append h _).append _

end Tag

/-- A capital is not a small letter. -/
theorem not_isLower_of_isUpper {c : Char} (h : c.isUpper = true) : ¬ c.isLower = true := by
  intro hlower
  have hle : c.val ≤ 'Z'.val := (of_decide_eq_true h).2
  have hge : 'a'.val ≤ c.val := of_decide_eq_true (Bool.and_eq_true_iff.1 hlower).1
  exact absurd (UInt32.le_trans hge hle) (by decide)

/-- **A node that is numbered and one that is tagged have different names.** -/
theorem numbered_ne_tag (kind : NodeKind) (k : Nat) {t : Tag} (ht : t.Made) :
    numbered kind.label k ≠ t.text := by
  have hupper : Opens Char.isUpper (numbered kind.label k) := by
    cases k with
    | zero => exact kind.opens_label
    | succ k => exact (kind.opens_label.append _).append _
  intro heq
  rw [Tag.Made, ← heq, Opens] at ht
  rw [Opens] at hupper
  cases hhead : (numbered kind.label k).toList.head? with
  | none =>
    rw [hhead] at ht
    cases ht
  | some c =>
    rw [hhead, Option.any_some] at ht hupper
    exact not_isLower_of_isUpper hupper ht

/-! ## Signs -/

/-- What a node is told by. -/
structure Sign where
  id : NodeId
  kind : NodeKind
  name : String
  tag : Option Tag

def Node.sign (a : Node) : Sign := ⟨a.id, a.kind, a.name, a.tag⟩

/-- **How a node is named**: by its tag if it has one, and otherwise by its label and a number
that the next node of the label will exceed. -/
def Sign.Proper (labels : List String) (s : Sign) : Prop :=
  match s.tag with
  | some t => s.name = t.text ∧ t.Made
  | none => ∃ k < labels.count s.kind.label, s.name = numbered s.kind.label k

theorem Sign.Proper.mono {labels labels' : List String} {s : Sign} (h : s.Proper labels)
    (hle : ∀ l, labels.count l ≤ labels'.count l) : s.Proper labels' := by
  rw [Proper] at h ⊢
  split at h
  · exact h
  · obtain ⟨k, hk, hname⟩ := h
    exact ⟨k, Nat.lt_of_lt_of_le hk (hle _), hname⟩

theorem Sign.Proper.name_of_tag {labels : List String} {s : Sign} {t : Tag} (h : s.Proper labels)
    (ht : s.tag = some t) : s.name = t.text ∧ t.Made := by
  rw [Proper, ht] at h
  exact h

/-- A sign after a node has been tagged. -/
def Sign.tagged (n : NodeId) (t : Tag) (s : Sign) : Sign :=
  if s.id = n then { s with name := t.text, tag := some t } else s

theorem Sign.id_tagged (n : NodeId) (t : Tag) (s : Sign) : (s.tagged n t).id = s.id := by
  rw [tagged]
  split <;> rfl

namespace Graph

variable {g g' g'' : Graph} {n : NodeId} {t : Tag}

/-- The signs of all nodes. -/
def signs (g : Graph) : List Sign := g.nodes.map Node.sign

/-- **Every node has a name of its own**, and an identifier that no later node gets. -/
structure Identified (g : Graph) : Prop where
  ids : (g.signs.map Sign.id).Nodup
  lt : ∀ s ∈ g.signs, s.id < g.nextNode
  proper : ∀ s ∈ g.signs, s.Proper g.labels
  names : (g.signs.map Sign.name).Nodup

/-- No node carries a tag. -/
def Unclaimed (g : Graph) (t : Tag) : Prop := ∀ s ∈ g.signs, s.tag ≠ some t

/-- A later graph in which some nodes may be missing, and the others read as they did. -/
structure Retains (g g' : Graph) : Prop where
  signs : g'.signs.Sublist g.signs
  labels : g'.labels = g.labels
  nextNode : g'.nextNode = g.nextNode

namespace Retains

theorem refl (g : Graph) : g.Retains g := ⟨List.Sublist.refl _, rfl, rfl⟩

theorem trans (h : g.Retains g') (h' : g'.Retains g'') : g.Retains g'' :=
  ⟨h'.signs.trans h.signs, h'.labels.trans h.labels, h'.nextNode.trans h.nextNode⟩

theorem unclaimed (h : g.Retains g') (ht : g.Unclaimed t) : g'.Unclaimed t :=
  fun s hs => ht s (h.signs.subset hs)

theorem updateNode {f : Node → Node} (hf : ∀ a, (f a).sign = a.sign) (n : NodeId) :
    g.Retains (g.updateNode n f) := by
  refine ⟨?_, rfl, rfl⟩
  have hsigns : (g.updateNode n f).signs = g.signs := by
    rw [Graph.signs, Graph.updateNode, List.map_map]
    refine List.map_congr_left fun a _ => ?_
    rw [Function.comp_apply]
    split
    · exact hf a
    · rfl
  rw [hsigns]

theorem setPlace {place : Place} (h : g.setPlace n place = .ok g') : g.Retains g' := by
  obtain ⟨-, rfl⟩ := modifyNode_eq_ok.1 h
  refine updateNode (fun _ => ?_) n
  rfl

theorem markAutomated (h : g.markAutomated n = .ok g') : g.Retains g' := by
  obtain ⟨-, rfl⟩ := modifyNode_eq_ok.1 h
  refine updateNode (fun _ => ?_) n
  rfl

theorem removeNode (h : g.removeNode n = .ok g') : g.Retains g' := by
  obtain ⟨-, -, -, rfl⟩ := removeNode_eq_ok.1 h
  exact ⟨List.filter_sublist.map _, rfl, rfl⟩

theorem setDefault {i : InputRef} {v : Value} (h : g.setDefault i v = .ok g') : g.Retains g' := by
  obtain ⟨s, -, -, rfl⟩ := setDefault_eq_ok.1 h
  refine updateNode (fun _ => ?_) i.node
  rfl

theorem link {source : OutputRef} {target : InputRef} {l : LinkId}
    (h : g.link source target = .ok (l, g')) : g.Retains g' := by
  obtain ⟨links, rfl⟩ := exists_links_of_link h
  exact ⟨List.Sublist.refl _, rfl, rfl⟩

theorem unlink {l : LinkId} (h : g.unlink l = .ok g') : g.Retains g' := by
  obtain ⟨-, rfl⟩ := unlink_eq_ok.1 h
  exact ⟨List.Sublist.refl _, rfl, rfl⟩

theorem setActive (g : Graph) (n : Option NodeId) : g.Retains (g.setActive n) :=
  ⟨List.Sublist.refl _, rfl, rfl⟩

theorem newInput {name : String} {type : SocketType} {o : OutputRef}
    (h : g.newInput name type = .ok (o, g')) : g.Retains g' := by
  obtain ⟨-, -, -, rfl⟩ := newInput_eq_ok.1 h
  refine updateNode (fun _ => ?_) entry
  rfl

theorem newOutput {name : String} {type : SocketType} {i : InputRef}
    (h : g.newOutput name type = .ok (i, g')) : g.Retains g' := by
  obtain ⟨-, -, -, rfl⟩ := newOutput_eq_ok.1 h
  refine updateNode (fun _ => ?_) exit
  rfl

theorem removeSocket {name : String} (h : g.removeSocket name = .ok g') : g.Retains g' := by
  rw [removeSocket_eq] at h
  split at h
  · cases h
    rw [dropInput_eq]
    refine ⟨(updateNode (fun _ => ?_) entry).signs, rfl, rfl⟩
    rfl
  · split at h
    · cases h
      rw [dropOutput_eq]
      refine ⟨(updateNode (fun _ => ?_) exit).signs, rfl, rfl⟩
      rfl
    · cases h

end Retains

namespace Identified

theorem of_retains (hg : g.Identified) (h : g.Retains g') : g'.Identified where
  ids := hg.ids.sublist (h.signs.map _)
  lt s hs := h.nextNode ▸ hg.lt s (h.signs.subset hs)
  proper s hs := h.labels ▸ hg.proper s (h.signs.subset hs)
  names := hg.names.sublist (h.signs.map _)

/-- **Nodes that carry one tag are one node.** -/
theorem eq_of_tag (hg : g.Identified) {s s' : Sign} (hs : s ∈ g.signs) (hs' : s' ∈ g.signs)
    (ht : s.tag = some t) (ht' : s'.tag = some t) : s = s' := by
  refine List.inj_on_of_nodup_map hg.names hs hs' ?_
  rw [((hg.proper s hs).name_of_tag ht).1, ((hg.proper s' hs').name_of_tag ht').1]

/-- **A tag goes with the node** that carries it. -/
theorem unclaimed_removeNode (hg : g.Identified) (ht : ∀ s ∈ g.signs, s.id = n → s.tag = some t)
    (h : g.removeNode n = .ok g') : g'.Unclaimed t := by
  have hsubset := (Retains.removeNode h).signs.subset
  obtain ⟨-, -, hhas, rfl⟩ := removeNode_eq_ok.1 h
  obtain ⟨a, ha⟩ := hasNode_iff.1 hhas
  obtain ⟨ha, hid⟩ := mem_of_node? ha
  have hmem : a.sign ∈ g.signs := List.mem_map_of_mem ha
  intro s hs htag
  obtain rfl := hg.eq_of_tag (hsubset hs) hmem htag (ht a.sign hmem hid)
  obtain ⟨b, hb, hsign⟩ := List.mem_map.1 hs
  have hkept : b.id ≠ n := by simpa using (List.mem_filter.1 hb).2
  exact hkept ((congrArg Sign.id hsign).trans hid)

theorem signs_insertNode (kind : NodeKind) (place : Place) : (g.insertNode kind place).2.signs =
    g.signs ++ [⟨g.nextNode, kind, g.freshName kind.label, none⟩] := by
  rw [signs, signs, Graph.insertNode, List.map_append]
  rfl

/-- **A new node gets a new name.** -/
theorem insertNode (hg : g.Identified) (kind : NodeKind) (place : Place) :
    (g.insertNode kind place).2.Identified := by
  have hlabels : (g.insertNode kind place).2.labels = kind.label :: g.labels := rfl
  have hnext : (g.insertNode kind place).2.nextNode = g.nextNode + 1 := rfl
  refine ⟨?_, ?_, ?_, ?_⟩ <;> rw [signs_insertNode]
  · rw [List.map_append, List.map_singleton]
    refine List.nodup_append.2 ⟨hg.ids, List.nodup_singleton _, fun i hi j hj => ?_⟩
    obtain ⟨s, hs, rfl⟩ := List.mem_map.1 hi
    rw [List.mem_singleton.1 hj]
    exact Nat.ne_of_lt (hg.lt s hs)
  · rw [hnext, List.forall_mem_append, List.forall_mem_singleton]
    exact ⟨fun s hs => Nat.lt_succ_of_lt (hg.lt s hs), Nat.lt_succ_self _⟩
  · rw [hlabels, List.forall_mem_append, List.forall_mem_singleton]
    refine ⟨fun s hs => (hg.proper s hs).mono fun l => List.count_le_count_cons, ?_⟩
    exact ⟨g.labels.count kind.label, by rw [List.count_cons_self]; exact Nat.lt_succ_self _,
      freshName_eq_numbered g kind.label⟩
  · rw [List.map_append, List.map_singleton, freshName_eq_numbered]
    refine List.nodup_append.2 ⟨hg.names, List.nodup_singleton _, fun i hi j hj heq => ?_⟩
    obtain ⟨s, hs, rfl⟩ := List.mem_map.1 hi
    rw [List.mem_singleton.1 hj] at heq
    have hproper := hg.proper s hs
    rw [Sign.Proper] at hproper
    split at hproper
    · exact numbered_ne_tag kind _ hproper.2 (heq.symm.trans hproper.1)
    -- a node of the label has a smaller number than the new one
    · obtain ⟨k, hk, hname⟩ := hproper
      obtain ⟨hlabel, rfl⟩ := numbered_inj (NodeKind.point_not_mem_label _)
        (NodeKind.point_not_mem_label _) (hname.symm.trans heq)
      rw [hlabel] at hk
      exact Nat.lt_irrefl _ hk

theorem signs_setTag (h : g.setTag n t = .ok g') :
    g'.signs = g.signs.map (Sign.tagged n t) ∧ g'.labels = g.labels ∧ g'.nextNode = g.nextNode := by
  obtain ⟨-, rfl⟩ := modifyNode_eq_ok.1 h
  refine ⟨?_, rfl, rfl⟩
  rw [signs, signs, updateNode, List.map_map, List.map_map]
  refine List.map_congr_left fun a _ => ?_
  rw [Function.comp_apply, Function.comp_apply, Sign.tagged]
  by_cases hid : a.id = n
  · rw [if_pos hid, if_pos (show a.sign.id = n from hid)]
    rfl
  · rw [if_neg hid, if_neg (show ¬ a.sign.id = n from hid)]

/-- The text of a tag that no node carries is the name of none. -/
theorem name_ne_of_tag (hg : g.Identified) (ht : t.Made) (hfree : g.Unclaimed t) :
    ∀ s ∈ g.signs, s.name ≠ t.text := by
  intro s hs hname
  have hproper := hg.proper s hs
  rw [Sign.Proper] at hproper
  split at hproper
  · rename_i t' htag
    exact hfree s hs (htag.trans (congrArg some (Tag.text_inj.1 (hproper.1.symm.trans hname))))
  · obtain ⟨k, -, hnumbered⟩ := hproper
    exact numbered_ne_tag s.kind k ht (hnumbered.symm.trans hname)

/-- **A tag that no node carries names a node.** -/
theorem setTag (hg : g.Identified) (ht : t.Made) (hfree : g.Unclaimed t)
    (h : g.setTag n t = .ok g') : g'.Identified := by
  obtain ⟨hsigns, hlabels, hnext⟩ := signs_setTag h
  have hids : Sign.id ∘ Sign.tagged n t = Sign.id := funext (Sign.id_tagged n t)
  have hother := hg.name_ne_of_tag ht hfree
  refine ⟨?_, ?_, ?_, ?_⟩ <;> rw [hsigns]
  · rw [List.map_map, hids]
    exact hg.ids
  · rw [List.forall_mem_map, hnext]
    intro s hs
    rw [Sign.id_tagged]
    exact hg.lt s hs
  · rw [List.forall_mem_map, hlabels]
    intro s hs
    rw [Sign.tagged]
    split
    · exact ⟨rfl, ht⟩
    · exact hg.proper s hs
  · rw [List.map_map]
    refine List.Nodup.map_on (fun s hs s' hs' heq => ?_) hg.ids.of_map
    rw [Function.comp_apply, Function.comp_apply, Sign.tagged, Sign.tagged] at heq
    split at heq <;> split at heq
    · rename_i hid hid'
      exact List.inj_on_of_nodup_map hg.ids hs hs' (hid.trans hid'.symm)
    · exact absurd heq.symm (hother s' hs')
    · exact absurd heq (hother s hs)
    · exact List.inj_on_of_nodup_map hg.names hs hs' heq

end Identified

/-! ## Where a graph starts -/

theorem identified_empty : empty.Identified := by
  have hbare : Identified ⟨[], [], 0, 0, [], none⟩ :=
    ⟨List.nodup_nil, List.forall_mem_nil _, List.forall_mem_nil _, List.nodup_nil⟩
  exact (hbare.insertNode _ _).insertNode _ _

theorem identified_of_withInterface {inputs outputs : List (String × SocketType)}
    (h : withInterface inputs outputs = .ok g) : g.Identified :=
  withInterface_keeps identified_empty (fun _ _ _ _ _ hg h => hg.of_retains (.newInput h))
    (fun _ _ _ _ _ hg h => hg.of_retains (.newOutput h)) h

end Graph

/-- **An edit leaves signs as they are**, or removes some, if it neither makes nor tags a node. -/
theorem Graph.retains_of_attempt {g : Graph} {e : Edit} {r : Edit.Answer × Graph}
    (h : e.attempt g = .ok r) :
    g.Retains r.2 ∨ (∃ kind, e = .createNode kind) ∨ ∃ n t, e = .setTag n t := by
  cases e with
  | createNode kind => exact Or.inr (Or.inl ⟨kind, rfl⟩)
  | setTag n t => exact Or.inr (Or.inr ⟨n, t, rfl⟩)
  | removeNode n =>
    obtain ⟨_, hmade, rfl⟩ := map_eq_ok h
    exact Or.inl (.removeNode hmade)
  | newInput name type =>
    obtain ⟨_, hmade, rfl⟩ := map_eq_ok h
    exact Or.inl (.newInput hmade)
  | newOutput name type =>
    obtain ⟨_, hmade, rfl⟩ := map_eq_ok h
    exact Or.inl (.newOutput hmade)
  | removeSocket name =>
    obtain ⟨_, hmade, rfl⟩ := map_eq_ok h
    exact Or.inl (.removeSocket hmade)
  | setDefault i v =>
    obtain ⟨_, hmade, rfl⟩ := map_eq_ok h
    exact Or.inl (.setDefault hmade)
  | link source target =>
    obtain ⟨_, hmade, rfl⟩ := map_eq_ok h
    exact Or.inl (.link hmade)
  | unlink l =>
    obtain ⟨_, hmade, rfl⟩ := map_eq_ok h
    exact Or.inl (.unlink hmade)
  | setActive n =>
    cases h
    exact Or.inl (.setActive g n)
  | setPlace n place =>
    obtain ⟨_, hmade, rfl⟩ := map_eq_ok h
    exact Or.inl (.setPlace hmade)
  | markAutomated n =>
    obtain ⟨_, hmade, rfl⟩ := map_eq_ok h
    exact Or.inl (.markAutomated hmade)

/-- Nodes are tagged by hand. -/
def Edit.isTagging : Edit → Bool
  | .setTag .. => true
  | _ => false

/-- **An edit keeps names apart** if it does not tag a node. -/
theorem Graph.Identified.perform {g : Graph} (hg : g.Identified) {e : Edit}
    (he : e.isTagging = false) : (e.perform g).2.Identified := by
  rw [Edit.perform_eq]
  cases hattempt : e.attempt g with
  | error err => exact hg
  | ok r =>
    rcases Graph.retains_of_attempt hattempt with hr | ⟨kind, rfl⟩ | ⟨n, t, rfl⟩
    · exact hg.of_retains hr
    · obtain ⟨⟨n, made⟩, hmade, rfl⟩ := map_eq_ok hattempt
      obtain ⟨-, -, rfl⟩ := createNode_eq_ok.1 hmade
      exact hg.insertNode kind _
    · cases he

end NodeFormula
