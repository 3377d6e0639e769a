import ScriptFrontend.Tree.Shape
import ScriptFrontend.Proofs.Tree.Places

/-!
# Chains of wrappers

A chain of wrappers is known by its layers, one tag for each, and by what it is around. The layer
`k` of a tree is the tree reached by going to the first child `k` times; in a chain that way passes
through every layer, and an edit of one layer leaves the layers around it as they are. So whether a
tree is a chain is decided layer by layer, and no edit of a layer can be made up for by another one.
-/

namespace ScriptFrontend

namespace Child

theorem wrap_append (front tags : List String) (c : Child) :
    c.wrap (front ++ tags) = (c.wrap tags).wrap front :=
  List.foldr_append

theorem isWrappedIn_iff {tags : List String} {c : Child} :
    c.isWrappedIn tags ↔ ∃ inner : Child, c = inner.wrap tags := by
  constructor
  · intro wrapped
    fun_induction isWrappedIn tags c with
    | case1 c => exact ⟨c, rfl⟩
    | case2 tag tags tag' c ih =>
      obtain ⟨same, wrapped⟩ := Bool.and_eq_true_iff.1 wrapped
      obtain ⟨inner, rfl⟩ := ih wrapped
      exact ⟨inner, by rw [wrap_cons, eq_of_beq same]⟩
    | case3 => cases wrapped
  · intro ⟨inner, same⟩
    rw [same]
    exact isWrappedIn_wrap tags inner

/-- The layers in front are passed without a question about what they are around. -/
theorem isWrappedIn_wrap_append (front tags : List String) (c : Child) :
    (c.wrap front).isWrappedIn (front ++ tags) = c.isWrappedIn tags := by
  induction front with
  | nil => rfl
  | cons tag front ih => simp [isWrappedIn, ih]

end Child

namespace Tree

/-- A tree inside single-child trees with these tags, outermost first. -/
def wrap (tags : List String) (t : Tree) : Tree := tags.foldr (fun tag s => ⟨tag, [.ofTree s]⟩) t

@[simp] theorem wrap_nil (t : Tree) : t.wrap [] = t := rfl

@[simp] theorem wrap_cons (tag : String) (tags : List String) (t : Tree) :
    t.wrap (tag :: tags) = ⟨tag, [.ofTree (t.wrap tags)]⟩ := rfl

theorem ofTree_wrap (tags : List String) (t : Tree) :
    Child.ofTree (t.wrap tags) = (Child.ofTree t).wrap tags := by
  induction tags with
  | nil => rfl
  | cons tag tags ih => rw [wrap_cons, Child.wrap_cons, ← ih]; rfl

/-- The tree reached by going to the first child this many times. -/
def layer? (t : Tree) (k : Nat) : Option Tree := t.at? (List.replicate k 0)

/-- The tree with one of its layers edited. -/
def editLayer? (t : Tree) (k : Nat) (edit : Tree → Tree) : Option Tree :=
  (t.edit? (.positions (List.replicate k 0)) fun s => ((), edit s)).map Prod.snd

theorem layer?_wrap {tags : List String} {k : Nat} (within : k ≤ tags.length) (t : Tree) :
    (t.wrap tags).layer? k = some (t.wrap (tags.drop k)) := by
  induction k generalizing tags with
  | zero => rfl
  | succ k ih =>
    cases tags with
    | nil => cases within
    | cons tag tags => exact ih (Nat.le_of_succ_le_succ within)

theorem editAt?_wrap {α : Type} (front : List String) (t : Tree) (edit : Tree → α × Tree) :
    editAt? edit (List.replicate front.length 0) (t.wrap front) =
      some ((edit t).1, (edit t).2.wrap front) := by
  induction front with
  | nil => rfl
  | cons tag front ih => simp [List.replicate_succ, editAt?, ih]

theorem editLayer?_wrap (front : List String) (t : Tree) (edit : Tree → Tree) :
    (t.wrap front).editLayer? front.length edit = some ((edit t).wrap front) := by
  rw [editLayer?, edit?, editAt?_wrap]
  rfl

/-! ### Bare values -/

theorem tag_and_single_of_isWrappedIn {t : Tree} {tag : String} {tags : List String}
    (wrapped : (Child.ofTree t).isWrappedIn (tag :: tags)) :
    t.tag = tag ∧ t.children.length = 1 := by
  obtain ⟨inner, same⟩ := Child.isWrappedIn_iff.1 wrapped
  obtain ⟨rfl, children⟩ := Child.tree.inj same
  exact ⟨rfl, by rw [children]; rfl⟩

/-- A layer of a chain is a tree with one child, inside the layers in front of it. -/
theorem exists_layer_of_isWrappedIn {t : Tree} {front rest : List String} {tag : String}
    (wrapped : (Child.ofTree t).isWrappedIn (front ++ tag :: rest)) :
    ∃ child, t = wrap front ⟨tag, [child]⟩ := by
  obtain ⟨inner, same⟩ := Child.isWrappedIn_iff.1 wrapped
  refine ⟨inner.wrap rest, Child.ofTree_injective ?_⟩
  rw [same, Child.wrap_append, ofTree_wrap]
  rfl

/-- A layer with another tag, or with other than one child, does not belong to the chain. -/
theorem isWrappedIn_wrap_eq_false {s : Tree} {front rest : List String} {tag : String}
    (unfit : s.tag ≠ tag ∨ s.children.length ≠ 1) :
    (Child.ofTree (s.wrap front)).isWrappedIn (front ++ tag :: rest) = false := by
  rw [ofTree_wrap, Child.isWrappedIn_wrap_append, Bool.eq_false_iff]
  intro wrapped
  obtain ⟨same, single⟩ := tag_and_single_of_isWrappedIn wrapped
  exact unfit.elim (absurd same) (absurd single)

/-- An edit that changes the tag of a layer, or how many children it has, breaks the chain. -/
theorem exists_layer_of_isBareValue {t : Tree} (bare : t.isBareValue) {k : Nat}
    (within : k < precedenceLevels.length) :
    ∃ s child, t.layer? k = some s ∧ s.children = [child] ∧
      ∀ edit : Tree → Tree, (edit s).tag ≠ s.tag ∨ (edit s).children.length ≠ 1 →
        (t.editLayer? k edit).map isBareValue = some false := by
  obtain ⟨front, tag, rest, levels, rfl⟩ : ∃ front tag rest,
      precedenceLevels = front ++ tag :: rest ∧ front.length = k := by
    refine ⟨precedenceLevels.take k, precedenceLevels[k], precedenceLevels.drop (k + 1), ?_,
      List.length_take_of_le (Nat.le_of_lt within)⟩
    rw [List.getElem_cons_drop, List.take_append_drop]
  rw [isBareValue, levels] at bare
  obtain ⟨child, rfl⟩ := exists_layer_of_isWrappedIn bare
  refine ⟨⟨tag, [child]⟩, child, ?_, rfl, fun edit unfit => ?_⟩
  · rw [layer?_wrap (Nat.le_refl _), List.drop_length]
    rfl
  · rw [editLayer?_wrap, Option.map_some, isBareValue, levels, isWrappedIn_wrap_eq_false unfit]

/-- What a chain is around can be exchanged. -/
theorem replaceAt?_of_wrap {t : Tree} (front : List String) {tag : String} {c : Child}
    (chain : Child.ofTree t = c.wrap (front ++ [tag])) (d : Child) :
    ∃ t', t.replaceAt? ⟨List.replicate front.length 0, 0⟩ d = some (.ok c, t') ∧
      Child.ofTree t' = d.wrap (front ++ [tag]) := by
  have own (c : Child) : c.wrap (front ++ [tag]) = Child.ofTree (wrap front ⟨tag, [c]⟩) := by
    rw [ofTree_wrap, Child.wrap_append]
    rfl
  obtain rfl := Child.ofTree_injective (chain.trans (own c))
  exact ⟨_, editAt?_wrap front ⟨tag, [c]⟩ (replaceIn 0 d), (own d).symm⟩

/-- A bare value is anything at all inside one wrapper for each level of precedence. It is none any
more with a second child in one of the wrappers, with a wrapper that is empty, or with another tag on
one of them; what is inside of the wrappers does not matter. -/
theorem isBareValue_exact (t : Tree) :
    (t.isBareValue ↔ ∃ c : Child, .ofTree t = c.wrap precedenceLevels) ∧
    (t.isBareValue → ∀ k < precedenceLevels.length, ∃ s child,
      t.layer? k = some s ∧ s.children = [child] ∧
      (∀ index ≤ 1, ∀ item, (t.editLayer? k (·.insertAt index item)).map isBareValue = some false) ∧
      (t.editLayer? k (·.eraseAt 0)).map isBareValue = some false ∧
      ∀ tag ≠ s.tag, (t.editLayer? k (·.retag tag)).map isBareValue = some false) ∧
    ∀ c : Child, .ofTree t = c.wrap precedenceLevels → ∀ d, ∃ t',
      t.replaceAt? ⟨List.replicate 9 0, 0⟩ d = some (.ok c, t') ∧ t'.isBareValue := by
  refine ⟨Child.isWrappedIn_iff, fun bare k within => ?_, fun c chain d => ?_⟩
  · obtain ⟨s, child, layer, children, breaks⟩ := exists_layer_of_isBareValue bare within
    refine ⟨s, child, layer, children, fun index near item => ?_, ?_, fun tag other => ?_⟩
    · apply breaks
      right
      simp [insertAt, children, List.length_insertIdx, near]
    · apply breaks
      right
      simp [eraseAt, children]
    · exact breaks _ (.inl other)
  · obtain ⟨t', replaced, chain'⟩ := replaceAt?_of_wrap (precedenceLevels.take 9) chain d
    exact ⟨t', replaced, Child.isWrappedIn_iff.2 ⟨d, chain'⟩⟩

/-- A token in ten wrappers is a bare value, and is none any more with a second token in the fifth. -/
theorem isBareValue_exact_second_child :
    let c := Child.token (.synthetic "INT" "0" (.real 1))
    let t : Tree := wrap (precedenceLevels.take 9) ⟨"entity", [c]⟩
    t.isBareValue ∧ (t.editLayer? 4 (·.insertAt 1 c)).map isBareValue = some false ∧
      ∃ t', t.replaceAt? ⟨List.replicate 9 0, 0⟩ (.ofTree t) = some (.ok c, t') ∧
        t'.isBareValue := by
  intro c t
  obtain ⟨exact, edits, exchange⟩ := isBareValue_exact t
  have bare : t.isBareValue := exact.2 ⟨c, rfl⟩
  obtain ⟨s, child, -, -, added, -⟩ := edits bare 4 (by decide)
  exact ⟨bare, added 1 (by decide) c, exchange c rfl (.ofTree t)⟩

/-! ### Chains with given tags -/

theorem subtrees_eq_nil_iff {t : Tree} :
    t.subtrees = [] ↔ ∀ c ∈ t.children, ∃ token, c = .token token := by
  rw [subtrees, List.filterMap_eq_nil_iff]
  refine forall₂_congr fun c _ => ?_
  cases c <;> simp

theorem exists_tag_cons (front : List String) (n : Tree) :
    ∃ tags, front ++ [n.tag] = (n.wrap front).tag :: tags := by
  cases front with
  | nil => exact ⟨[], rfl⟩
  | cons tag front => exact ⟨front ++ [n.tag], rfl⟩

/-- The descent takes the tags below the tag of the tree that it starts from. -/
theorem soleDescent?_wrap {n : Tree} (flat : n.subtrees = []) {front tags : List String}
    (layers : front ++ [n.tag] = (n.wrap front).tag :: tags) :
    soleDescent? tags (n.wrap front) = some n := by
  induction front generalizing tags with
  | nil =>
    cases layers
    simp [soleDescent?, flat]
  | cons tag front ih =>
    obtain ⟨below, inner⟩ := exists_tag_cons front n
    obtain rfl : front ++ [n.tag] = tags := (List.cons.inj layers).2
    rw [inner, wrap_cons, soleDescent?]
    simpa [Child.ofTree] using ih inner

theorem soleDescent?_eq_some_iff {t n : Tree} {tags : List String} :
    soleDescent? tags t = some n ↔
      n.subtrees = [] ∧ ∃ front, t.tag :: tags = front ++ [n.tag] ∧ t = n.wrap front := by
  constructor
  · intro found
    fun_induction soleDescent? tags t with
    | case1 t flat =>
      cases found
      exact ⟨List.isEmpty_iff.1 flat, [], rfl, rfl⟩
    | case2 => cases found
    | case3 tags t tag cs children ih =>
      obtain ⟨flat, front, below, chain⟩ := ih found
      refine ⟨flat, t.tag :: front, by rw [List.cons_append, ← below], ?_⟩
      rw [wrap_cons, ← chain, Child.ofTree, ← children]
    | case4 => cases found
    | case5 => cases found
  · intro whole
    obtain ⟨flat, front, layers, chain⟩ := whole
    rw [chain]
    exact soleDescent?_wrap flat (by rw [← layers, chain])

theorem innermost?_eq_some_iff {t n : Tree} {tags : List String} :
    t.innermost? tags = some n ↔
      t.children.length = 1 ∧ n.subtrees = [] ∧
        ∃ front, tags = front ++ [n.tag] ∧ t = n.wrap front := by
  cases tags with
  | nil => simp [innermost?]
  | cons tag tags =>
    rw [innermost?]
    split
    · rename_i fits
      simp only [soleDescent?_eq_some_iff, fits, true_and]
    · rename_i unfit
      refine ⟨nofun, fun found => ?_⟩
      obtain ⟨single, -, front, layers, chain⟩ := found
      obtain ⟨below, own⟩ := exists_tag_cons front n
      refine absurd ⟨single, ?_⟩ unfit
      rw [chain]
      exact (List.cons.inj (layers.trans own)).1.symm

/-- The layers of a chain are those down to the first tree that holds no further tree. -/
theorem eq_of_wrap_eq_wrap {m n : Tree} (flat : m.subtrees = []) (flat' : n.subtrees = [])
    {front front' : List String} (same : m.wrap front = n.wrap front') :
    front = front' ∧ m = n := by
  induction front generalizing front' with
  | nil =>
    cases front' with
    | nil => exact ⟨rfl, same⟩
    | cons tag front' =>
      obtain rfl : m = _ := same
      cases flat
  | cons tag front ih =>
    cases front' with
    | nil =>
      obtain rfl : _ = n := same
      cases flat'
    | cons tag' front' =>
      obtain ⟨rfl, children⟩ := Tree.mk.inj same
      obtain ⟨rfl, rfl⟩ := ih (Child.ofTree_injective (List.cons.inj children).1)
      exact ⟨rfl, rfl⟩

/-- What a chain of wrappers with these tags asks of its layer `k`. -/
structure FitsLayer (tags : List String) (k : Nat) (s : Tree) : Prop where
  tag : tags[k]? = some s.tag
  single : k = 0 ∨ k + 1 < tags.length → s.children.length = 1
  flat : k + 1 = tags.length → s.subtrees = []

theorem exists_fitsLayer {t n : Tree} {tags : List String} (found : t.innermost? tags = some n)
    {k : Nat} (within : k < tags.length) : ∃ s, t.layer? k = some s ∧ FitsLayer tags k s := by
  obtain ⟨single, flat, front, rfl, rfl⟩ := innermost?_eq_some_iff.1 found
  rw [List.length_append, List.length_singleton] at within
  have near : k ≤ front.length := Nat.le_of_lt_succ within
  refine ⟨n.wrap (front.drop k), layer?_wrap near n, ?_, fun above => ?_, fun last => ?_⟩
  · obtain ⟨below, own⟩ := exists_tag_cons (front.drop k) n
    rw [← List.head?_drop, List.drop_append_of_le_length near, own, List.head?_cons]
  · rcases above with rfl | above
    · exact single
    · have present : k < front.length := by simpa using above
      rw [List.drop_eq_getElem_cons present]
      rfl
  · have depth : k = front.length := by simpa using last
    rw [depth, List.drop_length]
    exact flat

/-- A chain is matched by the list of its tags, outermost first, and by no other list. A tree that
lacks one of the layers, or has one that branches, goes too deep or has another tag, is not matched. -/
theorem chain_tags_exact (t : Tree) (tags : List String) :
    (∀ n, t.innermost? tags = some n ↔
      tags ≠ [] ∧ t.children.length = 1 ∧ t = n.wrap tags.dropLast ∧
        tags.getLast? = some n.tag ∧ ∀ c ∈ n.children, ∃ token, c = .token token) ∧
    (∀ n tags', t.innermost? tags = some n → tags' ≠ tags → t.innermost? tags' = none) ∧
    ∀ k < tags.length, (∀ s, t.layer? k = some s → ¬FitsLayer tags k s) →
      t.innermost? tags = none := by
  refine ⟨fun n => ?_, fun n tags' found other => ?_, fun k within unfit => ?_⟩
  · rw [innermost?_eq_some_iff, subtrees_eq_nil_iff]
    constructor
    · intro ⟨single, flat, front, layers, chain⟩
      rw [layers, List.dropLast_concat, List.getLast?_concat]
      exact ⟨by simp, single, chain, rfl, flat⟩
    · intro ⟨_, single, chain, last, flat⟩
      obtain ⟨front, rfl⟩ := List.getLast?_eq_some_iff.1 last
      rw [List.dropLast_concat] at chain
      exact ⟨single, flat, front, rfl, chain⟩
  · obtain ⟨_, flat, front, rfl, chain⟩ := innermost?_eq_some_iff.1 found
    rw [Option.eq_none_iff_forall_ne_some]
    intro m found'
    obtain ⟨_, flat', front', rfl, chain'⟩ := innermost?_eq_some_iff.1 found'
    obtain ⟨rfl, rfl⟩ := eq_of_wrap_eq_wrap flat flat' (chain.symm.trans chain')
    exact other rfl
  · rw [Option.eq_none_iff_forall_ne_some]
    intro n found
    obtain ⟨s, layer, fits⟩ := exists_fitsLayer found within
    exact unfit s layer fits

/-- Against a chain of three layers, a list in another order is refused, and so is a chain that
branches in its second layer. -/
theorem chain_tags_exact_three_layers :
    let c := Child.token (.synthetic "NAME" "x" (.real 1))
    let t : Tree := wrap ["a", "b"] ⟨"c", [c]⟩
    let branching : Tree := ⟨"a", [.tree "b" [.tree "c" [c], c]]⟩
    t.innermost? ["a", "b", "c"] = some ⟨"c", [c]⟩ ∧ t.innermost? ["a", "c", "b"] = none ∧
      branching.innermost? ["a", "b", "c"] = none := by
  intro c t branching
  obtain ⟨exact, other, -⟩ := chain_tags_exact t ["a", "b", "c"]
  obtain ⟨-, -, unfit⟩ := chain_tags_exact branching ["a", "b", "c"]
  have found : t.innermost? ["a", "b", "c"] = some ⟨"c", [c]⟩ :=
    (exact _).2 ⟨by decide, rfl, rfl, rfl, by simp [c]⟩
  refine ⟨found, other _ _ found (by decide), unfit 1 (by decide) fun s layer fits => ?_⟩
  cases layer
  cases fits.single (.inr (by decide))

end Tree

end ScriptFrontend
