import ScriptFrontend.Diagnostic.Failure
import ScriptFrontend.Proofs.Hoist.Block
import ScriptFrontend.Proofs.Tree.Places

/-!
# Where errors at hoisted values are reported

A hoisted value keeps the columns of its leftmost token and loses the line. The line that it gets
derives from the line of the block, and errors are reported on the source line of that one. So an
error at a value from any other source line is reported in the columns of its own line, on the line
of the block.
-/

namespace ScriptFrontend

/-! ### Locations of trees -/

def Tree.location? (t : Tree) (fault : Fault) : Option Location :=
  (Failure.pass (.foundAt fault t)).location?

theorem Tree.location?_of_position {t : Tree} {p : Position} (placed : t.position = .ok p)
    (fault : Fault) : t.location? fault = some (.ofPosition p) := by
  rw [location?, PassError.foundAt, placed]
  rfl

theorem Location.ofPosition_on_eq_iff {p : Position} {line : Line} :
    ofPosition { p with line } = ofPosition p ↔ line.source = p.line.source := by
  rw [ofPosition, ofPosition, Location.mk.injEq]
  constructor
  · intro same
    exact Component.ext_val same.1
  · intro same
    exact ⟨congrArg Component.val same, rfl, rfl⟩

/-! ### Taking a value out of its block -/

theorem Tree.exchanges_of_replaceIn {index : Nat} {old new : Child} {s s' : Tree}
    (replaced : replaceIn index new s = (.ok old, s')) :
    Child.Exchanges old new s.children s'.children := by
  obtain ⟨present, rfl⟩ := replaceIn_eq_ok_iff.1 replaced
  exact Child.exchanges_set present

/-- A block without the value is still on its line, unless it began with the value. Then it was on
the line of the value, and is on that of the placeholder. -/
theorem Tree.line_of_taken {block detached v : Tree} {site : Address} {index : Nat}
    {placeholder : Child} {l m : Line}
    (taken : block.edit? site (replaceIn index placeholder) = some (.ok (.ofTree v), detached))
    (onLine : detached.line = .ok l) (valueOn : v.line = .ok m) :
    block.line = .ok l ∨
      block.line = .ok m ∧ ∃ token, placeholder.leftmost? = some token ∧ token.line = l := by
  obtain ⟨s, s', replaced, outer⟩ := exchanges_of_edit? taken
  obtain ⟨token, first, same⟩ := line_eq_ok_iff.1 onLine
  rcases outer.trans (exchanges_of_replaceIn replaced) with kept | ⟨was, is⟩
  · exact .inl (line_eq_ok_iff.2 ⟨token, kept ▸ first, same⟩)
  · obtain ⟨token', first', same'⟩ := line_eq_ok_iff.1 valueOn
    exact .inr ⟨line_eq_ok_iff.2 ⟨token', was.trans first', same'⟩, token, is ▸ first, same⟩

namespace Hoister

/-! ### Hoisting it -/

theorem position_of_relocated {value moved : Tree} {line : Line} {p : Position}
    (relocated : value.mapFirstToken (fun token => { token with line }) = .ok moved)
    (placed : value.position = .ok p) : moved.position = .ok { p with line } := by
  obtain ⟨token, first, column, -, endColumn⟩ := Tree.position_eq_ok_iff.1 placed
  refine Tree.position_eq_ok_iff.2 ⟨{ token with line }, ?_, column, rfl, endColumn⟩
  rw [Tree.leftmost_of_mapFirstToken relocated, first, Option.map_some]

/-- A newly bound hoister moves every value to a line that derives from the source line of its
block. -/
theorem position_inject_of_bind {block value assignment : Tree} {h h' : Hoister} {p : Position}
    (bound : bind block = .ok h) (placed : value.position = .ok p)
    (run : (inject value).run h = (.ok assignment, h')) :
    (∃ cs last, h'.block.children = cs ++ [.ofTree assignment, last]) ∧
      ∃ line moved, line.source = h.origin.source ∧ moved.position = .ok { p with line } ∧
        assignment = assignmentOn line moved := by
  obtain ⟨source, moved, -, relocated, same, -, after⟩ := inject_of_bind bound run
  obtain ⟨rfl, onLine, -, -⟩ := of_bind bound
  obtain ⟨cs, last, children⟩ := children_eq_concat onLine
  refine ⟨⟨cs, last, ?_⟩, h.base.child h.next, moved, ?_, ?_, same⟩
  · rw [after, children_insert children]
  · rw [Line.source_child, base, Line.source_parent]
  · exact position_of_relocated relocated placed

/-- An error at a hoisted value is reported in the columns of the value, but on the source line that
the block is on when the value has been taken out of it. That is where it was reported before just
when the value was from that source line. The block is on its own line then, unless it began with
the value; in that case it was on the line of the value and is on that of the placeholder. -/
theorem hoisted_location_eq_iff {block detached v assignment : Tree} {site : Address} {index : Nat}
    {placeholder : Child} {h h' : Hoister} {p : Position} (fault : Fault)
    (taken : block.edit? site (Tree.replaceIn index placeholder) = some (.ok (.ofTree v), detached))
    (placed : v.position = .ok p) (bound : bind detached = .ok h)
    (run : (inject v).run h = (.ok assignment, h')) :
    (∃ cs last, h'.block.children = cs ++ [.ofTree assignment, last]) ∧
      (∃ hoisted, assignment.at? [1, 1] = some hoisted ∧
        hoisted.location? fault =
          some ⟨h.origin.source.val, p.column.toNat, p.endColumn.map (·.toNat)⟩ ∧
        (hoisted.location? fault = v.location? fault ↔ h.origin.source = p.line.source)) ∧
      (block.line = .ok h.origin ∨ block.line = .ok p.line ∧
        ∃ token, placeholder.leftmost? = some token ∧ token.line = h.origin) := by
  obtain ⟨inserted, line, moved, source, position, rfl⟩ := position_inject_of_bind bound placed run
  refine ⟨inserted, ⟨moved, rfl, ?_, ?_⟩, ?_⟩
  · rw [Tree.location?_of_position position, Location.ofPosition, source]
  · rw [Tree.location?_of_position position, Tree.location?_of_position placed, Option.some.injEq,
      Location.ofPosition_on_eq_iff, source]
  · exact Tree.line_of_taken taken (of_bind bound).2.1 (Tree.line_of_position placed)

/-- The block of a statement on line 4 that opens a nested block, where `say f` is on line 5. -/
def loopBlock : Tree :=
  ⟨"block", [.tree "line" [.token ⟨"NAME", "loop", .real 4, some 1, some 5⟩],
    .tree "nested_block" [.tree "line" [.token ⟨"NAME", "say", .real 5, some 3, some 6⟩,
      .tree "entity" [.token ⟨"NAME", "f", .real 5, some 7, some 8⟩]]]]⟩

def nestedValue : Tree := ⟨"entity", [.token ⟨"NAME", "f", .real 5, some 7, some 8⟩]⟩

theorem hoisted_location_eq_iff_nested :
    ∃ detached h assignment h' hoisted,
      loopBlock.edit? (.positions [1, 0]) (Tree.replaceIn 1 (.ofTree (pathOn (.real 5) "_"))) =
        some (.ok (.ofTree nestedValue), detached) ∧
      bind detached = .ok h ∧ (inject nestedValue).run h = (.ok assignment, h') ∧
      assignment.at? [1, 1] = some hoisted ∧
      nestedValue.location? .unknown = some ⟨5, 7, some 8⟩ ∧
      hoisted.location? .unknown = some ⟨4, 7, some 8⟩ := by
  obtain ⟨-, ⟨hoisted, reached, reported, -⟩, -⟩ :=
    @hoisted_location_eq_iff loopBlock _ nestedValue _ (.positions [1, 0]) 1
      (.ofTree (pathOn (.real 5) "_")) _ _ _ .unknown rfl rfl rfl rfl
  exact ⟨_, _, _, _, hoisted, rfl, rfl, rfl, reached, rfl, reported⟩

end Hoister

end ScriptFrontend
