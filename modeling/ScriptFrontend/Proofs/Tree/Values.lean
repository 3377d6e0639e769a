import ScriptFrontend.Proofs.Tree.Leftmost
import ScriptFrontend.Proofs.Tree.Places

/-!
# The token values in a tree

What a tree says, with its shape and all positions left out. An exchange brings in no value but
those of the new child, and a token that is moved to another line keeps its value.
-/

namespace ScriptFrontend

namespace Child

mutual

/-- The values of the tokens of a child, from left to right. -/
def values : Child → List String
  | .token t => [t.value]
  | .tree _ cs => valuesIn cs

def valuesIn : List Child → List String
  | [] => []
  | c :: cs => c.values ++ valuesIn cs

end

theorem mem_valuesIn_iff {cs : List Child} {value : String} :
    value ∈ valuesIn cs ↔ ∃ c ∈ cs, value ∈ c.values := by
  induction cs with
  | nil => simp [valuesIn]
  | cons c cs ih => simp [valuesIn, ih]

theorem valuesIn_toValue (c : Child) : valuesIn c.toValue.children = c.values := by
  cases c with
  | token t => rfl
  | tree tag cs => rfl

theorem valuesIn_of_mapLeftmostIn? {f : Token → Token} (kept : ∀ t, (f t).value = t.value)
    {cs ds : List Child} (changed : mapLeftmostIn? f cs = some ds) : valuesIn ds = valuesIn cs := by
  induction cs using forest_induction generalizing ds with
  | nil => cases changed
  | token t rest =>
    cases changed
    simp [valuesIn, values, kept]
  | tree tag inner rest ih =>
    simp only [mapLeftmostIn?, mapLeftmost?, Option.map_map, Option.map_eq_some_iff] at changed
    obtain ⟨inner', changed, rfl⟩ := changed
    simp [valuesIn, values, ih changed]

end Child

namespace Tree

theorem valuesIn_of_relocated {t s : Tree} {line : Line}
    (relocated : t.mapFirstToken (fun token => { token with line }) = .ok s) :
    Child.valuesIn s.children = Child.valuesIn t.children := by
  unfold mapFirstToken at relocated
  split at relocated
  · rename_i changed
    cases relocated
    refine Child.valuesIn_of_mapLeftmostIn? ?_ changed
    exact fun _ => rfl
  · cases relocated

namespace Replaced

variable {old new : Child} {place : Place} {t t' : Tree} {value : String}

theorem mem_values_of_mem_old (r : Replaced old new place t t') (present : value ∈ old.values) :
    value ∈ Child.valuesIn t.children := by
  induction r with
  | root child => exact Child.mem_valuesIn_iff.2 ⟨_, List.mem_of_getElem? child, present⟩
  | under child _ ih => exact Child.mem_valuesIn_iff.2 ⟨_, List.mem_of_getElem? child, ih⟩

theorem mem_values_or_new (r : Replaced old new place t t')
    (present : value ∈ Child.valuesIn t'.children) :
    value ∈ Child.valuesIn t.children ∨ value ∈ new.values := by
  induction r with
  | root child =>
    obtain ⟨c, mem, within⟩ := Child.mem_valuesIn_iff.1 present
    rcases List.mem_or_eq_of_mem_set mem with mem | rfl
    · exact .inl (Child.mem_valuesIn_iff.2 ⟨c, mem, within⟩)
    · exact .inr within
  | under child _ ih =>
    obtain ⟨c, mem, within⟩ := Child.mem_valuesIn_iff.1 present
    rcases List.mem_or_eq_of_mem_set mem with mem | rfl
    · exact .inl (Child.mem_valuesIn_iff.2 ⟨c, mem, within⟩)
    · exact (ih within).imp_left fun before =>
        Child.mem_valuesIn_iff.2 ⟨_, List.mem_of_getElem? child, before⟩

end Replaced

end Tree

end ScriptFrontend
