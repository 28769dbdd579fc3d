import KeyLayout.KeyCode
import KeyLayout.Proofs.Text.Plain

namespace KeyLayout.KeyCode

/-! A code that a label stands for has that label. -/

variable {label : Text} {code : KeyCode}

theorem exists_of_ofLabel? (hlabel : ofLabel? label = some code) :
    ∃ index : Nat, code = .ofNat index ∧ labels[index]? = some label := by
  obtain ⟨index, hfound, rfl⟩ := Option.map_eq_some_iff.mp hlabel
  obtain ⟨hindex, heq, -⟩ := Array.findIdx?_eq_some_iff_getElem.mp hfound
  exact ⟨index, rfl, Array.getElem?_eq_some_iff.mpr ⟨hindex, eq_of_beq heq⟩⟩

theorem label_of_ofLabel? (hlabel : ofLabel? label = some code) : code.label = label := by
  obtain ⟨index, rfl, hindex⟩ := exists_of_ofLabel? hlabel
  rw [KeyCode.label, ownLabel?, hindex]
  rfl

theorem plain_of_ofLabel? (hlabel : ofLabel? label = some code) : label.Plain := by
  obtain ⟨index, -, hindex⟩ := exists_of_ofLabel? hlabel
  obtain ⟨string, -, rfl⟩ := Array.mem_map.mp (Array.mem_of_getElem? hindex)
  exact Text.plain_ofString string

end KeyLayout.KeyCode
