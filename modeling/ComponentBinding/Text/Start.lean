/-! The start of a text, compared character by character. -/
namespace ComponentBinding.Text

/-- What follows `start` in a text that starts with it. -/
def after? (start text : String) : Option String :=
  (start.toList.isPrefixOf? text.toList).map String.ofList

private theorem isPrefixOf?_nil (text : List Char) : [].isPrefixOf? text = some text := rfl

private theorem isPrefixOf?_cons_nil (c : Char) (start : List Char) : (c :: start).isPrefixOf? [] = none := rfl

private theorem isPrefixOf?_cons_cons (c d : Char) (start text : List Char) :
    (c :: start).isPrefixOf? (d :: text) = if c == d then start.isPrefixOf? text else none := rfl

private theorem isPrefixOf?_eq_some_iff (start text rest : List Char) :
    start.isPrefixOf? text = some rest ↔ text = start ++ rest := by
  induction start generalizing text with
  | nil => simp [isPrefixOf?_nil]
  | cons c start ih =>
    cases text with
    | nil => simp [isPrefixOf?_cons_nil]
    | cons d text =>
      by_cases h : c = d
      · simp [isPrefixOf?_cons_cons, h, ih]
      · simp [isPrefixOf?_cons_cons, h, Ne.symm h]

theorem after?_eq_some_iff {start text rest : String} :
    after? start text = some rest ↔ text = start ++ rest := by
  rw [after?, Option.map_eq_some_iff, ← String.toList_inj, String.toList_append]
  constructor
  · rintro ⟨_, h, rfl⟩
    rwa [String.toList_ofList, ← isPrefixOf?_eq_some_iff]
  · intro h
    exact ⟨rest.toList, (isPrefixOf?_eq_some_iff ..).2 h, String.ofList_toList⟩

end ComponentBinding.Text
