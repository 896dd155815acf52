import ComponentBinding.Json.Reader
import ComponentBinding.Proofs.Json.Sorted

/-! The documents that texts hold. No step of the reader makes an integer of more than 64 bits or repeats a key
in an object, so a document that was read has neither. What holds of a document holds of its parts as they are
read: of the tokens, and of the containers that are still open. -/
namespace ComponentBinding.Json

/-- An integer, if it is one, that 64 bits hold, with a sign or without. -/
def InRange : Json → Prop
  | .int value => Int64.minValue.toInt ≤ value ∧ value < UInt64.size
  | _ => True

/-- A document as the reader makes it, but for the documents in it. -/
def Readable (json : Json) : Prop := json.InRange ∧ json.KeysDistinct

theorem everyItem_iff {P : Json → Prop} {items : List Json} :
    EveryItem P items ↔ ∀ item ∈ items, item.Everywhere P := by
  induction items with
  | nil => simp [EveryItem]
  | cons item items ih => simp [EveryItem, ih]

theorem everyField_iff {P : Json → Prop} {fields : List (String × Json)} :
    EveryField P fields ↔ ∀ field ∈ fields, field.2.Everywhere P := by
  induction fields with
  | nil => simp [EveryField]
  | cons field fields ih => simp [EveryField, ih]

theorem everywhere_array {items : List Json} :
    (Json.array items).Everywhere Readable ↔ ∀ item ∈ items, item.Everywhere Readable := by
  simp [Everywhere, Readable, InRange, KeysDistinct, everyItem_iff]

theorem everywhere_object {fields : List (String × Json)} :
    (Json.object fields).Everywhere Readable ↔
      (fields.map Prod.fst).Nodup ∧ ∀ field ∈ fields, field.2.Everywhere Readable := by
  simp [Everywhere, Readable, InRange, KeysDistinct, everyField_iff]

@[simp] theorem readable_string (text : String) : (Json.string text).Everywhere Readable := ⟨trivial, trivial⟩

theorem readable_ofFloat? {x : Binary64} {json : Json} (h : ofFloat? x = some json) : json.Everywhere Readable := by
  unfold ofFloat? at h
  split at h
  · cases h
    exact ⟨trivial, trivial⟩
  · cases h

theorem readable_ofInt? {value : Int} {json : Json} (h : ofInt? value = some json) : json.Everywhere Readable := by
  unfold ofInt? at h
  split at h
  next hrange =>
    cases h
    rw [Bool.and_eq_true, decide_eq_true_iff, decide_eq_true_iff] at hrange
    exact ⟨hrange, trivial⟩
  next => exact readable_ofFloat? h

theorem readable_readNumber? {text : List Char} {json : Json} (h : readNumber? text = some json) :
    json.Everywhere Readable := by
  obtain ⟨-, h⟩ := Option.ite_none_left_eq_some.mp h
  split at h
  · exact readable_ofFloat? h
  split at h
  · exact readable_ofInt? h
  · obtain ⟨decimal, -, hdecimal⟩ := Option.bind_eq_some_iff.mp h
    exact readable_ofFloat? hdecimal

theorem readable_readWord? {text : List Char} {json : Json} (h : readWord? text = some json) :
    json.Everywhere Readable := by
  unfold readWord? at h
  split at h
  case h_4 => exact readable_readNumber? h
  all_goals
    cases h
    exact ⟨trivial, trivial⟩

/-! Tokens -/

def Token.Readable : Token → Prop
  | .literal value => value.Everywhere Json.Readable
  | _ => True

theorem readable_endWord {tokens tokens' : List Token} {text : List Char}
    (htokens : ∀ token ∈ tokens, token.Readable) (h : endWord tokens text = some tokens') :
    ∀ token ∈ tokens', token.Readable := by
  obtain ⟨value, hvalue, rfl⟩ := Option.map_eq_some_iff.mp h
  exact List.forall_mem_cons.mpr ⟨readable_readWord? hvalue, htokens⟩

/-- Outside words a token is a sign or a text, neither of which holds a number. -/
theorem readable_scanGap {tokens : List Token} {c : Char} {state : List Token × Scan}
    (htokens : ∀ token ∈ tokens, token.Readable) (h : scanGap tokens c = some state) :
    ∀ token ∈ state.1, token.Readable := by
  unfold scanGap at h
  split at h
  case h_8 =>
    split at h
    · cases h
      exact htokens
    split at h
    · cases h
      exact htokens
    · cases h
  case h_7 =>
    cases h
    exact htokens
  all_goals
    cases h
    exact List.forall_mem_cons.mpr ⟨trivial, htokens⟩

theorem scanCode_tokens {tokens : List Token} {text : List Char} {high : Option Nat} {value : Nat}
    {state : List Token × Scan} (h : scanCode tokens text high value = some state) : state.1 = tokens := by
  cases high <;> grind [scanCode]

/-- One character ends a word, ends a text or is outside both, or else it adds no token. -/
theorem readable_scanChar {tokens : List Token} {scan : Scan} {c : Char} {state : List Token × Scan}
    (htokens : ∀ token ∈ tokens, token.Readable) (h : scanChar (tokens, scan) c = some state) :
    ∀ token ∈ state.1, token.Readable := by
  cases scan with
  | gap => exact readable_scanGap htokens h
  | word text =>
    rw [scanChar] at h
    split at h
    · cases h
      exact htokens
    · obtain ⟨ended, hended, hgap⟩ := Option.bind_eq_some_iff.mp h
      exact readable_scanGap (readable_endWord htokens hended) hgap
  | quoted text =>
    rw [scanChar] at h
    split at h
    · cases h
      exact List.forall_mem_cons.mpr ⟨trivial, htokens⟩
    · grind
  | escape text =>
    rw [scanChar] at h
    split at h
    · cases h
      exact htokens
    · obtain ⟨value, -, rfl⟩ := Option.map_eq_some_iff.mp h
      exact htokens
  | code text high digits value =>
    obtain ⟨digit, -, hdigit⟩ := Option.bind_eq_some_iff.mp h
    split at hdigit
    · rwa [scanCode_tokens hdigit]
    · cases hdigit
      exact htokens
  | low text high slash => grind [scanChar]

/-- What each step of a fold keeps holds at its end. -/
theorem foldlM_induction {σ α : Type} {step : σ → α → Option σ} (Holds : σ → Prop) {items : List α}
    (hstep : ∀ s s', ∀ item ∈ items, Holds s → step s item = some s' → Holds s') {s s' : σ} (hs : Holds s)
    (h : items.foldlM step s = some s') : Holds s' := by
  induction items generalizing s with
  | nil =>
    cases h
    exact hs
  | cons item items ih =>
    obtain ⟨next, hnext, hrest⟩ := Option.bind_eq_some_iff.mp h
    apply ih
    · rintro s s' item hitem
      exact hstep s s' item (.tail _ hitem)
    · exact hstep _ _ item (.head _) hs hnext
    · exact hrest

theorem readable_tokens? {text : List Char} {tokens : List Token} (h : tokens? text = some tokens) :
    ∀ token ∈ tokens, token.Readable := by
  obtain ⟨⟨scanned, scan⟩, hscan, hend⟩ := Option.bind_eq_some_iff.mp h
  have hscanned : ∀ token ∈ scanned, token.Readable := by
    refine foldlM_induction (fun state => ∀ token ∈ state.1, token.Readable) ?_ ?_ hscan
    · rintro ⟨before, scan⟩ state c - hbefore hstep
      exact readable_scanChar hbefore hstep
    · exact List.forall_mem_nil _
  cases scan with
  | gap =>
    cases hend
    simpa using hscanned
  | word rest =>
    obtain ⟨ended, hended, rfl⟩ := Option.map_eq_some_iff.mp hend
    simpa using readable_endWord hscanned hended
  | quoted | escape | code | low => cases hend

/-! Documents -/

def Frame.Readable : Frame → Prop
  | .array items => (Json.array items).Everywhere Json.Readable
  | .object fields _ => (Json.object fields).Everywhere Json.Readable

def Expect.Readable : Expect → Prop
  | .afterValue json => json.Everywhere Json.Readable
  | .key fields | .colon fields _ => (Json.object fields).Everywhere Json.Readable
  | _ => True

/-- What has been read of a document. -/
def ReadableSoFar (state : List Frame × Expect) : Prop := (∀ frame ∈ state.1, frame.Readable) ∧ state.2.Readable

theorem readable_empty : (Json.array []).Everywhere Readable ∧ (Json.object []).Everywhere Readable := by
  simp [everywhere_array, everywhere_object]

theorem readable_cons {items : List Json} {value : Json} (hvalue : value.Everywhere Readable)
    (hitems : (Json.array items).Everywhere Readable) : (Json.array (value :: items)).Everywhere Readable :=
  everywhere_array.mpr (List.forall_mem_cons.mpr ⟨hvalue, everywhere_array.mp hitems⟩)

theorem readable_addField {fields : List (String × Json)} {key : String} {value : Json}
    (hfields : (Json.object fields).Everywhere Readable) (hvalue : value.Everywhere Readable) :
    (Json.object (addField fields key value)).Everywhere Readable := by
  rw [everywhere_object] at hfields ⊢
  obtain ⟨hkeys, hfields⟩ := hfields
  refine ⟨List.nodup_cons.mpr ⟨?_, ?_⟩, List.forall_mem_cons.mpr ⟨hvalue, ?_⟩⟩
  · simp
  · exact hkeys.sublist (List.filter_sublist.map Prod.fst)
  · intro field hfield
    exact hfields field (List.mem_filter.mp hfield).1

/-! The parts of an open container are held in reverse. -/

theorem readable_array_reverse {items : List Json} (h : (Json.array items).Everywhere Readable) :
    (Json.array items.reverse).Everywhere Readable := by
  simpa [everywhere_array] using h

theorem readable_object_reverse {fields : List (String × Json)} (h : (Json.object fields).Everywhere Readable) :
    (Json.object fields.reverse).Everywhere Readable := by
  rw [everywhere_object] at h ⊢
  rw [((List.reverse_perm fields).map Prod.fst).nodup_iff]
  simpa using h

theorem readable_expectValue {stack : List Frame} {token : Token} {state : List Frame × Expect}
    (hstack : ∀ frame ∈ stack, frame.Readable) (htoken : token.Readable) (h : expectValue stack token = some state) :
    ReadableSoFar state := by
  unfold expectValue at h
  split at h <;> cases h
  case h_1 => exact ⟨hstack, trivial, trivial⟩
  case h_2 => exact ⟨hstack, htoken⟩
  all_goals exact ⟨hstack, trivial⟩

/-- A token starts a value, or it ends one and puts it into the container around it. -/
theorem readable_readToken {state state' : List Frame × Expect} {token : Token} (hstate : ReadableSoFar state)
    (htoken : token.Readable) (h : readToken state token = some state') : ReadableSoFar state' := by
  unfold readToken at h
  split at h
  all_goals obtain ⟨hstack, hexpect⟩ := hstate
  -- a value
  case h_1 stack token => exact readable_expectValue hstack htoken h
  -- a container's first part, or its end
  case h_2 stack =>
    cases h
    exact ⟨hstack, readable_empty.1⟩
  case h_3 stack token _ =>
    have hopen : (Frame.array []).Readable := readable_empty.1
    exact readable_expectValue (List.forall_mem_cons.mpr ⟨hopen, hstack⟩) htoken h
  case h_8 stack =>
    cases h
    exact ⟨hstack, readable_empty.2⟩
  case h_9 stack key =>
    cases h
    exact ⟨hstack, readable_empty.2⟩
  -- after a value of an array
  case h_4 items stack value =>
    cases h
    obtain ⟨hitems, hstack⟩ := List.forall_mem_cons.mp hstack
    have hopen : (Frame.array (value :: items)).Readable := readable_cons hexpect hitems
    exact ⟨List.forall_mem_cons.mpr ⟨hopen, hstack⟩, trivial⟩
  case h_5 items stack value =>
    cases h
    obtain ⟨hitems, hstack⟩ := List.forall_mem_cons.mp hstack
    exact ⟨hstack, readable_array_reverse (readable_cons hexpect hitems)⟩
  -- after a value of an object
  case h_6 fields key stack value =>
    cases h
    obtain ⟨hfields, hstack⟩ := List.forall_mem_cons.mp hstack
    exact ⟨hstack, readable_addField hfields hexpect⟩
  case h_7 fields key stack value =>
    cases h
    obtain ⟨hfields, hstack⟩ := List.forall_mem_cons.mp hstack
    exact ⟨hstack, readable_object_reverse (readable_addField hfields hexpect)⟩
  -- a key, and the colon after it
  case h_10 stack fields key =>
    cases h
    exact ⟨hstack, hexpect⟩
  case h_11 stack fields key =>
    cases h
    have hopen : (Frame.object fields key).Readable := hexpect
    exact ⟨List.forall_mem_cons.mpr ⟨hopen, hstack⟩, trivial⟩
  case h_12 => cases h

/-- A text holds no integer of more than 64 bits and no object with a key twice, at any depth. -/
theorem readable_read? {text : String} {json : Json} (h : read? text = some json) : json.Everywhere Readable := by
  obtain ⟨⟨stack, expect⟩, hread, hend⟩ := Option.bind_eq_some_iff.mp h
  obtain ⟨tokens, htokens, hfold⟩ := Option.bind_eq_some_iff.mp hread
  have hstart : ReadableSoFar ([], .value) := ⟨List.forall_mem_nil _, trivial⟩
  have hsofar : ReadableSoFar (stack, expect) := by
    refine foldlM_induction ReadableSoFar ?_ hstart hfold
    intro state state' token htoken hstate hstep
    exact readable_readToken hstate (readable_tokens? htokens token htoken) hstep
  split at hend
  next heq =>
    cases hend
    cases heq
    exact hsofar.2
  next => cases hend

end ComponentBinding.Json
