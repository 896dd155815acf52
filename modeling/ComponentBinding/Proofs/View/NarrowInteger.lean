import ComponentBinding.Proofs.View.IntegerText
import ComponentBinding.Proofs.View.TextForm

/-! Integers for the kinds of fewer than 64 bits. Text is read with 64 bits first: integer text beyond them that is
still taken gives the least 64-bit integer, which no narrower kind has room for, so just the text in the range of the
kind is left. A number is not checked and keeps its low bits. -/
namespace ComponentBinding

/-- The integer is one of so many bits. -/
def InBits (bits : Nat) (n : Int) : Prop := -2 ^ (bits - 1) ≤ n ∧ n < 2 ^ (bits - 1)

instance (bits : Nat) (n : Int) : Decidable (InBits bits n) := inferInstanceAs (Decidable (_ ∧ _))

theorem inBits_bmod {bits : Nat} (h : 0 < bits) (n : Int) : InBits bits (n.bmod (2 ^ bits)) := by
  obtain ⟨high, rfl⟩ := Nat.exists_eq_add_of_lt h
  have hlow := Int.le_bmod (x := n) (Nat.two_pow_pos (0 + high + 1))
  have hhigh := Int.bmod_lt (x := n) (Nat.two_pow_pos (0 + high + 1))
  generalize n.bmod (2 ^ (0 + high + 1)) = k at hlow hhigh ⊢
  push_cast [Nat.zero_add, pow_succ] at hlow hhigh
  rw [InBits, Nat.zero_add, Nat.add_sub_cancel]
  omega

theorem InBits.bmod_eq {bits : Nat} {n : Int} (hbits : 0 < bits) (h : InBits bits n) : n.bmod (2 ^ bits) = n := by
  obtain ⟨high, rfl⟩ := Nat.exists_eq_add_of_lt hbits
  obtain ⟨hlow, hhigh⟩ := h
  simp only [Nat.zero_add, Nat.add_sub_cancel] at hlow hhigh ⊢
  apply Int.bmod_eq_of_le_mul_two
  all_goals
    push_cast [pow_succ]
    omega

/-- The width and the integer of a value of a narrow kind. -/
def ViewValue.narrow? : ViewValue → Option (Nat × Int)
  | .byte value => some (8, value.toInt)
  | .short value => some (16, value.toInt)
  | .int value => some (32, value.toInt)
  | _ => none

theorem ViewValue.narrow?_inj {value value' : ViewValue} {bits : Nat} {n : Int}
    (h : value.narrow? = some (bits, n)) (h' : value'.narrow? = some (bits, n)) : value = value' := by
  cases value with
  | byte v =>
    cases h
    cases value' with
    | byte v' => rw [Int8.toInt_inj.mp (congrArg Prod.snd (Option.some.inj h'))]
    | _ => cases h'
  | short v =>
    cases h
    cases value' with
    | short v' => rw [Int16.toInt_inj.mp (congrArg Prod.snd (Option.some.inj h'))]
    | _ => cases h'
  | int v =>
    cases h
    cases value' with
    | int v' => rw [Int32.toInt_inj.mp (congrArg Prod.snd (Option.some.inj h'))]
    | _ => cases h'
  | _ => cases h

namespace IntegerText

variable (t : IntegerText)

/-- Of the text within 64 bits that in the narrower range is taken, and none of the text beyond. -/
theorem toNarrow?_text {α : Type} {bits : Nat} {lo hi : Int} (narrow : Int64 → α) (hbits : bits < 64)
    (hlo : lo = -2 ^ (bits - 1)) (hhi : hi + 1 = 2 ^ (bits - 1)) :
    (Property.string t.text).toNarrow? lo hi narrow =
      if InBits bits t.value then some (narrow (.ofInt t.value)) else none := by
  have hmin : Int64.minValue.toInt = -2 ^ 63 := by decide
  have hmax : Int64.maxValue.toInt = 2 ^ 63 - 1 := by decide
  have hpow : (2 : Int) ^ (bits - 1) < 2 ^ 63 := pow_lt_pow_right₀ (by decide) (by omega)
  have hbounds : (decide (lo ≤ t.value) && decide (t.value ≤ hi)) = decide (InBits bits t.value) := by
    rw [← Bool.decide_and, decide_eq_decide, InBits]
    omega
  rw [Property.toNarrow?, t.readInt64?_text]
  by_cases hrange : t.InRange
  · have hvalue : (Int64.ofInt t.value).toInt = t.value :=
      Int64.toInt_ofInt_of_le hrange.1 (Int.lt_of_le_of_lt hrange.2 (by decide))
    rw [if_pos hrange, Option.filter_some, hvalue, hbounds]
    by_cases hfits : InBits bits t.value <;> simp [hfits]
  · have hfits : ¬InBits bits t.value := by
      unfold InRange at hrange
      unfold InBits
      omega
    rw [if_neg hrange, if_neg hfits]
    split
    · -- the text rounds to the least 64-bit integer
      have hleast : ¬lo ≤ Int64.minValue.toInt := by omega
      rw [Option.filter_some, decide_eq_false hleast]
      rfl
    · rfl

end IntegerText

namespace Kind

/-- The width of an integer kind of fewer than 64 bits. -/
def narrowBits? : Kind → Option Nat
  | .byte => some 8
  | .short => some 16
  | .int => some 32
  | _ => none

/-- The value of a narrow kind that has the low bits of an integer. -/
def lowBits? (n : Int) : Kind → Option ViewValue
  | .byte => some (.byte (.ofInt n))
  | .short => some (.short (.ofInt n))
  | .int => some (.int (.ofInt n))
  | _ => none

section Narrow

variable {kind : Kind} {bits : Nat} (h : kind.narrowBits? = some bits)
include h

theorem narrowBits_pos : 0 < bits := by
  cases kind with
  | byte | short | int =>
    cases h
    decide
  | _ => cases h

theorem exists_lowBits (n : Int) :
    ∃ result, kind.lowBits? n = some result ∧ result.narrow? = some (bits, n.bmod (2 ^ bits)) := by
  cases kind with
  | byte =>
    cases h
    exact ⟨_, rfl, congrArg (fun k => some (8, k)) Int8.toInt_ofInt⟩
  | short =>
    cases h
    exact ⟨_, rfl, congrArg (fun k => some (16, k)) Int16.toInt_ofInt⟩
  | int =>
    cases h
    exact ⟨_, rfl, congrArg (fun k => some (32, k)) Int32.toInt_ofInt⟩
  | _ => cases h

theorem convert?_narrow_text (t : IntegerText) :
    kind.convert? (.string t.text) = if InBits bits t.value then kind.lowBits? t.value else none := by
  cases kind with
  | byte =>
    cases h
    rw [convert?, t.toNarrow?_text _ (by decide : 8 < 64) (by decide) (by decide), Int64.toInt8_ofInt]
    split <;> rfl
  | short =>
    cases h
    rw [convert?, t.toNarrow?_text _ (by decide : 16 < 64) (by decide) (by decide), Int64.toInt16_ofInt]
    split <;> rfl
  | int =>
    cases h
    rw [convert?, t.toNarrow?_text _ (by decide : 32 < 64) (by decide) (by decide), Int64.toInt32_ofInt]
    split <;> rfl
  | _ => cases h

theorem convert?_narrow_integer {value : Property} {n : Int} (hn : value.integer? = some n) :
    kind.convert? value = kind.lowBits? n := by
  have hnarrow {α : Type} (lo hi : Int) (narrow : Int64 → α) :
      value.toNarrow? lo hi narrow = some (narrow (.ofInt n)) := by
    rw [Property.toNarrow?_of_isNumeric lo hi narrow (Property.isNumeric_of_integer hn),
      Property.int64?_of_integer hn, Option.map_some]
  cases kind with
  | byte => rw [convert?, hnarrow, Int64.toInt8_ofInt, Option.map_some, lowBits?]
  | short => rw [convert?, hnarrow, Int64.toInt16_ofInt, Option.map_some, lowBits?]
  | int => rw [convert?, hnarrow, Int64.toInt32_ofInt, Option.map_some, lowBits?]
  | _ => cases h

theorem isPlain_of_narrowBits : kind.isPlain = true := by
  cases kind with
  | type | enum | view => cases h
  | _ => rfl

theorem coerce_narrow_text_iff (resolver : TypeResolver) (t : IntegerText) {result : ViewValue} :
    kind.coerce resolver (.string t.text) = .ok result ↔
      InBits bits t.value ∧ result.narrow? = some (bits, t.value) := by
  obtain ⟨low, hlow, hnarrow⟩ := exists_lowBits h t.value
  rw [coerce_text_eq_ok_iff resolver (isPlain_of_narrowBits h), convert?_narrow_text h, hlow]
  by_cases hbits : InBits bits t.value
  · rw [hbits.bmod_eq (narrowBits_pos h)] at hnarrow
    rw [if_pos hbits, Option.some_inj]
    constructor
    · rintro rfl
      exact ⟨hbits, hnarrow⟩
    · exact fun hresult => ViewValue.narrow?_inj hnarrow hresult.2
  · simp [hbits]

theorem exists_coerce_narrow_integer (resolver : TypeResolver) {value : Property} {n : Int}
    (hn : value.integer? = some n) :
    ∃ result k, kind.coerce resolver value = .ok result ∧ result.narrow? = some (bits, k) ∧
      InBits bits k ∧ (2 ^ bits : Int) ∣ k - n := by
  obtain ⟨low, hlow, hnarrow⟩ := exists_lowBits h n
  refine ⟨low, n.bmod (2 ^ bits), ?_, hnarrow, inBits_bmod (narrowBits_pos h) n, ?_⟩
  · rw [coerce_of_integer resolver kind hn, coerceScalar_eq_ok_iff resolver (isPlain_of_narrowBits h),
      convert?_narrow_integer h hn, hlow]
  · exact_mod_cast Int.dvd_bmod_sub_self (x := n) (m := 2 ^ bits)

end Narrow

/-- Integer text for a kind of so many bits is taken exactly if its integer fits them, and then gives that integer,
however many digits it has. An integer number of any width is always taken, and gives the integer in the range of the
kind that differs from it by a multiple of two to the power of the width. -/
theorem coerce_narrow_iff {kind : Kind} {bits : Nat} (h : kind.narrowBits? = some bits) (resolver : TypeResolver) :
    (∀ (t : IntegerText) (result : ViewValue), kind.coerce resolver (.string t.text) = .ok result ↔
      InBits bits t.value ∧ result.narrow? = some (bits, t.value)) ∧
    (∀ t : IntegerText, (∃ result, kind.coerce resolver (.string t.text) = .ok result) ↔ InBits bits t.value) ∧
    ∀ (value : Property) (n : Int), value.integer? = some n →
      ∃ result k, kind.coerce resolver value = .ok result ∧ result.narrow? = some (bits, k) ∧
        InBits bits k ∧ (2 ^ bits : Int) ∣ k - n := by
  refine ⟨fun t result => coerce_narrow_text_iff h resolver t, fun t => ⟨?_, fun hbits => ?_⟩,
    fun value n => exists_coerce_narrow_integer h resolver⟩
  · rintro ⟨result, hresult⟩
    exact ((coerce_narrow_text_iff h resolver t).mp hresult).1
  · obtain ⟨low, _, hnarrow⟩ := exists_lowBits h t.value
    rw [hbits.bmod_eq (narrowBits_pos h)] at hnarrow
    exact ⟨low, (coerce_narrow_text_iff h resolver t).mpr ⟨hbits, hnarrow⟩⟩

/-- The greatest integer of 16 bits is taken from its text, text that rounds to the least of 64 bits is refused, and a
number beyond the range is wrapped. -/
theorem coerce_narrow_iff_short :
    let resolver : TypeResolver := .known []
    let greatest : IntegerText := ⟨[' '], some .plus, "00032767".toList, [],
      List.all_eq_true.mp (by decide), by decide, List.all_eq_true.mp (by decide), List.forall_mem_nil _⟩
    let beyond : IntegerText := ⟨[], some .minus, "9223372036854775809".toList, [],
      List.forall_mem_nil _, by decide, List.all_eq_true.mp (by decide), List.forall_mem_nil _⟩
    Kind.short.narrowBits? = some 16 ∧ greatest.text = " +00032767" ∧
    Kind.short.coerce resolver (.string greatest.text) = .ok (.short 32767) ∧
    beyond.RoundsToLeast ∧ (¬∃ result, Kind.short.coerce resolver (.string beyond.text) = .ok result) ∧
    (Property.int 70000).integer? = some 70000 ∧
    ∃ k, Kind.short.coerce resolver (.int 70000) = .ok (.short 4464) ∧
      ViewValue.narrow? (.short 4464) = some (16, k) ∧ InBits 16 k ∧ (2 ^ 16 : Int) ∣ k - 70000 := by
  intro resolver greatest beyond
  have hshort : Kind.short.narrowBits? = some 16 := rfl
  obtain ⟨htext, htaken, hnumber⟩ := coerce_narrow_iff hshort resolver
  have hgreatest : InBits 16 greatest.value := by decide
  have hbeyond : ¬InBits 16 beyond.value := by decide
  have hwrapped : Kind.short.coerce resolver (.int 70000) = .ok (.short 4464) := rfl
  obtain ⟨result, k, hresult, hk⟩ := hnumber (.int 70000) 70000 rfl
  cases hwrapped.symm.trans hresult
  exact ⟨hshort, by decide, (htext greatest (.short 32767)).mpr ⟨hgreatest, by decide⟩, by decide,
    fun htake => hbeyond ((htaken beyond).mp htake), rfl, k, hwrapped, hk⟩

end Kind
end ComponentBinding
