import ComponentBinding.Proofs.Property.Under
import Mathlib.Data.List.Lex
import Mathlib.Tactic.SplitIfs

/-! Key order is byte order: a smaller character has a smaller UTF-8 code, whatever follows the two, so texts stand as
their bytes do. A scan in that order meets all the keys with a start one after the other. -/
namespace ComponentBinding

namespace Text

/-- The UTF-8 code of a text. -/
def bytes (text : String) : List UInt8 := text.toByteArray.data.toList

/-- The first byte in which two codes differ is smaller in the first one, or the first one ends there. -/
def CodeBefore (a b : List UInt8) : Prop := List.Lex (fun x y => x < y) a b

theorem bytes_eq_flatMap (text : String) : bytes text = text.toList.flatMap String.utf8EncodeChar := by
  rw [bytes, ← String.utf8Encode_toList, List.utf8Encode, List.data_toByteArray]

theorem codeBefore_cons_iff {m n : Nat} (hm : m < 256) (hn : n < 256) (a b : List UInt8) :
    CodeBefore (UInt8.ofNat m :: a) (UInt8.ofNat n :: b) ↔ m < n ∨ m = n ∧ CodeBefore a b := by
  rw [CodeBefore, List.cons_lex_cons_iff, UInt8.lt_iff_toNat_lt, ← UInt8.toNat_inj, UInt8.toNat_ofNat_of_lt' hm,
    UInt8.toNat_ofNat_of_lt' hn]
  rfl

/-- The code of a smaller character comes first, whatever follows the two. -/
theorem codeBefore_of_lt {c d : Char} (h : c < d) (a b : List UInt8) :
    CodeBefore (String.utf8EncodeChar c ++ a) (String.utf8EncodeChar d ++ b) := by
  have hlt : c.val.toNat < d.val.toNat := h
  have hbound : d.val.toNat < 0x110000 := by
    rcases d.valid with h | h
    · exact Nat.lt_trans h (by decide)
    · exact h.2
  -- the bytes are digits to the base 64, so the quotients are taken one digit at a time
  have hdigits (n : Nat) : n / 4096 = n / 64 / 64 ∧ n / 262144 = n / 64 / 64 / 64 := by
    simp only [Nat.div_div_eq_div_mul, Nat.reduceMul, and_self]
  simp only [String.utf8EncodeChar, (hdigits _).1, (hdigits _).2]
  split_ifs <;> simp (disch := omega) only [List.cons_append, List.nil_append, codeBefore_cons_iff] <;> omega

theorem codeBefore_flatMap {a b : List Char} (h : a < b) :
    CodeBefore (a.flatMap String.utf8EncodeChar) (b.flatMap String.utf8EncodeChar) := by
  induction h with
  | nil =>
    rename_i d b
    rw [List.flatMap_nil, List.flatMap_cons]
    obtain ⟨first, rest, hcode⟩ := List.exists_cons_of_ne_nil (String.utf8EncodeChar_ne_nil (c := d))
    rw [hcode]
    exact .nil
  | cons _ ih =>
    rw [List.flatMap_cons, List.flatMap_cons]
    exact ih.append_left _ _
  | rel hlt =>
    rw [List.flatMap_cons, List.flatMap_cons]
    exact codeBefore_of_lt hlt _ _

theorem lt_iff_codeBefore {a b : String} : a < b ↔ CodeBefore (bytes a) (bytes b) := by
  have hbefore {a b : String} (h : a < b) : CodeBefore (bytes a) (bytes b) := by
    rw [bytes_eq_flatMap, bytes_eq_flatMap]
    exact codeBefore_flatMap (String.lt_iff.mp h)
  refine ⟨hbefore, fun h => ?_⟩
  by_contra hnot
  by_cases hlt : b < a
  · exact List.lex_asymm (fun hxy hyx => UInt8.lt_asymm hxy hyx) h (hbefore hlt)
  · obtain rfl := String.le_antisymm (String.not_lt.mp hlt) (String.not_lt.mp hnot)
    exact List.lex_irrefl UInt8.lt_irrefl _ h

end Text

namespace Properties

variable {config : Properties}

/-- The keys stand in the order of their bytes, each of them once. -/
def ByteOrdered (entries : Properties) : Prop :=
  entries.Pairwise fun a b => Text.CodeBefore (Text.bytes a.1) (Text.bytes b.1)

theorem ordered_iff_byteOrdered : config.Ordered ↔ config.ByteOrdered := by
  simp only [Ordered, ByteOrdered, Text.lt_iff_codeBefore]

/-- In a map by the order of bytes the scan finds each entry whose key starts with `start` once, under the rest of its
key and in the order that they had, and finds nothing else; a scan of what a scan found does what a single one does for
both starts together. -/
theorem under_exact (h : config.ByteOrdered) :
    (∀ start, (config.under start).ByteOrdered ∧
      (∀ key value, (key, value) ∈ config.under start ↔ (start ++ key, value) ∈ config) ∧
      (config.under start).map (fun entry => (start ++ entry.1, entry.2)) =
        config.filter fun entry => start.toList.isPrefixOf entry.1.toList) ∧
    ∀ start next, (config.under start).under next = config.under (start ++ next) := by
  have ordered := ordered_iff_byteOrdered.mpr h
  refine ⟨fun start => ⟨?_, fun _ _ => mem_under_iff ordered, map_under ordered start⟩, under_under ordered⟩
  exact ordered_iff_byteOrdered.mp (ordered_under ordered start)

/-- The keys at index ten stand between those at index one and those at index two, and are not taken for either. -/
theorem under_exact_tenth_index :
    let config : Properties := [("a.1.x", .long 1), ("a.1.ü", .long 2), ("a.10.x", .long 3), ("a.2.x", .long 4)]
    config.ByteOrdered ∧ config.under "a.1." = [("x", .long 1), ("ü", .long 2)] ∧
    (config.under "a.").under "1." = config.under "a.1." := by
  intro config
  have ordered : config.ByteOrdered := ordered_iff_byteOrdered.mp (ordered_ofList config)
  exact ⟨ordered, rfl, (under_exact ordered).2 "a." "1."⟩

end Properties
end ComponentBinding
