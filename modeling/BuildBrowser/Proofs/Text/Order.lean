import BuildBrowser.Proofs.Text.Utf8

/-!
# The order of texts is that of their bytes

Strings are ordered by scalar values. UTF-8 was made so that their bytes are in the same order
(`inOrder_utf8`), although characters are written with one to four bytes.

The reason is in the first byte and in the order of the digits. More bytes start with a greater byte,
and of two characters that are written with as many bytes the bytes are the digits in base 64, the
highest first. So the greater character is greater at some byte that both have, and then it does not
matter what follows (`Below`).
-/

namespace BuildBrowser

/-- The order of a dictionary whose letters are bytes. -/
def Bytes.InOrder : Bytes → Bytes → Prop
  | [], _ => True
  | _ :: _, [] => False
  | a :: bytes, b :: others => a < b ∨ a = b ∧ InOrder bytes others

namespace Utf8

/-- Some bytes are below others whatever follows either. -/
def Below (bytes others : Bytes) : Prop :=
  ∀ rest more : Bytes, Bytes.InOrder (bytes ++ rest) (others ++ more)

theorem below_of_head {a b : UInt8} (h : a < b) (bytes others : Bytes) :
    Below (a :: bytes) (b :: others) :=
  fun _ _ => .inl h

theorem Below.cons {bytes others : Bytes} (h : Below bytes others) (b : UInt8) :
    Below (b :: bytes) (b :: others) :=
  fun rest more => .inr ⟨rfl, h rest more⟩

/-- The bytes that two texts start with do not count. -/
theorem inOrder_append (front : Bytes) {bytes others : Bytes} (h : Bytes.InOrder bytes others) :
    Bytes.InOrder (front ++ bytes) (front ++ others) := by
  induction front with
  | nil => exact h
  | cons b front ih => exact .inr ⟨rfl, ih⟩

/-- Bytes are ordered as their values. -/
theorem ofNat_lt_ofNat {m n : Nat} (h : m < n) (hn : n < 256) : UInt8.ofNat m < UInt8.ofNat n := by
  rw [UInt8.lt_iff_toNat_lt, UInt8.toNat_ofNat', UInt8.toNat_ofNat', Nat.mod_eq_of_lt hn,
    Nat.mod_eq_of_lt (Nat.lt_trans h hn)]
  exact h

/-- A digit that is not above another decides, unless they are the same. -/
theorem below_of_digit {m n : Nat} {bytes others : Bytes} (hmn : m ≤ n) (hn : n < 256)
    (h : m = n → Below bytes others) : Below (UInt8.ofNat m :: bytes) (UInt8.ofNat n :: others) := by
  rcases Nat.lt_or_eq_of_le hmn with hlt | rfl
  · exact below_of_head (ofNat_lt_ofNat hlt hn) bytes others
  · exact (h rfl).cons _

/-- **A smaller character is below a greater one**, whatever follows them. -/
theorem below_encodeChar {c d : Char} (h : c < d) :
    Below (String.utf8EncodeChar c) (String.utf8EncodeChar d) := by
  have hd : d.toNat < 0x110000 := by
    rcases d.valid with h | h
    · exact Nat.lt_trans h (by decide)
    · exact h.2
  have hcd : c.toNat < d.toNat := h
  unfold String.utf8EncodeChar
  simp only [show c.val.toNat = c.toNat from rfl, show d.val.toNat = d.toNat from rfl]
  generalize c.toNat = v at hcd
  generalize d.toNat = w at hcd hd
  -- as many bytes for both, or more for the greater one, and then its first byte is greater
  split
  · split
    · exact below_of_head (ofNat_lt_ofNat hcd (by omega)) _ _
    · split
      · exact below_of_head (ofNat_lt_ofNat (by omega) (by omega)) _ _
      · split <;> exact below_of_head (ofNat_lt_ofNat (by omega) (by omega)) _ _
  · rw [if_neg (show ¬w ≤ 0x7f by omega)]
    split
    · split
      · refine below_of_digit (by omega) (by omega) fun hhigh => ?_
        exact below_of_head (ofNat_lt_ofNat (by omega) (by omega)) _ _
      · split <;> exact below_of_head (ofNat_lt_ofNat (by omega) (by omega)) _ _
    · rw [if_neg (show ¬w ≤ 0x7ff by omega)]
      split
      · split
        · refine below_of_digit (by omega) (by omega) fun hhigh => ?_
          refine below_of_digit (by omega) (by omega) fun hmiddle => ?_
          exact below_of_head (ofNat_lt_ofNat (by omega) (by omega)) _ _
        · exact below_of_head (ofNat_lt_ofNat (by omega) (by omega)) _ _
      · rw [if_neg (show ¬w ≤ 0xffff by omega)]
        refine below_of_digit (by omega) (by omega) fun hhighest => ?_
        refine below_of_digit (by omega) (by omega) fun hhigh => ?_
        refine below_of_digit (by omega) (by omega) fun hmiddle => ?_
        exact below_of_head (ofNat_lt_ofNat (by omega) (by omega)) _ _

/-- A text that does not come after another one has bytes that do not. The induction is on both texts:
they agree on a character, or the order is decided there. -/
theorem inOrder_encode {text other : List Char} (h : ¬other < text) :
    Bytes.InOrder (encode text) (encode other) := by
  induction text generalizing other with
  | nil => trivial
  | cons c text ih =>
    cases other with
    | nil => exact absurd (List.nil_lt_cons c text) h
    | cons d other =>
      rw [List.cons_lt_cons_iff, not_or, not_and] at h
      rw [encode_cons, encode_cons]
      by_cases hcd : c = d
      · subst hcd
        exact inOrder_append _ (ih (h.2 rfl))
      · have hle : c ≤ d := Char.not_lt.mp h.1
        have hlt : c < d := Char.not_le.mp fun hge => hcd (Char.le_antisymm hle hge)
        exact below_encodeChar hlt _ _

end Utf8

/-- **Strings in order have bytes in order.** -/
theorem inOrder_utf8 {s t : String} (h : s ≤ t) : Bytes.InOrder (utf8 s) (utf8 t) :=
  Utf8.inOrder_encode (mt String.lt_iff.mpr (String.not_lt.mpr h))

end BuildBrowser
