import BuildBrowser.Proofs.Json.Written

/-!
# What was read is read back

A reader **rereads** if it reads back whatever it has read, from the text of the value that the result
is turned into (`Rereads`). Numbers that are kept as binary64 are left out. The law is stated of a
reader at one allowance and is made up as readers are: one for texts, one for numbers, one for any
value, and one for each way of making a reader from others. Nothing is asked of the bytes that were
read first, so a document may be laid out in any way.
-/

namespace BuildBrowser.Json

open Utf8

variable {α β σ : Type}

/-- What the reader has read it reads back from its text. -/
def Rereads (reader : Bytes → Outcome α) (toValue : α → Value) : Prop :=
  ∀ ⦃input : Bytes⦄ ⦃a : α⦄ ⦃rest : Bytes⦄, reader input = .ok (a, rest) → (toValue a).Integral →
    ReadsBack reader (toValue a) a

/-- A reader whose results stand for others rereads those. -/
theorem Rereads.map {reader : Bytes → Outcome α} {toValue : α → Value} (h : Rereads reader toValue)
    {f : α → β} {g : β → Value} (hg : ∀ a, g (f a) = toValue a) :
    Rereads (fun input => (reader input).map fun (a, rest) => (f a, rest)) g := by
  intro input b rest hread hint
  obtain ⟨⟨a, after⟩, ha, heq⟩ := map_ok.mp hread
  cases heq
  rw [hg] at hint ⊢
  exact (h ha hint).map f

/-! ## Single values -/

theorem rereads_value (n : Nat) : Rereads (value n) id := by
  intro input v rest hread hint
  obtain ⟨hdepth, hplain⟩ := depth_and_plain_of_value hread
  exact readsBack_value (hplain hint) hdepth

theorem readsBack_text (n : Nat) (s : String) : ReadsBack (text n) (.string s) s := by
  intro style _ depth input rest _ hinput
  rw [write, encode_writeString] at hinput
  simp [text, hinput, string_written]

theorem rereads_text (n : Nat) : Rereads (text n) .string :=
  fun _ s _ _ _ => readsBack_text n s

theorem readsBack_unsigned (n : Nat) (k : UInt64) : ReadsBack (unsigned n) (.number (.nat k)) k := by
  intro style _ depth input rest hrest hinput
  obtain ⟨b, bytes, hbytes, hb⟩ := encode_numeral k.toNat
  have hread := number_text k hrest
  rw [hbytes, List.cons_append] at hread
  rw [write, Number.text, hbytes, List.cons_append] at hinput
  unfold unsigned
  split
  · next heq =>
    rw [hinput] at heq
    exact absurd (List.cons.inj heq).1 (ne_of_isDigit hb rfl)
  · next heq =>
    rw [hinput] at heq
    obtain ⟨rfl, rfl⟩ := List.cons.inj heq
    rw [if_pos hb, hread, asUnsigned]
  · next heq =>
    rw [hinput] at heq
    cases heq

theorem rereads_unsigned (n : Nat) : Rereads (unsigned n) fun k => .number (.nat k) :=
  fun _ k _ _ _ => readsBack_unsigned n k

/-! ## Lists and objects -/

theorem readsBack_list {item : Decoder α} {n : Nat} {vs : List Value} {as : List α}
    (h : List.Forall₂ (ReadsBack (item n)) vs as) (hvs : IntegralItems vs) :
    ReadsBack (list item (n + 1)) (.array vs) as := by
  intro style hstyle depth input rest _ hinput
  rw [write_array, encode_ascii (by decide), List.cons_append] at hinput
  simp [list, hinput, items_written hstyle depth h hvs rest]

theorem readsBack_fold {wanted : Wanted} {member : (allowance : Nat) → σ → String → Bytes → Outcome σ}
    {s t : σ} {n : Nat} {ms : List (String × Value)} (h : Folds (member n) s ms t) :
    ReadsBack (fold wanted member s (n + 1)) (.object ms) t := by
  intro style hstyle depth input rest _ hinput
  rw [write_object, encode_ascii (by decide), List.cons_append] at hinput
  simp [fold, hinput, members_written hstyle depth h rest]

theorem rereads_list {item : Decoder α} {toValue : α → Value} (h : ∀ n, Rereads (item n) toValue)
    (n : Nat) : Rereads (list item n) fun as => .array (as.map toValue) := by
  intro input as rest hread hint
  obtain ⟨m, start, rfl, -, hitems⟩ := list_ok.mp hread
  refine readsBack_list ?_ hint
  rw [List.forall₂_map_left_iff, List.forall₂_same]
  intro a ha
  obtain ⟨start, after, hitem⟩ := forall_of_items hitems a ha
  exact h m hitem (integralItems_iff.mp hint _ (List.mem_map_of_mem ha))

theorem rereads_object {item : Decoder α} {toValue : α → Value} (h : ∀ n, Rereads (item n) toValue)
    (n : Nat) :
    Rereads (object item n) fun ms => .object (ms.map fun (name, a) => (name, toValue a)) := by
  intro input as rest hread hint
  obtain ⟨m, start, rfl, -, hmembers⟩ := fold_ok.mp hread
  obtain ⟨hdistinct, hkept⟩ := keepMember_members hmembers
  refine readsBack_fold (folds_keepMember ?_ hdistinct)
  rw [List.forall₂_map_left_iff, List.forall₂_same]
  intro member hmember
  have hvalue := integralMembers_iff.mp hint _ (List.mem_map_of_mem hmember)
  obtain ⟨start, after, hitem⟩ := hkept member hmember
  exact ⟨rfl, hvalue, h m hitem hvalue⟩

/-! ## Values that may be null -/

theorem readsBack_none {item : Decoder α} (n : Nat) : ReadsBack (nullable item n) .null none := by
  intro style _ depth input rest _ hinput
  have hinput : skipBlanks input = 0x6E :: 0x75 :: 0x6C :: 0x6C :: rest := by
    rw [hinput, write]
    rfl
  simp [nullable, hinput, word, nullTail, Except.map]

theorem ReadsBack.some {item : Decoder α} {n : Nat} {v : Value} {a : α} (h : ReadsBack (item n) v a)
    (hv : v.Integral) (hnull : v ≠ .null) : ReadsBack (nullable item n) v (some a) := by
  intro style hstyle depth input rest hrest hinput
  obtain ⟨b, bytes, hbytes, -, -, hb⟩ := encode_write style depth hv
  have hread := h hstyle depth hrest (skipBlanks_write style depth hv rest)
  rw [hbytes, List.cons_append] at hinput hread
  unfold nullable
  split
  · next heq =>
    rw [hinput] at heq
    exact absurd (hb (List.cons.inj heq).1) hnull
  · rw [hinput, hread]
    rfl

/-! ## Whole documents -/

/-- A value that is read back is read from a document that holds it alone. -/
theorem ReadsBack.read [Document α] {style : Style} (hstyle : style.Blank) {v : Value}
    (hv : v.Integral) {a : α} (h : ReadsBack (Document.decoder maxDepth) v a) :
    Json.read α (encode (write style 0 v)) = .ok a := by
  refine decode_ok.mpr ⟨[], h hstyle 0 stops_nil ?_, rfl⟩
  have hwrite := skipBlanks_write style 0 hv []
  rwa [List.append_nil] at hwrite ⊢

theorem utf8_compact (v : Value) : utf8 v.compact = encode (write .compact 0 v) := by
  rw [utf8, Value.compact, String.toList_ofList]

theorem utf8_pretty (v : Value) : utf8 v.pretty = encode (write .pretty 0 v) := by
  rw [utf8, Value.pretty, String.toList_ofList]

end BuildBrowser.Json
