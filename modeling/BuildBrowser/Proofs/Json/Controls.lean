import BuildBrowser.Json.Writer
import BuildBrowser.Proofs.Json.Numeral

/-!
# Written values hold no control characters

Strings are escaped and all other tokens are made of ASCII that prints, so the only characters of a
written value below the space are those that its style puts between the tokens: none in the compact
style, and line feeds in the pretty one. This holds of every value, numbers that are kept as binary64
among them.

`forall_mem_write` is stated for any property that the characters from the space on have, and is an
induction on the value.
-/

namespace BuildBrowser

open Json

/-! ## Tokens -/

theorem Decimal.forall_mem_numeral (n : Nat) : ∀ c ∈ Nat.toDigits 10 n, 0x20 ≤ c.toNat := by
  intro c hc
  have hbounds := toNat_of_isDigit (isDigit_of_mem_numeral hc)
  omega

/-- A decimal is digits, a point, a sign and the letter of its exponent. -/
theorem Decimal.Layout.forall_mem_text (layout : Layout) (s : Scaled) :
    ∀ c ∈ layout.text s, 0x20 ≤ c.toNat := by
  have hdigits := forall_mem_numeral
  have htake (n k : Nat) : ∀ c ∈ (Nat.toDigits 10 n).take k, 0x20 ≤ c.toNat :=
    fun c hc => hdigits n c (List.mem_of_mem_take hc)
  have hdrop (n k : Nat) : ∀ c ∈ (Nat.toDigits 10 n).drop k, 0x20 ≤ c.toNat :=
    fun c hc => hdigits n c (List.mem_of_mem_drop hc)
  have hzeros (k : Nat) : ∀ c ∈ List.replicate k '0', 0x20 ≤ c.toNat := by
    intro c hc
    rw [List.eq_of_mem_replicate hc]
    decide
  unfold text
  dsimp only
  split
  · split
    · simp only [List.forall_mem_append, List.forall_mem_cons]
      exact ⟨⟨hdigits _, hzeros _⟩, by decide, by decide, nofun⟩
    · split
      · simp only [List.forall_mem_append, List.forall_mem_cons]
        exact ⟨htake _ _, by decide, hdrop _ _⟩
      · simp only [List.cons_append, List.forall_mem_append, List.forall_mem_cons]
        exact ⟨by decide, by decide, hzeros _, hdigits _⟩
  · simp only [List.forall_mem_append, List.forall_mem_cons]
    refine ⟨⟨htake _ _, ?_⟩, by decide, ?_, hdigits _⟩
    · split
      · exact List.forall_mem_cons.mpr ⟨by decide, hdrop _ _⟩
      · nofun
    · split <;> decide

namespace Json

theorem forall_mem_numberText (n : Number) : ∀ c ∈ n.text, 0x20 ≤ c.toNat := by
  cases n with
  | nat n => exact Decimal.forall_mem_numeral _
  | negSucc n => exact List.forall_mem_cons.mpr ⟨by decide, Decimal.forall_mem_numeral _⟩
  | binary64 bits =>
    show ∀ c ∈ floatText bits, 0x20 ≤ c.toNat
    unfold floatText
    split
    · exact List.forall_mem_cons.mpr ⟨by decide, Decimal.Layout.forall_mem_text _ _⟩
    · exact Decimal.Layout.forall_mem_text _ _

theorem toNat_hexDigit : ∀ n < 16, 0x20 ≤ (hexDigit n).toNat := by decide

/-- A control character is written as an escape, which has none. -/
theorem forall_mem_escapeChar (c : Char) : ∀ d ∈ escapeChar c, 0x20 ≤ d.toNat := by
  unfold escapeChar
  split
  iterate 7 simp
  split
  · next hcontrol =>
    simp only [List.forall_mem_cons]
    exact ⟨by decide, by decide, by decide, by decide, toNat_hexDigit _ (by omega),
      toNat_hexDigit _ (by omega), nofun⟩
  · next hcontrol => exact List.forall_mem_singleton.mpr (Nat.not_lt.mp hcontrol)

theorem forall_mem_writeString (s : String) : ∀ c ∈ writeString s, 0x20 ≤ c.toNat := by
  unfold writeString
  simp only [List.cons_append, List.forall_mem_cons, List.forall_mem_append]
  refine ⟨by decide, fun c hc => ?_, by decide, nofun⟩
  obtain ⟨d, -, hd⟩ := List.mem_flatMap.mp hc
  exact forall_mem_escapeChar d c hd

/-! ## Values -/

/-- What a style puts between the tokens has the property. -/
structure Style.Puts (P : Char → Prop) (style : Style) : Prop where
  lineStart : ∀ depth, ∀ c ∈ style.lineStart depth, P c
  afterColon : ∀ c ∈ style.afterColon, P c

section

variable {P : Char → Prop} (hP : ∀ c : Char, 0x20 ≤ c.toNat → P c) {style : Style}
  (hstyle : style.Puts P)

include hP hstyle

mutual

/-- **What the characters from the space on have, and those that the style puts, every character of
a written value has.** -/
theorem forall_mem_write (depth : Nat) : (v : Value) → ∀ c ∈ write style depth v, P c
  | .null => by
    rw [write]
    exact fun c hc => hP c (by revert c; simp)
  | .bool true => by
    rw [write]
    exact fun c hc => hP c (by revert c; simp)
  | .bool false => by
    rw [write]
    exact fun c hc => hP c (by revert c; simp)
  | .number n => by
    rw [write]
    exact fun c hc => hP c (forall_mem_numberText n c hc)
  | .string s => by
    rw [write]
    exact fun c hc => hP c (forall_mem_writeString s c hc)
  | .array [] => by
    rw [write]
    exact fun c hc => hP c (by revert c; simp)
  | .array (v :: vs) => by
    rw [write]
    simp only [List.cons_append, List.forall_mem_cons, List.forall_mem_append]
    exact ⟨hP _ (by decide), ⟨hstyle.lineStart _, forall_mem_write (depth + 1) v⟩, forall_mem_writeItems depth vs⟩
  | .object [] => by
    rw [write]
    exact fun c hc => hP c (by revert c; simp)
  | .object ((name, v) :: ms) => by
    rw [write]
    simp only [List.cons_append, List.append_assoc, List.forall_mem_cons, List.forall_mem_append]
    exact ⟨hP _ (by decide), hstyle.lineStart _, fun c hc => hP c (forall_mem_writeString name c hc),
      hP _ (by decide), hstyle.afterColon, forall_mem_write (depth + 1) v, forall_mem_writeMembers depth ms⟩

theorem forall_mem_writeItems (depth : Nat) :
    (vs : List Value) → ∀ c ∈ writeItems style depth vs, P c
  | [] => by
    rw [writeItems]
    simp only [List.forall_mem_append, List.forall_mem_singleton]
    exact ⟨hstyle.lineStart _, hP _ (by decide)⟩
  | v :: vs => by
    rw [writeItems]
    simp only [List.cons_append, List.forall_mem_cons, List.forall_mem_append]
    exact ⟨hP _ (by decide), ⟨hstyle.lineStart _, forall_mem_write (depth + 1) v⟩, forall_mem_writeItems depth vs⟩

theorem forall_mem_writeMembers (depth : Nat) :
    (ms : List (String × Value)) → ∀ c ∈ writeMembers style depth ms, P c
  | [] => by
    rw [writeMembers]
    simp only [List.forall_mem_append, List.forall_mem_singleton]
    exact ⟨hstyle.lineStart _, hP _ (by decide)⟩
  | (name, v) :: ms => by
    rw [writeMembers]
    simp only [List.cons_append, List.append_assoc, List.forall_mem_cons, List.forall_mem_append]
    exact ⟨hP _ (by decide), hstyle.lineStart _, fun c hc => hP c (forall_mem_writeString name c hc),
      hP _ (by decide), hstyle.afterColon, forall_mem_write (depth + 1) v, forall_mem_writeMembers depth ms⟩

end

end

/-- The compact text of a value has no control character below the space. -/
theorem forall_mem_compact (v : Value) : ∀ c ∈ v.compact.toList, 0x20 ≤ c.toNat := by
  have hstyle : Style.compact.Puts fun c => 0x20 ≤ c.toNat :=
    ⟨fun _ _ h => (nomatch h), fun _ h => (nomatch h)⟩
  rw [Value.compact, String.toList_ofList]
  exact forall_mem_write (fun _ h => h) hstyle 0 v

/-- The pretty text of a value has no control character below the space but line feeds. -/
theorem forall_mem_pretty (v : Value) : ∀ c ∈ v.pretty.toList, c = '\n' ∨ 0x20 ≤ c.toNat := by
  have hstyle : Style.pretty.Puts fun c => c = '\n' ∨ 0x20 ≤ c.toNat := by
    refine ⟨fun depth c hc => ?_, List.forall_mem_singleton.mpr (.inr (by decide))⟩
    rcases List.mem_cons.mp hc with rfl | hc
    · exact .inl rfl
    · rw [List.eq_of_mem_replicate hc]
      exact .inr (by decide)
  rw [Value.pretty, String.toList_ofList]
  exact forall_mem_write (fun _ h => .inr h) hstyle 0 v

end Json

end BuildBrowser
