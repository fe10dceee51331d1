import BuildBrowser.Proofs.Json.Reread
import BuildBrowser.Render.Output

/-!
# Values that fit the reader

A value **fits** an allowance if it opens no more brackets at once than are allowed, and is plain if
its numbers are integers. What any reader gives fits the allowance that it was given (`fits_of_value`),
and a list or an object fits if all that stands in it fits one bracket less. So whether a document made
of other documents can be read again is decided piece by piece, and by its brackets alone.

A value that fits is read from either of its texts (`Value.Fits.read`), as itself: members keep their
order, and nothing is dropped or merged.
-/

namespace BuildBrowser.Json

/-- The value opens no more brackets at once than are allowed, and is plain if its numbers are
integers. -/
structure Value.Fits (n : Nat) (v : Value) : Prop where
  depth_le : v.depth ≤ n
  plain : v.Integral → v.Plain

/-! ## What was read -/

theorem fits_of_value {n : Nat} {input rest : Bytes} {v : Value} (h : value n input = .ok (v, rest)) :
    v.Fits n := by
  obtain ⟨hdepth, hplain⟩ := depth_and_plain_of_value h
  exact ⟨hdepth, hplain⟩

/-! ## What is made of values -/

namespace Value

variable {n : Nat}

theorem Fits.mono {v : Value} (h : v.Fits n) {m : Nat} (hle : n ≤ m) : v.Fits m :=
  ⟨Nat.le_trans h.depth_le hle, h.plain⟩

theorem fits_null : Fits n .null :=
  ⟨Nat.zero_le n, fun _ => trivial⟩

theorem fits_string (s : String) : Fits n (.string s) :=
  ⟨Nat.zero_le n, fun _ => trivial⟩

/-- A number is plain if it is kept as an integer, and opens no bracket. -/
theorem fits_number (k : Number) : Fits n (.number k) :=
  ⟨Nat.zero_le n, fun h => h⟩

theorem fits_array {vs : List Value} (h : ∀ v ∈ vs, v.Fits n) : Fits (n + 1) (.array vs) where
  depth_le := Nat.succ_le_succ (itemsDepth_le.mpr fun v hv => (h v hv).depth_le)
  plain hint := plainItems_iff.mpr fun v hv => (h v hv).plain (integralItems_iff.mp hint v hv)

theorem fits_object {ms : List (String × Value)} (hdistinct : Members.Distinct ms)
    (h : ∀ m ∈ ms, m.2.Fits n) : Fits (n + 1) (.object ms) where
  depth_le := Nat.succ_le_succ (membersDepth_le.mpr fun m hm => (h m hm).depth_le)
  plain hint :=
    ⟨hdistinct, plainMembers_iff.mpr fun m hm => (h m hm).plain (integralMembers_iff.mp hint m hm)⟩

/-! ## Reading it again -/

/-- **A value that fits is read from its text in any style**, if its numbers are integers. -/
theorem Fits.read {v : Value} (h : v.Fits maxDepth) (hint : v.Integral) {style : Style}
    (hstyle : style.Blank) : Json.read Value (Utf8.encode (write style 0 v)) = .ok v :=
  ReadsBack.read hstyle hint (readsBack_value (h.plain hint) h.depth_le)

/-- A value that fits is read from its pretty text with a line feed. -/
theorem Fits.read_line {v : Value} (h : v.Fits maxDepth) (hint : v.Integral) :
    Json.read Value (utf8 (v.pretty ++ "\n")) = .ok v := by
  have htext : utf8 (v.pretty ++ "\n") = Utf8.encode (write .pretty 0 v) ++ [0x0A] := by
    rw [utf8, String.toList_append, Utf8.encode_append, Value.pretty, String.toList_ofList]
    rfl
  rw [htext]
  exact decode_ok.mpr ⟨[0x0A], readsBack_value (h.plain hint) h.depth_le Style.pretty_blank 0
    (stops_of_isBlank (by decide) []) (skipBlanks_write .pretty 0 hint [0x0A]), by decide⟩

end Value

/-- **The content is one JSON text and a line feed**: the pretty text of the value. Both it and the
compact text of the value are read as the value, with its members in their order, if its numbers are
integers. -/
structure Prints (content : Bytes) (v : Value) : Prop where
  content_eq : content = utf8 v.pretty ++ [0x0A]
  read_pretty : v.Integral → read Value (utf8 v.pretty) = .ok v
  read_compact : v.Integral → read Value (utf8 v.compact) = .ok v

/-- What is shown in the JSON form prints its value, if that fits. -/
theorem prints_present {v : Value} (h : v.Fits maxDepth) (text : Rendering) :
    Prints (utf8 (present .json v text).text) v where
  content_eq := by
    rw [present, Rendering.whole, utf8, String.toList_append, Utf8.encode_append]
    rfl
  read_pretty hint := by
    rw [utf8_pretty]
    exact h.read hint Style.pretty_blank
  read_compact hint := by
    rw [utf8_compact]
    exact h.read hint Style.compact_blank

/-- The content determines the value. -/
theorem Prints.unique {content : Bytes} {v w : Value} (hv : Prints content v) (hw : Prints content w)
    (hvint : v.Integral) (hwint : w.Integral) : v = w := by
  have hpretty : utf8 v.pretty = utf8 w.pretty :=
    List.append_cancel_right (hv.content_eq.symm.trans hw.content_eq)
  have hread := hv.read_pretty hvint
  rw [hpretty, hw.read_pretty hwint] at hread
  exact (Except.ok.inj hread).symm

end BuildBrowser.Json
