import BuildBrowser.Http.Url
import BuildBrowser.Proofs.Segment

/-!
# Dot segments — what resolving them leaves

A dot segment is a segment that reads as `.` or `..`. Resolving a path keeps a stack of the segments so
far (`enter` is one step), on which no dot segment is ever put, so the result has none
(`named_resolveDots`). A path without dot segments is all put there, so resolving is the identity on
exactly those paths (`resolveDots_eq_self_iff`).

Encoding does not keep dot segments out of a path: a dot is a bare character, so `.` and `..` are
encoded as themselves. They are the only texts that become dot segments (`named_encodeChars_iff`),
since an encoded dot is never written.
-/

namespace BuildBrowser.Http

/-- A segment that is no dot segment. -/
def Named (segment : List Char) : Prop :=
  isDot segment = false ∧ isDotDot segment = false

/-! ## Resolving -/

/-- The stack of segments after one more: a dot segment is not put on it, and the one that stands for
the directory above takes the last segment off. -/
def enter (stack : List (List Char)) (segment : List Char) : List (List Char) :=
  if isDotDot segment then stack.tail else if isDot segment then stack else segment :: stack

section

variable {stack segments rest : List (List Char)} {segment : List Char}

theorem named_enter (hstack : ∀ s ∈ stack, Named s) : ∀ s ∈ enter stack segment, Named s := by
  intro s hs
  unfold enter at hs
  split at hs
  · exact hstack s (List.mem_of_mem_tail hs)
  · next hdotdot =>
    split at hs
    · exact hstack s hs
    · next hdot =>
      rcases List.mem_cons.mp hs with rfl | hs
      · exact ⟨eq_false_of_ne_true hdot, eq_false_of_ne_true hdotdot⟩
      · exact hstack s hs

/-- A segment with others behind it is one step. -/
theorem resolveAfter_cons (hrest : rest ≠ []) :
    resolveAfter stack (segment :: rest) = resolveAfter (enter stack segment) rest := by
  have hempty : rest.isEmpty = false := by simpa using hrest
  simp only [resolveAfter, enter, hempty, Bool.false_eq_true, if_false, List.nil_append]
  split
  · rfl
  · split <;> rfl

/-- A directory leaves a stack that does not depend on what is asked for in it. -/
theorem resolveAfter_append (directory : List (List Char)) (hsegments : segments ≠ []) :
    resolveAfter stack (directory ++ segments) =
      resolveAfter (directory.foldl enter stack) segments := by
  induction directory generalizing stack with
  | nil => rfl
  | cons segment rest ih =>
    rw [List.cons_append, resolveAfter_cons (List.append_ne_nil_of_right_ne_nil _ hsegments), ih,
      List.foldl_cons]

/-- The last segment is a step too; if it is a dot segment, an empty one stands for it. -/
theorem resolveAfter_singleton (stack : List (List Char)) (segment : List Char) :
    resolveAfter stack [segment] = (enter stack segment).reverse ∨
      resolveAfter stack [segment] = (enter stack segment).reverse ++ [[]] := by
  by_cases hdotdot : isDotDot segment = true
  · right
    simp [resolveAfter, enter, hdotdot]
  · by_cases hdot : isDot segment = true
    · right
      simp [resolveAfter, enter, hdotdot, hdot]
    · left
      simp [resolveAfter, enter, hdotdot, hdot]

theorem named_resolveAfter (hstack : ∀ s ∈ stack, Named s) :
    ∀ s ∈ resolveAfter stack segments, Named s := by
  induction segments generalizing stack with
  | nil =>
    intro s hs
    exact hstack s (List.mem_reverse.mp hs)
  | cons segment rest ih =>
    cases rest with
    | cons next rest =>
      rw [resolveAfter_cons (List.cons_ne_nil next rest)]
      exact ih (named_enter hstack)
    | nil =>
      intro s hs
      have hentered : ∀ s ∈ (enter stack segment).reverse, Named s := fun s hs =>
        named_enter hstack s (List.mem_reverse.mp hs)
      rcases resolveAfter_singleton stack segment with h | h
      · rw [h] at hs
        exact hentered s hs
      · rw [h] at hs
        rcases List.mem_append.mp hs with hs | hs
        · exact hentered s hs
        · rw [List.mem_singleton.mp hs]
          exact ⟨rfl, rfl⟩

/-- Segments that are no dot segments are kept, whatever stands before them. -/
theorem resolveAfter_of_named (h : ∀ s ∈ segments, Named s) :
    resolveAfter stack segments = stack.reverse ++ segments := by
  induction segments generalizing stack with
  | nil => exact (List.append_nil _).symm
  | cons segment rest ih =>
    obtain ⟨hdot, hdotdot⟩ := h segment List.mem_cons_self
    simp only [resolveAfter, hdot, hdotdot, Bool.false_eq_true, if_false]
    rw [ih fun s hs => h s (List.mem_cons_of_mem _ hs), List.reverse_cons, List.append_assoc,
      List.singleton_append]

/-- The result of resolving has no dot segments. -/
theorem named_resolveDots : ∀ s ∈ resolveDots segments, Named s :=
  named_resolveAfter (List.forall_mem_nil _)

/-- **Resolving changes nothing exactly if there are no dot segments.** -/
theorem resolveDots_eq_self_iff : resolveDots segments = segments ↔ ∀ s ∈ segments, Named s := by
  constructor
  · intro h s hs
    rw [← h] at hs
    exact named_resolveDots s hs
  · intro h
    exact resolveAfter_of_named h

end

/-! ## Encoded segments -/

theorem plainDots_cons_of_ne {c : Char} (h : c ≠ '%') (rest : List Char) :
    plainDots (c :: rest) = c :: plainDots rest := by
  rw [plainDots]
  · intro _ hc
    exact absurd hc h
  · intro _ hc
    exact absurd hc h

theorem plainDots_escape {high low : Char} {rest : List Char}
    (h : high = '2' → low ≠ 'e' ∧ low ≠ 'E') (hhigh : high ≠ '%') (hlow : low ≠ '%') :
    plainDots ('%' :: high :: low :: rest) = '%' :: high :: low :: plainDots rest := by
  rw [plainDots, plainDots_cons_of_ne hhigh, plainDots_cons_of_ne hlow]
  · intro _ _ heq
    obtain ⟨htwo, hlower⟩ := List.cons.inj heq
    exact (h htwo).1 (List.cons.inj hlower).1
  · intro _ _ heq
    obtain ⟨htwo, hupper⟩ := List.cons.inj heq
    exact (h htwo).2 (List.cons.inj hupper).1

/-- An escape that is written is not that of a dot, which is bare. -/
theorem escape_ne_dot {b : UInt8} (h : Segment.isBare (Char.ofNat b.toNat) = false)
    (hhigh : Segment.hexDigit (b.toNat / 16) = '2') :
    Segment.hexDigit (b.toNat % 16) ≠ 'e' ∧ Segment.hexDigit (b.toNat % 16) ≠ 'E' := by
  have hb : b.toNat < 256 := b.toNat_lt
  have htwo : ∀ n < 16, Segment.hexDigit n = '2' → n = 2 := by decide
  have hlower : ∀ n < 16, Segment.hexDigit n ≠ 'e' := by decide
  have hupper : ∀ n < 16, Segment.hexDigit n = 'E' → n = 14 := by decide
  refine ⟨hlower _ (by omega), fun hlow => ?_⟩
  have hdot : b.toNat = 0x2E := by
    have := htwo _ (by omega) hhigh
    have := hupper _ (by omega) hlow
    omega
  rw [hdot] at h
  exact absurd h (by decide)

theorem plainDots_encodeByte_append (b : UInt8) (rest : List Char) :
    plainDots (Segment.encodeByte b ++ rest) = Segment.encodeByte b ++ plainDots rest := by
  have hb : b.toNat < 256 := b.toNat_lt
  have hdigit {n : Nat} (hn : n < 16) : Segment.hexDigit n ≠ '%' :=
    Segment.ne_of_isBare (Segment.isBare_hexDigit n hn) (by decide)
  unfold Segment.encodeByte
  dsimp only
  split
  · next hbare => exact plainDots_cons_of_ne (Segment.ne_of_isBare hbare (by decide)) rest
  · next hbare =>
    exact plainDots_escape (escape_ne_dot (eq_false_of_ne_true hbare)) (hdigit (by omega))
      (hdigit (by omega))

/-- An encoded text has no encoded dots. -/
theorem plainDots_encodeChars (text : List Char) :
    plainDots (Segment.encodeChars text) = Segment.encodeChars text := by
  unfold Segment.encodeChars
  induction Utf8.encode text with
  | nil => rfl
  | cons b rest ih => rw [List.flatMap_cons, plainDots_encodeByte_append, ih]

/-- An encoded text is read as it is written, so a dot segment among encoded texts is written as one. -/
theorem named_encodeChars {text : List Char} : Named (Segment.encodeChars text) ↔
    Segment.encodeChars text ≠ ['.'] ∧ Segment.encodeChars text ≠ ['.', '.'] := by
  simp only [Named, isDot, isDotDot, plainDots_encodeChars, decide_eq_false_iff_not, ne_eq]

/-- **An encoded text is a dot segment exactly if the text is one.** -/
theorem named_encodeChars_iff {text : List Char} :
    Named (Segment.encodeChars text) ↔ text ≠ ['.'] ∧ text ≠ ['.', '.'] := by
  have hdot : Segment.isBare '.' = true := by decide
  rw [named_encodeChars]
  exact and_congr (not_congr (Segment.encodeChars_eq_iff (by simp [hdot])))
    (not_congr (Segment.encodeChars_eq_iff (by simp [hdot])))

end BuildBrowser.Http
