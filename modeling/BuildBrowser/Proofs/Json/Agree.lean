import BuildBrowser.Proofs.Json.Local.Kinds
import BuildBrowser.Proofs.Json.Skip

/-!
# Readers end where skipping ends

A value that is kept and one that nobody keeps are read by different machines. `Agrees` says of a reader
that keeps what it reads: it ends where the value would end if it were skipped. Every reader of a kind
of value agrees, since it looks at the same bytes and asks for more: that numbers are in range, that
surrogates are paired and strings are UTF-8, and that no more brackets are open than allowed.

With `passes_text`, a reader that succeeds on a value of the grammar has read this value, all of it and
no more.
-/

namespace BuildBrowser.Json

variable {α σ : Type} {input rest : Bytes}

/-- What the reader reads ends where it ends if nobody keeps it. -/
def Agrees (reader : Bytes → Outcome α) : Prop :=
  ∀ ⦃input rest : Bytes⦄ ⦃a : α⦄, reader input = .ok (a, rest) → Passes input rest

theorem Local.length_lt {reader : Bytes → Outcome α} (h : Local reader) {a : α}
    (hread : reader input = .ok (a, rest)) : rest.length < input.length := by
  obtain ⟨used, hused, rfl, -⟩ := h hread
  have hlength := List.length_pos_iff.mpr hused
  rw [List.length_append]
  omega

theorem Agrees.map {β : Type} {reader : Bytes → Outcome α} (h : Agrees reader) (f : α → β) :
    Agrees fun input => (reader input).map fun (a, rest) => (f a, rest) := by
  intro input rest b hread
  obtain ⟨⟨a, after⟩, hread, heq⟩ := map_ok.mp hread
  cases heq
  exact h hread

/-! ## Strings -/

/-- The place in a string for a reader that does not pair surrogates. -/
def Scan.unpaired : Scan → Scan
  | .pair _ => .plain
  | .pairLetter _ => .letter
  | .pairDigits _ read => .digits read
  | scan => scan

theorem Scan.unpaired_close {scan : Scan} {b : UInt8} (h : scan.move true b = .close) :
    scan.unpaired.move false b = .close := by
  have hplain : scan = .plain := by
    unfold Scan.move Scan.single Scan.paired at h
    grind
  subst hplain
  exact h

/-- Where nobody pairs surrogates, four digits are an escape whatever they write. -/
theorem Scan.move_last {x y z b : UInt8} {n : Nat} (h : hex4? x y z b = some n) :
    (Scan.digits [x, y, z]).move false b = .go .plain (some (.escaped (Char.ofNat n))) := by
  simp only [Scan.move, h, Scan.single]
  rfl

/-- Before the last of four digits nothing is asked of a digit. -/
theorem Scan.move_earlier {read : List UInt8} (h : ¬∃ x y z, read = [x, y, z]) (pairs : Bool) (b : UInt8) :
    (Scan.digits read).move pairs b = .go (.digits (read ++ [b])) none := by
  unfold Scan.move
  split <;> simp_all

theorem Scan.move_earlier_of_pair {read : List UInt8} (h : ¬∃ x y z, read = [x, y, z]) (high : Nat)
    (b : UInt8) :
    (Scan.pairDigits high read).move true b = .go (.pairDigits high (read ++ [b])) none := by
  unfold Scan.move
  split <;> simp_all

theorem Scan.unpaired_of_single {n : Nat} {next : Scan} {piece? : Option Piece}
    (h : Scan.single true n = .go next piece?) : next.unpaired = .plain := by
  unfold Scan.single at h
  split at h
  · cases h
  split at h
  · cases h
    rfl
  · cases h
    rfl

theorem Scan.unpaired_of_paired {high n : Nat} {next : Scan} {piece? : Option Piece}
    (h : Scan.paired high n = .go next piece?) : next.unpaired = .plain := by
  unfold Scan.paired at h
  split at h
  · cases h
    rfl
  · cases h

/-- A byte that goes on without an escape goes on in the same way where nobody pairs surrogates. -/
theorem Scan.move_plain {next : Scan} {b : UInt8} {piece? : Option Piece}
    (h : Scan.plain.move true b = .go next piece?) : Scan.plain.move false b = .go next.unpaired piece? := by
  simp only [Scan.move] at h
  split at h
  · cases h
  next hquote =>
    split at h
    · next hescape =>
      cases h
      rw [hescape]
      rfl
    next hescape =>
      split at h
      · cases h
      next hcontrol =>
        cases h
        simp only [Scan.unpaired, Scan.move, if_neg hquote, if_neg hescape, if_neg hcontrol]

/-- The letter of an escape is the same where nobody pairs surrogates. -/
theorem Scan.move_letter {next : Scan} {b : UInt8} {piece? : Option Piece}
    (h : Scan.letter.move true b = .go next piece?) :
    Scan.letter.move false b = .go next.unpaired piece? := by
  simp only [Scan.move] at h
  split at h
  · next hu =>
    cases h
    rw [hu]
    rfl
  next hu =>
    split at h
    · next hletter =>
      cases h
      simp only [Scan.unpaired, Scan.move, if_neg hu, hletter]
    · cases h

/-- One byte that must come is as good as any where nobody pairs surrogates. -/
theorem Scan.move_awaited {scan scan' next : Scan} {b c : UInt8} {piece? : Option Piece}
    (hmove : scan.move false c = .go scan'.unpaired none)
    (h : (if b = c then .go scan' none else .fail .unpairedEscape : Scan.Move) = .go next piece?) :
    ∃ piece?, scan.move false b = .go next.unpaired piece? := by
  split at h
  · next hb =>
    cases h
    exact ⟨none, hb ▸ hmove⟩
  · cases h

/-- Where a kept string goes on, so does one whose surrogates nobody pairs. -/
theorem Scan.unpaired_go {scan next : Scan} {b : UInt8} {piece? : Option Piece}
    (h : scan.move true b = .go next piece?) :
    ∃ piece?, scan.unpaired.move false b = .go next.unpaired piece? := by
  cases scan with
  | plain => exact ⟨piece?, move_plain h⟩
  | letter => exact ⟨piece?, move_letter h⟩
  | digits read =>
    by_cases hread : ∃ x y z, read = [x, y, z]
    · obtain ⟨x, y, z, rfl⟩ := hread
      simp only [Scan.move] at h
      split at h
      · next hn =>
        rw [unpaired_of_single h]
        exact ⟨_, move_last hn⟩
      · cases h
    · rw [move_earlier hread] at h
      cases h
      exact ⟨none, move_earlier hread false b⟩
  | pair high => exact move_awaited (c := 0x5C) rfl h
  | pairLetter high => exact move_awaited (c := 0x75) rfl h
  | pairDigits high read =>
    by_cases hread : ∃ x y z, read = [x, y, z]
    · obtain ⟨x, y, z, rfl⟩ := hread
      simp only [Scan.move] at h
      split at h
      · next hn =>
        rw [unpaired_of_paired h]
        exact ⟨_, move_last hn⟩
      · cases h
    · rw [move_earlier_of_pair hread] at h
      cases h
      exact ⟨none, move_earlier hread false b⟩

/-- A kept string ends where it ends if nobody keeps it. -/
theorem skipString_of_pieces {scan : Scan} {found : List Piece} (h : pieces scan input = .ok (found, rest)) :
    skipString scan.unpaired input = .ok rest := by
  induction input generalizing scan found with
  | nil => cases h
  | cons b input ih =>
    rw [pieces] at h
    cases hmove : scan.move true b with
    | close =>
      rw [hmove] at h
      cases h
      rw [skipString, Scan.unpaired_close hmove]
    | fail cause =>
      rw [hmove] at h
      cases h
    | go next piece? =>
      simp only [hmove] at h
      cases hmore : pieces next input with
      | error fault =>
        rw [hmore] at h
        cases h
      | ok more =>
        rw [hmore] at h
        cases h
        obtain ⟨_, hgo⟩ := Scan.unpaired_go hmove
        rw [skipString, hgo]
        exact ih hmore

theorem skipString_of_string {s : String} (h : string input = .ok (s, rest)) :
    skipString .plain input = .ok rest := by
  unfold string at h
  split at h
  · cases h
  next hpieces =>
    split at h
    · cases h
      exact skipString_of_pieces hpieces
    · cases h

/-! ## Loops -/

/-- The next item of a list, and what stands after it. -/
theorem closes_item {first : Bool} {start mid : Bytes} (hnext : nextItem first input = .ok (.item start))
    (hpasses : Passes start mid) (hcloses : Closes .after .list mid rest) :
    Closes (if first then .opened else .after) .list input rest := by
  obtain ⟨b, more, rfl, hb, hstart⟩ := nextItem_item_iff.mp hnext
  cases first with
  | true => exact closes_first hstart hb ⟨_, rfl, Nat.le_refl _, hpasses⟩ hcloses
  | false =>
    obtain ⟨inside, hcomma, hinside⟩ := hstart
    exact closes_next hcomma ⟨_, rfl, Nat.le_refl _, passes_of_skipBlanks hinside hpasses⟩ hcloses

/-- The items of a list are passed over up to its end. -/
theorem closes_items {item : Bytes → Outcome α} (hitem : Agrees item) {steps : Nat} {first : Bool}
    {as : List α} (h : itemsFrom item steps first input = .ok (as, rest)) :
    Closes (if first then .opened else .after) .list input rest := by
  induction steps generalizing first input as with
  | zero => cases h
  | succ steps ih =>
    obtain ⟨hclose, rfl⟩ | ⟨start, a, after, more, hnext, ha, hmore, rfl⟩ := itemsFrom_ok.mp h
    · exact closes_now (by cases first <;> decide) (nextItem_close_iff.mp hclose)
    · exact closes_item hnext (hitem ha) (ih hmore)

/-- A member is read after its colon, up to where its value ends if nobody keeps it. -/
def AgreesAfterColon (member : Bytes → Outcome σ) : Prop :=
  ∀ ⦃input rest : Bytes⦄ ⦃s : σ⦄, member input = .ok (s, rest) →
    ∃ start, skipBlanks input = 0x3A :: start ∧ Passes start rest

/-- A name and its colon are passed over as they are read. -/
theorem skipName_of_string {start value : Bytes} {name : String} (hquote : skipBlanks input = 0x22 :: start)
    (hname : string start = .ok (name, rest)) (hcolon : skipBlanks rest = 0x3A :: value) :
    skipName input = .ok value ∧ value.length < input.length := by
  constructor
  · simp [skipName, hquote, skipString_of_string hname, hcolon]
  · have hstart := length_lt_of_start hquote
    have hrest := local_string.length_lt hname
    have hvalue := length_lt_of_start hcolon
    omega

/-- The members of an object are passed over up to its end. -/
theorem closes_members {member : σ → String → Bytes → Outcome σ}
    (hmember : ∀ s name, AgreesAfterColon (member s name)) {steps : Nat} {first : Bool} {s t : σ}
    (h : membersFrom member steps first s input = .ok (t, rest)) :
    Closes (if first then .opened else .after) .object input rest := by
  induction steps generalizing first s input with
  | zero => cases h
  | succ steps ih =>
    obtain ⟨hclose, rfl⟩ | ⟨start, name, colon, next, after, hnext, hname, hm, hmore⟩ :=
      membersFrom_ok.mp h
    · exact closes_now (by cases first <;> decide) (nextMember_close_iff.mp hclose)
    · obtain ⟨value, hcolon, hpasses⟩ := hmember s name hm
      have hstart := nextMember_item_iff.mp hnext
      cases first with
      | true =>
        have hquote : skipBlanks (0x22 :: start) = 0x22 :: start := skipBlanks_of_not_blank (by decide) _
        obtain ⟨hskip, hlength⟩ := skipName_of_string hquote hname hcolon
        exact closes_first hstart (by decide) ⟨value, hskip, hlength.le, hpasses⟩ (ih hmore)
      | false =>
        obtain ⟨inside, hcomma, hquote⟩ := hstart
        obtain ⟨hskip, hlength⟩ := skipName_of_string hquote hname hcolon
        exact closes_next hcomma ⟨value, hskip, hlength.le, hpasses⟩ (ih hmore)

theorem agreesAfterColon_keepMember {item : Bytes → Outcome α} (hitem : Agrees item) (kept : Members α)
    (name : String) : AgreesAfterColon (keepMember item kept name) := by
  intro input rest next h
  obtain ⟨start, a, hcolon, ha, -⟩ := keepMember_ok.mp h
  exact ⟨start, colon_ok.mp hcolon, hitem ha⟩

/-! ## Values -/

theorem agrees_valueWith {list object : Bytes → Outcome Value} (hlocal : Local (valueWith list object))
    (hlist : ∀ ⦃input rest v⦄, list input = .ok (v, rest) → Closes .opened .list input rest)
    (hobject : ∀ ⦃input rest v⦄, object input = .ok (v, rest) → Closes .opened .object input rest) :
    Agrees (valueWith list object) := by
  intro input rest v hread
  have hlength := hlocal.length_lt hread
  cases readAs_of_ok hread with
  | null hinput h | true hinput h | false hinput h =>
    exact passes_scalar (by simp [skipStart, hinput, h, Except.map]) hlength
  | negative hinput h =>
    have hskip := (number_ok h).1
    exact passes_scalar (by simp [skipStart, hinput, hskip, Except.map]) hlength
  | digits hb hinput h =>
    have hskip := (number_ok h).1
    exact passes_scalar (by rw [skipStart_digit hb hinput, hskip]; rfl) hlength
  | string hinput h =>
    have hskip := skipString_of_string h
    exact passes_scalar (by simp [skipStart, hinput, hskip, isDigit, Except.map]) hlength
  | list hinput h =>
    exact passes_bracket (by simp [skipStart, hinput, isDigit]) (length_lt_of_start hinput) (hlist h)
  | object hinput h =>
    exact passes_bracket (by simp [skipStart, hinput, isDigit]) (length_lt_of_start hinput) (hobject h)

/-- **A value that is read ends where it ends if nobody keeps it.** -/
theorem agrees_value (n : Nat) : Agrees (value n) := by
  induction n with
  | zero =>
    have hlocal := local_value 0
    rw [value] at hlocal ⊢
    refine agrees_valueWith hlocal (fun input rest v h => ?_) fun input rest v h => ?_
    · cases h
    · cases h
  | succ n ih =>
    have hlocal := local_value (n + 1)
    rw [value] at hlocal ⊢
    refine agrees_valueWith hlocal (fun input rest v h => ?_) fun input rest v h => ?_
    · obtain ⟨⟨vs, after⟩, hitems, heq⟩ := map_ok.mp h
      cases heq
      exact closes_items ih hitems
    · obtain ⟨⟨ms, after⟩, hmembers, heq⟩ := map_ok.mp h
      cases heq
      exact closes_members (fun kept name => agreesAfterColon_keepMember ih kept name) hmembers

/-! ## Wanted kinds -/

theorem agrees_text (n : Nat) : Agrees (text n) := by
  intro input rest s h
  obtain ⟨start, hstart, hread⟩ := text_ok.mp h
  have hskip := skipString_of_string hread
  exact passes_scalar (by simp [skipStart, hstart, hskip, isDigit, Except.map])
    ((local_text n).length_lt h)

theorem agrees_unsigned (n : Nat) : Agrees (unsigned n) := by
  intro input rest a h
  have hlength := (local_unsigned n).length_lt h
  unfold unsigned at h
  split at h
  · next start hstart =>
    have hskip := (number_ok (asUnsigned_ok.mp h)).1
    exact passes_scalar (by simp [skipStart, hstart, hskip, Except.map]) hlength
  · next b start _ hstart =>
    split at h
    · next hb =>
      have hskip := (number_ok (asUnsigned_ok.mp h)).1
      exact passes_scalar (by rw [skipStart_digit hb hstart, hskip]; rfl) hlength
    · cases h
  · cases h

theorem agrees_list {item : Decoder α} (hitem : ∀ n, Agrees (item n)) (n : Nat) : Agrees (list item n) := by
  intro input rest as h
  obtain ⟨m, start, rfl, hstart, hread⟩ := list_ok.mp h
  exact passes_bracket (by simp [skipStart, hstart, isDigit]) (length_lt_of_start hstart)
    (closes_items (hitem m) hread)

theorem agrees_fold {wanted : Wanted} {member : (allowance : Nat) → σ → String → Bytes → Outcome σ}
    (hmember : ∀ n s name, AgreesAfterColon (member n s name)) (s : σ) (n : Nat) :
    Agrees (fold wanted member s n) := by
  intro input rest t h
  obtain ⟨m, start, rfl, hstart, hread⟩ := fold_ok.mp h
  exact passes_bracket (by simp [skipStart, hstart, isDigit]) (length_lt_of_start hstart)
    (closes_members (hmember m) hread)

theorem agrees_object {item : Decoder α} (hitem : ∀ n, Agrees (item n)) (n : Nat) :
    Agrees (object item n) :=
  agrees_fold (fun n => agreesAfterColon_keepMember (hitem n)) [] n

/-- Where blanks have been skipped, what a reader reads ends as without them. -/
theorem agrees_nullable {item : Decoder α} (hlocal : ∀ n, Local (item n)) (hitem : ∀ n, Agrees (item n))
    (n : Nat) : Agrees (nullable item n) := by
  intro input rest a h
  have hlength := (local_nullable hlocal n).length_lt h
  unfold nullable at h
  split at h
  · next start hstart =>
    obtain ⟨after, hword, heq⟩ := map_ok.mp h
    cases heq
    exact passes_scalar (by simp [skipStart, hstart, hword, Except.map]) hlength
  · obtain ⟨⟨a, after⟩, hread, heq⟩ := map_ok.mp h
    cases heq
    exact passes_of_skipBlanks rfl (hitem n hread)

/-! ## Both properties -/

/-- What the decoder gives depends on the bytes it takes alone, and these end where skipping ends. -/
structure Settled (decoder : Decoder α) : Prop where
  sees : ∀ n, Local (decoder n)
  ends : ∀ n, Agrees (decoder n)

theorem settled_value : Settled value :=
  ⟨local_value, agrees_value⟩

theorem settled_text : Settled text :=
  ⟨local_text, agrees_text⟩

theorem settled_unsigned : Settled unsigned :=
  ⟨local_unsigned, agrees_unsigned⟩

namespace Settled

variable {item : Decoder α} (h : Settled item)

include h

theorem map {β : Type} (f : α → β) :
    Settled fun n input => (item n input).map fun (a, rest) => (f a, rest) :=
  ⟨fun n => (h.sees n).map f, fun n => (h.ends n).map f⟩

theorem list : Settled (list item) :=
  ⟨local_list h.sees, agrees_list h.ends⟩

theorem object : Settled (object item) :=
  ⟨local_object h.sees, agrees_object h.ends⟩

theorem nullable : Settled (nullable item) :=
  ⟨local_nullable h.sees, agrees_nullable h.sees h.ends⟩

end Settled

end BuildBrowser.Json
