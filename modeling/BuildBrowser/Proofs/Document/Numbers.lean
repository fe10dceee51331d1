import BuildBrowser.Proofs.Document.Compatible
import BuildBrowser.Proofs.Json.Given
import BuildBrowser.Proofs.Json.Unsigned
import Mathlib.Data.List.Forall2

/-!
# Build numbers are exact

A build number is kept in 64 bits without sign and is never rounded on its way from a reply to a link. It
is read from its numeral, with blanks around it, and from no other text; it is shown and written as
this numeral; and a listing of builds holds the numbers whose numerals stand in its text, in their
order (`build_numbers_exact`).

`ListingText` says which texts are a listing, without a reader: an object with one member for the
builds, and at most one for the last of them, or a list of these two values. **A listing is read from
these texts and from no other** (`read_listing_iff`). One item that is not the numeral of a number of 64
bits, be it a minus zero, a number with a fraction or an exponent, or one that is too large, is enough
for the whole text to be refused.
-/

namespace BuildBrowser

open Json

variable {text value : Bytes} {item : Item} {items : List Item} {n : Nat}

/-! ## One number -/

theorem BuildNumber.reads_iff (item : Item) {build : BuildNumber} (h : ValueText item.value) :
    item.Reads ((Document.decoder : Decoder BuildNumber) n) build ↔
      Numeral item.value build.value.toNat := by
  rw [← unsigned_item (n := n) h]
  constructor
  · intro hread
    obtain ⟨⟨k, after⟩, hread, heq⟩ := map_ok.mp hread
    cases heq
    exact hread
  · intro hread
    exact map_ok.mpr ⟨(build.value, item.after), hread, rfl⟩

/-- **A build number is read from its numeral**, with blanks around it. -/
theorem BuildNumber.read_iff {build : BuildNumber} :
    read BuildNumber text = .ok build ↔
      ∃ item : Item, text = item.text ∧ Numeral item.value build.value.toNat := by
  constructor
  · intro h
    obtain ⟨rest, hread, hrest⟩ := decode_ok.mp h
    obtain ⟨⟨k, after⟩, hread, heq⟩ := map_ok.mp hread
    cases heq
    obtain ⟨before, numeral, hbefore, hnumeral, rfl, -⟩ := unsigned_ok.mp hread
    exact ⟨⟨before, numeral, rest, hbefore, skipBlanks_eq_nil_iff.mp hrest⟩, rfl, hnumeral⟩
  · rintro ⟨item, rfl, hnumeral⟩
    have hread : item.Reads ((Document.decoder : Decoder BuildNumber) maxDepth) build :=
      (BuildNumber.reads_iff item hnumeral.valueText).mpr hnumeral
    exact decode_ok.mpr ⟨item.after, hread, skipBlanks_eq_nil_iff.mpr item.after_blank⟩

/-- The text of a build number is its numeral. -/
theorem BuildNumber.numeral_iff_text {build : BuildNumber} :
    Numeral text build.value.toNat ↔ text = utf8 build.text := by
  rw [numeral_iff, utf8, BuildNumber.text, Decimal.numeral, String.toList_ofList]

/-- A build number is written as it is shown. -/
theorem BuildNumber.document_text (build : BuildNumber) : Document.text build = build.text := by
  rw [Document.text, Value.compact]
  rfl

/-! ## Listings -/

/-- The items are numerals of the builds, one for each and in their order. -/
def AreNumerals (items : List Item) (builds : List BuildNumber) : Prop :=
  List.Forall₂ (fun item build => Numeral item.value build.value.toNat) items builds

/-- Every item is the numeral of a number of 64 bits. -/
theorem AreNumerals.exists_numeral {builds : List BuildNumber} (h : AreNumerals items builds) :
    ∀ item ∈ items, ∃ n < UInt64.size, Numeral item.value n :=
  ((List.forall₂_and_left _ _).mp (List.Forall₂.imp
    (fun _ build hnumeral => ⟨⟨_, build.value.toNat_lt, hnumeral⟩, hnumeral⟩) h)).1

/-- The value is a list of numerals of the builds. -/
def BuildsText (builds : List BuildNumber) (value : Bytes) : Prop :=
  ∃ items : List Item, ListText items value ∧ AreNumerals items builds

/-- The value is the numeral of the last build, or `null` where there is none. -/
def LastText : Option BuildNumber → Bytes → Prop
  | none, value => value = nullText
  | some build, value => Numeral value build.value.toNat

/-- The text is that of a listing: an object whose members all have names, among them one for the builds
and at most one for the last of them, or a list of the two values, of which it may end before the
second. -/
inductive ListingText (listing : BuildListing) : Bytes → Prop
  | object {ms : List Member} {m : Member} {text : Bytes} (hms : ObjectText ms text)
      (hnames : ∀ m ∈ ms, ∃ name, m.Named name) (honly : m.Only ms "builds")
      (hbuilds : BuildsText listing.builds m.value)
      (hlast : (∃ m : Member, m.Only ms "last_build_number" ∧ LastText listing.last m.value) ∨
        ((∀ m ∈ ms, ¬m.Named "last_build_number") ∧ listing.last = none)) : ListingText listing text
  | builds {item first : Item} (hitems : ListText [first] item.value)
      (hbuilds : BuildsText listing.builds first.value) (hlast : listing.last = none) :
      ListingText listing item.text
  | both {item first second : Item} (hitems : ListText [first, second] item.value)
      (hbuilds : BuildsText listing.builds first.value) (hlast : LastText listing.last second.value) :
      ListingText listing item.text

/-- Builds are read from a list exactly if its items are their numerals. -/
theorem reads_builds_iff {builds : List BuildNumber} (h : ListText items item.value) :
    item.Reads (list (Document.decoder : Decoder BuildNumber) (n + 1)) builds ↔
      AreNumerals items builds := by
  have hvalues := h.forall_valueText
  rw [list_item BuildNumber.settled h]
  constructor
  · intro hall
    have hall : List.Forall₂ _ items builds := (List.forall₂_and_left _ _).mpr ⟨hvalues, hall⟩
    exact hall.imp fun item build hitem => (BuildNumber.reads_iff item.trimmed hitem.1).mp hitem.2
  · intro hall
    have hall : List.Forall₂ _ items builds := (List.forall₂_and_left _ _).mpr ⟨hvalues, hall⟩
    exact hall.imp fun item build hitem => (BuildNumber.reads_iff item.trimmed hitem.1).mpr hitem.2

/-- Builds are read exactly from a list of their numerals. -/
theorem reads_builds_iff_text (item : Item) {builds : List BuildNumber} (h : ValueText item.value) :
    item.Reads (list (Document.decoder : Decoder BuildNumber) (n + 1)) builds ↔
      BuildsText builds item.value := by
  constructor
  · intro hread
    obtain ⟨items, hitems⟩ := exists_listText BuildNumber.settled h hread
    exact ⟨items, hitems, (reads_builds_iff hitems).mp hread⟩
  · rintro ⟨items, hitems, hall⟩
    exact (reads_builds_iff hitems).mpr hall

/-- The last build is read exactly from its numeral, or from `null` where there is none. -/
theorem reads_last_iff_text (item : Item) {last : Option BuildNumber} (h : ValueText item.value) :
    item.Reads (nullable (Document.decoder : Decoder BuildNumber) n) last ↔ LastText last item.value := by
  rw [nullable_item h]
  cases last with
  | none => simp [LastText]
  | some build =>
    have hreads : item.trimmed.Reads ((Document.decoder : Decoder BuildNumber) n) build ↔
        Numeral item.value build.value.toNat := BuildNumber.reads_iff item.trimmed h
    constructor
    · rintro (⟨-, hnone⟩ | ⟨-, found, hfound, heq⟩)
      · cases hnone
      · cases heq
        exact hreads.mp hfound
    · intro hnumeral
      refine .inr ⟨fun hnull => ?_, build, hreads.mpr hnumeral, rfl⟩
      have hdigit : isDigit 0x6E = true := hnumeral.isDigit_of_mem (by
        rw [hnull]
        exact List.mem_cons_self)
      exact absurd hdigit (by decide)

theorem BuildListing.settled_fields : ∀ f ∈ BuildListing.schema.fields, Settled f.decoder := by
  simp only [BuildListing.schema, List.forall_mem_cons]
  exact ⟨BuildNumber.settled.list, BuildNumber.settled.nullable, List.forall_mem_nil _⟩

/-- An object is read as a listing exactly if its members give the builds and the last of them. -/
theorem read_listing_members {ms : List Member} (hms : ObjectText ms text) {listing : BuildListing} :
    read BuildListing text = .ok listing ↔
      (∀ m ∈ ms, ∃ name, m.Named name) ∧
      (∃ m : Member, m.Only ms "builds" ∧ BuildsText listing.builds m.value) ∧
      ((∃ m : Member, m.Only ms "last_build_number" ∧ LastText listing.last m.value) ∨
        ((∀ m ∈ ms, ¬m.Named "last_build_number") ∧ listing.last = none)) := by
  have hvalues := hms.forall_valueText
  have hbuilds {m : Member} (honly : m.Only ms "builds") {builds : List BuildNumber} :
      m.toItem.Reads (list (Document.decoder : Decoder BuildNumber) (maxDepth - 1)) builds ↔
        BuildsText builds m.value := reads_builds_iff_text m.toItem (hvalues m honly.mem)
  have hlast {m : Member} (honly : m.Only ms "last_build_number") {last : Option BuildNumber} :
      m.toItem.Reads (nullable (Document.decoder : Decoder BuildNumber) (maxDepth - 1)) last ↔
        LastText last m.value := reads_last_iff_text m.toItem (hvalues m honly.mem)
  refine (Schema.decode_members (by decide) BuildListing.settled_fields hms).trans ?_
  constructor
  · rintro ⟨⟨builds, last, ⟨⟩⟩, rfl, hnames, hfirst, hsecond, -⟩
    refine ⟨hnames, ?_, ?_⟩
    · obtain ⟨m, honly, hreads⟩ | ⟨-, habsent | habsent⟩ := hfirst
      · exact ⟨m, honly, (hbuilds honly).mp hreads⟩
      · cases habsent
      · cases habsent
    · obtain ⟨m, honly, hreads⟩ | ⟨hnone, habsent | habsent⟩ := hsecond
      · exact .inl ⟨m, honly, (hlast honly).mp hreads⟩
      · cases habsent
      · cases habsent
        exact .inr ⟨hnone, rfl⟩
  · rintro ⟨hnames, ⟨m, honly, hfirst⟩, hsecond⟩
    refine ⟨(listing.builds, listing.last, ()), rfl, hnames, .inl ⟨m, honly, (hbuilds honly).mpr hfirst⟩,
      ?_, trivial⟩
    obtain ⟨m, honly, hsecond⟩ | ⟨hnone, hsecond⟩ := hsecond
    · exact .inl ⟨m, honly, (hlast honly).mpr hsecond⟩
    · exact .inr ⟨hnone, .inr (congrArg Absence.always hsecond.symm)⟩

/-- A list is read as a listing exactly if it is the builds, or the builds and the last of them. -/
theorem read_listing_items (hitems : ListText items item.value) {listing : BuildListing} :
    read BuildListing item.text = .ok listing ↔
      (∃ first, items = [first] ∧ BuildsText listing.builds first.value ∧ listing.last = none) ∨
      ∃ first second, items = [first, second] ∧ BuildsText listing.builds first.value ∧
        LastText listing.last second.value := by
  have hvalues := hitems.forall_valueText
  have hbuilds {first : Item} (hfirst : first ∈ items) {builds : List BuildNumber} :
      first.trimmed.Reads (list (Document.decoder : Decoder BuildNumber) (maxDepth - 1)) builds ↔
        BuildsText builds first.value := reads_builds_iff_text first.trimmed (hvalues first hfirst)
  have hlast {second : Item} (hsecond : second ∈ items) {last : Option BuildNumber} :
      second.trimmed.Reads (nullable (Document.decoder : Decoder BuildNumber) (maxDepth - 1)) last ↔
        LastText last second.value := reads_last_iff_text second.trimmed (hvalues second hsecond)
  refine (Schema.decode_items BuildListing.settled_fields hitems).trans ?_
  constructor
  · rintro ⟨⟨builds, last, ⟨⟩⟩, rfl, hlisted⟩
    rcases items with _ | ⟨first, _ | ⟨second, _ | ⟨third, items⟩⟩⟩
    · obtain ⟨habsent, -⟩ := hlisted
      cases habsent
    · obtain ⟨hfirst, habsent, -⟩ := hlisted
      cases habsent
      exact .inl ⟨first, rfl, (hbuilds List.mem_cons_self).mp hfirst, rfl⟩
    · obtain ⟨hfirst, hsecond, -⟩ := hlisted
      exact .inr ⟨first, second, rfl, (hbuilds List.mem_cons_self).mp hfirst,
        (hlast (List.mem_cons_of_mem _ List.mem_cons_self)).mp hsecond⟩
    · obtain ⟨-, -, hnone⟩ := hlisted
      cases hnone
  · rintro (⟨first, rfl, hfirst, hsecond⟩ | ⟨first, second, rfl, hfirst, hsecond⟩)
    · exact ⟨(listing.builds, listing.last, ()), rfl, (hbuilds List.mem_cons_self).mpr hfirst,
        congrArg Absence.always hsecond.symm, rfl⟩
    · exact ⟨(listing.builds, listing.last, ()), rfl, (hbuilds List.mem_cons_self).mpr hfirst,
        (hlast (List.mem_cons_of_mem _ List.mem_cons_self)).mpr hsecond, rfl⟩

/-- **A listing is read from the text of one, and from no other.** -/
theorem read_listing_iff {listing : BuildListing} :
    read BuildListing text = .ok listing ↔ ListingText listing text := by
  constructor
  · intro h
    obtain ⟨ms, hms⟩ | ⟨item, items, rfl, hitems⟩ :=
      Schema.exists_text_of_decode BuildListing.settled_fields h
    · obtain ⟨hnames, ⟨m, honly, hbuilds⟩, hlast⟩ := (read_listing_members hms).mp h
      exact .object hms hnames honly hbuilds hlast
    · obtain ⟨first, rfl, hbuilds, hlast⟩ | ⟨first, second, rfl, hbuilds, hlast⟩ :=
        (read_listing_items hitems).mp h
      · exact .builds hitems hbuilds hlast
      · exact .both hitems hbuilds hlast
  · intro h
    cases h with
    | object hms hnames honly hbuilds hlast =>
      exact (read_listing_members hms).mpr ⟨hnames, ⟨_, honly, hbuilds⟩, hlast⟩
    | builds hitems hbuilds hlast =>
      exact (read_listing_items hitems).mpr (.inl ⟨_, rfl, hbuilds, hlast⟩)
    | both hitems hbuilds hlast =>
      exact (read_listing_items hitems).mpr (.inr ⟨_, _, rfl, hbuilds, hlast⟩)

/-- The value is that of the builds in a text: of a member of an object that is named so, or of the first
item of a list. -/
inductive BuildsValue (value : Bytes) : Bytes → Prop
  | member {ms : List Member} {m : Member} {text : Bytes} (hms : ObjectText ms text) (hm : m ∈ ms)
      (hname : m.Named "builds") (hvalue : m.value = value) : BuildsValue value text
  | item {item first : Item} {items : List Item} (hitems : ListText (first :: items) item.value)
      (hvalue : first.value = value) : BuildsValue value item.text

/-- The items of a list whose value is that of builds are their numerals, however it was told apart. -/
theorem BuildsText.numerals {builds : List BuildNumber} (h : BuildsText builds value)
    (hitems : ListText items value) : AreNumerals items builds := by
  have hreads := (reads_builds_iff_text (n := 0) (.bare value) hitems.valueText).mpr h
  exact (reads_builds_iff hitems).mp hreads

/-- What is read of the builds in a text is what their value lists. -/
theorem BuildsValue.text_of_read (h : BuildsValue value text) {listing : BuildListing}
    (hread : read BuildListing text = .ok listing) : BuildsText listing.builds value := by
  cases h with
  | member hms hm hname hvalue =>
    obtain ⟨-, ⟨m, honly, hbuilds⟩, -⟩ := (read_listing_members hms).mp hread
    obtain rfl := honly.eq hm hname
    exact hvalue ▸ hbuilds
  | item hitems hvalue =>
    obtain ⟨first, heq, hbuilds, -⟩ | ⟨first, second, heq, hbuilds, -⟩ :=
      (read_listing_items hitems).mp hread
    · obtain ⟨rfl, -⟩ := List.cons.inj heq
      exact hvalue ▸ hbuilds
    · obtain ⟨rfl, -⟩ := List.cons.inj heq
      exact hvalue ▸ hbuilds

/-- **Build numbers are exact.** A build number is read from the numeral of a number of 64 bits, with blanks
around it, and from no other text; the numeral is what it is shown and written as. A listing is read from
the texts that list such numerals, as these numbers in their order; one item that is no such numeral and
the listing is refused. -/
theorem build_numbers_exact :
    (∀ (text : Bytes) (n : Nat),
      (∃ build, read BuildNumber text = .ok build ∧ build.value.toNat = n) ↔
        n < UInt64.size ∧ ∃ item : Item, text = item.text ∧ Numeral item.value n) ∧
    (∀ build : BuildNumber, Document.text build = build.text ∧
      ∀ text, Numeral text build.value.toNat ↔ text = utf8 build.text) ∧
    (∀ text listing, read BuildListing text = .ok listing ↔ ListingText listing text) ∧
    ∀ (text value : Bytes) (items : List Item), BuildsValue value text → ListText items value →
      (∀ listing, read BuildListing text = .ok listing → AreNumerals items listing.builds) ∧
      ((∃ item ∈ items, ∀ n < UInt64.size, ¬Numeral item.value n) →
        ∀ listing, read BuildListing text ≠ .ok listing) := by
  refine ⟨fun text n => ?number, fun build => ⟨build.document_text, fun text => build.numeral_iff_text⟩,
    fun text listing => read_listing_iff, fun text value items hvalue hitems => ?items⟩
  case number =>
    constructor
    · rintro ⟨build, hread, rfl⟩
      exact ⟨build.value.toNat_lt, BuildNumber.read_iff.mp hread⟩
    · rintro ⟨hn, hnumeral⟩
      have hbuild : (UInt64.ofNat n).toNat = n := UInt64.toNat_ofNat_of_lt hn
      exact ⟨⟨UInt64.ofNat n⟩, BuildNumber.read_iff.mpr (hbuild.symm ▸ hnumeral), hbuild⟩
  case items =>
    have hall {listing : BuildListing} (hread : read BuildListing text = .ok listing) :
        AreNumerals items listing.builds :=
      (hvalue.text_of_read hread).numerals hitems
    refine ⟨fun listing => hall, ?_⟩
    rintro ⟨item, hitem, hother⟩ listing hread
    obtain ⟨n, hn, hnumeral⟩ := (hall hread).exists_numeral item hitem
    exact hother n hn hnumeral

/-- Other texts of small numbers, and the first number that 64 bits do not hold. -/
example : ∀ text ∈ ["01", "-0", "1.0", "1e2", "18446744073709551616"],
    (read BuildNumber (utf8 text)).toOption = none := by
  decide +kernel

/-- A number that no binary64 is, the two ends of the range in a listing, and a listing that a fraction of
zero spoils. -/
theorem build_numbers_exact_beyond_binary64 :
    (∃ build, read BuildNumber (utf8 " 9007199254740993\n") = .ok build ∧
      build.value.toNat = 9007199254740993) ∧
    read BuildListing (utf8 "\x7b\"builds\":[0,18446744073709551615]\x7d") =
      .ok ⟨[⟨0⟩, ⟨18446744073709551615⟩], none⟩ ∧
    (∃ items, ListText items (utf8 "[0,18446744073709551615]") ∧
      AreNumerals items [⟨0⟩, ⟨18446744073709551615⟩]) ∧
    ∀ listing, read BuildListing (utf8 "\x7b\"builds\":[7,7.0]\x7d") ≠ .ok listing := by
  obtain ⟨hnumber, -, hlisting, hvalue⟩ := build_numbers_exact
  have hname : StringText [0x62, 0x75, 0x69, 0x6C, 0x64, 0x73] := .plain (by decide +kernel)
  have hzero : Numeral [0x30] 0 := ⟨.zero, rfl⟩
  have hseven : Numeral [0x37] 7 := numeral_iff.mpr (by decide +kernel)
  have hlargest : Numeral (utf8 "18446744073709551615") 18446744073709551615 :=
    numeral_iff.mpr (by decide +kernel)
  have hdigit : DigitsText [0x30] := .digits rfl (List.forall_mem_nil _)
  have hfraction : ValueText [0x37, 0x2E, 0x30] :=
    .number (.parts hseven.integer (.digits hdigit) .missing)
  have hgood : ListText [.bare [0x30], .bare (utf8 "18446744073709551615")]
      (utf8 "[0,18446744073709551615]") :=
    .bare (List.forall_mem_cons.mpr
      ⟨hzero.valueText, List.forall_mem_singleton.mpr hlargest.valueText⟩) (by decide +kernel)
  have hbad : ListText [.bare [0x37], .bare [0x37, 0x2E, 0x30]] (utf8 "[7,7.0]") :=
    .bare (List.forall_mem_cons.mpr ⟨hseven.valueText, List.forall_mem_singleton.mpr hfraction⟩)
      (by decide +kernel)
  have hobject {value : Bytes} (h : ValueText value) {text : Bytes}
      (htext : text = utf8 "\x7b\"builds\":" ++ (value ++ [0x7D])) :
      ObjectText [.bare _ value hname] text := by
    refine .bare (List.forall_mem_singleton.mpr h) (htext.trans ?_)
    have hopening : utf8 "\x7b\"builds\":" =
        0x7B :: 0x22 :: ([0x62, 0x75, 0x69, 0x6C, 0x64, 0x73] ++ [0x22, 0x3A]) := by decide +kernel
    simp [hopening, Member.text_bare, commaSeparated]
  have hgoodText : ObjectText [.bare _ (utf8 "[0,18446744073709551615]") hname]
      (utf8 "\x7b\"builds\":[0,18446744073709551615]\x7d") := hobject hgood.valueText (by decide +kernel)
  have hbadText : ObjectText [.bare _ (utf8 "[7,7.0]") hname] (utf8 "\x7b\"builds\":[7,7.0]\x7d") :=
    hobject hbad.valueText (by decide +kernel)
  have hread : read BuildListing (utf8 "\x7b\"builds\":[0,18446744073709551615]\x7d") =
      .ok ⟨[⟨0⟩, ⟨18446744073709551615⟩], none⟩ := by
    refine (hlisting _ _).mpr (.object hgoodText ?_ ⟨[], [], rfl, rfl, List.forall_mem_nil _⟩
      ⟨_, hgood, .cons hzero (.cons hlargest .nil)⟩ (.inr ⟨?_, rfl⟩))
    · exact List.forall_mem_singleton.mpr ⟨"builds", rfl⟩
    · exact List.forall_mem_singleton.mpr fun hnamed =>
        absurd (Member.named_unique hnamed rfl) (by decide : "last_build_number" ≠ "builds")
  refine ⟨?_, hread, ⟨_, hgood, ?_⟩, ?_⟩
  · refine (hnumber _ _).mpr ⟨by decide, ⟨[0x20], utf8 "9007199254740993", [0x0A], ?_, ?_⟩, ?_, ?_⟩
    · exact List.forall_mem_singleton.mpr rfl
    · exact List.forall_mem_singleton.mpr rfl
    · decide +kernel
    · exact numeral_iff.mpr (by decide +kernel)
  · exact (hvalue _ _ _ (.member hgoodText List.mem_cons_self rfl rfl) hgood).1 _ hread
  · refine (hvalue _ _ _ (.member hbadText List.mem_cons_self rfl rfl) hbad).2
      ⟨.bare [0x37, 0x2E, 0x30], List.mem_cons_of_mem _ List.mem_cons_self, fun n _ hnumeral => ?_⟩
    have hpoint : isDigit 0x2E = true :=
      hnumeral.isDigit_of_mem (List.mem_cons_of_mem _ List.mem_cons_self)
    exact absurd hpoint (by decide)

end BuildBrowser
