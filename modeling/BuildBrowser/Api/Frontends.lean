import BuildBrowser.Api.Error
import BuildBrowser.Text.Blank

/-!
# Frontends — the servers that calls go to

A frontend is the base of the URLs of its calls. Configured texts lose the blanks at their ends and
then the slashes at their end; those that nothing is left of are dropped, and at least one must stay.
Calls go to the frontends in turn: a counter advances by one at each call, whatever comes of it. The
counter has 64 bits and starts over when they are used up.
-/

namespace BuildBrowser.Api

/-- The frontend that a configured text names. -/
def frontend (text : String) : String :=
  String.ofList (Text.dropEnd (· = '/') (Text.strip Text.isBlank text.toList))

/-- Frontends, at least one, with the counter of calls. -/
structure Frontends where
  urls : List String
  used : UInt64
  urls_ne_nil : urls ≠ []

namespace Frontends

/-- The frontends that configured texts name. -/
def ofTexts (texts : List String) : Except Error Frontends :=
  let urls := (texts.map frontend).filter (· ≠ "")
  if h : urls = [] then .error .noFrontend else .ok ⟨urls, 0, h⟩

/-- The place in the list of the frontend for the next call. -/
def index (frontends : Frontends) : Nat :=
  frontends.used.toNat % frontends.urls.length

theorem index_lt (frontends : Frontends) : frontends.index < frontends.urls.length :=
  Nat.mod_lt _ (List.length_pos_iff.mpr frontends.urls_ne_nil)

/-- The frontend for the next call, and the frontends after it. -/
def next (frontends : Frontends) : String × Frontends :=
  (frontends.urls.get ⟨frontends.index, frontends.index_lt⟩, { frontends with used := frontends.used + 1 })

end Frontends

end BuildBrowser.Api
