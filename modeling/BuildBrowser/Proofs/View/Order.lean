import BuildBrowser.Proofs.Text.Order
import BuildBrowser.Proofs.View.LastReply
import BuildBrowser.Render.Scope

/-!
# Listings are sorted, and do not show the order of the server

Jobs are listed in the order of the bytes of their names, builds by their numbers, the greatest first.
Sorting moves what it is given and nothing else, and both orders leave no choice between two things
that are different, so **the law** is that a listing depends on how often it has each thing and not on
where it had it (`sortJobs_eq_of_perm`, `sortNewestFirst_eq_of_perm`). What a view shows is its last
listing, sorted; so the views of two servers that list the same in different orders are the same.
-/

namespace BuildBrowser

/-! ## Sorting -/

theorem sortJobs_perm (jobs : List JobId) : (sortJobs jobs).Perm jobs :=
  List.mergeSort_perm jobs _

theorem sortNewestFirst_perm (builds : List BuildNumber) : (sortNewestFirst builds).Perm builds :=
  List.mergeSort_perm builds _

theorem sortJobs_pairwise (jobs : List JobId) :
    (sortJobs jobs).Pairwise fun a b => a.text ≤ b.text := by
  have hsorted : (sortJobs jobs).Pairwise fun a b => Identifier.listedBefore a b = true := by
    refine List.pairwise_mergeSort (fun a b c hab hbc => ?_) (fun a b => ?_) jobs
    · exact decide_eq_true (String.le_trans (of_decide_eq_true hab) (of_decide_eq_true hbc))
    · simpa [Identifier.listedBefore] using String.le_total a.text b.text
  exact hsorted.imp fun h => of_decide_eq_true h

theorem sortNewestFirst_pairwise (builds : List BuildNumber) :
    (sortNewestFirst builds).Pairwise fun a b => b.value ≤ a.value := by
  have hsorted : (sortNewestFirst builds).Pairwise fun a b => decide (b.value ≤ a.value) = true := by
    refine List.pairwise_mergeSort (fun a b c hab hbc => ?_) (fun a b => ?_) builds
    · exact decide_eq_true (UInt64.le_trans (of_decide_eq_true hbc) (of_decide_eq_true hab))
    · simpa using UInt64.le_total b.value a.value
  exact hsorted.imp fun h => of_decide_eq_true h

/-- A listing of jobs depends on which names there are and how often. -/
theorem sortJobs_eq_of_perm {jobs others : List JobId} (h : jobs.Perm others) :
    sortJobs jobs = sortJobs others := by
  have hperm := ((sortJobs_perm jobs).trans h).trans (sortJobs_perm others).symm
  refine hperm.eq_of_pairwise (fun a b _ _ hab hba => ?_) (sortJobs_pairwise jobs)
    (sortJobs_pairwise others)
  exact congrArg Identifier.mk (String.le_antisymm hab hba)

/-- A listing of builds depends on which numbers there are and how often. -/
theorem sortNewestFirst_eq_of_perm {builds others : List BuildNumber} (h : builds.Perm others) :
    sortNewestFirst builds = sortNewestFirst others := by
  have hperm := ((sortNewestFirst_perm builds).trans h).trans (sortNewestFirst_perm others).symm
  refine hperm.eq_of_pairwise (fun a b _ _ hab hba => ?_) (sortNewestFirst_pairwise builds)
    (sortNewestFirst_pairwise others)
  exact congrArg BuildNumber.mk (UInt64.le_antisymm hba hab)

/-! ## Views of servers that list the same -/

/-- The job list after any session, by the last listing. -/
theorem JobListScope.eq_of_session {events : List Event} {scope : JobListScope} {listing : JobListing}
    (session : Session activate operations events scope)
    (hlast : lastReceived JobListing .listJobs events = some listing) :
    scope = ⟨some (sortJobs listing.jobs)⟩ := by
  have hreceived : lastReceived JobListing (keeper.endpoint start) events = some listing := hlast
  rw [Keeper.scope_of_session load_followed operations_followed session, hreceived]
  rfl

/-- The view of a job's builds after any session, by the last listing. -/
theorem JobBuildsScope.eq_of_session {job : JobId} {events : List Event} {scope : JobBuildsScope}
    {listing : BuildListing} (session : Session (activate job) operations events scope)
    (hlast : lastReceived BuildListing (.listBuilds job) events = some listing) :
    scope = ⟨job, some (sortNewestFirst listing.builds)⟩ := by
  have hreceived : lastReceived BuildListing (keeper.endpoint (start job)) events = some listing :=
    hlast
  rw [Keeper.scope_of_session update_followed operations_followed session, hreceived]
  rfl

end BuildBrowser
