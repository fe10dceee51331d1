import BuildBrowser.Api.Script
import BuildBrowser.Disk

/-!
# Rehearsals — programs against a scripted server and files in memory

A rehearsal runs a program without a network: its requests go to a scripted server, and its files
are those of a disk in memory.
-/

namespace BuildBrowser

/-- A scripted server, a disk, and what has been written. -/
structure Rehearsal where
  server : Api.Server
  disk : Disk
  streams : Streams

namespace Rehearsal

/-- A rehearsal as the world of a program. -/
def world : Program.World (StateM Rehearsal) where
  send request := fun r =>
    let answer := r.server.send request
    (answer.1, { r with server := answer.2 })
  load path := fun r => (r.disk.load path, r)
  save path content := fun r =>
    match r.disk.save path content with
    | .ok disk => (.ok (), { r with disk })
    | .error fault => (.error fault, r)
  write what := fun r => ((), { r with streams := r.streams.add what })

/-- The result of a program in a rehearsal, and the rehearsal after it. -/
def run {α : Type} (program : Program α) (r : Rehearsal) : α × Rehearsal :=
  (program.run world).run r

end Rehearsal

end BuildBrowser
