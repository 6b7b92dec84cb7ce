import Tachometer.Filter.Basic
import Tachometer.Measure.Sampler

/-! # Routes from fans to outputs

Each output repeats the measured frequency of a fan, through a filter.

* `Route.ofLinks` — the routes of a table of links, which may be refused.
* `Route.feed` — the frequency that a route gives to its output after a window. -/

namespace Tachometer

/-- Where an output takes its signal from, as it stands in a configuration. -/
structure Link where
  /-- The fan whose frequency is repeated. -/
  source : Nat
  /-- The name of the filter's kind. -/
  filter : String
  /-- The settings text of the filter. -/
  settings : String
  deriving DecidableEq, Repr

/-- Where an output takes its signal from. -/
structure Route where
  /-- The fan whose frequency is repeated. -/
  source : Nat
  /-- The filter on the way. -/
  filter : Filter
  deriving DecidableEq, Repr

namespace Route

variable {n m : Nat}

/-! ## From links -/

/-- What came of a table of links. -/
structure Setup (m : Nat) where
  /-- The route of each output, or why the table was refused. -/
  result : Except Fault (Vector Route m)
  /-- What was reported. -/
  notices : List Notice

/-- A route that follows a link, with what was reported about its filter. -/
def ofLink (now : Instant) (link : Link) : Route × List Notice :=
  let configured := Filter.configured link.filter link.settings now
  (⟨link.source, configured.filter⟩, configured.notices)

/-- The reports on finished routes, in the order of the outputs. -/
def linkedNotices (routes : List Route) : List Notice :=
  routes.zipIdx.map fun (route, output) =>
    .outputLinked output route.source route.filter.kind.name

/-- The routes of a table of links from `n` fans. Every link's fan must exist; the first that
does not is the fault. Refused filter settings are reported and leave the signal unfiltered. -/
def ofLinks (n : Nat) (links : Vector Link m) (now : Instant) : Setup m :=
  match links.toList.find? fun link => n ≤ link.source with
  | some link => ⟨.error (.sourceChannelOutOfRange link.source), [.missingFan link.source]⟩
  | none =>
    let made := links.map (ofLink now)
    let routes := made.map (·.1)
    ⟨.ok routes, made.toList.flatMap (·.2) ++ linkedNotices routes.toList⟩

/-! ## Signals -/

/-- The signal that a route takes from the sampler; a fan that does not exist stands still. -/
def input (route : Route) (sampler : Sampler n) : Binary32 :=
  ((sampler.frequency? route.source).getD 0).convert

/-- Feeds the filter of a route with the last frequency of its fan, and gives the route afterwards
and the frequency for its output. -/
def feed (sampler : Sampler n) (now : Instant) (route : Route) : Route × Binary64 :=
  let (filter, result) := route.filter.apply (route.input sampler) now
  ({ route with filter }, result.convert)

/-- Feeding a route does not change its fan: `(route.feed sampler now).1.source = route.source`. -/
@[simp] theorem source_feed (sampler : Sampler n) (now : Instant) (route : Route) :
    (route.feed sampler now).1.source = route.source := rfl

end Route

end Tachometer
