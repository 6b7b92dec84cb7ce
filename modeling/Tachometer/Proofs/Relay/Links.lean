import Tachometer.Proofs.Filter.Configured
import Tachometer.Relay.Route

/-! # What comes of a table of links

The links of a station are checked once, when it is set up. A fan that does not exist is an error,
and nothing is made of the table; refused filter settings are a warning, and the signal is not
filtered.

* `Link.refusal?` — the report on refused filter settings.
* `Route.ofLinks_cases` — everything that can come of a table of links.
* `Route.Checked`, `Route.checked` — when it is refused, and what is reported. -/

namespace Tachometer

/-! ## Single links -/

/-- The report on the filter settings of a link, if they are refused. -/
def Link.refusal? (now : Instant) (link : Link) : Option Notice :=
  if Kind.Named link.filter then
    match Kind.peakHold.read (some link.settings) now with
    | .ok _ => none
    | .error fault => some (.filterRejected "lossypeak" fault)
  else none

/-- A refused filter is reported as a warning: `notice.level = .warn`. -/
theorem Link.level_of_refusal? {now : Instant} {link : Link} {notice : Notice}
    (h : link.refusal? now = some notice) : notice.level = .warn := by
  unfold refusal? at h
  split at h
  case isFalse => exact absurd h (by simp)
  case isTrue =>
    split at h
    · exact absurd h (by simp)
    · rw [← Option.some.inj h]
      rfl

namespace Route

variable {n m : Nat}

/-- What is reported of a link is that its filter was refused, if it was:
`(ofLink now link).2 = (link.refusal? now).toList`. -/
theorem notices_ofLink (now : Instant) (link : Link) :
    (ofLink now link).2 = (link.refusal? now).toList := by
  have h := Filter.configures link.filter link.settings now
  show (Filter.configured link.filter link.settings now).notices = _
  unfold Link.refusal?
  by_cases hnamed : Kind.Named link.filter
  · rw [if_pos hnamed]
    split
    case h_1 p hread => exact h.silent (by simp [hread])
    case h_2 fault hread => exact h.notices_eq fault hnamed hread
  · rw [if_neg hnamed]
    exact h.silent fun hboth => hnamed hboth.1

/-- The report on the route of each output. -/
theorem linkedNotices_toList (routes : Vector Route m) :
    linkedNotices routes.toList = List.ofFn fun output : Fin m =>
      .outputLinked output (routes.get output).source (routes.get output).filter.kind.name := by
  refine List.ext_getElem (by simp [linkedNotices]) fun output hlt hlt' => ?_
  simp [linkedNotices, Vector.get]

/-! ## Tables of links -/

/-- The first link whose fan does not exist. -/
structure FirstMissing (n : Nat) (links : Vector Link m) (first : Fin m) : Prop where
  /-- Its fan does not exist. -/
  le_source : n ≤ (links.get first).source
  /-- Those of the links before it do. -/
  source_lt : ∀ output < first, (links.get output).source < n

/-- There is only one. -/
theorem FirstMissing.unique {links : Vector Link m} {first first' : Fin m}
    (h : FirstMissing n links first) (h' : FirstMissing n links first') : first' = first := by
  rcases lt_trichotomy first' first with hlt | heq | hlt
  · exact absurd (h.source_lt first' hlt) (Nat.not_lt.mpr h'.le_source)
  · exact heq
  · exact absurd (h'.source_lt first hlt) (Nat.not_lt.mpr h.le_source)

/-- The search among the links finds the first one whose fan does not exist:
`∃ first, FirstMissing n links first ∧ links.get first = link`. -/
theorem firstMissing_of_find? {links : Vector Link m} {link : Link}
    (h : links.toList.find? (fun link => n ≤ link.source) = some link) :
    ∃ first, FirstMissing n links first ∧ links.get first = link := by
  obtain ⟨hle, first, hlt, hlink, hbefore⟩ := List.find?_eq_some_iff_getElem.mp h
  have hfirst : first < m := by
    simpa using hlt
  have hget : links.get ⟨first, hfirst⟩ = link := by
    simpa [Vector.get] using hlink
  refine ⟨⟨first, hfirst⟩, ⟨?_, fun output houtput => ?_⟩, hget⟩
  · rw [hget]
    simpa using hle
  · simpa [Vector.get] using hbefore output houtput

/-- If no link is found that asks for a fan that does not exist, every output has a fan:
`(links.get output).source < n`. -/
theorem source_lt_of_find? {links : Vector Link m}
    (h : links.toList.find? (fun link => n ≤ link.source) = none) (output : Fin m) :
    (links.get output).source < n := by
  simpa using List.find?_eq_none.mp h (links.get output) (by simp [Vector.get])

/-- **Links.** Everything that can come of a table of links: the first fan that does not exist, or
the routes. -/
theorem ofLinks_cases (n : Nat) (links : Vector Link m) (now : Instant) :
    (∃ first, FirstMissing n links first ∧ ofLinks n links now =
      ⟨.error (.sourceChannelOutOfRange (links.get first).source),
        [.missingFan (links.get first).source]⟩) ∨
    (∀ output, (links.get output).source < n) ∧ ofLinks n links now =
      ⟨.ok ((links.map (ofLink now)).map (·.1)),
        links.toList.filterMap (Link.refusal? now) ++ List.ofFn fun output : Fin m =>
          .outputLinked output (links.get output).source
            (ofLink now (links.get output)).1.filter.kind.name⟩ := by
  cases hfind : links.toList.find? fun link => n ≤ link.source with
  | some link =>
    obtain ⟨first, hfirst, rfl⟩ := firstMissing_of_find? hfind
    exact .inl ⟨first, hfirst, by simp [ofLinks, hfind]⟩
  | none =>
    refine .inr ⟨source_lt_of_find? hfind, ?_⟩
    -- both parts of the report can be read off the links, without the routes
    have hrefusals : (links.map (ofLink now)).toList.flatMap (·.2) =
        links.toList.filterMap (Link.refusal? now) := by
      rw [Vector.toList_map, List.flatMap_map, List.filterMap_eq_flatMap_toList]
      simp only [notices_ofLink]
    have hlinked : linkedNotices ((links.map (ofLink now)).map (·.1)).toList =
        List.ofFn fun output : Fin m => .outputLinked output (links.get output).source
          (ofLink now (links.get output)).1.filter.kind.name := by
      rw [linkedNotices_toList]
      congr 1
      funext output
      simp [Vector.get, ofLink]
    rw [← hrefusals, ← hlinked]
    simp [ofLinks, hfind]

/-- What comes of a table of links to `n` fans. -/
structure Checked (n : Nat) (links : Vector Link m) (now : Instant) : Prop where
  /-- It is refused exactly when a link has a fan that does not exist. -/
  fails_iff : (∃ fault, (ofLinks n links now).result = .error fault) ↔
    ∃ output, n ≤ (links.get output).source
  /-- The first such link is the reason, and all that is reported. -/
  rejects : ∀ first, FirstMissing n links first →
    (ofLinks n links now).result =
        .error (.sourceChannelOutOfRange (links.get first).source) ∧
      (ofLinks n links now).notices = [.missingFan (links.get first).source]
  /-- Otherwise the refused settings are reported, in the order of the links, and then the route
  of each output, in the order of the outputs. -/
  accepts : (∀ output, (links.get output).source < n) →
    (ofLinks n links now).notices =
      links.toList.filterMap (Link.refusal? now) ++ List.ofFn fun output : Fin m =>
        .outputLinked output (links.get output).source
          (ofLink now (links.get output)).1.filter.kind.name
  /-- The former is an error, the latter are warnings and then information. -/
  levels_eq : (ofLinks n links now).notices.map Notice.level =
    if ∃ output, n ≤ (links.get output).source then [.error]
    else List.replicate (links.toList.filterMap (Link.refusal? now)).length .warn ++
      List.replicate m .info

/-- All refused filters are reported as warnings. -/
theorem map_level_refusals (now : Instant) (links : List Link) :
    (links.filterMap (Link.refusal? now)).map Notice.level =
      List.replicate (links.filterMap (Link.refusal? now)).length .warn := by
  rw [List.map_eq_replicate_iff]
  intro notice hmem
  obtain ⟨link, -, hlink⟩ := List.mem_filterMap.mp hmem
  exact Link.level_of_refusal? hlink

/-- **Checks.** The fans of links are checked first, and their filters after that. -/
theorem checked (n : Nat) (links : Vector Link m) (now : Instant) : Checked n links now := by
  obtain ⟨first, hfirst, hlinks⟩ | ⟨hsource, hlinks⟩ := ofLinks_cases n links now
  · have hmissing : ∃ output, n ≤ (links.get output).source := ⟨first, hfirst.le_source⟩
    constructor
    case fails_iff => exact iff_of_true ⟨_, congrArg Setup.result hlinks⟩ hmissing
    case rejects =>
      intro first' hfirst'
      rw [hlinks, hfirst.unique hfirst']
      exact ⟨rfl, rfl⟩
    case accepts =>
      intro hsource
      exact absurd (hsource first) (Nat.not_lt.mpr hfirst.le_source)
    case levels_eq =>
      rw [hlinks, if_pos hmissing]
      rfl
  · have hmissing : ¬∃ output, n ≤ (links.get output).source := by
      rintro ⟨output, hle⟩
      exact absurd (hsource output) (Nat.not_lt.mpr hle)
    constructor
    case fails_iff =>
      rw [hlinks]
      exact iff_of_false (by simp) hmissing
    case rejects =>
      intro first hfirst
      exact absurd ⟨first, hfirst.le_source⟩ hmissing
    case accepts =>
      intro _
      rw [hlinks]
    case levels_eq =>
      -- every refusal is a warning, and there is one route for each output
      rw [if_neg hmissing, hlinks, List.map_append, map_level_refusals, List.map_ofFn]
      congr 1
      exact List.ofFn_const m Level.info

/-- Settings without numbers are reported before both routes. -/
example : ((ofLinks 1 #v[⟨0, "none", ""⟩, ⟨0, "LossyPeak", "fast"⟩] ⟨0⟩).notices.map
    Notice.level) = [.warn, .info, .info] := by
  decide +kernel

end Route

end Tachometer
