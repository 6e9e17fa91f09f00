import RealmAccess.Expansion
import RealmAccess.Proofs.Services
import RealmAccess.Proofs.Walk
import RealmAccess.Proofs.StackWalk
/-!
# A successful expansion, step by step

`Config.expandUnchecked` registers the condition slots of the working realm list, walks every
realm, compacts its grants and finds its services, and last renumbers the permissions. This
module says once what a successful run of it consists of (`expandUnchecked_inv`), and what
`Walker.expandRealms` gives for each realm (`Walker.Expands`), so later proofs never unfold
either.
-/

namespace RealmAccess

/-- The bindings a project grants itself in its root realm: none for the internal project. -/
def Registry.implicitFor (registry : Registry) (project : String) : List Binding :=
  if project = internalProject then [] else registry.implicitBindings project

/-- The working realm list of a project's configuration. -/
def Config.workingGraph (config : Config) (registry : Registry) (project : String) : RealmGraph :=
  RealmGraph.build config (registry.implicitFor project)

/-- The walker over a project's working realm list, with the final condition numbers of
`index`. -/
def Config.walkerOf (config : Config) (registry : Registry) (project : String)
    (index : ConditionIndex) : Walker :=
  { graph := config.workingGraph registry project
    source := ⟨registry, config.customRoles⟩
    conditions := index }

/-- The expanded realm record of a walked realm. -/
def RealmRecord.ofEntry (project : String) (sorted : SortedNames)
    (entry : String × List BindingRecord × Option (List String)) : RealmRecord :=
  { name := project ++ ":" ++ entry.1
    bindings := BindingRecord.renumberAll sorted entry.2.1
    services := entry.2.2 }

theorem Trace.compact_eq_ok {trace : Trace} {bindings : List BindingRecord}
    (compacted : trace.compact = .ok bindings) :
    trace.stop = none ∧ bindings = RealmAccess.compact trace.grants := by
  unfold Trace.compact at compacted
  split at compacted
  · cases compacted
  · next running =>
      cases compacted
      exact ⟨running, rfl⟩

theorem Config.expandUnchecked_eq (config : Config) (registry : Registry) (project : String) :
    config.expandUnchecked registry project =
      (({} : ConditionTable).addAll (config.workingGraph registry project).slots >>= fun table =>
        match ((config.walkerOf registry project table.finalize.1).expandRealms
            (config.workingGraph registry project).realms).run.run {} with
        | (outcome, memo) => outcome >>= fun entries => pure
            { permissions := memo.roles.table.sorted.names
              conditions := table.finalize.2
              realms := entries.map (RealmRecord.ofEntry project memo.roles.table.sorted) }) := rfl

/-- A successful expansion registers every condition slot, walks every realm, and assembles
its output from the two. -/
theorem Config.expandUnchecked_inv {config : Config} {registry : Registry} {project : String}
    {out : Expansion} (expanded : config.expandUnchecked registry project = .ok out) :
    ∃ table entries memo,
      ({} : ConditionTable).addAll (config.workingGraph registry project).slots = .ok table ∧
      ((config.walkerOf registry project table.finalize.1).expandRealms
          (config.workingGraph registry project).realms).run.run {} = (.ok entries, memo) ∧
      out = { permissions := memo.roles.table.sorted.names
              conditions := table.finalize.2
              realms := entries.map (RealmRecord.ofEntry project memo.roles.table.sorted) } := by
  rw [expandUnchecked_eq] at expanded
  obtain ⟨table, registered, rest⟩ := bind_eq_ok_iff.mp expanded
  rcases walked : ((config.walkerOf registry project table.finalize.1).expandRealms
      (config.workingGraph registry project).realms).run.run {} with ⟨outcome, memo⟩
  rw [walked] at rest
  obtain ⟨entries, rfl, built⟩ := bind_eq_ok_iff.mp rest
  exact ⟨table, entries, memo, registered, walked, (Except.ok.inj built).symm⟩

/-- Expansion succeeds once the slots are registered and every realm is walked. -/
theorem Config.expandUnchecked_ok {config : Config} {registry : Registry} {project : String}
    {table : ConditionTable} {entries : List (String × List BindingRecord × Option (List String))}
    {memo : WalkMemo}
    (registered : ({} : ConditionTable).addAll (config.workingGraph registry project).slots = .ok table)
    (walked : ((config.walkerOf registry project table.finalize.1).expandRealms
      (config.workingGraph registry project).realms).run.run {} = (.ok entries, memo)) :
    ∃ out, config.expandUnchecked registry project = .ok out := by
  rw [expandUnchecked_eq, registered]
  exact ⟨_, by rw [bind_eq_ok_iff]; exact ⟨table, rfl, by rw [walked]; rfl⟩⟩

namespace Walker

variable {walker : Walker}

theorem walk_of_position {name : String} {r : Nat} (positioned : walker.graph.position name = .ok r)
    (room : Room) : walker.walk name room = walker.walkFrom r 0 room := by
  unfold walk
  rw [positioned]
  exact drain_start r room

theorem walk_of_unknown {name : String} {e : ExpandError}
    (unknown : walker.graph.position name = .error e) (room : Room) :
    walker.walk name room = pure { stop := some e } := by
  unfold walk
  rw [unknown]

/-- What expansion records for a realm, its permissions numbered in `table`: the compacted
grants of a walk from it that ran to its end, and the services that enforce it. The walk
resolved the role of every binding of the realm at the realm's position, so `table` numbers
every permission of those roles. -/
structure Expands (walker : Walker) (table : NameTable) (realm : Realm)
    (entry : String × List BindingRecord × Option (List String)) : Prop where
  name : entry.1 = realm.name
  walked : ∃ r grants, walker.graph.position realm.name = .ok r ∧ entry.2.1 = compact grants ∧
    (∀ g ∈ grants, ∃ r', Relation.ReflTransGen walker.graph.Step r r' ∧
      walker.Gives table r' g) ∧
    (∀ r', Relation.ReflTransGen walker.graph.Step r r' → walker.Covers table r' grants)
  services : walker.graph.ServicesOf realm.name entry.2.2
  numbered : ∀ r, walker.graph.position realm.name = .ok r → ∀ walked,
    walker.graph.realms[r]? = some walked → ∀ binding ∈ walked.bindings, ∀ permission,
      walker.source.Grants binding.role permission → permission ∈ table.names

theorem Expands.mono {table table' : NameTable} {realm : Realm}
    {entry : String × List BindingRecord × Option (List String)}
    (extended : table.names <+: table'.names) (expands : walker.Expands table realm entry) :
    walker.Expands table' realm entry := by
  obtain ⟨named, ⟨r, grants, positioned, compacted, given, covered⟩, served, numbered⟩ := expands
  refine ⟨named, ⟨r, grants, positioned, compacted, fun g member => ?_,
    fun r' reached => (covered r' reached).mono extended (List.Subset.refl _)⟩, served,
    fun r positioned walked found binding member permission granted =>
      extended.subset (numbered r positioned walked found binding member permission granted)⟩
  obtain ⟨r', reached, gives⟩ := given g member
  exact ⟨r', reached, gives.mono extended⟩

/-- Expanding realms one after another: each realm's record is what `Expands` says, numbered in
the final role memo, which stays sound, only grows and numbers only permissions of the roles of
bindings; the services memo stays sound. -/
theorem expandRealms_spec :
    ∀ (realms : List Realm) {memo memo' : WalkMemo}
      {entries : List (String × List BindingRecord × Option (List String))},
      memo.roles.Sound walker.source → ServicesSound walker.graph memo →
      (walker.expandRealms realms).run.run memo = (.ok entries, memo') →
      memo'.roles.Sound walker.source ∧ memo.roles.Extends memo'.roles ∧
        ServicesSound walker.graph memo' ∧
          List.Forall₂ (walker.Expands memo'.roles.table) realms entries ∧
          walker.NumbersGranted memo.roles.table memo'.roles.table
  | [], memo, memo', entries, sound, servicesSound, ran => by
      simp only [expandRealms, run_run_pure] at ran
      obtain ⟨rfl, rfl⟩ := ran
      exact ⟨sound, .refl memo.roles, servicesSound, .nil, .refl _⟩
  | realm :: more, memo, memo', entries, sound, servicesSound, ran => by
      rw [expandRealms] at ran
      simp only [run_run_bind] at ran
      rcases walkRan : (walker.walk realm.name none).run memo with ⟨trace, afterWalk⟩
      rw [run_run_liftM_of_run walkRan] at ran
      simp only [run_run_liftM_except] at ran
      cases compacted : trace.compact with
      | error e =>
          rw [compacted] at ran
          cases ran
      | ok bindings =>
          obtain ⟨running, rfl⟩ := Trace.compact_eq_ok compacted
          rw [compacted] at ran
          simp only at ran
          -- the walk reached its end, so the realm has a position and was walked from there
          cases positioned : walker.graph.position realm.name with
          | error e =>
              rw [walk_of_unknown positioned] at walkRan
              cases walkRan
              cases running
          | ok r =>
          rw [walk_of_position positioned] at walkRan
          obtain ⟨walkKept, walkGives, walkCovers⟩ := walksFrom walker r 0 memo trace afterWalk sound walkRan
          have servicesAfterWalk : ServicesSound walker.graph afterWalk := by
            unfold ServicesSound
            rw [walkKept.services]
            exact servicesSound
          rcases servicesRan : (walker.services realm.name).run.run afterWalk with
            ⟨answer, afterServices⟩
          obtain ⟨servicesRoles, servicesSound', answered⟩ :=
            services_spec walker realm.name servicesAfterWalk servicesRan
          rw [servicesRan] at ran
          cases answer with
          | error e => cases ran
          | ok services =>
          simp only at ran
          rcases restRan : (walker.expandRealms more).run.run afterServices with
            ⟨restResult, afterRest⟩
          rw [restRan] at ran
          cases restResult with
          | error e => cases ran
          | ok rest =>
          simp only [run_run_pure] at ran
          obtain ⟨rfl, rfl⟩ := ran
          have restSoundAtStart : afterServices.roles.Sound walker.source := by
            rw [servicesRoles]
            exact walkKept.sound
          obtain ⟨restSound, restGrows, restServices, restExpands, restNumbers⟩ :=
            expandRealms_spec more restSoundAtStart servicesSound' restRan
          obtain ⟨walkCovered, walkRemembered, walkNumbers⟩ := walkCovers running
          have servicesNumbers : walker.NumbersGranted afterWalk.roles.table afterServices.roles.table := by
            rw [servicesRoles]
            exact .refl _
          have grows : memo.roles.Extends memo'.roles := by
            have walkThenServices : memo.roles.Extends afterServices.roles := by
              rw [servicesRoles]
              exact walkKept.grows
            exact walkThenServices.trans restGrows
          have walkGrows : afterWalk.roles.table.names <+: memo'.roles.table.names := by
            have servicesThenRest := restGrows.names
            rw [servicesRoles] at servicesThenRest
            exact servicesThenRest
          have rolesGrow : afterWalk.roles.Extends memo'.roles := by
            rw [← servicesRoles]
            exact restGrows
          refine ⟨restSound, grows, restServices, .cons ?_ restExpands,
            walkNumbers.trans (servicesNumbers.trans restNumbers)⟩
          refine ⟨rfl, ⟨r, trace.grants, positioned, rfl, fun g member => ?_, fun r' reached => ?_⟩,
            answered services rfl, fun r' positioned' walked found binding member permission granted => ?_⟩
          · obtain ⟨r', reached, gives⟩ := walkGives g member
            exact ⟨r', reached, gives.mono walkGrows⟩
          · exact (walkCovered r' reached).mono walkGrows (List.Subset.refl _)
          · -- the realm was walked from its position, where it resolved the role of each binding
            rw [positioned] at positioned'
            cases positioned'
            exact restSound.mem_names (rolesGrow.remembers (walkRemembered walked found binding member))
              granted

end Walker

end RealmAccess
