import MulticastRelay.Topology.Association

/-! # Resolving wildcards

A matcher that accepts a link binds the link's interface to its group: as a destination it joins the
group and everything made from it, as a source it gets a group of its own made from the template.
-/
namespace MulticastRelay.Topology

/-- Registers a stem with a group. A source matcher turns a push group into a template. -/
def addMatcher (t : Topology) (group : GroupId) (stem : String) (role : Role) :
    Except TopologyError (Matcher × Topology) :=
  match t.group? group with
  | none => .error (.unknownGroup group.render)
  | some g =>
    let t := if role = .source ∧ g.mode = .push then t.modifyGroup group Group.makeTemplate else t
    let matcher : Matcher := ⟨stem, g.name, role, g.mode, g.relayType⟩
    .ok (matcher, { t with matchers := (t.matchers.insert matcher).2 })

/-- The name of the group made from a template for a source. -/
def instanceName (template source : String) : String := template.push instanceMark ++ source

/-- The group made from a template for a source: the one of that name if there is one, which takes the
interface as member and source, else a new one. -/
def instantiate (t : Topology) (template : String) (source : InterfaceId) (sourceName : String) :
    Except TopologyError (GroupId × Topology) :=
  let name := instanceName template sourceName
  match t.handleOf? name with
  | some id =>
    .ok (id, t.modifyGroup id fun g => { g.insertMember source with source := some source })
  | none =>
    match t.groupNamed? template with
    | none => .error (.unknownGroup template)
    | some base =>
      if base.mode = .push then
        let id : GroupId := ⟨t.lastGroup + 1⟩
        .ok (id, t.insertGroup (base.instantiate id name source))
      else .error (.notPushGroup template)

/-- Adds an interface to groups, except where it is the source. -/
def joinAll (t : Topology) (groups : List GroupId) (id : InterfaceId) : Topology :=
  groups.foldl
    (fun t group => t.modifyGroup group fun g => if g.source = some id then g else g.insertMember id) t

/-- The association passes of some groups, with the first conflict among them. -/
def associateAll (t : Topology) (groups : List GroupId) : Option TopologyError × Topology :=
  groups.foldl
    (fun (first, t) group =>
      let (outcome, t) := t.associate group
      match outcome with
      | .ok _ => (first, t)
      | .error e => (first <|> some e, t))
    (none, t)

/-- Binds a link to the group of a matcher and lists the groups it touched. The interface stays when
the group cannot be resolved. -/
def resolve (t : Topology) (m : Matcher) (link : Link) : Except TopologyError (List GroupId) × Topology :=
  let id : InterfaceId := ⟨link.index⟩
  let t := t.addInterface id link.name
  let bound : Except TopologyError (List GroupId × Topology) :=
    match m.role with
    | .source => (t.instantiate m.group id link.name).map fun (group, t) => ([group], t)
    | .destination =>
      let groups := t.groupsSharingName m.group
      if groups.isEmpty then .error (.unknownGroup m.group) else .ok (groups, t.joinAll groups id)
  match bound with
  | .error e => (.error e, t)
  | .ok (touched, t) =>
    let (conflict, t) := t.associateAll touched
    let t := if (t.groupsOf id).isEmpty then t.removeInterface id else t
    match conflict with
    | some e => (.error e, t)
    | none => (.ok touched, t)

/-- Resolves a matcher against the links that are up and counts the ones bound. Every link is tried;
the first error is the outcome. -/
def matchLinks (t : Topology) (m : Matcher) (links : List Link) : Except TopologyError Nat × Topology :=
  let (bound, first, t) := (links.filter fun l => l.up && m.accepts l.name).foldl step (0, none, t)
  match first with
  | some e => (.error e, t)
  | none => (.ok bound, t)
where
  step : Nat × Option TopologyError × Topology → Link → Nat × Option TopologyError × Topology
    | (bound, first, t), link =>
      match t.resolve m link with
      | (.ok _, t) => (bound + 1, first, t)
      | (.error e, t) => (bound, first <|> some e, t)

/-- Resolves every matcher that accepts a link that came up and lists the groups touched, in ascending
order. A matcher that fails reports nothing and the next one is tried. -/
def linkUp (t : Topology) (link : Link) : List GroupId × Topology :=
  if !link.up then ([], t)
  else
    let (touched, t) := (t.matchers.matching link.name).foldl
      (fun (touched, t) m =>
        match t.resolve m link with
        | (.ok groups, t) => (touched ++ groups, t)
        | (.error _, t) => (touched, t))
      ([], t)
    (Ascending.ofList GroupId.before touched, t)

end MulticastRelay.Topology
