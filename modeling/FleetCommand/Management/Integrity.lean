import FleetCommand.Lib.KeyedTables
import FleetCommand.Lib.SecondaryIndex
import FleetCommand.Management.RouteCoverage
import FleetCommand.Management.UniqueKeys

/-!
# Integrity of the stored records

The repositories as tables: the row checks of each kind of record, the indexes, and the references
the database schema declares as foreign keys (`Repos.Sound`), but that of a vehicle to its driver,
which no method looks up; and what never changes about a record once it is stored
(`Repos.Evolves`).

`Permits` is a condition on a single repository call under which it keeps all of this
(`memory_permits`). It asks nothing of the calls that came before, so it is the condition a method
has to meet whatever runs beside it.
-/

set_option autoImplicit false

namespace FleetCommand.Management

open Resumption KeyedTable SecondaryIndex

/-! ## What a record keeps -/

/-- The fields of a driver no method changes. -/
def Driver.fixed (d : Driver) : String × String × Instant := (d.id, d.email, d.createdAt)

/-- The fields of a vehicle no method changes. -/
def Vehicle.fixed (v : Vehicle) : String × String × String × JsNumber × Instant :=
  (v.id, v.identifier, v.type, v.capacityKg, v.createdAt)

/-- The fields of a delivery no method changes. -/
def Delivery.fixed (d : Delivery) :
    String × String × String × String × JsNumber × GeoPoint × String × Instant :=
  (d.id, d.address, d.recipientName, d.recipientContact, d.weightKg, d.destination,
    d.trackingToken, d.createdAt)

/-- The fields of an assignment no method changes. -/
def Assignment.fixed (a : Assignment) : String × String × String × Instant :=
  (a.id, a.driverId, a.vehicleId, a.createdAt)

/-- The fixed fields stay, and a vehicle with a driver never loses it for none. -/
structure Vehicle.Becomes (v v' : Vehicle) : Prop where
  fixed : v.fixed = v'.fixed
  associated : v.driverId.isSome → v'.driverId.isSome

theorem Vehicle.Becomes.refl (v : Vehicle) : v.Becomes v := ⟨rfl, fun h => h⟩

theorem Vehicle.Becomes.trans {a b c : Vehicle} (h : a.Becomes b) (h' : b.Becomes c) :
    a.Becomes c :=
  ⟨h.fixed.trans h'.fixed, h'.associated ∘ h.associated⟩

/-- The ids a set of calls can take. -/
def Taken (ids : IdGenerator) (issued : Nat → Prop) (id : String) : Prop :=
  ∃ n, issued n ∧ id = ids.gen n

/-- Every record stays, with its fixed fields; the ids added are those of the calls `issued`; a
published route is not taken back. -/
structure Repos.Evolves (cfg : Config) (issued : Nat → Prop) (s s' : Repos) : Prop where
  drivers : KeyedTable.Evolves (SameBy Driver.fixed) (Taken cfg.driverId issued)
    s.drivers.byId s'.drivers.byId
  vehicles : KeyedTable.Evolves Vehicle.Becomes (Taken cfg.vehicleId issued)
    s.vehicles.byId s'.vehicles.byId
  deliveries : KeyedTable.Evolves (SameBy Delivery.fixed) (Taken cfg.deliveryId issued)
    s.deliveries s'.deliveries
  assignments : KeyedTable.Evolves (SameBy Assignment.fixed)
    (Taken cfg.assignmentId issued) s.assignments s'.assignments
  routes : KeyedTable.Evolves (SameBy Route.assignmentId) (fun _ => True)
    s.routes s'.routes
  published : s.publishCalls <+: s'.publishCalls

namespace Repos.Evolves

variable {cfg : Config} {issued issued' : Nat → Prop} {s s' s'' : Repos}

theorem refl (s : Repos) : s.Evolves cfg issued s where
  drivers := .refl (SameBy.refl _) _
  vehicles := .refl Vehicle.Becomes.refl _
  deliveries := .refl (SameBy.refl _) _
  assignments := .refl (SameBy.refl _) _
  routes := .refl (SameBy.refl _) _
  published := List.prefix_refl _

theorem trans (h : s.Evolves cfg issued s') (h' : s'.Evolves cfg issued s'') :
    s.Evolves cfg issued s'' where
  drivers := h.drivers.trans SameBy.trans h'.drivers
  vehicles := h.vehicles.trans Vehicle.Becomes.trans h'.vehicles
  deliveries := h.deliveries.trans SameBy.trans h'.deliveries
  assignments := h.assignments.trans SameBy.trans h'.assignments
  routes := h.routes.trans SameBy.trans h'.routes
  published := h.published.trans h'.published

theorem mono (h : s.Evolves cfg issued s') (hissued : ∀ n, issued n → issued' n) :
    s.Evolves cfg issued' s' := by
  have hmono : ∀ (ids : IdGenerator) id, Taken ids issued id → Taken ids issued' id := by
    rintro ids id ⟨n, hn, hid⟩
    exact ⟨n, hissued n hn, hid⟩
  exact
    { drivers := h.drivers.mono (hmono _)
      vehicles := h.vehicles.mono (hmono _)
      deliveries := h.deliveries.mono (hmono _)
      assignments := h.assignments.mono (hmono _)
      routes := h.routes
      published := h.published }

end Repos.Evolves

/-! ## Row checks -/

/-- A vehicle has a driver since some time or neither, and the driver's id is not blank. -/
structure Vehicle.Consistent (v : Vehicle) : Prop where
  associated : v.driverId.isSome ↔ v.associatedAt.isSome
  present : ∀ id, v.driverId = some id → isMissing (some id) = false

/-- The fields that belong to a status are set in it and in no other, a failure reason is valid, and
a delivery that was never assigned has no assignment. -/
structure Delivery.Consistent (d : Delivery) : Prop where
  completed : d.completedAt.isSome ↔ d.status = .completed
  failed : d.failureReason.isSome ↔ d.status = .failed
  reason : d.status = .failed → isValidFailureReason d.failureReason = true
  created : d.status = .created → d.assignmentId = none

/-- An assignment is accepted at some time, and not before. -/
structure Assignment.Consistent (a : Assignment) : Prop where
  pending : a.status = .pending → a.acceptedAt = none
  accepted : a.status = .accepted → a.acceptedAt.isSome

/-- Stops carry their positions, and no delivery is on two of them or twice on one. -/
structure StopsConsistent (stops : List RouteStop) : Prop where
  indexed : Indexed stops
  nodup : (coveredIds stops).Nodup

/-- The record is stored under its own id, which its generator issued. -/
def IssuedUnder (ids : IdGenerator) (idOf : String) (key : String) : Prop :=
  idOf = key ∧ ∃ n, key = ids.gen n

/-! ## The schema -/

/-- Row by row, the records are consistent. -/
structure Repos.RowsConsistent (cfg : Config) (s : Repos) : Prop where
  drivers : Rows (fun key d => IssuedUnder cfg.driverId d.id key) s.drivers.byId
  vehicles : Rows (fun key v => IssuedUnder cfg.vehicleId v.id key ∧ v.Consistent) s.vehicles.byId
  deliveries : Rows (fun key d => d.id = key ∧ d.Consistent ∧
    ∃ n, key = cfg.deliveryId.gen n ∧ d.trackingToken = cfg.trackingToken n) s.deliveries
  assignments : Rows (fun key a => IssuedUnder cfg.assignmentId a.id key ∧ a.Consistent)
    s.assignments
  routes : Rows (fun key r => r.assignmentId = key ∧ StopsConsistent r.stops ∧ r.currentStop = 0)
    s.routes

/-- The foreign keys, without that of a vehicle to its driver, and the deliveries on the stops of a
route and of a published route. -/
structure Repos.ForeignKeys (s : Repos) : Prop where
  assignmentDriver : References (fun (a : Assignment) id => a.driverId = id) s.assignments
    s.drivers.byId
  assignmentVehicle : References (fun (a : Assignment) id => a.vehicleId = id) s.assignments
    s.vehicles.byId
  deliveryAssignment : References (fun (d : Delivery) id => d.assignmentId = some id) s.deliveries
    s.assignments
  routeAssignment : References (fun (r : Route) id => r.assignmentId = id) s.routes s.assignments
  routeDeliveries : References (fun (r : Route) id => id ∈ coveredIds r.stops) s.routes s.deliveries
  published : ∀ e ∈ s.publishCalls, (s.assignments.get? e.assignmentId).isSome ∧
    ∀ id ∈ coveredIds e.stops, (s.deliveries.get? id).isSome

/-- The two indexes. -/
structure Repos.Indexes (cfg : Config) (s : Repos) : Prop where
  emails : Resolves (emailKey cfg) s.drivers.byId s.drivers.emailIndex
  identifiers : Resolves (fun v : Vehicle => identifierKey cfg v.identifier) s.vehicles.byId
    s.vehicles.identifierIndex

/-- What holds of the repositories whatever calls are under way. -/
structure Repos.Sound (cfg : Config) (s : Repos) : Prop where
  rows : s.RowsConsistent cfg
  keys : s.ForeignKeys
  indexes : s.Indexes cfg

theorem Repos.sound_new (cfg : Config) : Repos.new.Sound cfg where
  rows := ⟨.empty, .empty, .empty, .empty, .empty⟩
  keys := ⟨.empty, .empty, .empty, .empty, .empty, fun _ he => absurd he List.not_mem_nil⟩
  indexes := ⟨.empty, .empty⟩

/-! ## Permitted calls -/

/-- What a call of the request with number `n` has to meet: a record is inserted under the number's
own unused id, a stored record is replaced by one with its fixed fields, and what is written is
consistent and refers to stored records. -/
def Permits (cfg : Config) (n : Nat) : RepoOp → Repos → Prop
  | .insertNewDriver _ d, s => d.id = cfg.driverId.gen n ∧ s.drivers.byId.get? d.id = none
  | .saveDriver d, s | .stampAndSaveDriver _ d, s =>
      Holds (SameBy Driver.fixed) s.drivers.byId d.id d
  | .insertVehicle v, s => v.id = cfg.vehicleId.gen n ∧ s.vehicles.byId.get? v.id = none ∧
      v.Consistent
  | .saveVehicle v, s => Holds (SameBy Vehicle.fixed) s.vehicles.byId v.id v ∧
      v.Consistent ∧ v.driverId.isSome
  | .insertDelivery d, s => d.id = cfg.deliveryId.gen n ∧ s.deliveries.get? d.id = none ∧
      d.Consistent ∧ d.trackingToken = cfg.trackingToken n ∧ d.assignmentId = none
  | .saveDelivery d, s => Holds (SameBy Delivery.fixed) s.deliveries d.id d ∧
      d.Consistent ∧ ∀ id, d.assignmentId = some id → (s.assignments.get? id).isSome
  | .insertAssignment a, s => a.id = cfg.assignmentId.gen n ∧ s.assignments.get? a.id = none ∧
      a.Consistent ∧ (s.drivers.byId.get? a.driverId).isSome ∧
      (s.vehicles.byId.get? a.vehicleId).isSome
  | .saveAssignment a, s => Holds (SameBy Assignment.fixed) s.assignments a.id a ∧
      a.Consistent
  | .upsertRoute r, s => (s.assignments.get? r.assignmentId).isSome ∧ StopsConsistent r.stops ∧
      r.currentStop = 0 ∧ ∀ id ∈ coveredIds r.stops, (s.deliveries.get? id).isSome
  | .publishRoute e, s => (s.assignments.get? e.assignmentId).isSome ∧
      ∀ id ∈ coveredIds e.stops, (s.deliveries.get? id).isSome
  | _, _ => True

namespace Repos.Sound

variable {cfg : Config} {n : Nat} {s : Repos}

/-- What a single call leaves: sound repositories, moved by call number `n`. -/
def Kept (cfg : Config) (n : Nat) (s s' : Repos) : Prop := s'.Sound cfg ∧ s.Evolves cfg (· = n) s'

/-! ### Drivers -/

/-- A driver stored under a new id, or in place of one with its fixed fields. -/
theorem setDriver (h : s.Sound cfg) {d : Driver}
    (hrow : IssuedUnder cfg.driverId d.id d.id)
    (hstored : ∀ d₀, s.drivers.byId.get? d.id = some d₀ → d₀.fixed = d.fixed)
    (hevolves : KeyedTable.Evolves (SameBy Driver.fixed) (Taken cfg.driverId (· = n))
      s.drivers.byId (s.drivers.byId.set d.id d)) (lastStamp : InsertionMap String Int) :
    Kept cfg n s { s with lastStamp := lastStamp, drivers := s.drivers.save cfg d } := by
  refine ⟨⟨?_, ?_, ?_⟩, ?_⟩
  · exact { h.rows with drivers := h.rows.drivers.set hrow }
  · exact { h.keys with assignmentDriver := h.keys.assignmentDriver.evolves hevolves }
  · refine { h.indexes with emails := h.indexes.emails.set fun d₀ hd₀ => ?_ }
    have hemail : d₀.email = d.email := congrArg (fun f => f.2.1) (hstored d₀ hd₀)
    rw [emailKey, emailKey, hemail]
  · exact { Evolves.refl s with drivers := hevolves }

theorem insertDriver (h : s.Sound cfg) {d : Driver} (hid : d.id = cfg.driverId.gen n)
    (hnew : s.drivers.byId.get? d.id = none) (lastStamp : InsertionMap String Int) :
    Kept cfg n s { s with lastStamp := lastStamp, drivers := s.drivers.save cfg d } :=
  h.setDriver ⟨rfl, n, hid⟩ (fun _ hd₀ => absurd (hnew.symm.trans hd₀) (by simp))
    (.insert (SameBy.refl _) d hnew ⟨n, rfl, hid⟩) lastStamp

theorem saveDriver (h : s.Sound cfg) {d : Driver}
    (hd : Holds (SameBy Driver.fixed) s.drivers.byId d.id d)
    (lastStamp : InsertionMap String Int) :
    Kept cfg n s { s with lastStamp := lastStamp, drivers := s.drivers.save cfg d } := by
  obtain ⟨d₀, hd₀, hfixed⟩ := hd
  refine h.setDriver ⟨rfl, (h.rows.drivers _ _ hd₀).2⟩ ?_ ?_ lastStamp
  · intro d₁ hd₁
    obtain rfl := Option.some.inj (hd₀.symm.trans hd₁)
    exact hfixed.symm
  · exact .replace (SameBy.refl _) hd₀ hfixed.symm

theorem stampAndSave (h : s.Sound cfg) {d : Driver} (now : Int)
    (hd : Holds (SameBy Driver.fixed) s.drivers.byId d.id d) :
    Kept cfg n s (s.stampAndSave cfg now d).2 := by
  obtain ⟨lastStamp, iso, hs⟩ | ⟨lastStamp, e, hs⟩ := s.stampAndSave_cases cfg now d
  · rw [hs]
    exact h.saveDriver (d := { d with updatedAt := iso }) hd lastStamp
  · -- a stamp out of range is remembered, and nothing is saved
    rw [hs]
    exact ⟨⟨⟨h.rows.drivers, h.rows.vehicles, h.rows.deliveries, h.rows.assignments,
      h.rows.routes⟩, ⟨h.keys.assignmentDriver, h.keys.assignmentVehicle,
      h.keys.deliveryAssignment, h.keys.routeAssignment, h.keys.routeDeliveries,
      h.keys.published⟩, ⟨h.indexes.emails, h.indexes.identifiers⟩⟩,
      { Evolves.refl s with }⟩

/-! ### Vehicles -/

theorem setVehicle (h : s.Sound cfg) {v : Vehicle} (hrow : IssuedUnder cfg.vehicleId v.id v.id)
    (hv : v.Consistent) (hstored : ∀ v₀, s.vehicles.byId.get? v.id = some v₀ → v₀.fixed = v.fixed)
    (hevolves : KeyedTable.Evolves Vehicle.Becomes (Taken cfg.vehicleId (· = n))
      s.vehicles.byId (s.vehicles.byId.set v.id v)) :
    Kept cfg n s { s with vehicles := s.vehicles.save cfg v } := by
  refine ⟨⟨?_, ?_, ?_⟩, ?_⟩
  · exact { h.rows with vehicles := h.rows.vehicles.set ⟨hrow, hv⟩ }
  · exact { h.keys with assignmentVehicle := h.keys.assignmentVehicle.evolves hevolves }
  · refine { h.indexes with identifiers := h.indexes.identifiers.set fun v₀ hv₀ => ?_ }
    have hidentifier : v₀.identifier = v.identifier := congrArg (fun f => f.2.1) (hstored v₀ hv₀)
    rw [hidentifier]
  · exact { Evolves.refl s with vehicles := hevolves }

theorem insertVehicle (h : s.Sound cfg) {v : Vehicle} (hid : v.id = cfg.vehicleId.gen n)
    (hnew : s.vehicles.byId.get? v.id = none) (hv : v.Consistent) :
    Kept cfg n s { s with vehicles := s.vehicles.save cfg v } :=
  h.setVehicle ⟨rfl, n, hid⟩ hv (fun _ hv₀ => absurd (hnew.symm.trans hv₀) (by simp))
    (.insert Vehicle.Becomes.refl v hnew ⟨n, rfl, hid⟩)

theorem saveVehicle (h : s.Sound cfg) {v : Vehicle}
    (hv : Holds (SameBy Vehicle.fixed) s.vehicles.byId v.id v) (hconsistent : v.Consistent)
    (hdriver : v.driverId.isSome) :
    Kept cfg n s { s with vehicles := s.vehicles.save cfg v } := by
  obtain ⟨v₀, hv₀, hfixed⟩ := hv
  refine h.setVehicle ⟨rfl, (h.rows.vehicles _ _ hv₀).1.2⟩ hconsistent ?_ ?_
  · intro v₁ hv₁
    obtain rfl := Option.some.inj (hv₀.symm.trans hv₁)
    exact hfixed.symm
  · exact .replace Vehicle.Becomes.refl hv₀ ⟨hfixed.symm, fun _ => hdriver⟩

/-! ### Deliveries -/

theorem setDelivery (h : s.Sound cfg) {d : Delivery} (hd : d.Consistent)
    (hissued : ∃ n, d.id = cfg.deliveryId.gen n ∧ d.trackingToken = cfg.trackingToken n)
    (hassignment : ∀ id, d.assignmentId = some id → (s.assignments.get? id).isSome)
    (hevolves : KeyedTable.Evolves (SameBy Delivery.fixed)
      (Taken cfg.deliveryId (· = n)) s.deliveries (s.deliveries.set d.id d)) :
    Kept cfg n s { s with deliveries := s.deliveries.set d.id d } := by
  refine ⟨⟨?_, ?_, ⟨h.indexes.emails, h.indexes.identifiers⟩⟩, ?_⟩
  · exact { h.rows with deliveries := h.rows.deliveries.set ⟨rfl, hd, hissued⟩ }
  · exact
      { h.keys with
        deliveryAssignment := h.keys.deliveryAssignment.set _ hassignment
        routeDeliveries := h.keys.routeDeliveries.evolves hevolves
        published := fun e he => ⟨(h.keys.published e he).1,
          fun id hid => hevolves.isSome ((h.keys.published e he).2 id hid)⟩ }
  · exact { Evolves.refl s with deliveries := hevolves }

theorem insertDelivery (h : s.Sound cfg) {d : Delivery} (hid : d.id = cfg.deliveryId.gen n)
    (hnew : s.deliveries.get? d.id = none) (hd : d.Consistent)
    (htoken : d.trackingToken = cfg.trackingToken n) (hnone : d.assignmentId = none) :
    Kept cfg n s { s with deliveries := s.deliveries.set d.id d } :=
  h.setDelivery hd ⟨n, hid, htoken⟩
    (fun _ hassigned => absurd (hnone.symm.trans hassigned) (by simp))
    (.insert (SameBy.refl _) d hnew ⟨n, rfl, hid⟩)

theorem saveDelivery (h : s.Sound cfg) {d : Delivery}
    (hd : Holds (SameBy Delivery.fixed) s.deliveries d.id d) (hconsistent : d.Consistent)
    (hassignment : ∀ id, d.assignmentId = some id → (s.assignments.get? id).isSome) :
    Kept cfg n s { s with deliveries := s.deliveries.set d.id d } := by
  obtain ⟨d₀, hd₀, hfixed⟩ := hd
  have htoken : d.trackingToken = d₀.trackingToken :=
    congrArg (fun f => f.2.2.2.2.2.2.1) hfixed
  obtain ⟨k, hk, hissued⟩ := (h.rows.deliveries _ _ hd₀).2.2
  exact h.setDelivery hconsistent ⟨k, hk, htoken.trans hissued⟩ hassignment
    (.replace (SameBy.refl _) hd₀ hfixed.symm)

/-! ### Assignments -/

theorem setAssignment (h : s.Sound cfg) {a : Assignment} (ha : a.Consistent)
    (hissued : ∃ n, a.id = cfg.assignmentId.gen n)
    (hdriver : (s.drivers.byId.get? a.driverId).isSome)
    (hvehicle : (s.vehicles.byId.get? a.vehicleId).isSome)
    (hevolves : KeyedTable.Evolves (SameBy Assignment.fixed)
      (Taken cfg.assignmentId (· = n)) s.assignments (s.assignments.set a.id a)) :
    Kept cfg n s { s with assignments := s.assignments.set a.id a } := by
  refine ⟨⟨?_, ?_, ⟨h.indexes.emails, h.indexes.identifiers⟩⟩, ?_⟩
  · exact { h.rows with assignments := h.rows.assignments.set ⟨⟨rfl, hissued⟩, ha⟩ }
  · exact
      { h.keys with
        assignmentDriver := h.keys.assignmentDriver.set _ (by rintro k rfl; exact hdriver)
        assignmentVehicle := h.keys.assignmentVehicle.set _ (by rintro k rfl; exact hvehicle)
        deliveryAssignment := h.keys.deliveryAssignment.evolves hevolves
        routeAssignment := h.keys.routeAssignment.evolves hevolves
        published := fun e he =>
          ⟨hevolves.isSome (h.keys.published e he).1, (h.keys.published e he).2⟩ }
  · exact { Evolves.refl s with assignments := hevolves }

theorem insertAssignment (h : s.Sound cfg) {a : Assignment} (hid : a.id = cfg.assignmentId.gen n)
    (hnew : s.assignments.get? a.id = none) (ha : a.Consistent)
    (hdriver : (s.drivers.byId.get? a.driverId).isSome)
    (hvehicle : (s.vehicles.byId.get? a.vehicleId).isSome) :
    Kept cfg n s { s with assignments := s.assignments.set a.id a } :=
  h.setAssignment ha ⟨n, hid⟩ hdriver hvehicle (.insert (SameBy.refl _) a hnew ⟨n, rfl, hid⟩)

theorem saveAssignment (h : s.Sound cfg) {a : Assignment}
    (ha : Holds (SameBy Assignment.fixed) s.assignments a.id a) (hconsistent : a.Consistent) :
    Kept cfg n s { s with assignments := s.assignments.set a.id a } := by
  obtain ⟨a₀, ha₀, hfixed⟩ := ha
  have hdriver : a₀.driverId = a.driverId := congrArg (fun f => f.2.1) hfixed.symm
  have hvehicle : a₀.vehicleId = a.vehicleId := congrArg (fun f => f.2.2.1) hfixed.symm
  exact h.setAssignment hconsistent (h.rows.assignments _ _ ha₀).1.2
    (h.keys.assignmentDriver _ _ ha₀ _ hdriver) (h.keys.assignmentVehicle _ _ ha₀ _ hvehicle)
    (.replace (SameBy.refl _) ha₀ hfixed.symm)

/-! ### Routes -/

theorem upsertRoute (h : s.Sound cfg) {r : Route}
    (hassignment : (s.assignments.get? r.assignmentId).isSome) (hstops : StopsConsistent r.stops)
    (hcurrent : r.currentStop = 0)
    (hdeliveries : ∀ id ∈ coveredIds r.stops, (s.deliveries.get? id).isSome) :
    Kept cfg n s { s with routes := s.routes.set r.assignmentId r } := by
  refine ⟨⟨?_, ?_, ⟨h.indexes.emails, h.indexes.identifiers⟩⟩, ?_⟩
  · exact { h.rows with routes := h.rows.routes.set ⟨rfl, hstops, hcurrent⟩ }
  · exact
      { h.keys with
        routeAssignment := h.keys.routeAssignment.set _ (by rintro k rfl; exact hassignment)
        routeDeliveries := h.keys.routeDeliveries.set _ hdeliveries }
  · -- a route of the same assignment is replaced, if there is one
    refine { Evolves.refl s with routes := ?_ }
    cases hr : s.routes.get? r.assignmentId with
    | none => exact .insert (SameBy.refl _) r hr trivial
    | some r₀ => exact .replace (SameBy.refl _) hr (h.rows.routes _ _ hr).1

theorem publishRoute (h : s.Sound cfg) {e : RouteUpdateEvent}
    (hassignment : (s.assignments.get? e.assignmentId).isSome)
    (hdeliveries : ∀ id ∈ coveredIds e.stops, (s.deliveries.get? id).isSome) :
    Kept cfg n s { s with publishCalls := s.publishCalls ++ [e] } := by
  refine ⟨⟨{ h.rows with }, ?_, ⟨h.indexes.emails, h.indexes.identifiers⟩⟩, ?_⟩
  · refine { h.keys with published := fun e' he' => ?_ }
    rcases List.mem_append.1 he' with he' | he'
    · exact h.keys.published e' he'
    · obtain rfl := List.mem_singleton.1 he'
      exact ⟨hassignment, hdeliveries⟩
  · exact { Evolves.refl s with published := List.prefix_append _ _ }

/-- A permitted call keeps the repositories sound, and every record with its fixed fields. -/
theorem memory_permits (h : s.Sound cfg) {op : RepoOp} (hop : Permits cfg n op s) :
    Kept cfg n s (memory cfg op s).2 := by
  cases op with
  | insertNewDriver now d => exact h.insertDriver hop.1 hop.2 _
  | saveDriver d => exact h.saveDriver hop s.lastStamp
  | stampAndSaveDriver now d => exact h.stampAndSave now hop
  | insertVehicle v => exact h.insertVehicle hop.1 hop.2.1 hop.2.2
  | saveVehicle v => exact h.saveVehicle hop.1 hop.2.1 hop.2.2
  | insertDelivery d => exact h.insertDelivery hop.1 hop.2.1 hop.2.2.1 hop.2.2.2.1 hop.2.2.2.2
  | saveDelivery d => exact h.saveDelivery hop.1 hop.2.1 hop.2.2
  | insertAssignment a =>
    exact h.insertAssignment hop.1 hop.2.1 hop.2.2.1 hop.2.2.2.1 hop.2.2.2.2
  | saveAssignment a => exact h.saveAssignment hop.1 hop.2
  | upsertRoute r => exact h.upsertRoute hop.1 hop.2.1 hop.2.2.1 hop.2.2.2
  | publishRoute e => exact h.publishRoute hop.1 hop.2
  | _ => exact ⟨h, Evolves.refl s⟩

/-! ### Lookups -/

/-- An id the index leads to is one a generator issued, so it is not empty. -/
theorem findByEmail_answers (h : s.Sound cfg) (email : String) :
    Answers (emailKey cfg) s.drivers.byId (cfg.toLowerCase email)
      (s.drivers.findByEmail cfg email) := by
  have hanswers := h.indexes.emails.answers (cfg.toLowerCase email)
  rw [DriverRepository.findByEmail]
  cases hk : s.drivers.emailIndex.get? (cfg.toLowerCase email) with
  | none =>
    rw [hk] at hanswers
    exact hanswers
  | some id =>
    -- the index leads to a stored driver, so the id is not empty and `findByEmail` looks it up
    obtain ⟨d, hd, -⟩ := h.indexes.emails.leads hk
    obtain ⟨-, n, rfl⟩ := h.rows.drivers id d hd
    rw [hk] at hanswers
    dsimp only
    rw [if_neg (cfg.driverId.nonempty n)]
    exact hanswers

theorem findByIdentifier_answers (h : s.Sound cfg) (identifier : String) :
    Answers (fun v : Vehicle => identifierKey cfg v.identifier) s.vehicles.byId
      (identifierKey cfg identifier) (s.vehicles.findByIdentifier cfg identifier) := by
  have hanswers := h.indexes.identifiers.answers (identifierKey cfg identifier)
  rw [VehicleRepository.findByIdentifier]
  cases hk : s.vehicles.identifierIndex.get? (identifierKey cfg identifier) with
  | none =>
    rw [hk] at hanswers
    exact hanswers
  | some id =>
    -- the index leads to a stored vehicle, whose id is not empty
    obtain ⟨v, hv, -⟩ := h.indexes.identifiers.leads hk
    obtain ⟨-, n, rfl⟩ := (h.rows.vehicles id v hv).1
    rw [hk] at hanswers
    dsimp only
    rw [if_neg (cfg.vehicleId.nonempty n)]
    exact hanswers

end Repos.Sound

end FleetCommand.Management
