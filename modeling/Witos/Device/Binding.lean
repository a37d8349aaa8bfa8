import Witos.Device.Registry
import Witos.Library.Trace

/-!
# Which devices are bound

A device is bound to a driver once: `device_register` leaves the device on the
list of every driver whose `probe` failed, and `driver_register` neither takes
a device off the list after a failure nor looks whether it is bound.  The lists
and the bindings agree along a run just where no registration takes such a
path.
-/

namespace Witos.Device

open Library

variable {Dev Drv : Type}

/-- The driver was asked for the device and accepted it. -/
def Succeeded (bus : Bus Dev Drv) (dev : Dev) (drv : Drv) : Prop :=
  ∃ probe ∈ bus.probes,
    probe.dev = dev ∧ probe.drv = drv ∧ probe.result = 0

/-- The lists of the bus hold what is registered, the list of a driver holds
the devices that are bound to it and that it accepted, no device is on two
lists, and no bound device was ever probed. -/
structure WellBound (bus : Bus Dev Drv) : Prop where
  devices : bus.links.Ring .devList (bus.devs.map .devBus)
  drivers : bus.links.Ring .drvList (bus.drvs.map .drvBus)
  lists : ∃ linked : Drv → List Dev,
    (∀ drv ∈ bus.drvs, bus.links.Ring (.drvDevs drv)
      ((linked drv).map .devDrv)) ∧
    (∀ drv ∈ bus.drvs, ∀ dev, dev ∈ linked drv ↔
      dev ∈ bus.devs ∧ bus.drv dev = some drv ∧ Succeeded bus dev drv) ∧
    ∀ drv ∈ bus.drvs, ∀ other ∈ bus.drvs, ∀ dev,
      dev ∈ linked drv → dev ∈ linked other → drv = other
  probes : ∀ probe ∈ bus.probes, probe.before = none

/-- The property of a state of a run. -/
def Good (state : Option (Bus Dev Drv)) : Prop :=
  ∃ bus, state = some bus ∧ WellBound bus

/-- What a registration has to meet: it is the first one of its device or
driver; the first driver that matches a new device accepts it; and the devices
that match a new driver are not bound and accepted by it. -/
def Accepted (matching : Dev → Drv → Bool) (call : Registration Dev Drv)
    (bus : Bus Dev Drv) : Prop :=
  match call with
  | .device dev results =>
      dev ∉ bus.devs ∧
        ∀ drv ∈ bus.drvs.find? (matching dev), results drv = 0
  | .driver drv results =>
      drv ∉ bus.drvs ∧
        ∀ dev ∈ bus.devs, matching dev drv = true →
          bus.drv dev = none ∧ results dev = 0

/-- Before the first registration all lists are empty. -/
structure Empty (bus : Bus Dev Drv) : Prop where
  devices : bus.links.Ring .devList []
  drivers : bus.links.Ring .drvList []
  lists : ∀ drv, bus.links.Ring (.drvDevs drv) []
  unbound : ∀ dev, bus.drv dev = none
  probes : bus.probes = []
  devs : bus.devs = []
  drvs : bus.drvs = []

/-- The invariant of runs that are accepted all the way. -/
structure Sound (bus : Bus Dev Drv) : Prop where
  devices : bus.links.Ring .devList (bus.devs.map .devBus)
  drivers : bus.links.Ring .drvList (bus.drvs.map .drvBus)
  lists : ∃ linked : Drv → List Dev,
    (∀ drv, bus.links.Ring (.drvDevs drv) ((linked drv).map .devDrv)) ∧
      ∀ drv dev, dev ∈ linked drv ↔ bus.drv dev = some drv
  bound : ∀ dev drv, bus.drv dev = some drv →
    dev ∈ bus.devs ∧ drv ∈ bus.drvs ∧ Succeeded bus dev drv
  probes : ∀ probe ∈ bus.probes,
    probe.drv ∈ bus.drvs ∧ probe.before = none

theorem Sound.wellBound {bus : Bus Dev Drv} (sound : Sound bus) :
    WellBound bus := by
  obtain ⟨linked, rings, members⟩ := sound.lists
  refine ⟨sound.devices, sound.drivers, ⟨linked, fun drv _ => rings drv, ?_,
    ?_⟩, fun probe member => (sound.probes probe member).2⟩
  · intro drv _ dev
    rw [members drv dev]
    constructor
    · intro isBound
      obtain ⟨registered, -, succeeded⟩ := sound.bound dev drv isBound
      exact ⟨registered, isBound, succeeded⟩
    · exact fun facts => facts.2.1
  · intro drv _ other _ dev onFirst onSecond
    have first := (members drv dev).mp onFirst
    have second := (members other dev).mp onSecond
    exact Option.some.inj (first.symm.trans second)

theorem Empty.sound {bus : Bus Dev Drv} (empty : Empty bus) : Sound bus where
  devices := by simpa [empty.devs] using empty.devices
  drivers := by simpa [empty.drvs] using empty.drivers
  lists := ⟨fun _ => [], fun drv => by simpa using empty.lists drv,
    fun drv dev => by simp [empty.unbound dev]⟩
  bound := by
    intro dev drv isBound
    rw [empty.unbound dev] at isBound
    cases isBound
  probes := by simp [empty.probes]

/-- The list of devices, the list of drivers, and the lists of the drivers
share no nodes. -/
inductive Kind where
  | devices
  | drivers
  | bound
  deriving DecidableEq

def Node.kind : Node Dev Drv → Kind
  | .devList | .devBus _ => .devices
  | .drvList | .drvBus _ => .drivers
  | .devDrv _ | .drvDevs _ => .bound

theorem kind_prev {links : Links (Node Dev Drv)} {head : Node Dev Drv}
    {nodes : List (Node Dev Drv)} (ring : links.Ring head nodes)
    (same : ∀ node ∈ nodes, node.kind = head.kind) :
    (links.prev head).kind = head.kind := by
  rcases List.mem_cons.mp ring.1.prev_mem with isHead | inside
  · rw [isHead]
  · exact same _ inside

variable [DecidableEq Dev] [DecidableEq Drv]

theorem ring_of_kind {links : Links (Node Dev Drv)}
    {node head start : Node Dev Drv} {nodes : List (Node Dev Drv)}
    (ring : links.Ring start nodes)
    (same : ∀ other ∈ nodes, other.kind = start.kind)
    (nodeKind : node.kind = head.kind)
    (lastKind : (links.prev head).kind = head.kind)
    (different : start.kind ≠ head.kind) :
    (links.addTail node head).Ring start nodes := by
  apply ring.addTail_other
  intro other member
  have kind : other.kind = start.kind := by
    rcases List.mem_cons.mp member with isHead | inside
    · rw [isHead]
    · exact same other inside
  refine ⟨?_, ?_, ?_⟩
  · rintro rfl
    exact different (kind.symm.trans nodeKind)
  · rintro rfl
    exact different kind.symm
  · rintro rfl
    exact different (kind.symm.trans lastKind)

omit [DecidableEq Dev] [DecidableEq Drv] in
theorem kind_of_mem_map {α : Type} {items : List α}
    {node : α → Node Dev Drv} {kind : Kind}
    (each : ∀ item, (node item).kind = kind) :
    ∀ other ∈ items.map node, other.kind = kind := by
  intro other member
  obtain ⟨item, -, same⟩ := List.mem_map.mp member
  rw [← same]
  exact each item

theorem Sound.addDevice {bus : Bus Dev Drv} (sound : Sound bus) {dev : Dev}
    (new : dev ∉ bus.devs) : Sound (bus.addDevice dev) := by
  obtain ⟨linked, rings, members⟩ := sound.lists
  have last := kind_prev sound.devices (kind_of_mem_map fun _ => rfl)
  refine ⟨?_, ?_, ⟨linked, ?_, members⟩, ?_, sound.probes⟩
  · simp only [Bus.addDevice, List.map_append]
    apply sound.devices.addTail
    simpa using new
  · exact ring_of_kind sound.drivers (kind_of_mem_map fun _ => rfl) rfl last
      nofun
  · intro drv
    exact ring_of_kind (rings drv) (kind_of_mem_map fun _ => rfl) rfl last
      nofun
  · intro other drv isBound
    obtain ⟨registered, known, succeeded⟩ := sound.bound other drv isBound
    exact ⟨List.mem_append_left _ registered, known, succeeded⟩

theorem Sound.addDriver {bus : Bus Dev Drv} (sound : Sound bus) {drv : Drv}
    (new : drv ∉ bus.drvs) : Sound (bus.addDriver drv) := by
  obtain ⟨linked, rings, members⟩ := sound.lists
  have last := kind_prev sound.drivers (kind_of_mem_map fun _ => rfl)
  refine ⟨?_, ?_, ⟨linked, ?_, members⟩, ?_, ?_⟩
  · exact ring_of_kind sound.devices (kind_of_mem_map fun _ => rfl) rfl last
      nofun
  · simp only [Bus.addDriver, List.map_append]
    apply sound.drivers.addTail
    simpa using new
  · intro other
    exact ring_of_kind (rings other) (kind_of_mem_map fun _ => rfl) rfl last
      nofun
  · intro dev other isBound
    obtain ⟨registered, known, succeeded⟩ := sound.bound dev other isBound
    exact ⟨registered, List.mem_append_left _ known, succeeded⟩
  · intro probe member
    obtain ⟨known, unbound⟩ := sound.probes probe member
    exact ⟨List.mem_append_left _ known, unbound⟩

@[simp] theorem attach_drv_self (bus : Bus Dev Drv) (dev : Dev) (drv : Drv)
    (result : Int) : (bus.attach dev drv result).drv dev = some drv := by
  simp [Bus.attach]

theorem attach_drv_of_ne {dev other : Dev} (different : other ≠ dev)
    (bus : Bus Dev Drv) (drv : Drv) (result : Int) :
    (bus.attach dev drv result).drv other = bus.drv other := by
  simp [Bus.attach, different]

/-- The lists of the drivers after a device that was on none of them is added
to one. -/
theorem attach_rings {links : Links (Node Dev Drv)} {linked : Drv → List Dev}
    (rings : ∀ drv, links.Ring (.drvDevs drv) ((linked drv).map .devDrv))
    (apart : ∀ drv other dev, dev ∈ linked drv → dev ∈ linked other →
      drv = other)
    {dev : Dev} (nowhere : ∀ other, dev ∉ linked other) (drv other : Drv) :
    (links.addTail (.devDrv dev) (.drvDevs drv)).Ring (.drvDevs other)
      ((Function.update linked drv (linked drv ++ [dev]) other).map
        .devDrv) := by
  by_cases same : other = drv
  · subst same
    rw [Function.update_self, List.map_append]
    apply (rings other).addTail
    simpa using nowhere other
  · rw [Function.update_of_ne same]
    apply (rings other).addTail_other
    have last := (rings drv).1.prev_mem
    intro node member
    rcases List.mem_cons.mp member with rfl | inside
    · refine ⟨nofun, by simpa using same, ?_⟩
      intro isLast
      rw [← isLast] at last
      simp [same] at last
    · obtain ⟨item, onOther, rfl⟩ := List.mem_map.mp inside
      refine ⟨?_, nofun, ?_⟩
      · rintro ⟨⟩
        exact nowhere other onOther
      · intro isLast
        rw [← isLast] at last
        have onDriver : item ∈ linked drv := by simpa using last
        exact same (apart other drv item onOther onDriver)

/-- A device that is not bound joins the list of a driver that accepts it. -/
theorem Sound.attach {bus : Bus Dev Drv} (sound : Sound bus) {dev : Dev}
    {drv : Drv} (registered : dev ∈ bus.devs) (known : drv ∈ bus.drvs)
    (unbound : bus.drv dev = none) : Sound (bus.attach dev drv 0) := by
  obtain ⟨linked, rings, members⟩ := sound.lists
  have last := kind_prev (rings drv) (kind_of_mem_map fun _ => rfl)
  have nowhere : ∀ other, dev ∉ linked other := by
    intro other member
    rw [members, unbound] at member
    cases member
  have apart : ∀ drv other dev, dev ∈ linked drv → dev ∈ linked other →
      drv = other := by
    intro drv other dev onFirst onSecond
    have first := (members drv dev).mp onFirst
    have second := (members other dev).mp onSecond
    exact Option.some.inj (first.symm.trans second)
  refine ⟨?_, ?_, ⟨Function.update linked drv (linked drv ++ [dev]),
    attach_rings rings apart nowhere drv, ?_⟩, ?_, ?_⟩
  · exact ring_of_kind sound.devices (kind_of_mem_map fun _ => rfl) rfl last
      nofun
  · exact ring_of_kind sound.drivers (kind_of_mem_map fun _ => rfl) rfl last
      nofun
  · intro other item
    by_cases device : item = dev
    · subst device
      by_cases same : other = drv
      · simp [same]
      · simp [Function.update_of_ne same, nowhere other, Ne.symm same]
    · rw [attach_drv_of_ne device, ← members other item]
      by_cases same : other = drv
      · simp [same, device]
      · rw [Function.update_of_ne same]
  · intro item other isBound
    by_cases device : item = dev
    · subst device
      obtain rfl : drv = other := by simpa using isBound
      exact ⟨registered, known, ⟨item, drv, bus.drv item, 0⟩,
        List.mem_append_right _ (List.mem_singleton_self _), rfl, rfl, rfl⟩
    · rw [attach_drv_of_ne device] at isBound
      obtain ⟨old, knownOld, probe, member, facts⟩ :=
        sound.bound item other isBound
      exact ⟨old, knownOld, probe, List.mem_append_left _ member, facts⟩
  · intro probe member
    rcases List.mem_append.mp member with old | new
    · exact sound.probes probe old
    · obtain rfl := List.mem_singleton.mp new
      exact ⟨known, unbound⟩

section Scans

variable (matching : Dev → Drv → Bool)

/-- `scanDrivers` over the drivers that are still to come. -/
def visitDrivers (dev : Dev) (results : Drv → Int) :
    List Drv → Bus Dev Drv → Bus Dev Drv
  | [], bus => bus
  | drv :: rest, bus =>
      if matching dev drv then
        if results drv = 0 then bus.attach dev drv (results drv)
        else
          visitDrivers dev results rest
            ((bus.attach dev drv (results drv)).detach dev)
      else visitDrivers dev results rest bus

/-- One turn of `scanDevices`. -/
def visitDevice (drv : Drv) (results : Dev → Int) (bus : Bus Dev Drv)
    (dev : Dev) : Bus Dev Drv :=
  if matching dev drv then
    if results dev < 0 then (bus.attach dev drv (results dev)).detach dev
    else bus.attach dev drv (results dev)
  else bus

/-- No list of a driver ends in a list of the bus. -/
def Separated (links : Links (Node Dev Drv)) : Prop :=
  ∀ drv, (links.prev (.drvDevs drv)).kind = .bound

omit [DecidableEq Dev] [DecidableEq Drv] in
theorem Sound.separated {bus : Bus Dev Drv} (sound : Sound bus) :
    Separated bus.links := by
  obtain ⟨linked, rings, -⟩ := sound.lists
  intro drv
  exact kind_prev (rings drv) (kind_of_mem_map fun _ => rfl)

theorem Separated.attach {links : Links (Node Dev Drv)}
    (separated : Separated links) (dev : Dev) (drv : Drv) :
    Separated (links.addTail (.devDrv dev) (.drvDevs drv)) := by
  intro other
  by_cases same : other = drv
  · rw [same, Links.addTail_prev_head (by simp)]
    rfl
  · rw [Links.addTail_prev_of_ne (by simp) (by simpa using same)]
    exact separated other

/-- A loop over a list of the bus goes on as before after a device is added to
the list of a driver. -/
theorem Separated.walk {links : Links (Node Dev Drv)}
    (separated : Separated links) {stop start : Node Dev Drv}
    {nodes : List (Node Dev Drv)} {kind : Kind}
    (walk : links.Walk stop nodes start)
    (same : ∀ node ∈ nodes, node.kind = kind) (onBus : kind ≠ .bound)
    (dev : Dev) (drv : Drv) :
    (links.addTail (.devDrv dev) (.drvDevs drv)).Walk stop nodes start := by
  apply walk.congr
  intro node member
  have nodeKind := same node member
  apply Links.addTail_next_of_ne
  · rintro rfl
    exact onBus nodeKind.symm
  · rintro rfl
    exact onBus (nodeKind.symm.trans (separated drv))

theorem scanDrivers_eq {dev : Dev} {results : Drv → Int} {rest : List Drv}
    {bus : Bus Dev Drv} {fuel : Nat} {node : Node Dev Drv}
    (walk : bus.links.Walk .drvList (rest.map .drvBus) node)
    (separated : Separated bus.links) (enough : rest.length < fuel) :
    scanDrivers matching dev results fuel node bus =
      some (visitDrivers matching dev results rest bus) := by
  induction rest generalizing bus fuel node with
  | nil =>
      obtain ⟨fuel, rfl⟩ := Nat.exists_eq_add_of_lt enough
      obtain rfl := walk
      rfl
  | cons drv rest induction =>
      obtain ⟨fuel, rfl⟩ := Nat.exists_eq_add_of_lt enough
      have later : rest.length < (drv :: rest).length + fuel := by
        simp only [List.length_cons]
        omega
      have after := separated.walk walk (kind_of_mem_map fun _ => rfl) nofun
        dev drv
      obtain ⟨rfl, walk⟩ := walk
      simp only [scanDrivers, visitDrivers]
      split
      · split
        · rfl
        · exact induction after.2 (separated.attach dev drv) later
      · exact induction walk separated later

theorem scanDevices_eq {drv : Drv} {results : Dev → Int} {rest : List Dev}
    {bus : Bus Dev Drv} {fuel : Nat} {node : Node Dev Drv}
    (walk : bus.links.Walk .devList (rest.map .devBus) node)
    (separated : Separated bus.links) (enough : rest.length < fuel) :
    scanDevices matching drv results fuel node bus =
      some (rest.foldl (visitDevice matching drv results) bus) := by
  induction rest generalizing bus fuel node with
  | nil =>
      obtain ⟨fuel, rfl⟩ := Nat.exists_eq_add_of_lt enough
      obtain rfl := walk
      rfl
  | cons dev rest induction =>
      obtain ⟨fuel, rfl⟩ := Nat.exists_eq_add_of_lt enough
      have later : rest.length < (dev :: rest).length + fuel := by
        simp only [List.length_cons]
        omega
      have after := separated.walk walk (kind_of_mem_map fun _ => rfl) nofun
        dev drv
      obtain ⟨rfl, walk⟩ := walk
      simp only [scanDevices, List.foldl_cons, visitDevice]
      split
      · split <;> exact induction after.2 (separated.attach dev drv) later
      · exact induction walk separated later

/-- Whatever the new device, the drivers are visited in their order. -/
theorem deviceRegister_eq {bus : Bus Dev Drv} (sound : Sound bus) (dev : Dev)
    (results : Drv → Int) :
    deviceRegister matching dev results bus =
      some (visitDrivers matching dev results bus.drvs
        (bus.addDevice dev)) := by
  have last := kind_prev sound.devices (kind_of_mem_map fun _ => rfl)
  have drivers : (bus.addDevice dev).links.Ring .drvList
      (bus.drvs.map .drvBus) :=
    ring_of_kind sound.drivers (kind_of_mem_map fun _ => rfl) rfl last nofun
  have separated : Separated (bus.addDevice dev).links := by
    obtain ⟨linked, rings, -⟩ := sound.lists
    intro drv
    exact kind_prev (ring_of_kind (rings drv) (kind_of_mem_map fun _ => rfl)
      rfl last nofun) (kind_of_mem_map fun _ => rfl)
  exact scanDrivers_eq matching drivers.walk separated
    (Nat.lt_succ_self _)

/-- Whatever the new driver, the devices are visited in their order. -/
theorem driverRegister_eq {bus : Bus Dev Drv} (sound : Sound bus) (drv : Drv)
    (results : Dev → Int) :
    driverRegister matching drv results bus =
      some (bus.devs.foldl (visitDevice matching drv results)
        (bus.addDriver drv)) := by
  have last := kind_prev sound.drivers (kind_of_mem_map fun _ => rfl)
  have devices : (bus.addDriver drv).links.Ring .devList
      (bus.devs.map .devBus) :=
    ring_of_kind sound.devices (kind_of_mem_map fun _ => rfl) rfl last nofun
  have separated : Separated (bus.addDriver drv).links := by
    obtain ⟨linked, rings, -⟩ := sound.lists
    intro other
    exact kind_prev (ring_of_kind (rings other) (kind_of_mem_map fun _ => rfl)
      rfl last nofun) (kind_of_mem_map fun _ => rfl)
  exact scanDevices_eq matching devices.walk separated
    (Nat.lt_succ_self _)

end Scans

section Registrations

variable {matching : Dev → Drv → Bool}

theorem Sound.visitDrivers {bus : Bus Dev Drv} (sound : Sound bus)
    {dev : Dev} {results : Drv → Int} (registered : dev ∈ bus.devs)
    (unbound : bus.drv dev = none) {rest : List Drv}
    (known : ∀ drv ∈ rest, drv ∈ bus.drvs)
    (accepts : ∀ drv ∈ rest.find? (matching dev), results drv = 0) :
    Sound (visitDrivers matching dev results rest bus) := by
  induction rest with
  | nil => exact sound
  | cons drv rest induction =>
      rw [Device.visitDrivers]
      split
      next fits =>
        have zero : results drv = 0 := by
          apply accepts
          simp [fits]
        rw [if_pos zero, zero]
        exact sound.attach registered (known drv List.mem_cons_self) unbound
      next differs =>
        apply induction
        · intro other member
          exact known other (List.mem_cons_of_mem _ member)
        · intro other found
          apply accepts
          simpa [List.find?_cons, differs] using found

theorem Sound.visitDevices {bus : Bus Dev Drv} (sound : Sound bus)
    {drv : Drv} {results : Dev → Int} (known : drv ∈ bus.drvs)
    {rest : List Dev} (registered : ∀ dev ∈ rest, dev ∈ bus.devs)
    (distinct : rest.Nodup)
    (accepts : ∀ dev ∈ rest, matching dev drv = true →
      bus.drv dev = none ∧ results dev = 0) :
    Sound (rest.foldl (visitDevice matching drv results) bus) := by
  induction rest generalizing bus with
  | nil => exact sound
  | cons dev rest induction =>
      obtain ⟨new, distinct⟩ := List.nodup_cons.mp distinct
      have registeredLater : ∀ other ∈ rest, other ∈ bus.devs :=
        fun other member => registered other (List.mem_cons_of_mem _ member)
      have acceptsLater := fun other member =>
        accepts other (List.mem_cons_of_mem _ member)
      rw [List.foldl_cons, visitDevice]
      split
      next fits =>
        obtain ⟨unbound, zero⟩ := accepts dev List.mem_cons_self fits
        rw [zero, if_neg (by decide)]
        apply induction
          (sound.attach (registered dev List.mem_cons_self) known unbound)
          known registeredLater distinct
        intro other member fitsOther
        have different : other ≠ dev := fun same => new (same ▸ member)
        rw [attach_drv_of_ne different]
        exact acceptsLater other member fitsOther
      next =>
        exact induction sound known registeredLater distinct acceptsLater

/-- A registration that is accepted keeps the invariant. -/
theorem Sound.register {bus : Bus Dev Drv} (sound : Sound bus)
    {call : Registration Dev Drv} (accepted : Accepted matching call bus) :
    ∃ after, register matching call (some bus) = some after ∧
      Sound after := by
  cases call with
  | device dev results =>
      obtain ⟨new, accepts⟩ := accepted
      refine ⟨_, deviceRegister_eq matching sound dev results, ?_⟩
      apply (sound.addDevice new).visitDrivers (by simp [Bus.addDevice])
      · by_contra bound
        obtain ⟨drv, isBound⟩ := Option.ne_none_iff_exists'.mp bound
        exact new (sound.bound dev drv isBound).1
      · exact fun drv member => member
      · exact accepts
  | driver drv results =>
      obtain ⟨new, accepts⟩ := accepted
      refine ⟨_, driverRegister_eq matching sound drv results, ?_⟩
      have distinct : bus.devs.Nodup :=
        (List.nodup_cons.mp sound.devices.2).2.of_map
      exact (sound.addDriver new).visitDevices (by simp [Bus.addDriver])
        (fun dev member => member) distinct accepts

/-- The device stays at the end of the list of a driver that refused it. -/
theorem visitDrivers_stranded {bus : Bus Dev Drv} {dev : Dev}
    {results : Drv → Int} {drv : Drv} {rest : List Drv} (passed : drv ∉ rest)
    (last : bus.links.prev (.drvDevs drv) = .devDrv dev)
    (unbound : bus.drv dev ≠ some drv) :
    let after := visitDrivers matching dev results rest bus
    after.links.prev (.drvDevs drv) = .devDrv dev ∧
      after.drv dev ≠ some drv := by
  induction rest generalizing bus with
  | nil => exact ⟨last, unbound⟩
  | cons other rest induction =>
      rw [List.mem_cons, not_or] at passed
      obtain ⟨different, passed⟩ := passed
      have lastAfter :
          (bus.attach dev other (results other)).links.prev (.drvDevs drv) =
            .devDrv dev :=
        (Links.addTail_prev_of_ne (by simp) (by simpa using different)).trans
          last
      simp only [visitDrivers]
      split
      · split
        · refine ⟨lastAfter, ?_⟩
          rw [attach_drv_self]
          exact fun same => different (Option.some.inj same).symm
        · exact induction passed lastAfter (by simp [Bus.detach])
      · exact induction passed last unbound

/-- If the first driver that matches refuses the device, the device is on its
list all the same. -/
theorem visitDrivers_refused {dev : Dev} {results : Drv → Int} {drv : Drv}
    {rest : List Drv} (distinct : rest.Nodup)
    (found : rest.find? (matching dev) = some drv) (refused : results drv ≠ 0)
    (bus : Bus Dev Drv) :
    let after := visitDrivers matching dev results rest bus
    after.links.prev (.drvDevs drv) = .devDrv dev ∧
      after.drv dev ≠ some drv := by
  induction rest with
  | nil => cases found
  | cons other rest induction =>
      obtain ⟨passed, distinct⟩ := List.nodup_cons.mp distinct
      simp only [visitDrivers]
      split
      next fits =>
        obtain rfl : other = drv := by simpa [fits] using found
        rw [if_neg refused]
        apply visitDrivers_stranded passed
        · exact Links.addTail_prev_head (by simp)
        · simp [Bus.detach]
      next differs =>
        apply induction distinct
        simpa [differs] using found

variable (matching) in
theorem visitDrivers_objects (bus : Bus Dev Drv) (dev : Dev)
    (results : Drv → Int) (rest : List Drv) :
    let after := visitDrivers matching dev results rest bus
    after.devs = bus.devs ∧ after.drvs = bus.drvs := by
  induction rest generalizing bus with
  | nil => exact ⟨rfl, rfl⟩
  | cons drv rest induction =>
      simp only [visitDrivers]
      split
      · split
        · exact ⟨rfl, rfl⟩
        · exact induction _
      · exact induction _

variable (matching) in
theorem visitDevice_objects (bus : Bus Dev Drv) (drv : Drv)
    (results : Dev → Int) (dev : Dev) :
    let after := visitDevice matching drv results bus dev
    after.devs = bus.devs ∧ after.drvs = bus.drvs := by
  simp only [visitDevice]
  split
  · split <;> exact ⟨rfl, rfl⟩
  · exact ⟨rfl, rfl⟩

variable (matching) in
theorem visitDevices_objects (bus : Bus Dev Drv) (drv : Drv)
    (results : Dev → Int) (rest : List Dev) :
    let after := rest.foldl (visitDevice matching drv results) bus
    after.devs = bus.devs ∧ after.drvs = bus.drvs := by
  induction rest generalizing bus with
  | nil => exact ⟨rfl, rfl⟩
  | cons dev rest induction =>
      have first := visitDevice_objects matching bus drv results dev
      have later := induction (visitDevice matching drv results bus dev)
      exact ⟨later.1.trans first.1, later.2.trans first.2⟩

/-- A device that matches is put on the list and probed, whatever follows. -/
theorem visitDevice_of_matching {drv : Drv} {dev : Dev}
    (fits : matching dev drv = true) (bus : Bus Dev Drv)
    (results : Dev → Int) :
    let after := visitDevice matching drv results bus dev
    after.links = bus.links.addTail (.devDrv dev) (.drvDevs drv) ∧
      after.probes =
        bus.probes ++ [⟨dev, drv, bus.drv dev, results dev⟩] ∧
      ∀ other ≠ dev, after.drv other = bus.drv other := by
  simp only [visitDevice, if_pos fits]
  split
  · refine ⟨rfl, rfl, fun other different => ?_⟩
    simp [Bus.detach, different, attach_drv_of_ne different]
  · exact ⟨rfl, rfl, fun other different => attach_drv_of_ne different _ _ _⟩

variable (matching) in
theorem visitDevices_probes (bus : Bus Dev Drv) (drv : Drv)
    (results : Dev → Int) {rest : List Dev} (distinct : rest.Nodup) :
    (rest.foldl (visitDevice matching drv results) bus).probes =
      bus.probes ++ (rest.filter (matching · drv)).map fun dev =>
        ⟨dev, drv, bus.drv dev, results dev⟩ := by
  induction rest generalizing bus with
  | nil => simp
  | cons dev rest induction =>
      obtain ⟨new, distinct⟩ := List.nodup_cons.mp distinct
      rw [List.foldl_cons, induction _ distinct]
      by_cases fits : matching dev drv = true
      · obtain ⟨-, probes, others⟩ :=
          visitDevice_of_matching fits bus results
        have taken : (dev :: rest).filter (matching · drv) =
            dev :: rest.filter (matching · drv) := by simp [fits]
        rw [probes, taken, List.map_cons, List.append_assoc,
          List.singleton_append]
        congr 2
        apply List.map_congr_left
        intro other member
        have different : other ≠ dev := by
          rintro rfl
          exact new (List.mem_of_mem_filter member)
        rw [others other different]
      · simp [visitDevice, fits]

theorem visitDevices_ring {bus : Bus Dev Drv} {drv : Drv}
    {results : Dev → Int} {passed rest : List Dev}
    (distinct : (passed ++ rest).Nodup)
    (ring : bus.links.Ring (.drvDevs drv) (passed.map .devDrv)) :
    (rest.foldl (visitDevice matching drv results) bus).links.Ring
      (.drvDevs drv)
      ((passed ++ rest.filter (matching · drv)).map .devDrv) := by
  induction rest generalizing bus passed with
  | nil => simpa using ring
  | cons dev rest induction =>
      rw [List.foldl_cons]
      have moved : passed ++ dev :: rest = passed ++ [dev] ++ rest := by simp
      by_cases fits : matching dev drv = true
      · have longer : (visitDevice matching drv results bus dev).links.Ring
            (.drvDevs drv) ((passed ++ [dev]).map .devDrv) := by
          rw [(visitDevice_of_matching fits bus results).1, List.map_append]
          apply ring.addTail
          have new : dev ∉ passed := by
            intro member
            rw [List.nodup_append] at distinct
            exact distinct.2.2 dev member dev List.mem_cons_self rfl
          simpa using new
        have result := induction (moved ▸ distinct) longer
        simpa [fits] using result
      · have shorter : (passed ++ rest).Nodup :=
          distinct.sublist ((List.sublist_cons_self dev rest).append_left _)
        have result := induction shorter ring
        simpa [visitDevice, fits] using result

omit [DecidableEq Dev] [DecidableEq Drv] in
/-- What is added to a list without repetitions was not on it. -/
theorem not_mem_of_ring {α : Type} {links : Links (Node Dev Drv)}
    {head : Node Dev Drv} {node : α → Node Dev Drv} {items : List α}
    {item : α} (ring : links.Ring head ((items ++ [item]).map node)) :
    item ∉ items := by
  have distinct : (items ++ [item]).Nodup :=
    (List.nodup_cons.mp ring.2).2.of_map
  intro member
  exact (List.nodup_append.mp distinct).2.2 item member item
    (List.mem_singleton_self item) rfl

theorem WellBound.accepted_device {bus : Bus Dev Drv} (sound : Sound bus)
    {dev : Dev} {results : Drv → Int}
    (well : WellBound (visitDrivers matching dev results bus.drvs
      (bus.addDevice dev))) :
    Accepted matching (.device dev results) bus := by
  have objects := visitDrivers_objects matching (bus.addDevice dev) dev results
    bus.drvs
  refine ⟨not_mem_of_ring (objects.1 ▸ well.devices), ?_⟩
  intro drv found
  by_contra refused
  have distinct : bus.drvs.Nodup :=
    (List.nodup_cons.mp sound.drivers.2).2.of_map
  obtain ⟨last, unbound⟩ :=
    visitDrivers_refused distinct found refused (bus.addDevice dev)
  obtain ⟨linked, rings, members, -⟩ := well.lists
  have known := List.mem_of_find?_eq_some found
  rw [objects.2] at rings members
  have inside := (rings drv known).1.prev_mem
  rw [last] at inside
  have onList : dev ∈ linked drv := by simpa using inside
  exact unbound ((members drv known dev).mp onList).2.1

variable (matching) in
theorem Sound.driver_list {bus : Bus Dev Drv} (sound : Sound bus) {drv : Drv}
    (new : drv ∉ bus.drvs) (distinct : bus.devs.Nodup)
    (results : Dev → Int) :
    (bus.devs.foldl (visitDevice matching drv results)
      (bus.addDriver drv)).links.Ring (.drvDevs drv)
      ((bus.devs.filter (matching · drv)).map .devDrv) := by
  obtain ⟨linked, rings, members⟩ := sound.lists
  have nothing : linked drv = [] := by
    apply List.eq_nil_iff_forall_not_mem.mpr
    intro other member
    have isBound := (members drv other).mp member
    exact new (sound.bound other drv isBound).2.1
  have last := kind_prev sound.drivers (kind_of_mem_map fun _ => rfl)
  have start : (bus.addDriver drv).links.Ring (.drvDevs drv)
      (([] : List Dev).map .devDrv) := by
    have ring := rings drv
    rw [nothing] at ring
    exact ring_of_kind ring (by simp) rfl last nofun
  exact visitDevices_ring (by simpa using distinct) start

theorem WellBound.accepted_driver {bus : Bus Dev Drv} (sound : Sound bus)
    {drv : Drv} {results : Dev → Int}
    (well : WellBound (bus.devs.foldl (visitDevice matching drv results)
      (bus.addDriver drv))) :
    Accepted matching (.driver drv results) bus := by
  have distinct : bus.devs.Nodup :=
    (List.nodup_cons.mp sound.devices.2).2.of_map
  have objects := visitDevices_objects matching (bus.addDriver drv) drv results
    bus.devs
  have new : drv ∉ bus.drvs := not_mem_of_ring (objects.2 ▸ well.drivers)
  have probes := visitDevices_probes matching (bus.addDriver drv) drv results
    distinct
  refine ⟨new, fun dev registered fits => ⟨?_, ?_⟩⟩
  · apply well.probes ⟨dev, drv, bus.drv dev, results dev⟩
    rw [probes]
    apply List.mem_append_right
    exact List.mem_map.mpr ⟨dev, by simp [registered, fits], rfl⟩
  · obtain ⟨linked, rings, members, -⟩ := well.lists
    have known : drv ∈ (bus.addDriver drv).drvs := by simp [Bus.addDriver]
    rw [← objects.2] at known
    have ring := rings drv known
    have list := sound.driver_list matching new distinct results
    have sameNodes := ring.1.unique list.1 (List.nodup_cons.mp ring.2).1
      (List.nodup_cons.mp list.2).1
    have onList : dev ∈ linked drv := by
      rw [List.map_injective_iff.mpr (fun _ _ => Node.devDrv.inj) sameNodes]
      simp [registered, fits]
    obtain ⟨-, -, probe, member, rfl, isDrv, zero⟩ :=
      (members drv known dev).mp onList
    rw [probes] at member
    rcases List.mem_append.mp member with old | recent
    · exact absurd (isDrv ▸ (sound.probes probe old).1) new
    · obtain ⟨other, -, rfl⟩ := List.mem_map.mp recent
      exact zero

theorem accepted_of_good {bus : Bus Dev Drv} (sound : Sound bus)
    {call : Registration Dev Drv}
    (good : Good (register matching call (some bus))) :
    Accepted matching call bus := by
  obtain ⟨after, outcome, well⟩ := good
  cases call with
  | device dev results =>
      obtain rfl := Option.some.inj
        ((deviceRegister_eq matching sound dev results).symm.trans outcome)
      exact WellBound.accepted_device sound well
  | driver drv results =>
      obtain rfl := Option.some.inj
        ((driverRegister_eq matching sound drv results).symm.trans outcome)
      exact WellBound.accepted_driver sound well

end Registrations

/-- The bindings are right after every call of a run exactly if every
registration of the run was accepted. -/
theorem register_good_iff (matching : Dev → Drv → Bool)
    (calls : List (Registration Dev Drv)) (bus : Bus Dev Drv)
    (empty : Empty bus) :
    Trace.Throughout (register matching) Good calls (some bus) ↔
      Trace.Allowed (register matching)
        (fun call state => ∃ bus, state = some bus ∧
          Accepted matching call bus) calls (some bus) := by
  have keeps : ∀ (call : Registration Dev Drv) (state : Option (Bus Dev Drv)),
      (∃ bus, state = some bus ∧ Sound bus) →
      (∃ bus, state = some bus ∧ Accepted matching call bus) →
      ∃ after, register matching call state = some after ∧ Sound after := by
    rintro call state ⟨bus, rfl, sound⟩ ⟨same, isSame, accepted⟩
    obtain rfl := Option.some.inj isSame
    exact sound.register accepted
  apply Trace.throughout_iff_allowed keeps
  · rintro state ⟨bus, rfl, sound⟩
    exact ⟨bus, rfl, sound.wellBound⟩
  · rintro call state ⟨bus, rfl, sound⟩ good
    exact ⟨bus, rfl, accepted_of_good sound good⟩
  · exact ⟨bus, rfl, empty.sound⟩

/-- A bus on which nothing is registered. -/
def Bus.initial : Bus Dev Drv := ⟨⟨id, id⟩, fun _ => none, [], [], []⟩

omit [DecidableEq Dev] [DecidableEq Drv] in
theorem initial_empty : Empty (Bus.initial : Bus Dev Drv) where
  devices := ⟨LinkedRing.empty_iff.mpr ⟨rfl, rfl⟩, by simp⟩
  drivers := ⟨LinkedRing.empty_iff.mpr ⟨rfl, rfl⟩, by simp⟩
  lists _ := ⟨LinkedRing.empty_iff.mpr ⟨rfl, rfl⟩, by simp⟩
  unbound _ := rfl
  probes := rfl
  devs := rfl
  drvs := rfl

/-- A driver and two devices it accepts. -/
theorem register_good_iff_pair :
    Trace.Throughout (register fun (_ : Bool) (_ : Unit) => true) Good
      [.device false fun _ => 0, .driver () fun _ => 0, .device true fun _ => 0]
      (some Bus.initial) := by
  apply (register_good_iff _ _ Bus.initial initial_empty).mpr
  refine Trace.allowed_cons.mpr ⟨⟨_, rfl, ?_⟩, Trace.allowed_cons.mpr
    ⟨⟨_, rfl, ?_⟩, Trace.allowed_cons.mpr ⟨⟨_, rfl, ?_⟩, Trace.allowed_nil⟩⟩⟩
  · exact ⟨List.not_mem_nil, fun _ _ => rfl⟩
  · refine ⟨List.not_mem_nil, fun dev member _ => ⟨?_, rfl⟩⟩
    rfl
  · exact ⟨by decide, fun _ _ => rfl⟩

/-- A device whose only driver refuses it stays on the list of the driver. -/
theorem register_not_good :
    ¬ Trace.Throughout (register fun (_ : Unit) (_ : Unit) => true) Good
      [.driver () fun _ => 0, .device () fun _ => -5]
      (some Bus.initial) := by
  intro throughout
  have accepted : Accepted (fun (_ : Unit) (_ : Unit) => true)
      (.driver () fun _ => 0) Bus.initial :=
    ⟨List.not_mem_nil, fun _ member => absurd member List.not_mem_nil⟩
  obtain ⟨bus, registered, sound⟩ :=
    initial_empty.sound.register accepted
  have good := throughout
    [.driver () fun _ => 0, .device () fun _ => -5] [] rfl
  simp only [Trace.run, registered] at good
  have drivers : bus.drvs = [()] := by
    rw [← Option.some.inj registered]
    rfl
  have zero := (accepted_of_good sound good).2 () (by rw [drivers]; rfl)
  exact absurd zero (by decide)

end Witos.Device
