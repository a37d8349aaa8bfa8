import Mathlib.Data.Int.Order.Basic
import Witos.Library.LinkedRing

/-!
# Devices and drivers of a bus

`driver/device.c` over the pointers of its lists.  A device has one node for
the list of the bus and one for the list of its driver; a driver has a node for
the list of the bus and a head for the list of its devices.

The calls of `probe` are recorded with the driver of the device before the call
and the value returned, and the registered devices and drivers in their order.
`none` is a loop that does not end or leaves the list.
-/

namespace Witos.Device

open Library

/-- The `struct list_head`s: two in a bus, two in every device and two in every
driver. -/
inductive Node (Dev Drv : Type) where
  | devList
  | drvList
  | devBus (dev : Dev)
  | devDrv (dev : Dev)
  | drvBus (drv : Drv)
  | drvDevs (drv : Drv)
  deriving DecidableEq

/-- A call of `probe`. -/
structure Probe (Dev Drv : Type) where
  dev : Dev
  drv : Drv
  before : Option Drv
  result : Int

structure Bus (Dev Drv : Type) where
  links : Links (Node Dev Drv)
  drv : Dev → Option Drv
  probes : List (Probe Dev Drv)
  devs : List Dev
  drvs : List Drv

variable {Dev Drv : Type} [DecidableEq Dev] [DecidableEq Drv]

/-- `list_add_tail(&dev->bus_node, &bus->dev_list)`. -/
def Bus.addDevice (bus : Bus Dev Drv) (dev : Dev) : Bus Dev Drv :=
  { bus with
    links := bus.links.addTail (.devBus dev) .devList
    devs := bus.devs ++ [dev] }

/-- `list_add_tail(&drv->bus_node, &bus->drv_list)`. -/
def Bus.addDriver (bus : Bus Dev Drv) (drv : Drv) : Bus Dev Drv :=
  { bus with
    links := bus.links.addTail (.drvBus drv) .drvList
    drvs := bus.drvs ++ [drv] }

/-- `list_add_tail(&dev->drv_node, &drv->dev_list)`, `dev->drv = drv` and
`drv->probe(dev)`. -/
def Bus.attach (bus : Bus Dev Drv) (dev : Dev) (drv : Drv) (result : Int) :
    Bus Dev Drv :=
  { bus with
    links := bus.links.addTail (.devDrv dev) (.drvDevs drv)
    drv := Function.update bus.drv dev (some drv)
    probes := bus.probes ++ [⟨dev, drv, bus.drv dev, result⟩] }

/-- `dev->drv = NULL`. -/
def Bus.detach (bus : Bus Dev Drv) (dev : Dev) : Bus Dev Drv :=
  { bus with drv := Function.update bus.drv dev none }

variable (matching : Dev → Drv → Bool)

/-- The loop of `device_register`. -/
def scanDrivers (dev : Dev) (results : Drv → Int) :
    Nat → Node Dev Drv → Bus Dev Drv → Option (Bus Dev Drv)
  | _ + 1, .drvList, bus => some bus
  | fuel + 1, .drvBus drv, bus =>
      if matching dev drv then
        let bus := bus.attach dev drv (results drv)
        if results drv = 0 then some bus
        else
          scanDrivers dev results fuel (bus.links.next (.drvBus drv))
            (bus.detach dev)
      else scanDrivers dev results fuel (bus.links.next (.drvBus drv)) bus
  | _, _, _ => none

def deviceRegister (dev : Dev) (results : Drv → Int) (bus : Bus Dev Drv) :
    Option (Bus Dev Drv) :=
  let bus := bus.addDevice dev
  scanDrivers matching dev results (bus.drvs.length + 1)
    (bus.links.next .drvList) bus

/-- The loop of `driver_register`. -/
def scanDevices (drv : Drv) (results : Dev → Int) :
    Nat → Node Dev Drv → Bus Dev Drv → Option (Bus Dev Drv)
  | _ + 1, .devList, bus => some bus
  | fuel + 1, .devBus dev, bus =>
      if matching dev drv then
        let bus := bus.attach dev drv (results dev)
        let bus := if results dev < 0 then bus.detach dev else bus
        scanDevices drv results fuel (bus.links.next (.devBus dev)) bus
      else scanDevices drv results fuel (bus.links.next (.devBus dev)) bus
  | _, _, _ => none

def driverRegister (drv : Drv) (results : Dev → Int) (bus : Bus Dev Drv) :
    Option (Bus Dev Drv) :=
  let bus := bus.addDriver drv
  scanDevices matching drv results (bus.devs.length + 1)
    (bus.links.next .devList) bus

/-- A registration, with what the calls of `probe` it makes return. -/
inductive Registration (Dev Drv : Type) where
  | device (dev : Dev) (results : Drv → Int)
  | driver (drv : Drv) (results : Dev → Int)

def register : Registration Dev Drv → Option (Bus Dev Drv) →
    Option (Bus Dev Drv)
  | .device dev results, bus =>
      bus.bind (deviceRegister matching dev results)
  | .driver drv results, bus =>
      bus.bind (driverRegister matching drv results)

end Witos.Device
