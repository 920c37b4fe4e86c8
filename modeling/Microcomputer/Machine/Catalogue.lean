import Std.Data.TreeMap
import Microcomputer.Device

/-! A catalogue of devices by name. Each device taken from it is as it was entered. -/

namespace Microcomputer

structure Catalogue where
  devices : Std.TreeMap String Device

namespace Catalogue

def empty : Catalogue := ⟨∅⟩

/-- Enter a device; a name has one device, the one entered last. -/
def insert (c : Catalogue) (name : String) (d : Device) : Catalogue := ⟨c.devices.insert name d⟩

def device? (c : Catalogue) (name : String) : Option Device := c.devices[name]?

def contains (c : Catalogue) (name : String) : Bool := c.devices.contains name

/-- The names in the order of their characters. -/
def names (c : Catalogue) : List String := c.devices.keys

end Catalogue

end Microcomputer
