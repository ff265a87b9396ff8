import EventMerge.Event.Basic

/-!
# How a store works

* `StoreConfig`          the policies and the kind of events of a store;
* `StoreConfig.factory`  how its events are made.
-/

namespace EventMerge

structure StoreConfig where
  collisionPolicy : CollisionPolicy := .firstWins
  putPolicy : PutPolicy := .replace
  eventKind : EventKind := .eager
  reuseEvents : Bool := false
  deriving DecidableEq

namespace StoreConfig

instance : Inhabited StoreConfig := ⟨{}⟩

def factory (c : StoreConfig) : Event.Factory := ⟨c.eventKind, c.putPolicy, c.reuseEvents⟩

end StoreConfig

end EventMerge
