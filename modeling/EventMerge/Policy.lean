/-!
# Policies

* `CollisionPolicy`  what happens when two sources provide one name;
* `PutPolicy`        what happens when a collection is put under a name that is taken;
* `EventKind`        when the collections of an event are decoded.
-/

namespace EventMerge

/-- what happens when two sources provide a collection of one name -/
inductive CollisionPolicy where
  | firstWins
  | reject
  deriving DecidableEq

/-- what happens when a collection is put under a name that the event already holds -/
inductive PutPolicy where
  | replace
  /-- the old collection stays and the new one is dropped -/
  | keepOriginal
  | reject
  deriving DecidableEq

/-- when the collections of an event are decoded -/
inductive EventKind where
  /-- all of them when the first is needed -/
  | eager
  /-- each when it is needed itself -/
  | lazy
  deriving DecidableEq

namespace CollisionPolicy

instance : Inhabited CollisionPolicy := ⟨.firstWins⟩

def name : CollisionPolicy → String
  | .firstWins => "first-wins"
  | .reject => "reject"

def ofName? (text : String) : Option CollisionPolicy :=
  if text = "first-wins" then some .firstWins
  else if text = "reject" then some .reject
  else none

theorem ofName?_name (p : CollisionPolicy) : ofName? p.name = some p := by
  cases p <;> decide

end CollisionPolicy

namespace PutPolicy

instance : Inhabited PutPolicy := ⟨.replace⟩

def name : PutPolicy → String
  | .replace => "replace"
  | .keepOriginal => "keep-original"
  | .reject => "reject"

def ofName? (text : String) : Option PutPolicy :=
  if text = "replace" then some .replace
  else if text = "keep-original" then some .keepOriginal
  else if text = "reject" then some .reject
  else none

theorem ofName?_name (p : PutPolicy) : ofName? p.name = some p := by
  cases p <;> decide

end PutPolicy

namespace EventKind

instance : Inhabited EventKind := ⟨.eager⟩

def name : EventKind → String
  | .eager => "eager"
  | .lazy => "lazy"

def ofName? (text : String) : Option EventKind :=
  if text = "eager" then some .eager
  else if text = "lazy" then some .lazy
  else none

theorem ofName?_name (k : EventKind) : ofName? k.name = some k := by
  cases k <;> decide

end EventKind

end EventMerge
