import EventMerge.Store.Config
import EventMerge.Toml.Record

/-!
# Store configurations in files

* `StoreConfig.ofItem?`  the configuration of a table;
* `StoreConfig.parse`    the configuration of a document;
* `StoreConfig.load`     the configuration in a file.
-/

namespace EventMerge.StoreConfig

open Toml (Item Slots)

def fieldNames : List String := ["collision_policy", "put_policy", "event_kind", "reuse_events"]

/-- the configuration of a table; what it leaves out has its default -/
def ofItem? (item : Item) : Option StoreConfig :=
  match Slots.ofItem? fieldNames item with
  | some [collision, put, kind, reuse] =>
    match Slots.orDefault? .firstWins (Toml.choice? CollisionPolicy.ofName?) collision,
      Slots.orDefault? .replace (Toml.choice? PutPolicy.ofName?) put,
      Slots.orDefault? .eager (Toml.choice? EventKind.ofName?) kind,
      Slots.orDefault? false Toml.boolean? reuse with
    | some collisionPolicy, some putPolicy, some eventKind, some reuseEvents =>
      some { collisionPolicy, putPolicy, eventKind, reuseEvents }
    | _, _, _, _ => none
  | _ => none

def parse (text : String) : Except StoreError StoreConfig :=
  match Toml.record? ofItem? text with
  | some config => .ok config
  | none => .error (.config .malformed)

/-- the configuration in a file, which may be missing -/
def load (file : Option Bytes) : Except StoreError StoreConfig :=
  match file.bind Bytes.toText? with
  | some text => parse text
  | none => .error .io

def parseKind (text : String) : Except StoreError EventKind :=
  match EventKind.ofName? text with
  | some kind => .ok kind
  | none => .error (.config (.unknownEventKind text))

end EventMerge.StoreConfig
