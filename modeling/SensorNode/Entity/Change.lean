/-
Change events: what the ledger tells its subscribers about an entity. The entity travels as a JSON value and is read
into its type by whoever handles the event.
-/
import SensorNode.Entity.Wire
import SensorNode.Json.Printer

namespace SensorNode

/-- one change of one entity -/
structure ChangeEvent where
  kind : ChangeKind
  entity : Json
  deriving Inhabited

namespace ChangeEvent

/-- the event for an entity with this JSON form -/
def of (kind : ChangeKind) (entity : Json) : ChangeEvent := ⟨kind, entity.sorted⟩

/-- reads the entity -/
def decode? {α : Type} (event : ChangeEvent) (ofRaw? : Json.Raw → Option α) : Option α := ofRaw? event.entity.toRaw

/-- what is said when the entity cannot be read -/
def decodeFailure : String := "Failed to decode change event entity"

def fieldNames : List String := ["kind", "entity"]

/-- the event that a tree stands for; the tree around the entity is one level of nesting -/
def ofRaw? (r : Json.Raw) : Option ChangeEvent := do
  let fields ← r.fields? fieldNames
  let kind ← fields.required? "kind" fun v => v.choice? ChangeKind.ofName?
  let entity ← fields.required? "entity" (Json.Raw.toJson? (Json.nestingLimit - 1))
  return ⟨kind, entity⟩

def parse? (text : String) : Option ChangeEvent := (Json.Raw.parse? text).bind ofRaw?

def toJson (event : ChangeEvent) : Json := .object [("kind", .string event.kind.name), ("entity", event.entity)]

def text (event : ChangeEvent) : String := event.toJson.text

end ChangeEvent

end SensorNode
