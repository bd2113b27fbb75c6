/-
Which forms of an entity a removal reaches. The listeners read an entity out of an object or out of an array of its
fields. A removal reads the id alone: out of an object it finds the id that the whole entity has, whatever else the
object says (`idOfRaw?_object`), but an array of more fields than the id is no form of an id (`idOfRaw?_array`), and every
entity has more. So an entity written as an object is gone once a removal with the same tree has been taken in, and one
written as an array stays (`applyChange_removed`, `array_is_not_removed`).
-/
import SensorNode.Proofs.Planning.Replacement
import SensorNode.Proofs.Site.Changes

namespace SensorNode

open Json

variable {topic : Topic} {id : String}

/-! ## Distinct keys -/

theorem length_eraseDups_le {α : Type} [BEq α] [LawfulBEq α] (l : List α) : l.eraseDups.length ≤ l.length := by
  induction hn : l.length using Nat.strong_induction_on generalizing l with
  | _ n ih =>
    subst hn
    cases l with
    | nil => exact le_rfl
    | cons a l =>
      have hrest : (l.filter fun b => !b == a).length ≤ l.length := List.length_filter_le ..
      have hdups := ih _ (Nat.lt_succ_of_le hrest) _ rfl
      rw [List.eraseDups_cons, List.length_cons, List.length_cons]
      exact Nat.succ_le_succ (hdups.trans hrest)

/-- a list that loses nothing has no duplicates -/
theorem nodup_of_length_eraseDups {α : Type} [BEq α] [LawfulBEq α] {l : List α} (h : l.length = l.eraseDups.length) :
    l.Nodup := by
  induction l with
  | nil => exact List.nodup_nil
  | cons a l ih =>
    rw [List.eraseDups_cons, List.length_cons, List.length_cons, Nat.succ_inj] at h
    have hkept : (l.filter fun b => !b == a) = l :=
      List.filter_sublist.eq_of_length (le_antisymm (List.length_filter_le ..) (h ▸ length_eraseDups_le _))
    rw [hkept] at h
    refine List.nodup_cons.2 ⟨fun ha => ?_, ih h⟩
    have hne := (List.filter_eq_self.1 hkept) a ha
    simp at hne

/-! ## Two readers of one tree -/

/-- the fields of the entities of a topic -/
def Topic.fieldNames : Topic → List String
  | .assets => Asset.fieldNames
  | .devices => DeviceModel.fieldNames
  | .requirements => Requirements.fieldNames

/-- the id of the entity in a tree, if a listener of this topic can read the entity -/
def Topic.entityId? (topic : Topic) (r : Raw) : Option String :=
  match topic with
  | .assets => (Asset.ofRaw? r).map Asset.id
  | .devices => (DeviceModel.ofRaw? r).map DeviceModel.id
  | .requirements => (Requirements.ofRaw? r).map Requirements.id

theorem Fields.required?_eq_some {α : Type} {fields : Fields} {name : String} {item? : Raw → Option α} {v : α}
    (h : fields.required? name item? = some v) : ∃ r, fields.find name = some r ∧ item? r = some v :=
  Option.bind_eq_some_iff.1 h

/-- an entity that can be read has an id, and a field besides it that cannot be left out -/
theorem Topic.fields_of_entityId? {r : Raw} (h : topic.entityId? r = some id) :
    ∃ fields, r.fields? topic.fieldNames = some fields ∧ fields.required? "id" Raw.text? = some id ∧
      ∃ name, name ≠ "id" ∧ (fields.find name).isSome := by
  cases topic with
  | assets =>
    obtain ⟨a, ha, rfl⟩ := Option.map_eq_some_iff.1 h
    simp only [Asset.ofRaw?, Option.bind_eq_bind, Option.bind_eq_some_iff] at ha
    obtain ⟨fields, hfields, id, hid, name, -, sku, -, location, hlocation, ha⟩ := ha
    obtain rfl := Option.some.inj ha
    obtain ⟨v, hv, -⟩ := Fields.required?_eq_some hlocation
    exact ⟨fields, hfields, hid, "location", by decide, hv ▸ rfl⟩
  | devices =>
    obtain ⟨d, hd, rfl⟩ := Option.map_eq_some_iff.1 h
    simp only [DeviceModel.ofRaw?, Option.bind_eq_bind, Option.bind_eq_some_iff] at hd
    obtain ⟨fields, hfields, id, hid, name, -, hostname, -, location, hlocation, supports, -, hd⟩ := hd
    obtain rfl := Option.some.inj hd
    obtain ⟨v, hv, -⟩ := Fields.required?_eq_some hlocation
    exact ⟨fields, hfields, hid, "location", by decide, hv ▸ rfl⟩
  | requirements =>
    obtain ⟨q, hq, rfl⟩ := Option.map_eq_some_iff.1 h
    simp only [Requirements.ofRaw?, Option.bind_eq_bind, Option.bind_eq_some_iff] at hq
    obtain ⟨fields, hfields, id, hid, assetId, hassetId, metrics, -, period, -, hq⟩ := hq
    obtain rfl := Option.some.inj hq
    obtain ⟨v, hv, -⟩ := Fields.required?_eq_some hassetId
    exact ⟨fields, hfields, hid, "asset_id", by decide, hv ▸ rfl⟩

/-- the members of an object under one of the names -/
def Json.Raw.known (names : List String) (members : List (Option String × Raw)) : List (Option String × Raw) :=
  members.filter fun m => names.any fun n => m.1 = some n

/-- an object whose fields were found has no known member twice -/
theorem Json.Raw.fields?_object_eq_some {members : List (Option String × Raw)} {names : List String} {fields : Fields}
    (h : (Raw.object members).fields? names = some fields) :
    ¬(members.any fun m => m.1.isNone) = true ∧ ((known names members).map Prod.fst).Nodup ∧
      fields = ⟨fun n => ((known names members).find? fun m => m.1 = some n).map Prod.snd, false⟩ := by
  unfold Raw.fields? at h
  dsimp only at h
  split_ifs at h with hkeys hlength
  exact ⟨hkeys, nodup_of_length_eraseDups ((List.length_map _).trans hlength), (Option.some.inj h).symm⟩

/-- in an object a field is found in the same place, whichever other fields are asked for -/
theorem Json.Raw.fields?_object_single {members : List (Option String × Raw)} {names : List String} {name : String}
    {fields : Fields} (hname : name ∈ names) (h : (Raw.object members).fields? names = some fields) :
    ∃ fields', (Raw.object members).fields? [name] = some fields' ∧ fields'.find name = fields.find name := by
  obtain ⟨hkeys, hnodup, rfl⟩ := fields?_object_eq_some h
  have hmember : ∀ m : Option String × Raw,
      ([name].any fun n => m.1 = some n) = ((names.any fun n => m.1 = some n) && [name].any fun n => m.1 = some n) := by
    intro m
    by_cases hm : m.1 = some name
    · have hany : (names.any fun n => m.1 = some n) = true := List.any_eq_true.2 ⟨name, hname, by simp [hm]⟩
      rw [hany, Bool.true_and]
    · simp [hm]
  have hsingle : known [name] members = (known names members).filter fun m => [name].any fun n => m.1 = some n := by
    unfold known
    rw [List.filter_filter]
    exact List.filter_congr fun m _ => (hmember m).trans (Bool.and_comm ..)
  have hnodup' : ((known [name] members).map Prod.fst).Nodup := by
    rw [hsingle]
    exact hnodup.sublist (List.filter_sublist.map _)
  refine ⟨⟨fun n => ((known [name] members).find? fun m => m.1 = some n).map Prod.snd, false⟩, ?_, ?_⟩
  · unfold Raw.fields?
    dsimp only
    rw [if_neg hkeys]
    refine if_pos ((List.length_map Prod.fst).symm.trans ?_)
    exact congrArg List.length (eraseDups_eq_self hnodup').symm
  · dsimp only
    rw [hsingle, List.find?_filter]
    refine congrArg (fun found => Option.map Prod.snd found) (congrArg (List.find? · _) (funext fun m => ?_))
    by_cases hm : m.1 = some name <;> simp [hm]

/-- the id in an object is found, whatever else the object says -/
theorem Entity.idOfRaw?_object {members : List (Option String × Raw)}
    (h : topic.entityId? (.object members) = some id) : Entity.idOfRaw? (.object members) = some id := by
  obtain ⟨fields, hfields, hid, -⟩ := Topic.fields_of_entityId? h
  have hname : "id" ∈ topic.fieldNames := by cases topic <;> decide
  obtain ⟨fields', hfields', hfind⟩ := Raw.fields?_object_single hname hfields
  unfold Entity.idOfRaw?
  rw [hfields']
  exact (congrArg (Option.bind · Raw.text?) hfind).trans hid

/-- an entity takes more than one item of an array -/
theorem Topic.one_lt_of_entityId? {items : List Raw} (h : topic.entityId? (.array items) = some id) :
    1 < items.length := by
  obtain ⟨fields, hfields, -, name, hname, hfind⟩ := Topic.fields_of_entityId? h
  by_contra hshort
  unfold Raw.fields? at hfields
  dsimp only at hfields
  split_ifs at hfields
  cases hfields
  -- the first field of every topic is the id, and there is no item for another
  have hfirst : ∃ names, topic.fieldNames = "id" :: names := by cases topic <;> exact ⟨_, rfl⟩
  obtain ⟨names, hnames⟩ := hfirst
  rw [Option.isSome_map, List.find?_isSome] at hfind
  obtain ⟨p, hp, hpname⟩ := hfind
  rw [hnames] at hp
  cases items with
  | nil => cases hp
  | cons v items =>
    obtain rfl : items = [] := List.length_eq_zero_iff.1 (by simpa using hshort)
    rw [List.zip_cons_cons, List.zip_nil_right, List.mem_singleton] at hp
    rw [hp] at hpname
    exact hname (of_decide_eq_true hpname).symm

/-- there is no id in an array of more than the id -/
theorem Entity.idOfRaw?_array {items : List Raw} (h : 1 < items.length) : Entity.idOfRaw? (.array items) = none := by
  have hfields : (Raw.array items).fields? ["id"] = none := if_pos h
  unfold Entity.idOfRaw?
  rw [hfields]
  rfl

/-! ## What a removal leaves -/

namespace Site

/-- The entity with this id is gone, and all else is as before: the asset is not kept, the requirements are given up
with what they held, and if the device itself is the one this is announced. -/
def Removes (topic : Topic) (id : String) (s s' : Site) : Prop :=
  match topic with
  | .assets => ∃ assets, s' = { s with assets } ∧
      ∀ id', assets.find? id' = if id' = id then none else s.assets.find? id'
  | .devices => s' = { s with bus := if id = s.identity.id then s.bus.emit .removed else s.bus }
  | .requirements => ∃ planner, s' = { s with toPlanner := planner } ∧ Planner.Drops id s.toPlanner planner

variable {s : Site}

/-- a removal that names an id removes what is under it -/
theorem removes_of_idOfRaw? {tree : Json} (h : Entity.idOfRaw? tree.toRaw = some id) :
    Removes topic id s (s.applyChange topic ⟨.removed, tree⟩) := by
  have hdecode : (ChangeEvent.mk .removed tree).decode? Entity.idOfRaw? = some id := h
  cases topic with
  | assets =>
    refine ⟨s.assets.erase id, ?_, Keyed.find?_erase s.assets id⟩
    simp only [applyChange, applyAsset, hdecode]
  | devices =>
    simp only [Removes, applyChange, applyDevice, hdecode]
    split_ifs <;> rfl
  | requirements =>
    refine ⟨(s.withdraw id).2, ?_, Planner.withdraw_drops s.toPlanner id⟩
    simp only [applyChange, applyRequirements, hdecode]

/-- a removal that names no id changes nothing -/
theorem applyChange_of_idOfRaw?_none {tree : Json} (h : Entity.idOfRaw? tree.toRaw = none) :
    s.applyChange topic ⟨.removed, tree⟩ = s := by
  have hdecode : (ChangeEvent.mk .removed tree).decode? Entity.idOfRaw? = none := h
  cases topic <;> simp only [applyChange, applyAsset, applyDevice, applyRequirements, hdecode]

/-- Of the trees that can be read as an entity, the removal with an object takes the entity away, and the removal with
an array does nothing. There are no others. -/
theorem applyChange_removed (s : Site) (topic : Topic) (tree : Json) (id : String)
    (h : topic.entityId? tree.toRaw = some id) :
    match tree with
    | .object _ => Removes topic id s (s.applyChange topic ⟨.removed, tree⟩)
    | .array _ => s.applyChange topic ⟨.removed, tree⟩ = s
    | _ => False := by
  cases tree with
  | object members =>
    rw [toRaw] at h
    have hid := Entity.idOfRaw?_object h
    rw [← toRaw] at hid
    exact removes_of_idOfRaw? hid
  | array items =>
    rw [toRaw] at h
    have hid := Entity.idOfRaw?_array (Topic.one_lt_of_entityId? h)
    rw [← toRaw] at hid
    exact applyChange_of_idOfRaw?_none hid
  | null | bool b | number n | string x =>
    obtain ⟨fields, hfields, -⟩ := Topic.fields_of_entityId? h
    rw [toRaw] at hfields
    cases hfields

/-! ## Entities as arrays -/

def listedAsset : Json :=
  .array [.string "a1", .string "", .null, .array [.number (.integer 0), .number (.integer 0)]]

def listedDevice : Json :=
  .array [.string "dev-1", .string "", .string "", .array [.number (.integer 0), .number (.integer 0)]]

def listedRequirements : Json :=
  .array [.string "r1", .string "a1", .array [.string "humidity"], .number (.integer 5)]

/-- a site that has been told of an asset and of requirements for it by arrays -/
def listed : Site :=
  let s := Site.new "dev-1" ⟨1000⟩ .mean 100.0
  let s := { s with identity := (s.identity.adopt spotDevice).2 }
  (s.applyChange .assets ⟨.inserted, listedAsset⟩).applyChange .requirements ⟨.inserted, listedRequirements⟩

/-- the same requirements as an object, without a period and with a member that means nothing -/
def namedRequirements : Json :=
  .object [("note", .null), ("id", .string "r1"), ("metrics", .array [.string "humidity"]), ("asset_id", .string "a1")]

theorem applyChange_removed_named_listed :
    Topic.requirements.entityId? namedRequirements.toRaw = some "r1" ∧
      Removes .requirements "r1" listed (listed.applyChange .requirements ⟨.removed, namedRequirements⟩) ∧
      Topic.assets.entityId? listedAsset.toRaw = some "a1" ∧
      listed.applyChange .assets ⟨.removed, listedAsset⟩ = listed :=
  ⟨by rfl, applyChange_removed listed .requirements namedRequirements "r1" (by rfl), by rfl,
    applyChange_removed listed .assets listedAsset "a1" (by rfl)⟩

/-- What was accepted as an array stays when it is removed by the same array: the asset is still kept, the requirements
still hold their live subscription, and the removal of the device is not announced. -/
theorem array_is_not_removed :
    (Topic.assets.entityId? listedAsset.toRaw = some "a1" ∧
      ((listed.applyChange .assets ⟨.removed, listedAsset⟩).assets.find? "a1").isSome = true ∧
      ¬Removes .assets "a1" listed (listed.applyChange .assets ⟨.removed, listedAsset⟩)) ∧
    (Topic.requirements.entityId? listedRequirements.toRaw = some "r1" ∧
      (listed.applyChange .requirements ⟨.removed, listedRequirements⟩).Has "r1" ⟨0⟩ ∧
      (listed.applyChange .requirements ⟨.removed, listedRequirements⟩).IsLive ⟨0⟩ ∧
      ¬Removes .requirements "r1" listed (listed.applyChange .requirements ⟨.removed, listedRequirements⟩)) ∧
    (Topic.devices.entityId? listedDevice.toRaw = some listed.identity.id ∧
      (listed.applyChange .devices ⟨.removed, listedDevice⟩).bus.sent = listed.bus.sent ∧
      ¬Removes .devices "dev-1" listed (listed.applyChange .devices ⟨.removed, listedDevice⟩)) := by
  have hassets : (listed.assets.find? "a1").isSome = true := by rfl
  have hrequirements : listed.Has "r1" ⟨0⟩ := ⟨_, by rfl, by rfl⟩
  have hlive : listed.IsLive ⟨0⟩ := ⟨by decide +kernel, by rfl⟩
  have hid : listed.identity.id = "dev-1" := by rfl
  -- none of the arrays names an id to a removal
  have hasset : listed.applyChange .assets ⟨.removed, listedAsset⟩ = listed :=
    applyChange_of_idOfRaw?_none (by rfl)
  have hrequirement : listed.applyChange .requirements ⟨.removed, listedRequirements⟩ = listed :=
    applyChange_of_idOfRaw?_none (by rfl)
  have hdevice : listed.applyChange .devices ⟨.removed, listedDevice⟩ = listed :=
    applyChange_of_idOfRaw?_none (by rfl)
  rw [hasset, hrequirement, hdevice]
  refine ⟨⟨by rfl, hassets, fun hremoves => ?_⟩, ⟨by rfl, hrequirements, hlive, fun hremoves => ?_⟩,
    by rfl, rfl, fun hremoves => ?_⟩
  · obtain ⟨assets, hsame, hfind⟩ := hremoves
    have hnone : listed.assets.find? "a1" = none := by
      rw [hsame]
      exact (hfind "a1").trans (if_pos rfl)
    rw [hnone] at hassets
    cases hassets
  · obtain ⟨planner, hsame, hdrops⟩ := hremoves
    obtain ⟨r, hr, -⟩ := hrequirements
    have hnone : listed.requests.find? "r1" = none := by
      rw [hsame]
      exact (hdrops.requests "r1").trans (if_pos rfl)
    rw [hr] at hnone
    cases hnone
  · have hsent := congrArg (fun s : Site => s.bus.sent) hremoves
    dsimp only at hsent
    rw [if_pos hid.symm] at hsent
    exact absurd hsent (Nat.succ_ne_self _).symm

end Site

end SensorNode
