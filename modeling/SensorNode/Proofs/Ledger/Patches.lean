/-
Updates of devices by patch, which no stream is told of. They add no device and take none away. So a stream of devices
leads to what would be stored if nobody had patched anything since its subscription (`Behind.perform`), and what is
stored are those entries with the patches that nobody was told of (`devices_streams_behind`).
-/
import SensorNode.Proofs.Ledger.Mirror

namespace SensorNode

/-- patches a device's entry, with one patch after the other -/
def DevicePatch.applyAll (patches : List DevicePatch) (d : DeviceModel) : DeviceModel :=
  patches.foldl (fun d patch => patch.apply d) d

namespace Ledger

variable {l told : Ledger}

/-- the patches of a device that nobody is told of, after an operation -/
def Op.unsaid (id : String) (patches : List DevicePatch) : Op → List DevicePatch
  | .updateDevice id' patch => if id' = id then patches ++ [patch] else patches
  | .putDevice d => if d.id = id then [] else patches
  | .removeDevice id' => if id' = id then [] else patches
  | _ => patches

/-- the patches of a device since it was put or removed last -/
def unsaid (id : String) (ops : List Op) : List DevicePatch := ops.foldl (Op.unsaid id) []

/-- it puts, removes or patches a device -/
def Op.ofDevice : Op → Bool
  | .putDevice _ | .removeDevice _ | .updateDevice _ _ => true
  | _ => false

/-! ## One operation -/

/-- what does not concern devices leaves them alone, and their streams are told nothing -/
theorem perform_devices {op : Op} (h : op.ofDevice = false) (l : Ledger) :
    (l.perform op).devices = l.devices ∧ l.news .devices op = [] := by
  cases op with
  | putDevice _ | removeDevice _ | updateDevice _ _ => cases h
  | removeAsset id =>
    unfold news
    simp only [perform, removeAsset, announces]
    cases l.assets.find? id <;> exact ⟨rfl, rfl⟩
  | removeRequirements id =>
    unfold news
    simp only [perform, removeRequirements, announces]
    cases l.requirements.find? id <;> exact ⟨rfl, rfl⟩
  | read stream =>
    refine ⟨?_, rfl⟩
    simp only [perform, next?]
    cases l.streams[stream]? with
    | none => rfl
    | some s =>
      rw [Option.bind_some]
      cases s.unread.head? <;> rfl
  | _ => exact ⟨rfl, rfl⟩

theorem removeDevice_devices (l : Ledger) (id : String) : (l.removeDevice id).devices = l.devices.erase id := by
  unfold removeDevice
  cases hd : l.devices.find? id with
  | none => exact (Keyed.erase_of_find? hd).symm
  | some d => rfl

/-- what is stored are the entries that have been told, each with the patches that nobody was told of -/
structure Behind (patches : String → List DevicePatch) (told l : Ledger) : Prop where
  keys : told.devices.keys = l.devices.keys
  find? : ∀ id, l.devices.find? id = (told.devices.find? id).map (DevicePatch.applyAll (patches id))

/-- an operation keeps this so, and what is told of it leads to the entries that have been told then -/
structure Leads (patches : String → List DevicePatch) (told l : Ledger) (op : Op) (told' : Ledger) : Prop where
  behind : Behind (fun id => op.unsaid id (patches id)) told' (l.perform op)
  replay : replayAll? (told.images .devices) (l.news .devices op) = some (told'.images .devices)

variable {patches : String → List DevicePatch}

theorem Behind.refl (l : Ledger) : Behind (fun _ => []) l l := by
  refine ⟨rfl, fun id => ?_⟩
  have hnothing : DevicePatch.applyAll [] = fun d => d := rfl
  rw [hnothing, Option.map_id']

theorem Behind.other (h : Behind patches told l) {op : Op} (hop : op.ofDevice = false) :
    Leads patches told l op (told.perform op) := by
  obtain ⟨hdevices, hnews⟩ := perform_devices hop l
  obtain ⟨htold, -⟩ := perform_devices hop told
  have hunsaid : ∀ id, op.unsaid id (patches id) = patches id := fun id => by cases op <;> first | rfl | cases hop
  refine ⟨⟨?_, fun id => ?_⟩, ?_⟩
  · rw [htold, hdevices]
    exact h.keys
  · rw [htold, hdevices, hunsaid]
    exact h.find? id
  · rw [hnews, images, images, htold]
    rfl

theorem Behind.putDevice (h : Behind patches told l) (d : DeviceModel) :
    Leads patches told l (.putDevice d) (told.perform (.putDevice d)) := by
  refine ⟨⟨?_, fun id => ?_⟩, ?_⟩
  · show (told.devices.insert d.id d).keys = (l.devices.insert d.id d).keys
    rw [Keyed.keys_insert, Keyed.keys_insert, h.keys]
  · show (l.devices.insert d.id d).find? id =
      ((told.devices.insert d.id d).find? id).map (DevicePatch.applyAll (if d.id = id then [] else patches id))
    rw [Keyed.find?_insert, Keyed.find?_insert]
    by_cases hid : id = d.id
    · rw [if_pos hid, if_pos hid, if_pos hid.symm]
      rfl
    · rw [if_neg hid, if_neg hid, if_neg (Ne.symm hid)]
      exact h.find? id
  · have hnews : l.news .devices (.putDevice d) = [.of (putKind (told.devices.contains d.id)) d.toJson] := by
      rw [Keyed.contains_congr h.keys]
      rfl
    rw [hnews]
    exact (bind_pure _).trans (replay?_put DeviceModel.decode_id told.devices d)

/-- the entry of which it is told that it is removed has its patches, but it is gone all the same -/
theorem Behind.removeDevice (h : Behind patches told l) (hkeyed : l.IsKeyed) (id : String) :
    Leads patches told l (.removeDevice id) (told.perform (.removeDevice id)) := by
  have htold : (told.perform (.removeDevice id)).devices = told.devices.erase id := removeDevice_devices told id
  have hl : (l.perform (.removeDevice id)).devices = l.devices.erase id := removeDevice_devices l id
  refine ⟨⟨?_, fun id' => ?_⟩, ?_⟩
  · rw [htold, hl, Keyed.keys_erase, Keyed.keys_erase, h.keys]
  · show _ = ((told.perform (.removeDevice id)).devices.find? id').map
      (DevicePatch.applyAll (if id = id' then [] else patches id'))
    rw [htold, hl, Keyed.find?_erase, Keyed.find?_erase]
    by_cases hid : id' = id
    · rw [if_pos hid, if_pos hid]
      rfl
    · rw [if_neg hid, if_neg hid, if_neg (Ne.symm hid)]
      exact h.find? id'
  · unfold news
    simp only [announces, images, htold]
    have hboth : told.devices.contains id = l.devices.contains id := Keyed.contains_congr h.keys id
    cases hd : l.devices.find? id with
    | none =>
      have hnone : told.devices.find? id = none := by simpa [Keyed.contains, hd] using hboth
      rw [Keyed.erase_of_find? hnone]
      rfl
    | some d =>
      -- the entry that is told of has its patches, but its id is all that a removal is replayed with
      obtain rfl := hkeyed.devices id d hd
      have hthere : told.devices.contains d.id = true := hboth.trans (Keyed.contains_of_find? hd)
      exact (bind_pure _).trans (replay?_removed DeviceModel.decode_id told.devices hthere)

theorem Behind.updateDevice (h : Behind patches told l) (id : String) (patch : DevicePatch) :
    Leads patches told l (.updateDevice id patch) told := by
  refine ⟨⟨?_, fun id' => ?_⟩, rfl⟩
  · show told.devices.keys = (l.devices.modify id patch.apply).keys
    rw [Keyed.keys_modify]
    exact h.keys
  · show (l.devices.modify id patch.apply).find? id' = (told.devices.find? id').map
      (DevicePatch.applyAll (if id = id' then patches id' ++ [patch] else patches id'))
    rw [Keyed.find?_modify]
    by_cases hid : id' = id
    · subst hid
      have happly : DevicePatch.applyAll (patches id' ++ [patch]) = patch.apply ∘ DevicePatch.applyAll (patches id') :=
        funext fun _ => List.foldl_append
      rw [if_pos rfl, if_pos rfl, h.find?, Option.map_map, happly]
    · rw [if_neg hid, if_neg (Ne.symm hid)]
      exact h.find? id'

/-- Whoever is told of an operation follows what would be stored if no device were patched. -/
theorem Behind.perform (h : Behind patches told l) (hkeyed : l.IsKeyed) (op : Op) :
    Leads patches told l op (if op.patches .devices then told else told.perform op) := by
  cases op with
  | putDevice d => exact h.putDevice d
  | removeDevice id => exact h.removeDevice hkeyed id
  | updateDevice id patch => exact h.updateDevice id patch
  | _ => exact h.other rfl

/-! ## Runs -/

/-- the operations but for those that patch a device -/
def withoutPatches (ops : List Op) : List Op := ops.filter fun op => !op.patches .devices

theorem Behind.performAll (h : Behind patches told l) (hkeyed : l.IsKeyed) (ops : List Op) :
    let told' := told.performAll (withoutPatches ops)
    Behind (fun id => ops.foldl (Op.unsaid id) (patches id)) told' (l.performAll ops) ∧
      replayAll? (told.images .devices) (l.announced .devices ops) = some (told'.images .devices) := by
  -- both stores go on, the one that is told without the patches
  induction ops generalizing told l patches with
  | nil => exact ⟨h, rfl⟩
  | cons op ops ih =>
    obtain ⟨hbehind, hreplay⟩ := h.perform hkeyed op
    obtain ⟨hbehind', hreplay'⟩ := ih hbehind (hkeyed.perform op)
    have htold : told.performAll (withoutPatches (op :: ops)) =
        (if op.patches .devices then told else told.perform op).performAll (withoutPatches ops) := by
      unfold withoutPatches
      cases hop : op.patches .devices <;> simp [hop, performAll]
    intro told'
    rw [show told' = _ from htold]
    exact ⟨hbehind', (replayAll?_append hreplay _).trans hreplay'⟩

/-- the images are those of what is stored exactly if no entry looks different with its patches -/
theorem Behind.images_iff (h : Behind patches told l) :
    told.images .devices = l.images .devices ↔ ∀ id d, told.devices.find? id = some d →
      (DevicePatch.applyAll (patches id) d).toJson.sorted = d.toJson.sorted := by
  let image (d : DeviceModel) : Json := d.toJson.sorted
  have hfind : ∀ id, (l.images .devices).find? id =
      (told.devices.find? id).map (image ∘ DevicePatch.applyAll (patches id)) := fun id => by
    show (l.devices.mapValues image).find? id = _
    rw [Keyed.mapValues_find?, h.find?, Option.map_map]
  have hfind' : ∀ id, (told.images .devices).find? id = (told.devices.find? id).map image :=
    Keyed.mapValues_find? told.devices image
  constructor
  · intro himages id d hd
    have hid := (hfind id).symm.trans ((congrArg (Keyed.find? · id) himages.symm).trans (hfind' id))
    rw [hd] at hid
    exact Option.some.inj hid
  · intro hsame
    refine Keyed.ext_find? ?_ fun id => ?_
    · show (told.devices.mapValues image).keys = (l.devices.mapValues image).keys
      rw [Keyed.mapValues_keys, Keyed.mapValues_keys, h.keys]
    · rw [hfind, hfind']
      exact Option.map_congr fun d hd => (hsame id d hd).symm

/-- **Streams of devices do not tell of patches.** Let the ledger undergo any operations, and take a stream of devices
that is open then. Replayed on the images of what was stored at its subscription, it leads to the images of what would
be stored now if no device had been patched since. There are the same devices as that, in the same order, and each is
stored with the patches that it has got since it was put last, or since the subscription. So the stream mirrors the
store exactly if no device looks different with those patches. -/
theorem devices_streams_behind (ops : List Op) (n : Nat) (c : ChangeStream)
    (hc : (new.performAll ops).streams[n]? = some c) (htopic : c.topic = .devices) (hopen : c.isOpen = true) :
    ∃ before after, ops = before ++ .subscribe .devices :: after ∧ n = (new.performAll before).streams.length ∧
      let l := new.performAll ops
      let joined := (new.performAll before).perform (.subscribe .devices)
      let told := joined.performAll (withoutPatches after)
      replayAll? (joined.images .devices) c.events = some (told.images .devices) ∧
        told.devices.keys = l.devices.keys ∧
        (∀ id, l.devices.find? id = (told.devices.find? id).map (DevicePatch.applyAll (unsaid id after))) ∧
        (replayAll? (joined.images .devices) c.events = some (l.images .devices) ↔
          ∀ id d, told.devices.find? id = some d →
            (DevicePatch.applyAll (unsaid id after) d).toJson.sorted = d.toJson.sorted) := by
  obtain ⟨before, after, h⟩ := exists_origin ops n c hc
  refine ⟨before, after, htopic ▸ h.ops, h.number, ?_⟩
  intro l joined told
  have hjoined : joined.IsKeyed := (new_isKeyed.performAll before).perform _
  have hl : l = joined.performAll after := by
    show new.performAll ops = _
    rw [h.ops, htopic, performAll_append]
    rfl
  have hevents : c.events = joined.announced .devices after := by
    rw [h.all hopen, htopic]
  obtain ⟨hbehind, hreplay⟩ := (Behind.refl joined).performAll hjoined after
  have hbehind : Behind (fun id => unsaid id after) told l := hl ▸ hbehind
  refine ⟨hevents ▸ hreplay, hbehind.keys, hbehind.find?, ?_⟩
  rw [hevents, hreplay, Option.some.injEq]
  exact hbehind.images_iff

/-- a device is patched while a stream of devices is open, and is put again later -/
def patchedThenPut : List Op :=
  [.putDevice spotDevice, .subscribe .devices, .updateDevice "dev-1" ⟨some [.humidity], none⟩,
    .putDevice { spotDevice with supports := [.humidity] }, .putDevice { spotDevice with id := "dev-2" }]

theorem devices_streams_behind_put_again :
    let l := new.performAll patchedThenPut
    let joined := new.performAll (patchedThenPut.take 2)
    let said : List ChangeEvent := [.of .updated ({ spotDevice with supports := [.humidity] } : DeviceModel).toJson,
      .of .inserted ({ spotDevice with id := "dev-2" } : DeviceModel).toJson]
    l.streams.map ChangeStream.events = [said] ∧
      replayAll? (joined.images .devices) said = some (l.images .devices) := by
  intro l joined said
  have hc : l.streams[0]? = some ⟨.devices, said, 0, false, false⟩ := rfl
  obtain ⟨before, after, hops, -, -, -, -, hmirrors⟩ := devices_streams_behind patchedThenPut 0 _ hc rfl rfl
  obtain ⟨rfl, rfl⟩ : before = patchedThenPut.take 1 ∧ after = patchedThenPut.drop 2 := by
    rcases before with _ | ⟨_, _ | ⟨_, _ | ⟨_, _ | ⟨_, _ | ⟨_, before⟩⟩⟩⟩⟩ <;> simp_all [patchedThenPut]
  refine ⟨rfl, hmirrors.2 fun id d _ => ?_⟩
  have hnone : unsaid id (patchedThenPut.drop 2) = [] := by
    by_cases hid : "dev-1" = id <;> by_cases hid' : "dev-2" = id <;>
      simp [unsaid, Op.unsaid, patchedThenPut, spotDevice, hid, hid']
  rw [hnone]
  rfl

/-- what a device supports can be read off the image of its entry -/
theorem image_supports (d : DeviceModel) :
    ((d.toJson.sorted.toRaw.fields? DeviceModel.fieldNames).bind fun fields =>
      (fields.find "supports").bind Metric.listOfRaw?) = some d.supports := by
  obtain ⟨fields, hfields, hfind⟩ :=
    fields?_sorted [("id", .string d.id), ("name", .string d.name), ("hostname", .string d.hostname),
      ("location", d.location.toJson), ("supports", Metric.listToJson d.supports)] (by simp) DeviceModel.fieldNames
  have hsupports := hfind "supports" (by decide) (Metric.listToJson d.supports) (by simp)
  unfold DeviceModel.toJson
  rw [hfields, Option.bind_some, hsupports, Option.bind_some, Metric.listOfRaw?_sorted]

/-- A device is patched, and an open stream of devices is told nothing of it. -/
theorem patch_untold :
    let joined := new.performAll [.putDevice spotDevice, .subscribe .devices]
    let l := joined.perform (.updateDevice "dev-1" ⟨some [.humidity], none⟩)
    l.streams = [⟨.devices, [], 0, false, false⟩] ∧
      l.devices.find? "dev-1" = some { spotDevice with supports := [.humidity] } ∧
      replayAll? (joined.images .devices) [] ≠ some (l.images .devices) := by
  intro joined l
  refine ⟨rfl, rfl, fun himages => ?_⟩
  have hfind : (joined.images .devices).find? "dev-1" = (l.images .devices).find? "dev-1" :=
    congrArg (Keyed.find? · "dev-1") (Option.some.inj himages)
  have hsame := image_supports spotDevice
  rw [show spotDevice.toJson.sorted = _ from Option.some.inj hfind, image_supports] at hsame
  cases hsame

end Ledger

end SensorNode
