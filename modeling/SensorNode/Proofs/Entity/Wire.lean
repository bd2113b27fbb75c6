/-
Entities on their way through a change event. The event holds the entity's JSON form with the members of every object in
key order; whoever handles it finds every field that was written (`fields?_sorted`). So requirements are read back as they
were (`Requirements.decode_of`), and assets and devices' entries exactly if their coordinates are finite, since a number
that is not is written as `null` (`located_round_trip`); the id is found in any case (`Entity.decode_id`).
-/
import Mathlib.Tactic
import SensorNode.Entity.Change
import SensorNode.Proofs.Keyed

namespace SensorNode

namespace Json

/-! ## Members in key order -/

theorem sortedEntries_eq (members : List (String × Json)) :
    sortedEntries members = members.map fun m => (m.1, m.2.sorted) := by
  induction members with
  | nil => rw [sortedEntries, List.map_nil]
  | cons m members ih => rw [sortedEntries, ih, List.map_cons]

theorem toRawMembers_eq (members : List (String × Json)) :
    toRawMembers members = members.map fun m => (some m.1, m.2.toRaw) := by
  induction members with
  | nil => rw [toRawMembers, List.map_nil]
  | cons m members ih => rw [toRawMembers, ih, List.map_cons]

/-- of members whose keys differ none is dropped -/
theorem foldl_distinct (members kept : List (String × Json)) (h : ((members.reverse ++ kept).map Prod.fst).Nodup) :
    members.foldl (fun kept m => if kept.any (fun k => k.1 = m.1) then kept else m :: kept) kept =
      members.reverse ++ kept := by
  induction members generalizing kept with
  | nil => rfl
  | cons m members ih =>
    have h' : ((members.reverse ++ m :: kept).map Prod.fst).Nodup := by simpa using h
    have hnew : kept.any (fun k => k.1 = m.1) = false := by
      refine Bool.eq_false_iff.2 fun hany => ?_
      obtain ⟨k, hk, hkey⟩ := List.any_eq_true.1 hany
      rw [List.map_append, List.map_cons] at h'
      have hnodup := (List.nodup_cons.1 (List.nodup_append.1 h').2.1).1
      exact hnodup ((of_decide_eq_true hkey) ▸ List.mem_map_of_mem hk)
    rw [List.foldl_cons, hnew]
    simpa using ih (m :: kept) h'

theorem sortedMembers_perm (members : List (String × Json)) (h : (members.map Prod.fst).Nodup) :
    (sortedMembers members).Perm members := by
  unfold sortedMembers
  have hsame := foldl_distinct members.reverse [] (by simpa using h)
  dsimp only
  rw [hsame]
  simpa using List.mergeSort_perm _ _

end Json

open Json

/-! ## Fields -/

theorem eraseDups_eq_self {α : Type} [BEq α] [LawfulBEq α] {l : List α} (h : l.Nodup) : l.eraseDups = l := by
  induction l with
  | nil => rfl
  | cons a l ih =>
    obtain ⟨ha, hl⟩ := List.nodup_cons.1 h
    have hrest : (l.filter fun b => !b == a) = l :=
      List.filter_eq_self.2 fun b hb => by
        have : b ≠ a := fun hba => ha (hba ▸ hb)
        simpa using this
    rw [List.eraseDups_cons, hrest, ih hl]

/-- an object without repeated keys has the fields that are its members -/
theorem Json.Raw.fields?_object {members : List (Option String × Raw)} (names : List String)
    (hkeys : ∀ m ∈ members, m.1.isSome) (h : (members.map Prod.fst).Nodup) :
    ∃ fields, (Raw.object members).fields? names = some fields ∧
      ∀ n ∈ names, ∀ v, (some n, v) ∈ members → fields.find n = some v := by
  have hnone : members.any (fun m => m.1.isNone) = false := by
    refine Bool.eq_false_iff.2 fun hany => ?_
    obtain ⟨m, hm, hnone⟩ := List.any_eq_true.1 hany
    have := hkeys m hm
    rw [Option.isNone_iff_eq_none.1 hnone] at this
    cases this
  let known := members.filter fun m => names.any fun n => m.1 = some n
  have hknown : (known.map Prod.fst).Nodup := h.sublist (List.filter_sublist.map _)
  refine ⟨⟨fun n => (known.find? fun m => m.1 = some n).map Prod.snd, false⟩, ?_, fun n hn v hv => ?_⟩
  · simp only [Raw.fields?, hnone, Bool.false_eq_true, if_false]
    have hlength : known.length = (known.map Prod.fst).eraseDups.length := by
      rw [eraseDups_eq_self hknown, List.length_map]
    exact if_pos hlength
  · refine (Keyed.mem_entries_iff ⟨known, hknown⟩ (some n) v).1 (List.mem_filter.2 ⟨hv, ?_⟩)
    exact List.any_eq_true.2 ⟨n, hn, by simp⟩

/-- every field that was written is found -/
theorem fields?_sorted (members : List (String × Json)) (h : (members.map Prod.fst).Nodup) (names : List String) :
    ∃ fields, (Json.object members).sorted.toRaw.fields? names = some fields ∧
      ∀ n ∈ names, ∀ v, (n, v) ∈ members → fields.find n = some v.sorted.toRaw := by
  have hentries : ((sortedEntries members).map Prod.fst) = members.map Prod.fst := by
    rw [sortedEntries_eq, List.map_map]
    rfl
  have hperm := sortedMembers_perm (sortedEntries members) (by rw [hentries]; exact h)
  have hraw : (Json.object members).sorted.toRaw =
      .object ((sortedMembers (sortedEntries members)).map fun m => (some m.1, m.2.toRaw)) := by
    rw [Json.sorted, Json.toRaw, toRawMembers_eq]
  have hnodup : (((sortedMembers (sortedEntries members)).map fun m => (some m.1, m.2.toRaw)).map Prod.fst).Nodup := by
    have hsorted : ((sortedMembers (sortedEntries members)).map Prod.fst).Nodup :=
      (hperm.map Prod.fst).nodup_iff.2 (by rw [hentries]; exact h)
    have := hsorted.map (Option.some_injective String)
    simpa [List.map_map, Function.comp_def] using this
  have hsome : ∀ m ∈ (sortedMembers (sortedEntries members)).map fun m => (some m.1, m.2.toRaw), m.1.isSome := by
    intro m hm
    obtain ⟨m', -, rfl⟩ := List.mem_map.1 hm
    rfl
  obtain ⟨fields, hfields, hfind⟩ := Json.Raw.fields?_object names hsome hnodup
  refine ⟨fields, hraw ▸ hfields, fun n hn v hv => hfind n hn _ ?_⟩
  have hmem : (n, v.sorted) ∈ sortedEntries members := by
    rw [sortedEntries_eq]
    exact List.mem_map.2 ⟨(n, v), hv, rfl⟩
  exact List.mem_map.2 ⟨(n, v.sorted), hperm.mem_iff.2 hmem, rfl⟩

/-! ## Locations and assets -/

/-- a number that is not finite is written as `null`, which is not read as a number -/
theorem ofReal_real? (x : Float) : (Json.ofReal x).sorted.toRaw.real? = if x.isFinite then some x else none := by
  unfold Json.ofReal
  split_ifs <;> rw [Json.sorted, Json.toRaw] <;> rfl

theorem Location.ofRaw?_sorted (l : Location) :
    Location.ofRaw? l.toJson.sorted.toRaw = if l.isFinite then some l else none := by
  obtain ⟨fields, hfields, hfind⟩ :=
    fields?_sorted [("latitude", Json.ofReal l.latitude), ("longitude", Json.ofReal l.longitude)]
      (by simp) Location.fieldNames
  have hlatitude := hfind "latitude" (by decide) (Json.ofReal l.latitude) (by simp)
  have hlongitude := hfind "longitude" (by decide) (Json.ofReal l.longitude) (by simp)
  unfold Location.ofRaw? Location.toJson Location.isFinite
  rw [hfields]
  cases hlat : l.latitude.isFinite <;> cases hlong : l.longitude.isFinite <;>
    simp [Fields.required?, hlatitude, hlongitude, ofReal_real?, hlat, hlong]

theorem text?_sorted (s : String) : (Json.string s).sorted.toRaw.text? = some s := by
  rw [Json.sorted, Json.toRaw]
  rfl

/-- an asset is read as it was written, unless it has a coordinate that is not finite: then it is not read at all -/
theorem Asset.decode_eq (a : Asset) (kind : ChangeKind) :
    (ChangeEvent.of kind a.toJson).decode? Asset.ofRaw? = if a.location.isFinite then some a else none := by
  obtain ⟨fields, hfields, hfind⟩ :=
    fields?_sorted [("id", .string a.id), ("name", .string a.name),
      ("sku", (a.sku.map Json.string).getD .null), ("location", a.location.toJson)] (by simp) Asset.fieldNames
  have hid := hfind "id" (by decide) (.string a.id) (by simp)
  have hname := hfind "name" (by decide) (.string a.name) (by simp)
  have hsku := hfind "sku" (by decide) ((a.sku.map Json.string).getD .null) (by simp)
  have hlocation := hfind "location" (by decide) a.location.toJson (by simp)
  have hskuValue : ((a.sku.map Json.string).getD .null).sorted.toRaw.nullable? Raw.text? = some a.sku := by
    cases a.sku with
    | none => rw [Option.map_none, Option.getD_none, Json.sorted, Json.toRaw]; rfl
    | some s => rw [Option.map_some, Option.getD_some, Json.sorted, Json.toRaw]; rfl
  unfold ChangeEvent.decode? ChangeEvent.of Asset.ofRaw? Asset.toJson
  rw [hfields]
  cases hfinite : a.location.isFinite <;>
    simp [Fields.required?, Fields.defaulted?, hid, hname, hsku, hlocation, text?_sorted, hskuValue,
      Location.ofRaw?_sorted, hfinite]

theorem Asset.decode_of {a : Asset} (h : a.location.isFinite = true) (kind : ChangeKind) :
    (ChangeEvent.of kind a.toJson).decode? Asset.ofRaw? = some a := (decode_eq a kind).trans (if_pos h)

/-- the id of an entity is found, whether the rest can be read or not -/
theorem Entity.decode_id {members : List (String × Json)} (h : (members.map Prod.fst).Nodup) {id : String}
    (hid : ("id", .string id) ∈ members) (kind : ChangeKind) :
    (ChangeEvent.of kind (.object members)).decode? Entity.idOfRaw? = some id := by
  obtain ⟨fields, hfields, hfind⟩ := fields?_sorted members h ["id"]
  have hfound := hfind "id" List.mem_cons_self (.string id) hid
  unfold ChangeEvent.decode? ChangeEvent.of Entity.idOfRaw?
  rw [hfields]
  simp [Fields.required?, hfound, text?_sorted]

theorem Asset.decode_id (a : Asset) (kind : ChangeKind) :
    (ChangeEvent.of kind a.toJson).decode? Entity.idOfRaw? = some a.id :=
  Entity.decode_id (by simp) List.mem_cons_self kind

theorem DeviceModel.decode_id (d : DeviceModel) (kind : ChangeKind) :
    (ChangeEvent.of kind d.toJson).decode? Entity.idOfRaw? = some d.id :=
  Entity.decode_id (by simp) List.mem_cons_self kind

/-! ## Devices and requirements -/

theorem Metric.listOfRaw?_sorted (metrics : List Metric) :
    Metric.listOfRaw? (Metric.listToJson metrics).sorted.toRaw = some metrics := by
  have items : ∀ metrics : List Metric,
      (toRawItems (sortedItems (metrics.map Metric.toJson))).mapM Metric.ofRaw? = some metrics := by
    intro metrics
    induction metrics with
    | nil => rfl
    | cons m metrics ih =>
      have hm : Metric.ofRaw? m.toJson.sorted.toRaw = some m := congrArg (Option.map Metric.mk) (text?_sorted m.name)
      rw [List.map_cons, sortedItems, toRawItems, List.mapM_cons, hm, ih]
      rfl
  unfold Metric.listToJson Metric.listOfRaw?
  rw [Json.sorted, Json.toRaw]
  exact items metrics

theorem word?_sorted (n : UInt64) : (Json.number (.integer n.toNat)).sorted.toRaw.word? = some n := by
  have hn : (0 : Int) ≤ n.toNat ∧ (n.toNat : Int) < Nat.pow 2 64 :=
    ⟨Int.natCast_nonneg _, Int.ofNat_lt.2 n.toNat_lt⟩
  rw [Json.sorted, Json.toRaw]
  simp only [Raw.word?, hn, and_self, if_true, Int.toNat_natCast, UInt64.ofNat_toNat]

/-- a device's entry is read as it was written, unless it has a coordinate that is not finite -/
theorem DeviceModel.decode_eq (d : DeviceModel) (kind : ChangeKind) :
    (ChangeEvent.of kind d.toJson).decode? DeviceModel.ofRaw? = if d.location.isFinite then some d else none := by
  obtain ⟨fields, hfields, hfind⟩ :=
    fields?_sorted [("id", .string d.id), ("name", .string d.name), ("hostname", .string d.hostname),
      ("location", d.location.toJson), ("supports", Metric.listToJson d.supports)] (by simp) DeviceModel.fieldNames
  have hid := hfind "id" (by decide) (.string d.id) (by simp)
  have hname := hfind "name" (by decide) (.string d.name) (by simp)
  have hhostname := hfind "hostname" (by decide) (.string d.hostname) (by simp)
  have hlocation := hfind "location" (by decide) d.location.toJson (by simp)
  have hsupports := hfind "supports" (by decide) (Metric.listToJson d.supports) (by simp)
  unfold ChangeEvent.decode? ChangeEvent.of DeviceModel.ofRaw? DeviceModel.toJson
  rw [hfields]
  cases hfinite : d.location.isFinite <;>
    simp [Fields.required?, Fields.defaulted?, hid, hname, hhostname, hlocation, hsupports, text?_sorted,
      Location.ofRaw?_sorted, Metric.listOfRaw?_sorted, hfinite]

theorem DeviceModel.decode_of {d : DeviceModel} (h : d.location.isFinite = true) (kind : ChangeKind) :
    (ChangeEvent.of kind d.toJson).decode? DeviceModel.ofRaw? = some d := (decode_eq d kind).trans (if_pos h)

/-- **Located entities in change events.** Whatever an asset or a device's entry holds, and whatever has happened to it,
its event can be made. The entity is read out of it as it was, bit for bit, exactly if both its coordinates are finite;
with any other coordinate it is refused. Its id is found in either case. -/
theorem located_round_trip (kind : ChangeKind) :
    (∀ a : Asset, (ChangeEvent.of kind a.toJson).kind = kind ∧
      (ChangeEvent.of kind a.toJson).decode? Asset.ofRaw? =
        (if a.location.latitude.isFinite ∧ a.location.longitude.isFinite then some a else none) ∧
      (ChangeEvent.of kind a.toJson).decode? Entity.idOfRaw? = some a.id) ∧
    ∀ d : DeviceModel, (ChangeEvent.of kind d.toJson).kind = kind ∧
      (ChangeEvent.of kind d.toJson).decode? DeviceModel.ofRaw? =
        (if d.location.latitude.isFinite ∧ d.location.longitude.isFinite then some d else none) ∧
      (ChangeEvent.of kind d.toJson).decode? Entity.idOfRaw? = some d.id := by
  have both : ∀ l : Location, l.isFinite = true ↔ l.latitude.isFinite = true ∧ l.longitude.isFinite = true := fun l =>
    Bool.and_eq_true_iff
  refine ⟨fun a => ⟨rfl, ?_, Asset.decode_id a kind⟩, fun d => ⟨rfl, ?_, DeviceModel.decode_id d kind⟩⟩
  · rw [Asset.decode_eq]
    exact if_congr (both a.location) rfl rfl
  · rw [DeviceModel.decode_eq]
    exact if_congr (both d.location) rfl rfl

/-- requirements are read as they were written -/
theorem Requirements.decode_of (q : Requirements) (kind : ChangeKind) :
    (ChangeEvent.of kind q.toJson).decode? Requirements.ofRaw? = some q := by
  obtain ⟨fields, hfields, hfind⟩ :=
    fields?_sorted [("id", .string q.id), ("asset_id", .string q.assetId), ("metrics", Metric.listToJson q.metrics),
      ("period", .number (.integer q.period.toNat))] (by simp) Requirements.fieldNames
  have hid := hfind "id" (by decide) (.string q.id) (by simp)
  have hasset := hfind "asset_id" (by decide) (.string q.assetId) (by simp)
  have hmetrics := hfind "metrics" (by decide) (Metric.listToJson q.metrics) (by simp)
  have hperiod := hfind "period" (by decide) (.number (.integer q.period.toNat)) (by simp)
  unfold ChangeEvent.decode? ChangeEvent.of Requirements.ofRaw? Requirements.toJson
  rw [hfields]
  simp [Fields.required?, Fields.defaulted?, hid, hasset, hmetrics, hperiod, text?_sorted, Metric.listOfRaw?_sorted,
    word?_sorted]

theorem Requirements.decode_id (q : Requirements) (kind : ChangeKind) :
    (ChangeEvent.of kind q.toJson).decode? Entity.idOfRaw? = some q.id :=
  Entity.decode_id (by simp) List.mem_cons_self kind

end SensorNode
