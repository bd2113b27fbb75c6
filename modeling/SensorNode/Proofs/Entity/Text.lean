/-
Change events as text. The text of an event is parsed to the event, if the numbers of its entity are integers of 64 bits
and it does not nest too deep (`ChangeEvent.parse?_text`). So requirements come out of the text as they went in, whatever
their strings are made of (`Requirements.parse_text`).
-/
import SensorNode.Proofs.Json.Text

namespace SensorNode

open Json

namespace ChangeEvent

theorem ofName?_name (kind : ChangeKind) : ChangeKind.ofName? kind.name = some kind := by
  cases kind <;> rfl

/-- the tree of an event is taken for the event, with its entity in key order -/
theorem ofRaw?_toRaw {event : ChangeEvent} (hdepth : event.entity.nesting ≤ nestingLimit - 1) :
    ofRaw? event.toJson.toRaw = some ⟨event.kind, event.entity.sorted⟩ := by
  let members : List (Option String × Raw) :=
    [(some "kind", .string (some event.kind.name)), (some "entity", event.entity.toRaw)]
  have htree : event.toJson.toRaw = .object members := by
    simp only [members, toJson, toRaw, toRawMembers]
  have hkeys : ∀ m ∈ members, m.1.isSome := by simp [members]
  have hnodup : (members.map Prod.fst).Nodup := by simp [members]
  obtain ⟨fields, hfields, hfind⟩ := Raw.fields?_object fieldNames hkeys hnodup
  have hkind := hfind "kind" (by decide) _ List.mem_cons_self
  have hentity := hfind "entity" (by decide) event.entity.toRaw (by simp [members])
  have hchoice : Raw.choice? ChangeKind.ofName? (.string (some event.kind.name)) = some event.kind :=
    ofName?_name event.kind
  have hvalue := toJson?_toRaw event.entity (nestingLimit - 1) hdepth
  unfold ofRaw?
  rw [htree, hfields]
  simp [Fields.required?, hkind, hentity, hchoice, hvalue]

/-- the text of an event is parsed to the event, with its entity in key order -/
theorem parse?_text {event : ChangeEvent} (hwords : event.entity.HasWords)
    (hdepth : event.entity.nesting ≤ nestingLimit - 1) :
    parse? event.text = some ⟨event.kind, event.entity.sorted⟩ := by
  have hevent : event.toJson.HasWords := ⟨trivial, hwords, trivial⟩
  have hraw : Raw.parse? event.text = some event.toJson.toRaw := by
    rw [Raw.parse?, text, Json.text, String.toList_ofList, ofChars?_chars hevent]
  rw [parse?, hraw]
  exact ofRaw?_toRaw hdepth

/-- an event that was made of an entity comes out of its text as it was made -/
theorem parse?_text_of (kind : ChangeKind) {entity : Json} (hwords : entity.HasWords)
    (hdepth : entity.nesting ≤ nestingLimit - 1) :
    parse? (ChangeEvent.of kind entity).text = some (ChangeEvent.of kind entity) := by
  have hshallow : (ChangeEvent.of kind entity).entity.nesting ≤ nestingLimit - 1 :=
    (nesting_sorted_le entity).trans hdepth
  rw [parse?_text hwords.sorted hshallow]
  exact congrArg (fun v => some (ChangeEvent.mk kind v)) (sorted_sorted entity)

end ChangeEvent

namespace Requirements

theorem hasWords_toJson (q : Requirements) : q.toJson.HasWords := by
  have hmetrics : ItemsHaveWords (q.metrics.map Metric.toJson) := by
    refine itemsHaveWords_iff.2 fun v hv => ?_
    obtain ⟨m, -, rfl⟩ := List.mem_map.1 hv
    trivial
  have hperiod : IsWord q.period.toNat := by
    have hlt := q.period.toNat_lt
    constructor <;> omega
  exact ⟨trivial, trivial, hmetrics, hperiod, trivial⟩

theorem nesting_toJson (q : Requirements) : q.toJson.nesting ≤ 2 := by
  have hmetrics : itemsNesting (q.metrics.map Metric.toJson) ≤ 0 := by
    refine itemsNesting_le_iff.2 fun v hv => ?_
    obtain ⟨m, -, rfl⟩ := List.mem_map.1 hv
    exact le_rfl
  have hlist : (Metric.listToJson q.metrics).nesting ≤ 1 := Nat.succ_le_succ hmetrics
  refine Nat.succ_le_succ (membersNesting_le_iff.2 fun m hm => ?_)
  simp only [List.mem_cons, List.not_mem_nil, or_false] at hm
  rcases hm with rfl | rfl | rfl | rfl
  · exact Nat.zero_le 1
  · exact Nat.zero_le 1
  · exact hlist
  · exact Nat.zero_le 1

/-- Requirements come out of the text of their event as they went in, with the kind of the event. -/
theorem parse_text (q : Requirements) (kind : ChangeKind) :
    ∃ event, ChangeEvent.parse? (ChangeEvent.of kind q.toJson).text = some event ∧ event.kind = kind ∧
      event.decode? Requirements.ofRaw? = some q := by
  have hdepth : q.toJson.nesting ≤ nestingLimit - 1 := (nesting_toJson q).trans (by decide)
  have hparse := ChangeEvent.parse?_text_of kind (hasWords_toJson q) hdepth
  exact ⟨ChangeEvent.of kind q.toJson, hparse, rfl, decode_of q kind⟩

end Requirements

end SensorNode
