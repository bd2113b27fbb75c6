/-
What a warm-up does to changes that are taken in while it goes on. A warm-up asks the ledger for all assets and keeps
those near by one after the other, then asks for their requirements and stores those one after the other. What it still
has to do with an answer it does whatever it hears meanwhile:
- an asset that is still to be put becomes what the answer says (`dueAsset`), and else stays as the last change left it;
- requirements that are still to be stored are stored if a change has dropped them, and else stay as they are.
So a removal may be undone (`removed_stored_again`), and it is not if nothing of its id was left to do
(`warm_up_outcome`).
-/
import SensorNode.Proofs.Device.Agenda

namespace SensorNode

namespace Agenda

open Device

variable {g : Agenda} {d : Device} {x : String} {l rest : List Act} {a : Act}

/-- a device that is about to warm up -/
def warmUp (d : Device) : Agenda := ⟨d, [[.readOrigin]]⟩

/-- the lists that a warm-up goes through -/
inductive IsWarmUp : List Act → Prop
  | begin : IsWarmUp [.readOrigin]
  | survey (origin : Location) : IsWarmUp [.queryAssets origin]
  | keep (assets : List Asset) (origin : Location) : IsWarmUp (assets.map (Act.putNear · origin) ++ [.listAssets])
  | inquire (assetIds : List String) : IsWarmUp [.queryRequirements assetIds]
  | store (qs : List Requirements) : IsWarmUp (qs.map .storePending)

/-- the assets are still to be asked for -/
def surveys : Act → Bool
  | .readOrigin | .queryAssets _ => true
  | _ => false

/-- the requirements are still to be asked for -/
def inquires : Act → Bool
  | .readOrigin | .queryAssets _ | .putNear _ _ | .listAssets | .queryRequirements _ => true
  | _ => false

/-- what goes on along with a warm-up: its own acts, the listeners, and what the ledger and the engine do -/
def Op.accompanies : Op → Bool
  | .begin _ => false
  | .besides (.task (.handler _)) => false
  | _ => true

/-- all that is still to be done -/
def due (g : Agenda) : List Act := g.lists.flatten

/-- what an asset becomes with an act -/
def afterPut (threshold : Float) (x : String) (v : Option Asset) : Act → Option Asset
  | .putNear asset origin =>
    if x = asset.id then (if asset.location.isNear origin threshold then some asset else none) else v
  | _ => v

/-- what an asset becomes with acts that are still to be done -/
def dueAsset (threshold : Float) (x : String) (acts : List Act) (v : Option Asset) : Option Asset :=
  acts.foldl (afterPut threshold x) v

/-- what may become of a request with acts that are still to be done: it stays, or it is stored if there is none -/
def DueRequest (x : String) (acts : List Act) (v v' : Option ReadingsRequest) : Prop :=
  v' = v ∨ v = none ∧ ∃ q, .storePending q ∈ acts ∧ q.id = x ∧ v' = some (.ofRequirements q)

theorem DueRequest.refl (x : String) (acts : List Act) (v : Option ReadingsRequest) : DueRequest x acts v v := Or.inl rfl

theorem DueRequest.trans {acts acts' : List Act} {v v' v'' : Option ReadingsRequest} (h : DueRequest x acts v v')
    (h' : DueRequest x acts' v' v'') (hacts : acts' ⊆ acts) : DueRequest x acts v v'' := by
  rcases h' with rfl | ⟨rfl, q, hq, hid, rfl⟩
  · exact h
  · rcases h with rfl | ⟨rfl, q', -, -, hv⟩
    · exact Or.inr ⟨rfl, q, hacts hq, hid, rfl⟩
    · cases hv

/-! ## The acts of a warm-up -/

/-- what an act of a warm-up does: it asks, or it deals with an item of an answer -/
inductive Goes (d : Device) : Act → List Act → Device → List Act → Prop
  /-- it looks for assets from where the device is, or gives up -/
  | begin {acts : List Act} (h : acts = [] ∨ ∃ origin, acts = [.queryAssets origin]) : Goes d .readOrigin [] d acts
  | survey (origin : Location) {acts : List Act}
    (h : acts = [] ∨ ∃ assets : List Asset, acts = assets.map (Act.putNear · origin) ++ [.listAssets]) :
    Goes d (.queryAssets origin) [] d acts
  | keep (asset : Asset) (assets : List Asset) (origin : Location) :
    Goes d (.putNear asset origin) (assets.map (Act.putNear · origin) ++ [.listAssets])
      (d.setSite (d.toSite.putNear asset origin)) (assets.map (Act.putNear · origin) ++ [.listAssets])
  | list {acts : List Act} (h : acts = [] ∨ ∃ assetIds, acts = [.queryRequirements assetIds]) :
    Goes d .listAssets [] d acts
  | inquire (assetIds : List String) (qs : List Requirements) :
    Goes d (.queryRequirements assetIds) [] d (qs.map .storePending)
  | store (q : Requirements) (qs : List Requirements) :
    Goes d (.storePending q) (qs.map .storePending) (d.setPlanner (d.toPlanner.storePending q).2) (qs.map .storePending)

theorem IsWarmUp.goes (h : IsWarmUp (a :: rest)) (d : Device) : Goes d a rest (d.act a).1 (left d a rest) := by
  generalize hl : a :: rest = l at h
  cases h with
  | begin =>
    obtain ⟨rfl, rfl⟩ := List.cons.inj hl
    cases hlocation : d.identity.location? with
    | none =>
      have hact : d.act .readOrigin = (d, .ok []) := by simp only [act, hlocation]
      rw [left, hact]
      exact .begin (Or.inl rfl)
    | some origin =>
      have hact : d.act .readOrigin = (d, .ok [.queryAssets origin]) := by simp only [act, hlocation]
      rw [left, hact]
      exact .begin (Or.inr ⟨origin, rfl⟩)
  | survey origin =>
    obtain ⟨rfl, rfl⟩ := List.cons.inj hl
    rw [left]
    simp only [act]
    split
    · exact .survey origin (Or.inr ⟨_, List.append_nil _⟩)
    · exact .survey origin (Or.inl rfl)
  | keep assets origin =>
    cases assets with
    | nil =>
      obtain ⟨rfl, rfl⟩ := List.cons.inj hl
      rw [left]
      simp only [act]
      split_ifs
      · exact .list (Or.inl rfl)
      · exact .list (Or.inr ⟨_, rfl⟩)
    | cons asset assets =>
      obtain ⟨rfl, rfl⟩ := List.cons.inj hl
      exact .keep asset assets origin
  | inquire assetIds =>
    obtain ⟨rfl, rfl⟩ := List.cons.inj hl
    rw [left]
    simp only [act]
    split <;> dsimp only
    · rw [List.append_nil]
      exact .inquire assetIds _
    · exact .inquire assetIds []
  | store qs =>
    cases qs with
    | nil => cases hl
    | cons q qs =>
      obtain ⟨rfl, rfl⟩ := List.cons.inj hl
      exact .store q qs

theorem isWarmUp_nil : IsWarmUp [] := .store []

variable {d' : Device} {l' : List Act}

theorem Goes.isWarmUp (h : Goes d a rest d' l') : IsWarmUp l' := by
  cases h with
  | begin h =>
    rcases h with rfl | ⟨origin, rfl⟩
    · exact isWarmUp_nil
    · exact .survey origin
  | survey origin h =>
    rcases h with rfl | ⟨assets, rfl⟩
    · exact isWarmUp_nil
    · exact .keep assets origin
  | keep asset assets origin => exact .keep assets origin
  | list h =>
    rcases h with rfl | ⟨assetIds, rfl⟩
    · exact isWarmUp_nil
    · exact .inquire assetIds
  | inquire assetIds qs => exact .store qs
  | store q qs => exact .store qs

theorem dueAsset_of_stores (threshold : Float) (x : String) (qs : List Requirements) (v : Option Asset) :
    dueAsset threshold x (qs.map .storePending) v = v := by
  induction qs with
  | nil => rfl
  | cons q qs ih => exact ih

theorem Goes.threshold (h : Goes d a rest d' l') : d'.threshold = d.threshold := by
  cases h <;> rfl

/-- an act of a warm-up does its own part of what is due for an asset -/
theorem Goes.asset (h : Goes d a rest d' l') (hsurveyed : ∀ b ∈ a :: rest, surveys b = false) (x : String) :
    (∀ b ∈ l', surveys b = false) ∧
      dueAsset d.threshold x l' (d'.assets.find? x) = dueAsset d.threshold x (a :: rest) (d.assets.find? x) := by
  cases h with
  | begin h => exact absurd (hsurveyed _ List.mem_cons_self) (by decide)
  | survey origin h => exact absurd (hsurveyed _ List.mem_cons_self) (by simp [surveys])
  | keep asset assets origin =>
    refine ⟨fun b hb => hsurveyed b (List.mem_cons_of_mem _ hb), ?_⟩
    exact congrArg (dueAsset d.threshold x _) (Site.putNear_find? d.toSite asset origin x)
  | list h => rcases h with rfl | ⟨assetIds, rfl⟩ <;> exact ⟨by simp [surveys], rfl⟩
  | inquire assetIds qs => exact ⟨by simp [surveys], dueAsset_of_stores ..⟩
  | store q qs =>
    obtain ⟨requests, hstore⟩ := storePending_eq d.toPlanner q
    refine ⟨by simp [surveys], ?_⟩
    have hassets : (d.setPlanner (d.toPlanner.storePending q).2).assets = d.assets := by
      show (d.toPlanner.storePending q).2.assets = d.assets
      rw [hstore]
    rw [hassets]
    rfl

/-- an act of a warm-up that has its requirements stores one of them, if there is none with its id -/
theorem Goes.request (h : Goes d a rest d' l') (hinquired : ∀ b ∈ a :: rest, inquires b = false) (x : String) :
    l' ⊆ a :: rest ∧ DueRequest x (a :: rest) (d.requests.find? x) (d'.requests.find? x) := by
  have hfirst := hinquired a List.mem_cons_self
  cases h with
  | store q qs =>
    refine ⟨List.subset_cons_self _ _, ?_⟩
    show DueRequest x _ _ ((d.toPlanner.storePending q).2.requests.find? x)
    unfold Planner.storePending
    split_ifs with hnew
    · have hfind : (d.requests.put (.ofRequirements q)).find? x =
          if x = q.id then some (.ofRequirements q) else d.requests.find? x := Planner.put_find? ..
      rw [hfind]
      split_ifs with hid
      · have hnone : d.requests.find? x = none := by
          rw [hid]
          exact Option.not_isSome_iff_eq_none.1 hnew.2
        exact Or.inr ⟨hnone, q, List.mem_cons_self, hid.symm, rfl⟩
      · exact DueRequest.refl ..
    · exact DueRequest.refl ..
  | _ => cases hfirst

/-- requirements whose turn comes are stored if their asset is kept, unless their id is taken -/
theorem Goes.stores (h : Goes d a rest d' l') (hinquired : ∀ b ∈ a :: rest, inquires b = false) {q : Requirements}
    (hq : .storePending q ∈ a :: rest) (hkept : d.assets.contains q.assetId = true) :
    (d'.requests.find? q.id).isSome = true ∨ .storePending q ∈ l' ∧ d'.assets.contains q.assetId = true := by
  have hfirst := hinquired a List.mem_cons_self
  cases h with
  | store q' qs =>
    rcases List.mem_cons.1 hq with hq | hq
    · obtain rfl := Act.storePending.inj hq
      refine Or.inl ?_
      show ((d.toPlanner.storePending q).2.requests.find? q.id).isSome = true
      unfold Planner.storePending
      split_ifs with hnew
      · exact Option.isSome_iff_exists.2 ⟨_, (Planner.put_find? ..).trans (if_pos rfl)⟩
      · by_contra hnone
        exact hnew ⟨hkept, hnone⟩
    · obtain ⟨requests, hstore⟩ := storePending_eq d.toPlanner q'
      refine Or.inr ⟨hq, ?_⟩
      show (d.toPlanner.storePending q').2.assets.contains q.assetId = true
      rw [hstore]
      exact hkept
  | _ => cases hfirst

/-! ## What goes on besides -/

/-- nothing changes what is kept under an id but a change that was heard of it -/
structure OnlyHeard (heard : Option (Topic × ChangeEvent)) (s s' : Site) : Prop where
  threshold : s'.threshold = s.threshold
  asset : ∀ x, heard.any (ofAsset x) = false → s'.assets.find? x = s.assets.find? x
  request : ∀ x, heard.any (ofRequirements x) = false → s'.requests.find? x = s.requests.find? x

variable {heard : Option (Topic × ChangeEvent)} {s s' : Site}

theorem OnlyHeard.of_eq (hthreshold : s'.threshold = s.threshold) (hassets : s'.assets = s.assets)
    (hrequests : s'.requests = s.requests) : OnlyHeard heard s s' :=
  ⟨hthreshold, fun _ _ => by rw [hassets], fun _ _ => by rw [hrequests]⟩

theorem applyChange_onlyHeard (s : Site) (topic : Topic) (event : ChangeEvent) :
    OnlyHeard (some (topic, event)) s (s.applyChange topic event) := by
  cases topic with
  | assets =>
    have hfind := Site.applyAsset_find? s event
    obtain ⟨assets, happly⟩ := Site.applyAsset_eq s event
    rw [show s.applyChange .assets event = _ from happly]
    rw [happly] at hfind
    refine ⟨rfl, fun x hdeaf => ?_, fun _ _ => rfl⟩
    have hnone : event.assetOf x = none := Option.not_isSome_iff_eq_none.1 (Bool.eq_false_iff.1 hdeaf)
    rw [hfind, hnone]
  | devices =>
    obtain ⟨identity, bus, happly⟩ := Site.applyDevice_eq s event
    rw [show s.applyChange .devices event = _ from happly]
    exact OnlyHeard.of_eq rfl rfl rfl
  | requirements =>
    obtain ⟨engine, requests, events, sent, happly⟩ := Site.applyRequirements_eq s event
    have hframe : (s.applyRequirements event).threshold = s.threshold ∧ (s.applyRequirements event).assets = s.assets := by
      rw [happly]
      exact ⟨rfl, rfl⟩
    refine ⟨hframe.1, fun x _ => congrArg (Keyed.find? · x) hframe.2, fun x hdeaf => ?_⟩
    exact Site.applyRequirements_find?_of_none s (Option.not_isSome_iff_eq_none.1 (Bool.eq_false_iff.1 hdeaf))

theorem listen_onlyHeard (d : Device) (n : Nat) : OnlyHeard (d.hears n) d.toSite (d.listen n) := by
  cases hhears : d.hears n with
  | none =>
    obtain ⟨watch, link, hlisten⟩ := listen_of_deaf hhears
    rw [hlisten]
    exact OnlyHeard.of_eq rfl rfl rfl
  | some change =>
    obtain ⟨link, hlisten⟩ := listen_of_hears hhears
    rw [hlisten]
    have h := applyChange_onlyHeard { d.toSite with link } change.1 change.2
    exact ⟨h.threshold, h.asset, h.request⟩

theorem besides_onlyHeard (g : Agenda) {b : Besides} (hb : ∀ n, b ≠ .task (.handler n)) :
    OnlyHeard (g.heard (.besides b)) g.device.toSite (g.device.besides b).toSite := by
  rcases besides_cases g.device b with ⟨m, -, hmove⟩ | ⟨n, rfl⟩ | ⟨n, rfl⟩ | ⟨event, rfl⟩ | ⟨change, rfl⟩
  · obtain ⟨posted, postings, hstep⟩ := Planner.step_reader g.device.toPlanner m
    rw [hmove, move, hstep]
    exact OnlyHeard.of_eq rfl rfl rfl
  · exact listen_onlyHeard g.device n
  · exact absurd rfl (hb n)
  · exact OnlyHeard.of_eq rfl rfl rfl
  · exact OnlyHeard.of_eq rfl rfl rfl

/-- along with a warm-up either it does its next act, or nothing changes what is kept but a change that was heard of -/
theorem accompanied_cases (hl : g.lists = [l]) (hw : IsWarmUp l) {op : Op} (hop : op.accompanies = true) :
    (∃ d, g.perform op = ⟨d, [l]⟩ ∧ OnlyHeard (g.heard op) g.device.toSite d.toSite) ∨
      ∃ a rest d l', l = a :: rest ∧ g.perform op = ⟨d, [l']⟩ ∧ Goes g.device a rest d l' := by
  cases op with
  | begin p => cases hop
  | besides b =>
    refine Or.inl ⟨g.device.besides b, ?_, besides_onlyHeard g ?_⟩
    · rw [← hl]
      rfl
    · rintro n rfl
      cases hop
  | proceed i =>
    show (∃ d, g.proceed i = ⟨d, [l]⟩ ∧ _) ∨ ∃ a rest d l', l = a :: rest ∧ g.proceed i = ⟨d, [l']⟩ ∧ _
    rcases proceed_cases g i with hg | ⟨a, rest, hi, hg⟩
    · refine Or.inl ⟨g.device, ?_, OnlyHeard.of_eq rfl rfl rfl⟩
      rw [hg, ← hl]
    · rw [hl] at hi hg
      cases i with
      | succ i => cases hi
      | zero =>
        obtain rfl : l = a :: rest := Option.some.inj hi
        exact Or.inr ⟨a, rest, _, _, rfl, hg, hw.goes g.device⟩

/-! ## Through a warm-up -/

/-- what stays true of the device and of what is left to do as long as no change of the kind is heard of -/
structure Lasts (kind : Topic × ChangeEvent → Bool) (P : Device → List Act → Prop) : Prop where
  heard : ∀ d d' l heard, P d l → OnlyHeard heard d.toSite d'.toSite → heard.any kind = false → P d' l
  goes : ∀ d a rest d' l', P d (a :: rest) → Goes d a rest d' l' → P d' l'

theorem Lasts.performAll {kind : Topic × ChangeEvent → Bool} {P : Device → List Act → Prop} (h : Lasts kind P)
    (hl : g.lists = [l]) (hw : IsWarmUp l) (hP : P g.device l) {ops : List Op}
    (hops : ∀ op ∈ ops, op.accompanies = true) (hdeaf : g.never (hearsOf kind) ops = true) :
    ∃ l', (g.performAll ops).lists = [l'] ∧ IsWarmUp l' ∧ P (g.performAll ops).device l' := by
  induction ops generalizing g l with
  | nil => exact ⟨l, hl, hw, hP⟩
  | cons op ops ih =>
    obtain ⟨hnot, hdeaf⟩ := never_cons.1 hdeaf
    have hops' : ∀ op ∈ ops, op.accompanies = true := fun op' hop' => hops op' (List.mem_cons_of_mem op hop')
    show ∃ l', ((g.perform op).performAll ops).lists = [l'] ∧ IsWarmUp l' ∧ P ((g.perform op).performAll ops).device l'
    rcases accompanied_cases hl hw (hops op List.mem_cons_self) with
      ⟨d, hg, honly⟩ | ⟨a, rest, d, l', rfl, hg, hgoes⟩ <;> rw [hg] at hdeaf ⊢
    · exact ih (g := ⟨d, [l]⟩) rfl hw (h.heard _ _ _ _ hP honly hnot) hops' hdeaf
    · exact ih (g := ⟨d, [l']⟩) rfl hgoes.isWarmUp (h.goes _ _ _ _ _ hP hgoes) hops' hdeaf

theorem threshold_lasts (threshold : Float) : Lasts (fun _ => false) fun d _ => d.threshold = threshold where
  heard _ _ _ _ h honly _ := honly.threshold.trans h
  goes _ _ _ _ _ h hgoes := hgoes.threshold.trans h

theorem asset_lasts (x : String) (threshold : Float) (v : Option Asset) :
    Lasts (ofAsset x) fun d l => d.threshold = threshold ∧ (∀ a ∈ l, surveys a = false) ∧
      dueAsset threshold x l (d.assets.find? x) = v where
  heard d d' l heard h honly hdeaf := by
    obtain ⟨hthreshold, hsurveyed, hdue⟩ := h
    refine ⟨honly.threshold.trans hthreshold, hsurveyed, ?_⟩
    rw [honly.asset x hdeaf]
    exact hdue
  goes d a rest d' l' h hgoes := by
    obtain ⟨rfl, hsurveyed, hdue⟩ := h
    obtain ⟨hsurveyed', hdue'⟩ := hgoes.asset hsurveyed x
    exact ⟨hgoes.threshold, hsurveyed', hdue'.trans hdue⟩

theorem request_lasts (x : String) (l₀ : List Act) (v : Option ReadingsRequest) :
    Lasts (ofRequirements x) fun d l => (∀ a ∈ l, inquires a = false) ∧ l ⊆ l₀ ∧
      DueRequest x l₀ v (d.requests.find? x) where
  heard d d' l heard h honly hdeaf := by
    rw [honly.request x hdeaf]
    exact h
  goes d a rest d' l' h hgoes := by
    obtain ⟨hinquired, hsubset, hdue⟩ := h
    obtain ⟨hsubset', hdue'⟩ := hgoes.request hinquired x
    exact ⟨fun b hb => hinquired b (hsubset' hb), List.Subset.trans hsubset' hsubset, hdue.trans hdue' hsubset⟩

/-- requirements that are still to be stored are stored, or others with their id, if their asset is kept -/
theorem store_lasts (q : Requirements) :
    Lasts (fun change => ofRequirements q.id change || ofAsset q.assetId change) fun d l =>
      (∀ a ∈ l, inquires a = false) ∧ ((d.requests.find? q.id).isSome = true ∨
        .storePending q ∈ l ∧ d.assets.contains q.assetId = true) where
  heard d d' l heard h honly hdeaf := by
    have hneither : heard.any (ofRequirements q.id) = false ∧ heard.any (ofAsset q.assetId) = false := by
      cases heard with
      | none => exact ⟨rfl, rfl⟩
      | some change => exact Bool.or_eq_false_iff.1 hdeaf
    rw [honly.request q.id hneither.1, Keyed.contains, honly.asset q.assetId hneither.2]
    exact h
  goes d a rest d' l' h hgoes := by
    obtain ⟨hinquired, hdue⟩ := h
    obtain ⟨hsubset, hrequest⟩ := hgoes.request hinquired q.id
    refine ⟨fun b hb => hinquired b (hsubset hb), ?_⟩
    rcases hdue with hsome | ⟨hq, hkept⟩
    · refine Or.inl ?_
      rcases hrequest with hsame | ⟨hnone, -⟩
      · rwa [hsame]
      · rw [hnone] at hsome
        cases hsome
    · exact hgoes.stores hinquired hq hkept

theorem never_nothing (g : Agenda) (ops : List Op) : g.never (hearsOf fun _ => false) ops = true := by
  induction ops generalizing g with
  | nil => rfl
  | cons op ops ih => exact never_cons.2 ⟨by simp [hearsOf], ih _⟩

theorem never_or {kind kind' : Topic × ChangeEvent → Bool} {ops : List Op} (h : g.never (hearsOf kind) ops = true)
    (h' : g.never (hearsOf kind') ops = true) :
    g.never (hearsOf fun change => kind change || kind' change) ops = true := by
  induction ops generalizing g with
  | nil => rfl
  | cons op ops ih =>
    obtain ⟨hnot, hnever⟩ := never_cons.1 h
    obtain ⟨hnot', hnever'⟩ := never_cons.1 h'
    refine never_cons.2 ⟨?_, ih hnever hnever'⟩
    unfold hearsOf at hnot hnot' ⊢
    cases hheard : g.heard op with
    | none => rfl
    | some change =>
      rw [hheard] at hnot hnot'
      exact Bool.or_eq_false_iff.2 ⟨hnot, hnot'⟩

theorem due_eq (hl : g.lists = [l]) : g.due = l := by
  rw [due, hl, List.flatten_singleton]

/--
**What a warm-up leaves of what it hears.** Take any moment of a warm-up of a device that has come about in any way, say
right after a change has been taken in, and suppose that from then on until the warm-up is through no change is taken in
that is about the id.
- If the assets had been asked for, the asset with that id is in the end what the acts that were left made of it: it is
  as the change left it unless one of them put an asset with that id.
- If the requirements had been asked for, the request with that id is in the end as the change left it, or there was
  none and one of the acts left has stored it. Such an act does store it if its asset is kept and no change is taken in
  that is about the asset.
What is not kept in the end is not ordered by the next replay.
-/
theorem warm_up_outcome (id : String) (harvestTimeout scanTimeout : Duration) (policy : Reduction) (threshold : Float)
    (sofar before after : List Op) :
    let d := ((new (Device.new id harvestTimeout scanTimeout policy threshold)).performAll sofar).device
    let g := (warmUp d).performAll before
    let done := g.performAll after
    (∀ op ∈ before ++ after, op.accompanies = true) → done.due = [] → ∀ x,
      ((∀ a ∈ g.due, surveys a = false) → g.never (hearsOf (ofAsset x)) after = true →
        done.device.assets.find? x = dueAsset d.threshold x g.due (g.device.assets.find? x)) ∧
      ((∀ a ∈ g.due, inquires a = false) → g.never (hearsOf (ofRequirements x)) after = true →
        DueRequest x g.due (g.device.requests.find? x) (done.device.requests.find? x) ∧
          ∀ q, .storePending q ∈ g.due → q.id = x → g.device.assets.contains q.assetId = true →
            g.never (hearsOf (ofAsset q.assetId)) after = true → (done.device.requests.find? x).isSome = true) ∧
      (done.device.requests.find? x = none →
        (done.device.engine.newOrders done.device.replayPending.2.engine).filter (·.serves x) = []) := by
  intro d g done hops hthrough x
  obtain ⟨hbefore, hafter⟩ := List.forall_mem_append.1 hops
  obtain ⟨l, hl, hw, hthreshold⟩ :=
    (threshold_lasts d.threshold).performAll (g := warmUp d) rfl .begin rfl hbefore (never_nothing _ _)
  rw [due_eq hl]
  refine ⟨fun hsurveyed hdeaf => ?_, fun hinquired hdeaf => ?_, fun hnone => ?_⟩
  · obtain ⟨l', hl', -, -, -, hdue⟩ :=
      (asset_lasts x d.threshold _).performAll hl hw ⟨hthreshold, hsurveyed, rfl⟩ hafter hdeaf
    obtain rfl : l' = [] := (due_eq hl').symm.trans hthrough
    exact hdue
  · obtain ⟨-, -, -, -, -, hdue⟩ :=
      (request_lasts x l _).performAll hl hw ⟨hinquired, List.Subset.refl l, DueRequest.refl ..⟩ hafter hdeaf
    refine ⟨hdue, ?_⟩
    rintro q hq rfl hkept hasset
    obtain ⟨l', hl', -, -, hstored⟩ :=
      (store_lasts q).performAll hl hw ⟨hinquired, Or.inr ⟨hq, hkept⟩⟩ hafter (never_or hdeaf hasset)
    obtain rfl : l' = [] := (due_eq hl').symm.trans hthrough
    exact hstored.resolve_right fun hleft => List.not_mem_nil hleft.1
  · have hplanner : d.toPlanner.Sound :=
      performAll_planner (g := new (Device.new id harvestTimeout scanTimeout policy threshold))
        (Planner.new_sound id harvestTimeout policy) sofar
    have hdone : done.device.toPlanner.Sound :=
      performAll_planner (performAll_planner (g := warmUp d) hplanner before) after
    exact (Planner.replay_of_absent hdone hnone).2

/-! ## A removal while requirements are stored -/

/-- the device gets to be logged on and to listen, and the ledger has an asset near by with two requirements -/
def watching : List Op :=
  let fill (k : LedgerLink) : LedgerLink :=
    { k with
      ledger := ((k.ledger.putAsset (spotAsset "a1")).putRequirements (spotRequirements "r1" "a1")).putRequirements
        (spotRequirements "r2" "a1") }
  [.besides (.link fill), .begin .init, .begin (.login spotDevice)] ++ List.replicate 8 (.proceed 0) ++
    List.replicate 2 (.proceed 1) ++ [Task.handler 1, .listener 0, .listener 1, .listener 2].map (.besides ∘ .task)

def onWatch : Device := ((new (Device.new "dev-1" ⟨500⟩ ⟨1000⟩ .mean 10.0)).performAll watching).device

/-- the ledger drops one of the requirements when the warm-up has done so many acts -/
def dropped (acts : Nat) : List Op :=
  List.replicate acts (.proceed 0) ++
    [.besides (.link fun k => { k with ledger := k.ledger.removeRequirements "r1" })]

/-- the listener has not heard of it yet -/
def untold (acts : Nat) : Agenda := (warmUp onWatch).performAll (dropped acts)

/-- what the listener is told -/
def removal : ChangeEvent := .of .removed (spotRequirements "r1" "a1").toJson

theorem removal_requirements : removal.requirements? = some ("r1", none) :=
  ChangeEvent.news?_removed (Requirements.decode_id ..)

/-- what becomes of the device when it is told -/
theorem untold_listen {acts : Nat}
    (hl : (untold acts).device.watch.listeners[2]? = some ⟨.requirements, .listening 2⟩)
    (hc : (untold acts).device.link.ledger.streams[2]? = some ⟨.requirements, [removal], 0, false, false⟩) :
    (untold acts).perform (.besides (.task (.listener 2))) =
      ⟨(untold acts).device.setSite
        { (untold acts).device.read 2 with toPlanner := (((untold acts).device.read 2).withdraw "r1").2 },
        (untold acts).lists⟩ := by
  have hlisten : (untold acts).device.listen 2 = ((untold acts).device.read 2).applyChange .requirements removal :=
    Site.listen_of_unread hl hc rfl
  have happly : ((untold acts).device.read 2).applyChange .requirements removal =
      ((untold acts).device.read 2).ordered removal.requirements? := Site.applyRequirements_eq_ordered _ removal
  show (⟨(untold acts).device.setSite ((untold acts).device.listen 2), (untold acts).lists⟩ : Agenda) = _
  rw [hlisten, happly, removal_requirements]
  rfl

/-- The requirements have been stored when the listener hears that they are gone, and others are left to store. -/
theorem warm_up_outcome_not_stored_again :
    let g := (warmUp onWatch).performAll (dropped 6 ++ [.besides (.task (.listener 2))])
    let done := g.performAll [.proceed 0]
    ((untold 6).device.requests.find? "r1").isSome = true ∧ g.due = [.storePending (spotRequirements "r2" "a1")] ∧
      done.due = [] ∧ done.device.requests.find? "r1" = none ∧
      (done.device.engine.newOrders done.device.replayPending.2.engine).filter (·.serves "r1") = [] := by
  intro g done
  have hg : g = (untold 6).perform (.besides (.task (.listener 2))) := performAll_append ..
  have hdue : g.due = [.storePending (spotRequirements "r2" "a1")] := rfl
  have hnone : g.device.requests.find? "r1" = none := by
    rw [hg, untold_listen rfl rfl]
    decide +kernel
  obtain ⟨-, hrequest, hreplay⟩ := warm_up_outcome "dev-1" ⟨500⟩ ⟨1000⟩ .mean 10.0 watching
    (dropped 6 ++ [.besides (.task (.listener 2))]) [.proceed 0] (by decide) rfl "r1"
  have hstays : DueRequest "r1" g.due (g.device.requests.find? "r1") (done.device.requests.find? "r1") :=
    (hrequest (by decide) rfl).1
  have hdone : done.device.requests.find? "r1" = none := by
    rw [hdue] at hstays
    rcases hstays with hsame | ⟨-, q, hq, hid, -⟩
    · exact hsame.trans hnone
    · cases List.mem_singleton.1 hq
      exact absurd hid (by decide)
  exact ⟨by decide +kernel, hdue, rfl, hdone, hreplay hdone⟩

/-- The listener hears that they are gone when they are about to be stored. They are stored and ordered all the same. -/
theorem removed_stored_again :
    let g := (untold 5).perform (.besides (.task (.listener 2)))
    let done := g.performAll [.proceed 0, .proceed 0]
    (untold 5).due = [spotRequirements "r1" "a1", spotRequirements "r2" "a1"].map .storePending ∧
      (untold 5).device.hears 2 = some (.requirements, removal) ∧ removal.requirements? = some ("r1", none) ∧
      g.device.requests.find? "r1" = none ∧ done.due = [] ∧
      done.device.requests.find? "r1" = some (.ofRequirements (spotRequirements "r1" "a1")) ∧
      ((done.device.engine.newOrders done.device.replayPending.2.engine).filter (·.serves "r1")).length = 1 := by
  intro g done
  have hdone : done = g.performAll [.proceed 0, .proceed 0] := rfl
  have hg : g = _ := untold_listen rfl rfl
  rw [hdone, hg]
  refine ⟨rfl, rfl, removal_requirements, ?_, rfl, ?_, ?_⟩ <;> decide +kernel

end Agenda

end SensorNode
