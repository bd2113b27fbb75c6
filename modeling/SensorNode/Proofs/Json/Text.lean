/-
What is read back of the compact text of a value. A value whose numbers are integers of 64 bits is parsed to the tree it
came from, with whatever may follow a value left over (`value_chars`), and looking at all of that tree gives the value
with the members of every object in key order (`parse?_text`); a value that has them in order already is read as it was
written, since the order is the same when it is made again (`sorted_sorted`).
-/
import SensorNode.Proofs.Entity.Wire
import SensorNode.Proofs.Json.Scan

namespace SensorNode.Json

/-! ## Values and their texts -/

mutual

/-- every number in the value is an integer of 64 bits -/
def HasWords : Json → Prop
  | number (.integer n) => IsWord n
  | number (.real _) => False
  | array items => ItemsHaveWords items
  | object members => MembersHaveWords members
  | _ => True

def ItemsHaveWords : List Json → Prop
  | [] => True
  | v :: vs => HasWords v ∧ ItemsHaveWords vs

def MembersHaveWords : List (String × Json) → Prop
  | [] => True
  | (_, v) :: ms => HasWords v ∧ MembersHaveWords ms

end

theorem skipBlank_cons {c : Char} (h : isBlank c = false) (cs : List Char) : skipBlank (c :: cs) = c :: cs := by
  rw [skipBlank, List.dropWhile_cons, h]
  rfl

/-- what stands behind an item or a member is no part of a number -/
theorem endsNumber_cons {c : Char} (h : c = ',' ∨ c = ']' ∨ c = '}') (rest : List Char) : EndsNumber (c :: rest) := by
  intro d hd
  obtain rfl : c = d := Option.some.inj hd
  rcases h with rfl | rfl | rfl <;> decide

theorem integer_head (n : Int) :
    ∃ c cs, (Number.integer n).chars = c :: cs ∧ (isDigit c = true ∨ c = '-') := by
  unfold Number.chars
  dsimp only
  split_ifs
  · exact ⟨'-', _, rfl, Or.inr rfl⟩
  · obtain ⟨c, cs, h⟩ := List.exists_cons_of_ne_nil (Nat.toDigits_ne_nil (n := n.natAbs) (b := 10))
    exact ⟨c, cs, h, Or.inl (isDigit_of_mem_digitsOf (n := n.natAbs) (by rw [Decimal.digitsOf, h]; exact List.mem_cons_self))⟩

/-- a digit or a sign is no blank and closes nothing -/
theorem number_head {c : Char} (h : isDigit c = true ∨ c = '-') : isBlank c = false ∧ c ≠ ']' := by
  constructor
  · by_contra hblank
    have hcases : c = ' ' ∨ c = '\n' ∨ c = '\t' ∨ c = '\r' := of_decide_eq_true (Bool.of_not_eq_false hblank)
    rcases hcases with rfl | rfl | rfl | rfl <;> revert h <;> decide
  · rintro rfl
    revert h
    decide

/-- a text starts with something to be read, and not with the end of an array -/
theorem chars_head (v : Json) (h : v.HasWords) : ∃ c cs, v.chars = c :: cs ∧ isBlank c = false ∧ c ≠ ']' := by
  cases v with
  | null => exact ⟨'n', _, rfl, by decide, by decide⟩
  | bool b => cases b <;> exact ⟨_, _, rfl, by decide, by decide⟩
  | number n =>
    cases n with
    | integer n =>
      obtain ⟨c, cs, hcs, hc⟩ := integer_head n
      exact ⟨c, cs, hcs, number_head hc⟩
    | real x => cases h
  | string s => exact ⟨'"', _, by rw [chars, quoted, List.cons_append], by decide, by decide⟩
  | array items => exact ⟨'[', _, by rw [chars, List.cons_append], by decide, by decide⟩
  | object members => exact ⟨'\x7b', _, by rw [chars, List.cons_append], by decide, by decide⟩

/-- an array that is not empty starts with its first item -/
theorem itemsChars_head (v : Json) (vs : List Json) (h : v.HasWords) :
    ∃ c cs, itemsChars (v :: vs) = c :: cs ∧ isBlank c = false ∧ c ≠ ']' := by
  obtain ⟨c, cs, hcs, hc⟩ := chars_head v h
  cases vs with
  | nil => exact ⟨c, cs, by rw [itemsChars, hcs], hc⟩
  | cons w vs => exact ⟨c, cs ++ ',' :: itemsChars (w :: vs), by rw [itemsChars, hcs]; rfl; simp, hc⟩

/-- an object that is not empty starts with a key -/
theorem membersChars_head (k : String) (v : Json) (ms : List (String × Json)) :
    ∃ cs, membersChars ((k, v) :: ms) = '"' :: cs := by
  cases ms with
  | nil => exact ⟨_, by rw [membersChars, quoted, List.cons_append, List.cons_append]⟩
  | cons m ms => exact ⟨_, by rw [membersChars, quoted, List.cons_append, List.cons_append, List.cons_append]; simp⟩

/-! ## What is at the front of a text -/

theorem value_number {c : Char} (h : isDigit c = true ∨ c = '-') (fuel : Nat) (cs : List Char) :
    value (fuel + 1) (c :: cs) = (numeral (c :: cs)).map fun r => (.number r.1.number?, r.2) := by
  rw [value.eq_2, skipBlank_cons (number_head h).1]
  split
  case h_7 => rfl
  all_goals
    rename_i heq
    obtain ⟨rfl, -⟩ := List.cons.inj heq
    exact absurd h (by decide)

theorem value_string (fuel : Nat) (cs : List Char) :
    value (fuel + 1) ('"' :: cs) = (stringBody cs).map fun r => (.string (stringOf r.1), r.2) := by
  rw [value.eq_2, skipBlank_cons (by decide)]
  rfl

theorem value_array {c : Char} (hblank : isBlank c = false) (hc : c ≠ ']') (fuel : Nat) (cs : List Char) :
    value (fuel + 1) ('[' :: c :: cs) = (items fuel (c :: cs)).map fun r => (.array r.1, r.2) := by
  rw [value.eq_2, skipBlank_cons (by decide)]
  simp only [skipBlank_cons hblank]
  split
  · rename_i heq
    exact absurd (List.cons.inj heq).1 hc
  · rfl

theorem value_object (fuel : Nat) (cs : List Char) :
    value (fuel + 1) ('\x7b' :: '"' :: cs) = (members fuel ('"' :: cs)).map fun r => (.object r.1, r.2) := by
  rw [value.eq_2, skipBlank_cons (by decide)]
  rfl

/-- a quoted string in front of anything is read as that string -/
theorem value_quoted (fuel : Nat) (s : String) (rest : List Char) :
    value (fuel + 1) (quoted s ++ rest) = some (.string (some s), rest) := by
  rw [quoted, List.cons_append, List.cons_append, value_string, List.append_assoc, List.singleton_append,
    stringBody_quoted, Option.map_some, stringOf_pieces]

theorem value_integer (fuel : Nat) {n : Int} (hn : IsWord n) {rest : List Char} (h : EndsNumber rest) :
    value (fuel + 1) ((Number.integer n).chars ++ rest) = some (.number (some (.integer n)), rest) := by
  obtain ⟨c, cs, hcs, hc⟩ := integer_head n
  have hnumeral := numeral_integer n h
  rw [hcs, List.cons_append] at hnumeral ⊢
  rw [value_number hc, hnumeral, Option.map_some, number?_ofInt hn]

/-- behind an item the array ends or goes on -/
theorem items_last {fuel : Nat} {cs rest : List Char} {r : Raw} (h : value fuel cs = some (r, ']' :: rest)) :
    items (fuel + 1) cs = some ([r], rest) := by
  rw [items, h]
  rfl

theorem items_more {fuel : Nat} {cs cs' : List Char} {r : Raw} (h : value fuel cs = some (r, ',' :: cs')) :
    items (fuel + 1) cs = (items fuel cs').map fun q => (r :: q.1, q.2) := by
  rw [items, h]
  rfl

/-- behind its key a member has a colon and a value -/
theorem members_key (fuel : Nat) (k : String) (cs : List Char) :
    members (fuel + 1) (quoted k ++ ':' :: cs) = (value fuel cs).bind fun q =>
      match skipBlank q.2 with
      | ',' :: rest => (members fuel rest).map fun r => ((some k, q.1) :: r.1, r.2)
      | '\x7d' :: rest => some ([(some k, q.1)], rest)
      | _ => none := by
  have hkey : stringBody (k.toList.flatMap escape ++ (['"'] ++ ':' :: cs)) = some (k.toList.map pieceOf, ':' :: cs) :=
    stringBody_quoted k.toList (':' :: cs)
  rw [members, quoted, List.cons_append, List.cons_append, skipBlank_cons (by decide), List.append_assoc]
  simp only [hkey, stringOf_pieces, Option.bind_eq_bind, Option.bind_some]
  rfl

/-- behind the value of a member the object ends or goes on -/
theorem members_last {fuel : Nat} (k : String) {cs rest : List Char} {r : Raw}
    (h : value fuel cs = some (r, '\x7d' :: rest)) :
    members (fuel + 1) (quoted k ++ ':' :: cs) = some ([(some k, r)], rest) := by
  rw [members_key, h]
  rfl

theorem members_more {fuel : Nat} (k : String) {cs cs' : List Char} {r : Raw}
    (h : value fuel cs = some (r, ',' :: cs')) :
    members (fuel + 1) (quoted k ++ ':' :: cs) = (members fuel cs').map fun q => ((some k, r) :: q.1, q.2) := by
  rw [members_key, h]
  rfl

mutual

/-- A value is read from the front of its text, and all that follows is left, as long as that does not go on with a
number. Two units of fuel for each character are enough. -/
theorem value_chars : ∀ (v : Json), v.HasWords → ∀ (fuel : Nat), 2 * v.chars.length < fuel → ∀ (rest : List Char),
    EndsNumber rest → value fuel (v.chars ++ rest) = some (v.toRaw, rest)
  | _, _, 0, hfuel, _, _ => absurd hfuel (Nat.not_lt_zero _)
  | null, _, fuel + 1, _, rest, _ => rfl
  | bool true, _, fuel + 1, _, rest, _ => rfl
  | bool false, _, fuel + 1, _, rest, _ => rfl
  | number (.integer n), hwords, fuel + 1, _, rest, hrest => by
    rw [chars, toRaw]
    exact value_integer fuel hwords hrest
  | number (.real x), hwords, _, _, _, _ => hwords.elim
  | string s, _, fuel + 1, _, rest, _ => by
    rw [chars, toRaw]
    exact value_quoted fuel s rest
  | array [], _, fuel + 1, _, rest, _ => rfl
  | array (v :: vs), hwords, fuel + 1, hfuel, rest, _ => by
    have hlength : (array (v :: vs)).chars.length = (itemsChars (v :: vs)).length + 2 := by
      rw [chars]
      simp
    have hitems := items_chars v vs hwords fuel (by omega) rest
    obtain ⟨c, cs, hcs, hblank, hc⟩ := itemsChars_head v vs hwords.1
    rw [hcs, List.cons_append] at hitems
    have htext : (array (v :: vs)).chars ++ rest = '[' :: c :: (cs ++ ']' :: rest) := by
      rw [chars, hcs]
      simp
    rw [htext, toRaw, value_array hblank hc, hitems]
    rfl
  | object [], _, fuel + 1, _, rest, _ => rfl
  | object ((k, v) :: ms), hwords, fuel + 1, hfuel, rest, _ => by
    have hlength : (object ((k, v) :: ms)).chars.length = (membersChars ((k, v) :: ms)).length + 2 := by
      rw [chars]
      simp
    have hmembers := members_chars k v ms hwords fuel (by omega) rest
    obtain ⟨cs, hcs⟩ := membersChars_head k v ms
    rw [hcs, List.cons_append] at hmembers
    have htext : (object ((k, v) :: ms)).chars ++ rest = '\x7b' :: '"' :: (cs ++ '\x7d' :: rest) := by
      rw [chars, hcs]
      simp
    rw [htext, toRaw, value_object, hmembers]
    rfl

theorem items_chars : ∀ (v : Json) (vs : List Json), ItemsHaveWords (v :: vs) → ∀ (fuel : Nat),
    2 * (itemsChars (v :: vs)).length + 1 < fuel → ∀ (rest : List Char),
    items fuel (itemsChars (v :: vs) ++ ']' :: rest) = some (toRawItems (v :: vs), rest)
  | _, _, _, 0, hfuel, _ => absurd hfuel (Nat.not_lt_zero _)
  | v, [], hwords, fuel + 1, hfuel, rest => by
    have hvalue := value_chars v hwords.1 fuel (by rw [itemsChars] at hfuel; omega) (']' :: rest)
      (endsNumber_cons (by simp) rest)
    rw [itemsChars, items_last hvalue]
    rfl
  | v, w :: vs, hwords, fuel + 1, hfuel, rest => by
    have hlength : (itemsChars (v :: w :: vs)).length = v.chars.length + (itemsChars (w :: vs)).length + 1 := by
      rw [itemsChars]
      · simp
        omega
      · simp
    have hvalue := value_chars v hwords.1 fuel (by omega) (',' :: (itemsChars (w :: vs) ++ ']' :: rest))
      (endsNumber_cons (by simp) _)
    have hitems := items_chars w vs hwords.2 fuel (by omega) rest
    rw [itemsChars, List.append_assoc, List.cons_append, items_more hvalue, hitems]
    · rfl
    · simp

theorem members_chars : ∀ (k : String) (v : Json) (ms : List (String × Json)), MembersHaveWords ((k, v) :: ms) →
    ∀ (fuel : Nat), 2 * (membersChars ((k, v) :: ms)).length < fuel → ∀ (rest : List Char),
    members fuel (membersChars ((k, v) :: ms) ++ '\x7d' :: rest) = some (toRawMembers ((k, v) :: ms), rest)
  | _, _, _, _, 0, hfuel, _ => absurd hfuel (Nat.not_lt_zero _)
  | k, v, [], hwords, fuel + 1, hfuel, rest => by
    have hlength : (membersChars [(k, v)]).length = (quoted k).length + v.chars.length + 1 := by
      rw [membersChars]
      simp
      omega
    have hvalue := value_chars v hwords.1 fuel (by omega) ('\x7d' :: rest) (endsNumber_cons (by simp) rest)
    rw [membersChars, List.append_assoc, List.cons_append, members_last k hvalue]
    rfl
  | k, v, (k', v') :: ms, hwords, fuel + 1, hfuel, rest => by
    have hlength : (membersChars ((k, v) :: (k', v') :: ms)).length =
        (quoted k).length + v.chars.length + (membersChars ((k', v') :: ms)).length + 2 := by
      rw [membersChars]
      · simp
        omega
      · simp
    have hvalue := value_chars v hwords.1 fuel (by omega) (',' :: (membersChars ((k', v') :: ms) ++ '\x7d' :: rest))
      (endsNumber_cons (by simp) _)
    have hmembers := members_chars k' v' ms hwords.2 fuel (by omega) rest
    rw [membersChars, List.append_assoc, List.cons_append, List.append_assoc, List.cons_append,
      members_more k hvalue, hmembers]
    · rfl
    · simp

end

/-- the text of a value is parsed to its tree -/
theorem ofChars?_chars {v : Json} (h : v.HasWords) : Raw.ofChars? v.chars = some v.toRaw := by
  have hvalue := value_chars v h (2 * v.chars.length + 2) (by omega) [] (by simp [EndsNumber])
  rw [List.append_nil] at hvalue
  rw [Raw.ofChars?, hvalue]
  rfl

/-! ## Looking at all of it -/

mutual

/-- how many arrays and objects are inside one another -/
def nesting : Json → Nat
  | array items => itemsNesting items + 1
  | object members => membersNesting members + 1
  | _ => 0

def itemsNesting : List Json → Nat
  | [] => 0
  | v :: vs => max (nesting v) (itemsNesting vs)

def membersNesting : List (String × Json) → Nat
  | [] => 0
  | (_, v) :: ms => max (nesting v) (membersNesting ms)

end

mutual

/-- a tree that does not nest too deep is taken for its value, in key order -/
theorem toJson?_toRaw : ∀ (v : Json) (depth : Nat), v.nesting ≤ depth → v.toRaw.toJson? depth = some v.sorted
  | null, _, _ => rfl
  | bool _, _, _ => rfl
  | number _, _, _ => rfl
  | string _, _, _ => rfl
  | array vs, 0, h => absurd h (Nat.not_succ_le_zero _)
  | array vs, depth + 1, h => by
    rw [toRaw, Raw.toJson?, if_neg (Nat.succ_ne_zero depth), Nat.add_sub_cancel,
      toItems?_toRaw vs depth (Nat.le_of_succ_le_succ h), sorted]
    rfl
  | object ms, 0, h => absurd h (Nat.not_succ_le_zero _)
  | object ms, depth + 1, h => by
    rw [toRaw, Raw.toJson?, if_neg (Nat.succ_ne_zero depth), Nat.add_sub_cancel,
      toMembers?_toRaw ms depth (Nat.le_of_succ_le_succ h), sorted]
    rfl

theorem toItems?_toRaw : ∀ (vs : List Json) (depth : Nat), itemsNesting vs ≤ depth →
    Raw.toItems? depth (toRawItems vs) = some (sortedItems vs)
  | [], _, _ => rfl
  | v :: vs, depth, h => by
    obtain ⟨hv, hvs⟩ := max_le_iff.1 h
    rw [toRawItems, Raw.toItems?, toJson?_toRaw v depth hv, toItems?_toRaw vs depth hvs, sortedItems]
    rfl

theorem toMembers?_toRaw : ∀ (ms : List (String × Json)) (depth : Nat), membersNesting ms ≤ depth →
    Raw.toMembers? depth (toRawMembers ms) = some (sortedEntries ms)
  | [], _, _ => rfl
  | (k, v) :: ms, depth, h => by
    obtain ⟨hv, hms⟩ := max_le_iff.1 h
    rw [toRawMembers, Raw.toMembers?, toJson?_toRaw v depth hv, toMembers?_toRaw ms depth hms, sortedEntries]
    rfl

end

/-- the text of a value holds that value, with the members of every object in key order -/
theorem parse?_text {v : Json} (hwords : v.HasWords) (hdepth : v.nesting ≤ nestingLimit) :
    parse? v.text = some v.sorted := by
  rw [parse?, Raw.parse?, text, String.toList_ofList, ofChars?_chars hwords]
  exact toJson?_toRaw v nestingLimit hdepth

/-! ## Key order made twice -/

/-- what is kept of several members has distinct keys, and was there -/
theorem foldl_kept (ms kept : List (String × Json)) (h : (kept.map Prod.fst).Nodup) :
    ((ms.foldl (fun kept m => if kept.any (fun k => k.1 = m.1) then kept else m :: kept) kept).map Prod.fst).Nodup ∧
      ∀ m ∈ ms.foldl (fun kept m => if kept.any (fun k => k.1 = m.1) then kept else m :: kept) kept,
        m ∈ ms ∨ m ∈ kept := by
  induction ms generalizing kept with
  | nil => exact ⟨h, fun m hm => Or.inr hm⟩
  | cons n ms ih =>
    rw [List.foldl_cons]
    split_ifs with hany
    · obtain ⟨hnodup, hmem⟩ := ih kept h
      exact ⟨hnodup, fun m hm => (hmem m hm).imp_left (List.mem_cons_of_mem n)⟩
    · have hnew : n.1 ∉ kept.map Prod.fst := by
        intro hn
        obtain ⟨k, hk, hkey⟩ := List.mem_map.1 hn
        exact hany (List.any_eq_true.2 ⟨k, hk, decide_eq_true hkey⟩)
      obtain ⟨hnodup, hmem⟩ := ih (n :: kept) (List.nodup_cons.2 ⟨hnew, h⟩)
      refine ⟨hnodup, fun m hm => ?_⟩
      rcases hmem m hm with hms | hkept
      · exact Or.inl (List.mem_cons_of_mem n hms)
      · rcases List.mem_cons.1 hkept with rfl | hkept
        · exact Or.inl List.mem_cons_self
        · exact Or.inr hkept

theorem sortedMembers_nodup (ms : List (String × Json)) : ((sortedMembers ms).map Prod.fst).Nodup := by
  have hdistinct := (foldl_kept ms.reverse [] List.nodup_nil).1
  exact ((List.mergeSort_perm _ _).map Prod.fst).nodup_iff.2 hdistinct

theorem mem_of_mem_sortedMembers {ms : List (String × Json)} {m : String × Json} (h : m ∈ sortedMembers ms) :
    m ∈ ms := by
  have hkept := (List.mergeSort_perm _ _).mem_iff.1 h
  rcases (foldl_kept ms.reverse [] List.nodup_nil).2 m hkept with hm | hm
  · exact List.mem_reverse.1 hm
  · cases hm

theorem sortedMembers_pairwise (ms : List (String × Json)) :
    (sortedMembers ms).Pairwise fun a b => decide (a.1 ≤ b.1) = true := by
  refine List.pairwise_mergeSort (fun a b c hab hbc => ?_) (fun a b => ?_) _
  · exact decide_eq_true (String.le_trans (of_decide_eq_true hab) (of_decide_eq_true hbc))
  · simpa using String.le_total a.1 b.1

/-- members that are in key order already stay where they are -/
theorem sortedMembers_sortedMembers (ms : List (String × Json)) :
    sortedMembers (sortedMembers ms) = sortedMembers ms := by
  have hsame := foldl_distinct (sortedMembers ms).reverse [] (by simpa using sortedMembers_nodup ms)
  rw [List.append_nil, List.reverse_reverse] at hsame
  calc
    sortedMembers (sortedMembers ms) = (sortedMembers ms).mergeSort fun a b => decide (a.1 ≤ b.1) :=
      congrArg (List.mergeSort · _) hsame
    _ = sortedMembers ms := List.mergeSort_of_pairwise (sortedMembers_pairwise ms)

mutual

/-- a value that is in key order stays as it is -/
theorem sorted_sorted : ∀ v : Json, v.sorted.sorted = v.sorted
  | null => rfl
  | bool _ => rfl
  | number _ => rfl
  | string _ => rfl
  | array vs => by
    rw [sorted, sorted, sortedItems_sortedItems vs]
  | object ms => by
    have hvalues : sortedEntries (sortedMembers (sortedEntries ms)) = sortedMembers (sortedEntries ms) := by
      rw [sortedEntries_eq]
      refine (List.map_congr_left fun m hm => ?_).trans (List.map_id _)
      have hvalue := sorted_of_mem_sortedEntries ms m (mem_of_mem_sortedMembers hm)
      exact Prod.ext rfl hvalue
    rw [sorted, sorted, hvalues, sortedMembers_sortedMembers]

theorem sortedItems_sortedItems : ∀ vs : List Json, sortedItems (sortedItems vs) = sortedItems vs
  | [] => rfl
  | v :: vs => by rw [sortedItems, sortedItems, sorted_sorted v, sortedItems_sortedItems vs]

theorem sorted_of_mem_sortedEntries : ∀ (ms : List (String × Json)), ∀ m ∈ sortedEntries ms, m.2.sorted = m.2
  | [], m, hm => by cases hm
  | (k, v) :: ms, m, hm => by
    rw [sortedEntries] at hm
    rcases List.mem_cons.1 hm with rfl | hm
    · exact sorted_sorted v
    · exact sorted_of_mem_sortedEntries ms m hm

end

/-! ## What key order leaves alone -/

theorem itemsHaveWords_iff {vs : List Json} : ItemsHaveWords vs ↔ ∀ v ∈ vs, v.HasWords := by
  induction vs with
  | nil => simp [ItemsHaveWords]
  | cons v vs ih => simp [ItemsHaveWords, ih]

theorem membersHaveWords_iff {ms : List (String × Json)} : MembersHaveWords ms ↔ ∀ m ∈ ms, m.2.HasWords := by
  induction ms with
  | nil => simp [MembersHaveWords]
  | cons m ms ih => simp [MembersHaveWords, ih]

theorem itemsNesting_le_iff {vs : List Json} {depth : Nat} :
    itemsNesting vs ≤ depth ↔ ∀ v ∈ vs, v.nesting ≤ depth := by
  induction vs with
  | nil => simp [itemsNesting]
  | cons v vs ih => simp [itemsNesting, ih]

theorem membersNesting_le_iff {ms : List (String × Json)} {depth : Nat} :
    membersNesting ms ≤ depth ↔ ∀ m ∈ ms, m.2.nesting ≤ depth := by
  induction ms with
  | nil => simp [membersNesting]
  | cons m ms ih => simp [membersNesting, ih]

mutual

/-- putting members in order changes no number -/
theorem HasWords.sorted : ∀ {v : Json}, v.HasWords → v.sorted.HasWords
  | null, _ => trivial
  | bool _, _ => trivial
  | number _, h => h
  | string _, _ => trivial
  | array _, h => ItemsHaveWords.sorted h
  | object _, h => membersHaveWords_iff.2 fun m hm =>
      membersHaveWords_iff.1 (MembersHaveWords.sorted h) m (mem_of_mem_sortedMembers hm)

theorem ItemsHaveWords.sorted : ∀ {vs : List Json}, ItemsHaveWords vs → ItemsHaveWords (sortedItems vs)
  | [], _ => trivial
  | _ :: _, h => ⟨HasWords.sorted h.1, ItemsHaveWords.sorted h.2⟩

theorem MembersHaveWords.sorted : ∀ {ms : List (String × Json)}, MembersHaveWords ms →
    MembersHaveWords (sortedEntries ms)
  | [], _ => trivial
  | _ :: _, h => ⟨HasWords.sorted h.1, MembersHaveWords.sorted h.2⟩

end

mutual

/-- putting members in order nests nothing deeper -/
theorem nesting_sorted_le : ∀ v : Json, v.sorted.nesting ≤ v.nesting
  | null => le_rfl
  | bool _ => le_rfl
  | number _ => le_rfl
  | string _ => le_rfl
  | array vs => Nat.succ_le_succ (itemsNesting_sorted_le vs)
  | object ms => by
    have hentries := membersNesting_le_iff.1 (membersNesting_sorted_le ms)
    exact Nat.succ_le_succ (membersNesting_le_iff.2 fun m hm => hentries m (mem_of_mem_sortedMembers hm))

theorem itemsNesting_sorted_le : ∀ vs : List Json, itemsNesting (sortedItems vs) ≤ itemsNesting vs
  | [] => le_rfl
  | v :: vs => max_le_max (nesting_sorted_le v) (itemsNesting_sorted_le vs)

theorem membersNesting_sorted_le : ∀ ms : List (String × Json), membersNesting (sortedEntries ms) ≤ membersNesting ms
  | [] => le_rfl
  | (_, v) :: ms => max_le_max (nesting_sorted_le v) (membersNesting_sorted_le ms)

end

end SensorNode.Json
