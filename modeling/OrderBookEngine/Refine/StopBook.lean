import OrderBookEngine.Engine.StopBook
import OrderBookEngine.Market.Basic
import Mathlib.Data.List.Perm.Lattice
import Mathlib.Data.List.Sort

/-!
# The stop book is one list in priority order

`StopBook.Lists sb L` says that the two maps and the index hold exactly the stops of `L`, a list of
priorities and stops with strictly increasing priorities, all of them between the two counters. A
stop is put at the back (`lists_insertBack`), put at the front (`lists_insertFront`), taken out
(`Lists.erase`), rewritten in its place (`lists_rewrite`), and the stops that a sweep wakes are the
touched ones in list order (`take_eq`).
-/

namespace OrderBookEngine

namespace StopBook

/-- The stop book holds the stops of a list, under the list's priorities. -/
structure Lists (sb : StopBook) (L : List (ℤ × StopOrder)) : Prop where
  /-- The dormant stops are listed in order of their priorities. -/
  sorted : L.Pairwise fun a b => a.1 < b.1
  /-- The front counter is below all of them. -/
  front : ∀ e ∈ L, sb.nextFrontPriority < e.1
  /-- The back counter is above all of them. -/
  back : ∀ e ∈ L, e.1 < sb.nextBackPriority
  /-- The front counter is below the middle. -/
  front_lt : sb.nextFrontPriority < kPriorityMid
  /-- The back counter is not below the middle. -/
  le_back : kPriorityMid ≤ sb.nextBackPriority
  /-- The map of a side holds the listed stops of the side, under their keys. -/
  entries : ∀ side key stop, (key, stop) ∈ (sb.stopsFor side).entries ↔
    stop.side = side ∧ key.1 = stop.stopPrice ∧ (key.2, stop) ∈ L
  /-- The index knows the listed stops, each with its side and key. -/
  index : ∀ id loc, sb.stopIndex id = some loc ↔
    ∃ e ∈ L, e.2.id = id ∧ loc = { side := e.2.side, key := (e.2.stopPrice, e.1) }

/-- The map put in for a side is the one read back. -/
@[simp] theorem stopsFor_setStopsFor_self (sb : StopBook) (side : Side) (m : StopMap) :
    (sb.setStopsFor side m).stopsFor side = m := by cases side <;> rfl

/-- The map of the other side stays. -/
theorem stopsFor_setStopsFor_of_ne (sb : StopBook) {side side' : Side} (m : StopMap)
    (h : side' ≠ side) : (sb.setStopsFor side m).stopsFor side' = sb.stopsFor side' := by
  cases side <;> cases side' <;> first | rfl | exact absurd rfl h

/-- A map put in leaves the index alone. -/
@[simp] theorem stopIndex_setStopsFor (sb : StopBook) (side : Side) (m : StopMap) :
    (sb.setStopsFor side m).stopIndex = sb.stopIndex := by cases side <;> rfl

/-- It leaves the back counter alone. -/
@[simp] theorem nextBackPriority_setStopsFor (sb : StopBook) (side : Side) (m : StopMap) :
    (sb.setStopsFor side m).nextBackPriority = sb.nextBackPriority := by cases side <;> rfl

/-- It leaves the front counter alone. -/
@[simp] theorem nextFrontPriority_setStopsFor (sb : StopBook) (side : Side) (m : StopMap) :
    (sb.setStopsFor side m).nextFrontPriority = sb.nextFrontPriority := by cases side <;> rfl

variable {sb : StopBook} {L : List (ℤ × StopOrder)}

/-- The front counter is below the back counter. -/
theorem Lists.gap (h : sb.Lists L) : sb.nextFrontPriority < sb.nextBackPriority :=
  lt_of_lt_of_le h.front_lt h.le_back

/-- No two stops share a priority. -/
theorem Lists.eq_of_priority (h : sb.Lists L) {e e' : ℤ × StopOrder} (he : e ∈ L) (he' : e' ∈ L)
    (hp : e.1 = e'.1) : e = e' := by
  by_contra hne
  have hpw : L.Pairwise fun a b => a.1 ≠ b.1 := h.sorted.imp fun hab => ne_of_lt hab
  have : Std.Symm fun a b : ℤ × StopOrder => a.1 ≠ b.1 := ⟨fun _ _ => Ne.symm⟩
  exact hpw.forall he he' hne hp

/-- No two dormant stops share an id. -/
theorem Lists.eq_of_id (h : sb.Lists L) {e e' : ℤ × StopOrder} (he : e ∈ L) (he' : e' ∈ L)
    (hid : e.2.id = e'.2.id) : e = e' := by
  have h1 := (h.index e.2.id _).mpr ⟨e, he, rfl, rfl⟩
  have h2 := (h.index e.2.id _).mpr ⟨e', he', hid.symm, rfl⟩
  rw [h1] at h2
  simp only [Option.some.injEq, StopLocation.mk.injEq, Prod.mk.injEq] at h2
  exact h.eq_of_priority he he' h2.2.2

/-- No stop is listed twice. -/
theorem Lists.nodup (h : sb.Lists L) : L.Nodup :=
  h.sorted.imp fun hab => by
    rintro rfl
    exact lt_irrefl _ hab

/-- The index misses an id exactly when no listed stop has it. -/
theorem Lists.stopIndex_eq_none (h : sb.Lists L) {id : OrderId} :
    sb.stopIndex id = none ↔ ∀ e ∈ L, e.2.id ≠ id := by
  rw [Option.eq_none_iff_forall_ne_some]
  constructor
  · intro hn e he hid
    exact hn _ ((h.index id _).mpr ⟨e, he, hid, rfl⟩)
  · intro hne loc hloc
    obtain ⟨e, he, hid, -⟩ := (h.index id loc).mp hloc
    exact hne e he hid

/-- A location leads to its stop. -/
theorem Lists.find?_eq (h : sb.Lists L) {e : ℤ × StopOrder} (he : e ∈ L) :
    (sb.stopsFor e.2.side).find? (e.2.stopPrice, e.1) = some e.2 :=
  SortedMap.find?_eq_some.mpr ((h.entries _ _ _).mpr ⟨rfl, rfl, he⟩)

/-- What the index says of an id, and what the list does. -/
theorem Lists.lookup (h : sb.Lists L) (id : OrderId) :
    (sb.stopIndex id = none ∧ (L.map Prod.snd).find? (fun s => s.id = id) = none) ∨
      ∃ e ∈ L, e.2.id = id ∧
        sb.stopIndex id = some { side := e.2.side, key := (e.2.stopPrice, e.1) } ∧
        (L.map Prod.snd).find? (fun s => s.id = id) = some e.2 := by
  by_cases hex : ∃ e ∈ L, e.2.id = id
  · obtain ⟨e, he, hid⟩ := hex
    refine Or.inr ⟨e, he, hid, (h.index id _).mpr ⟨e, he, hid, rfl⟩, ?_⟩
    obtain ⟨s, hs⟩ : ∃ s, (L.map Prod.snd).find? (fun s => s.id = id) = some s := by
      rw [← Option.isSome_iff_exists, List.find?_isSome]
      exact ⟨e.2, List.mem_map_of_mem he, by simpa using hid⟩
    have hsid : s.id = id := by simpa using List.find?_some hs
    obtain ⟨e', he', rfl⟩ := List.mem_map.mp (List.mem_of_find?_eq_some hs)
    rw [hs, h.eq_of_id he he' (hid.trans hsid.symm)]
  · push Not at hex
    refine Or.inl ⟨h.stopIndex_eq_none.mpr hex, List.find?_eq_none.mpr fun s hs => ?_⟩
    obtain ⟨e, he, rfl⟩ := List.mem_map.mp hs
    simpa using hex e he

/-- The list cut at a stop, whose id occurs on neither side. -/
theorem Lists.exists_split (h : sb.Lists L) {e : ℤ × StopOrder} (he : e ∈ L) :
    ∃ A B, L = A ++ e :: B ∧ ∀ x ∈ A ++ B, x.2.id ≠ e.2.id := by
  obtain ⟨A, B, rfl⟩ := List.append_of_mem he
  refine ⟨A, B, rfl, fun x hx hid => (List.nodup_middle.mp h.nodup).notMem ?_⟩
  have hmem : x ∈ A ++ e :: B := by
    simp only [List.mem_append, List.mem_cons] at hx ⊢
    tauto
  rw [← h.eq_of_id hmem he hid]
  exact hx

/-- The stops of a cut list without the one it is cut at. -/
theorem filter_split {A B : List (ℤ × StopOrder)} {e : ℤ × StopOrder}
    (hne : ∀ x ∈ A ++ B, x.2.id ≠ e.2.id) :
    ((A ++ e :: B).map Prod.snd).filter (fun s => s.id ≠ e.2.id) = (A ++ B).map Prod.snd := by
  rw [List.filter_map, List.filter_append, List.filter_cons_of_neg (by simp), ← List.filter_append]
  exact congrArg _ (List.filter_eq_self.mpr fun x hx => by simpa using hne x hx)

/-- The stops of a cut list with the one it is cut at rewritten. -/
theorem map_split {A B : List (ℤ × StopOrder)} {e : ℤ × StopOrder} (updated : StopOrder)
    (hne : ∀ x ∈ A ++ B, x.2.id ≠ e.2.id) :
    ((A ++ e :: B).map Prod.snd).map (fun s => if s.id = e.2.id then updated else s) =
      (A ++ (e.1, updated) :: B).map Prod.snd := by
  have hkeep : ∀ xs : List (ℤ × StopOrder), (∀ x ∈ xs, x.2.id ≠ e.2.id) →
      (xs.map Prod.snd).map (fun s => if s.id = e.2.id then updated else s) = xs.map Prod.snd :=
    fun xs hxs => by
      rw [List.map_map]
      exact List.map_congr_left fun x hx => if_neg (hxs x hx)
  rw [List.map_append, List.map_append, List.map_cons, List.map_cons,
    hkeep A fun x hx => hne x (List.mem_append_left _ hx),
    hkeep B fun x hx => hne x (List.mem_append_right _ hx), if_pos rfl, List.map_append, List.map_cons]

/-! ## Editing the list -/

/-- Counters may move apart. -/
theorem Lists.of_counters {sb' : StopBook} (h : sb.Lists L)
    (hfront : sb'.nextFrontPriority ≤ sb.nextFrontPriority)
    (hback : sb.nextBackPriority ≤ sb'.nextBackPriority)
    (hmaps : ∀ side, sb'.stopsFor side = sb.stopsFor side)
    (hindex : sb'.stopIndex = sb.stopIndex) : sb'.Lists L where
  sorted := h.sorted
  front e he := lt_of_le_of_lt hfront (h.front e he)
  back e he := lt_of_lt_of_le (h.back e he) hback
  front_lt := lt_of_le_of_lt hfront h.front_lt
  le_back := h.le_back.trans hback
  entries side := by rw [hmaps]; exact h.entries side
  index := by rw [hindex]; exact h.index

/-- A stop under a free priority goes to that priority's place. -/
theorem lists_insertDormantStop {A B : List (ℤ × StopOrder)} (stop : StopOrder) (priority : ℤ)
    (h : sb.Lists (A ++ B)) (hid : ∀ e ∈ A ++ B, e.2.id ≠ stop.id)
    (hA : ∀ e ∈ A, e.1 < priority) (hB : ∀ e ∈ B, priority < e.1)
    (hfront : sb.nextFrontPriority < priority) (hback : priority < sb.nextBackPriority) :
    (sb.insertDormantStop stop priority).Lists (A ++ (priority, stop) :: B) := by
  have hmem : ∀ e, e ∈ A ++ (priority, stop) :: B ↔ e = (priority, stop) ∨ e ∈ A ++ B := fun e => by
    simp only [List.mem_append, List.mem_cons]
    tauto
  -- The priority is between those of `A` and those of `B`, so the key is new.
  have hfresh : ∀ e ∈ (sb.stopsFor stop.side).entries, e.1 ≠ (stop.stopPrice, priority) := by
    rintro ⟨key, s⟩ he rfl
    obtain ⟨-, -, hL⟩ := (h.entries _ _ _).mp he
    rcases List.mem_append.mp hL with hL | hL
    · exact lt_irrefl _ (hA _ hL)
    · exact lt_irrefl _ (hB _ hL)
  refine ⟨?_, ?_, ?_, ?_, ?_, ?_, ?_⟩
  · obtain ⟨hsA, hsB, hAB⟩ := List.pairwise_append.mp h.sorted
    refine List.pairwise_append.mpr ⟨hsA, List.pairwise_cons.mpr ⟨hB, hsB⟩, fun a ha b hb => ?_⟩
    rcases List.mem_cons.mp hb with rfl | hb
    · exact hA a ha
    · exact hAB a ha b hb
  · intro e he
    rcases (hmem e).mp he with rfl | he
    · simpa [insertDormantStop] using hfront
    · simpa [insertDormantStop] using h.front e he
  · intro e he
    rcases (hmem e).mp he with rfl | he
    · simpa [insertDormantStop] using hback
    · simpa [insertDormantStop] using h.back e he
  · simpa [insertDormantStop] using h.front_lt
  · simpa [insertDormantStop] using h.le_back
  · intro side key s
    rw [hmem]
    -- Only the map of the stop's own side gets an entry.
    by_cases hs : side = stop.side
    · subst hs
      show (key, s) ∈ ((sb.setStopsFor stop.side _).stopsFor stop.side).entries ↔ _
      rw [stopsFor_setStopsFor_self, SortedMap.mem_entries_emplace hfresh, h.entries]
      constructor
      · rintro (he | ⟨hside, hkey, hL⟩)
        · obtain ⟨rfl, rfl⟩ := Prod.mk.inj he
          exact ⟨rfl, rfl, Or.inl rfl⟩
        · exact ⟨hside, hkey, Or.inr hL⟩
      · rintro ⟨hside, hkey, hL | hL⟩
        · obtain ⟨hk, rfl⟩ := Prod.mk.inj hL
          exact Or.inl (Prod.ext (Prod.ext hkey hk) rfl)
        · exact Or.inr ⟨hside, hkey, hL⟩
    · show (key, s) ∈ ((sb.setStopsFor stop.side _).stopsFor side).entries ↔ _
      rw [stopsFor_setStopsFor_of_ne _ _ hs, h.entries]
      constructor
      · rintro ⟨hside, hkey, hL⟩
        exact ⟨hside, hkey, Or.inr hL⟩
      · rintro ⟨hside, hkey, hL | hL⟩
        · obtain ⟨-, rfl⟩ := Prod.mk.inj hL
          exact absurd hside.symm hs
        · exact ⟨hside, hkey, hL⟩
  · intro id loc
    simp only [insertDormantStop, stopIndex_setStopsFor, Function.update_apply]
    split_ifs with hi
    · subst hi
      constructor
      · intro he
        exact ⟨(priority, stop), by simp, rfl, (Option.some.inj he).symm⟩
      · rintro ⟨e, he, hei, rfl⟩
        rcases (hmem e).mp he with rfl | he
        · rfl
        · exact absurd hei (hid e he)
    · rw [h.index]
      constructor
      · rintro ⟨e, he, hei, rfl⟩
        exact ⟨e, (hmem e).mpr (Or.inr he), hei, rfl⟩
      · rintro ⟨e, he, hei, rfl⟩
        rcases (hmem e).mp he with rfl | he
        · exact absurd hei.symm hi
        · exact ⟨e, he, hei, rfl⟩

/-- A new stop at the back of the list. -/
theorem lists_insertBack {arith : PriorityArith} (stop : StopOrder) (h : sb.Lists L)
    (hid : ∀ e ∈ L, e.2.id ≠ stop.id) (hwrap : arith.wrap sb.nextBackPriority = sb.nextBackPriority) :
    (sb.insertBack arith stop).Lists (L ++ [(sb.nextBackPriority, stop)]) := by
  have hroom : ({ sb with nextBackPriority := sb.nextBackPriority + 1 } : StopBook).Lists (L ++ []) := by
    rw [List.append_nil]
    exact h.of_counters le_rfl (by simp) (fun side => by cases side <;> rfl) rfl
  have := lists_insertDormantStop stop sb.nextBackPriority hroom
    (by simpa using hid) h.back (by simp) h.gap (by simp)
  have heq : sb.insertBack arith stop =
      ({ sb with nextBackPriority := sb.nextBackPriority + 1 } : StopBook).insertDormantStop stop
        sb.nextBackPriority := by
    rw [insertBack, hwrap]
    cases hs : stop.side <;> simp [insertDormantStop, setStopsFor, stopsFor, hs]
  rw [heq]
  exact this

/-- A stop that goes back to the front of the list. -/
theorem lists_insertFront {arith : PriorityArith} (stop : StopOrder) (h : sb.Lists L)
    (hid : ∀ e ∈ L, e.2.id ≠ stop.id)
    (hwrap : arith.wrap sb.nextFrontPriority = sb.nextFrontPriority) :
    (sb.insertFront arith stop).Lists ((sb.nextFrontPriority, stop) :: L) := by
  have hroom : ({ sb with nextFrontPriority := sb.nextFrontPriority - 1 } : StopBook).Lists ([] ++ L) := by
    rw [List.nil_append]
    exact h.of_counters (by show _ - 1 ≤ _; omega) le_rfl (fun side => by cases side <;> rfl) rfl
  have := lists_insertDormantStop stop sb.nextFrontPriority hroom
    (by simpa using hid) (by simp) h.front (by show _ - 1 < _; omega) h.gap
  have heq : sb.insertFront arith stop =
      ({ sb with nextFrontPriority := sb.nextFrontPriority - 1 } : StopBook).insertDormantStop stop
        sb.nextFrontPriority := by
    rw [insertFront, hwrap]
    cases hs : stop.side <;> simp [insertDormantStop, setStopsFor, stopsFor, hs]
  rw [heq]
  exact this

/-- A stop is taken out of its map and the index. -/
theorem Lists.erase {A B : List (ℤ × StopOrder)} {e : ℤ × StopOrder}
    (h : sb.Lists (A ++ e :: B)) :
    ({ sb.eraseStop { side := e.2.side, key := (e.2.stopPrice, e.1) } with
        stopIndex := Function.update sb.stopIndex e.2.id none } : StopBook).Lists (A ++ B) := by
  have hmem : ∀ x, x ∈ A ++ e :: B ↔ x = e ∨ x ∈ A ++ B := fun x => by
    simp only [List.mem_append, List.mem_cons]
    tauto
  have he : e ∈ A ++ e :: B := by simp
  -- The stop is listed once, so without it the list has none of it.
  have hout : e ∉ A ++ B := (List.nodup_middle.mp h.nodup).notMem
  have hsub : (A ++ B).Sublist (A ++ e :: B) :=
    List.Sublist.append_left (List.sublist_cons_self e B) A
  refine ⟨h.sorted.sublist hsub, fun x hx => ?_, fun x hx => ?_, ?_, ?_, fun side key s => ?_,
    fun id loc => ?_⟩
  · simpa [eraseStop] using h.front x (hsub.subset hx)
  · simpa [eraseStop] using h.back x (hsub.subset hx)
  · simpa [eraseStop] using h.front_lt
  · simpa [eraseStop] using h.le_back
  · by_cases hs : side = e.2.side
    · subst hs
      show (key, s) ∈ ((sb.setStopsFor e.2.side _).stopsFor e.2.side).entries ↔ _
      rw [stopsFor_setStopsFor_self, SortedMap.mem_entries_erase, h.entries, hmem]
      constructor
      · rintro ⟨⟨hside, hkey, rfl | hL⟩, hne⟩
        · exact absurd (Prod.ext hkey rfl : key = (_, _)) hne
        · exact ⟨hside, hkey, hL⟩
      · rintro ⟨hside, hkey, hL⟩
        -- Two stops with one key have one priority, so they are the same.
        refine ⟨⟨hside, hkey, Or.inr hL⟩, fun heq => hout ?_⟩
        rw [← h.eq_of_priority (hsub.subset hL) he (congrArg Prod.snd heq)]
        exact hL
    · show (key, s) ∈ ((sb.setStopsFor e.2.side _).stopsFor side).entries ↔ _
      rw [stopsFor_setStopsFor_of_ne _ _ hs, h.entries, hmem]
      constructor
      · rintro ⟨hside, hkey, rfl | hL⟩
        · exact absurd hside.symm hs
        · exact ⟨hside, hkey, hL⟩
      · rintro ⟨hside, hkey, hL⟩
        exact ⟨hside, hkey, Or.inr hL⟩
  · simp only [Function.update_apply]
    split_ifs with hi
    · subst hi
      refine iff_of_false (by simp) ?_
      rintro ⟨x, hx, hid, -⟩
      exact hout (h.eq_of_id (hsub.subset hx) he hid ▸ hx)
    · rw [h.index]
      constructor
      · rintro ⟨x, hx, hid, rfl⟩
        rcases (hmem x).mp hx with rfl | hx
        · exact absurd hid.symm hi
        · exact ⟨x, hx, hid, rfl⟩
      · rintro ⟨x, hx, hid, rfl⟩
        exact ⟨x, hsub.subset hx, hid, rfl⟩

/-- The index entry that an erased stop leaves behind is overwritten. -/
theorem insertDormantStop_of_erased {loc : StopLocation} {id : OrderId} {stop : StopOrder}
    {priority : ℤ} (hid : stop.id = id) :
    (sb.eraseStop loc).insertDormantStop stop priority =
      ({ sb.eraseStop loc with stopIndex := Function.update sb.stopIndex id none } :
        StopBook).insertDormantStop stop priority := by
  subst hid
  cases hs : stop.side <;> cases hl : loc.side <;>
    simp [insertDormantStop, eraseStop, setStopsFor, stopsFor, hs, hl]

/-- A stop is rewritten under its old priority. -/
theorem lists_rewrite {A B : List (ℤ × StopOrder)} {e : ℤ × StopOrder} {updated : StopOrder}
    (h : sb.Lists (A ++ e :: B)) (hid : updated.id = e.2.id) :
    ((sb.eraseStop { side := e.2.side, key := (e.2.stopPrice, e.1) }).insertDormantStop updated
      e.1).Lists (A ++ (e.1, updated) :: B) := by
  rw [insertDormantStop_of_erased hid]
  have he : e ∈ A ++ e :: B := by simp
  have hsub : ∀ x ∈ A ++ B, x ∈ A ++ e :: B := fun x hx => by
    simp only [List.mem_append, List.mem_cons] at hx ⊢
    tauto
  have hout : e ∉ A ++ B := (List.nodup_middle.mp h.nodup).notMem
  obtain ⟨-, hcons, hcross⟩ := List.pairwise_append.mp h.sorted
  refine lists_insertDormantStop updated e.1 h.erase (fun x hx hxid => hout ?_) (fun x hx => ?_)
    (List.pairwise_cons.mp hcons).1 ?_ ?_
  · rw [← h.eq_of_id (hsub x hx) he (hxid.trans hid)]
    exact hx
  · exact hcross x hx e List.mem_cons_self
  · simpa [eraseStop] using h.front e he
  · simpa [eraseStop] using h.back e he

/-- A stop is rewritten and moved to the back. -/
theorem lists_moveBack {arith : PriorityArith} {A B : List (ℤ × StopOrder)} {e : ℤ × StopOrder}
    {updated : StopOrder} (h : sb.Lists (A ++ e :: B)) (hid : updated.id = e.2.id)
    (hwrap : arith.wrap sb.nextBackPriority = sb.nextBackPriority) :
    ((sb.eraseStop { side := e.2.side, key := (e.2.stopPrice, e.1) }).insertBack arith updated).Lists
      ((A ++ B) ++ [(sb.nextBackPriority, updated)]) := by
  have he : e ∈ A ++ e :: B := by simp
  have hsub : ∀ x ∈ A ++ B, x ∈ A ++ e :: B := fun x hx => by
    simp only [List.mem_append, List.mem_cons] at hx ⊢
    tauto
  have hout : e ∉ A ++ B := (List.nodup_middle.mp h.nodup).notMem
  have hfresh : ∀ x ∈ A ++ B, x.2.id ≠ updated.id := fun x hx hxid => hout (by
    rw [← h.eq_of_id (hsub x hx) he (hxid.trans hid)]
    exact hx)
  have hins := lists_insertBack updated h.erase hfresh (by simpa [eraseStop] using hwrap)
  have heq : (sb.eraseStop { side := e.2.side, key := (e.2.stopPrice, e.1) }).insertBack arith updated =
      ({ sb.eraseStop { side := e.2.side, key := (e.2.stopPrice, e.1) } with
        stopIndex := Function.update sb.stopIndex e.2.id none } : StopBook).insertBack arith updated := by
    rw [insertBack, insertDormantStop_of_erased hid]
    rfl
  rw [heq]
  simpa [eraseStop] using hins

/-- Stops that go back one after the other end up in reverse at the front. -/
theorem lists_foldl_insertFront {arith : PriorityArith} (stops : List StopOrder) :
    ∀ {sb : StopBook} {L : List (ℤ × StopOrder)}, sb.Lists L →
      ((stops ++ L.map Prod.snd).map StopOrder.id).Nodup →
      (∀ p, sb.nextFrontPriority - stops.length < p → p ≤ sb.nextFrontPriority →
        arith.wrap p = p) →
      ∃ K, (stops.foldl (fun sb s => sb.insertFront arith s) sb).Lists K ∧
        K.map Prod.snd = stops.reverse ++ L.map Prod.snd := by
  induction stops with
  | nil => exact fun h _ _ => ⟨_, h, rfl⟩
  | cons s stops ih =>
    intro sb L h hnd hwrap
    have hfresh : ∀ e ∈ L, e.2.id ≠ s.id := fun e he hid => by
      refine (List.nodup_cons.mp hnd).1 ?_
      rw [← hid]
      exact List.mem_map_of_mem (List.mem_append_right _ (List.mem_map_of_mem he))
    have hlen : ((s :: stops).length : ℤ) = stops.length + 1 := by simp
    have hself : arith.wrap sb.nextFrontPriority = sb.nextFrontPriority :=
      hwrap _ (by omega) le_rfl
    have hfront : (sb.insertFront arith s).nextFrontPriority = sb.nextFrontPriority - 1 := rfl
    -- Each one goes in front of those before it, so the list is reversed.
    obtain ⟨K, hK, hmap⟩ := ih (lists_insertFront s h hfresh hself)
      (by
        refine (List.Perm.nodup_iff ?_).mp hnd
        exact (@List.perm_middle _ _ stops _).symm.map _)
      (fun p h1 h2 => hwrap p (by omega) (by omega))
    exact ⟨K, hK, by rw [hmap]; simp⟩

/-! ## Waking stops -/

/-- The entries of the two maps, taken together, are the list. -/
theorem Lists.perm (h : sb.Lists L) :
    ((sb.sellStops.entries ++ sb.buyStops.entries).map fun e => (e.1.2, e.2)).Perm L := by
  have hside : ∀ side, ∀ e ∈ (sb.stopsFor side).entries, e.2.side = side ∧ e.1.1 = e.2.stopPrice :=
    fun side e he => ⟨((h.entries side e.1 e.2).mp he).1, ((h.entries side e.1 e.2).mp he).2.1⟩
  have hnd : ∀ side, (sb.stopsFor side).entries.Nodup := fun side =>
    (sb.stopsFor side).sorted.imp fun hab => by
      rintro rfl
      exact irrefl_of StopKey.Lt _ hab
  refine (List.perm_ext_iff_of_nodup ?_ h.nodup).mpr fun e => ?_
  · refine List.Nodup.map_on ?_ (List.nodup_append.mpr ⟨hnd .sell, hnd .buy, ?_⟩)
    · intro x hx y hy hxy
      obtain ⟨hk, hs⟩ := Prod.mk.inj hxy
      -- The key is found again from the priority and the stop.
      have hprice : ∀ e ∈ sb.sellStops.entries ++ sb.buyStops.entries, e.1.1 = e.2.stopPrice :=
        fun e he => (List.mem_append.mp he).elim (fun he => (hside .sell e he).2)
          fun he => (hside .buy e he).2
      exact Prod.ext (Prod.ext ((hprice x hx).trans (hs ▸ (hprice y hy).symm)) hk) hs
    · rintro x hx y hy rfl
      have := (hside .sell x hx).1.symm.trans (hside .buy x hy).1
      cases this
  · simp only [List.mem_map, List.mem_append]
    constructor
    · rintro ⟨x, hx | hx, rfl⟩
      · exact ((h.entries .sell x.1 x.2).mp hx).2.2
      · exact ((h.entries .buy x.1 x.2).mp hx).2.2
    · intro he
      refine ⟨((e.2.stopPrice, e.1), e.2), ?_, rfl⟩
      cases hs : e.2.side
      · exact Or.inr ((h.entries .buy _ _).mpr ⟨hs, rfl, he⟩)
      · exact Or.inl ((h.entries .sell _ _).mpr ⟨hs, rfl, he⟩)

/-- The stops that a snapshot lists are those of the list. -/
theorem Lists.dormant_perm (h : sb.Lists L) : sb.dormant.Perm (L.map Prod.snd) := by
  have := h.perm.map Prod.snd
  rwa [List.map_map] at this

/-- The two maps hold as many stops as are listed. -/
theorem Lists.length_eq (h : sb.Lists L) :
    sb.sellStops.entries.length + sb.buyStops.entries.length = L.length := by
  simpa using h.perm.length_eq

/-- Erasing a list of ids from the index. -/
theorem foldl_update_none (es : List (StopKey × StopOrder))
    (index : OrderId → Option StopLocation) (id : OrderId) :
    es.foldl (fun (index : OrderId → Option StopLocation) e =>
        Function.update index e.2.id none) index id =
      if ∃ e ∈ es, e.2.id = id then none else index id := by
  induction es generalizing index with
  | nil => simp
  | cons e es ih =>
    rw [List.foldl_cons, ih, Function.update_apply]
    by_cases he : e.2.id = id
    · simp [he]
    · have hex : (∃ e' ∈ e :: es, e'.2.id = id) ↔ ∃ e' ∈ es, e'.2.id = id := by simp [he]
      rw [if_congr hex rfl rfl, if_neg (Ne.symm he)]

/-- **Waking.** Sorted by priority, the stops that a sweep takes are the touched ones in list order,
and the others stay. -/
theorem take_eq (h : sb.Lists L) (low high : ℤ) :
    (sb.take low high).1.insertionSort (fun x y => x.1 ≤ y.1) =
        L.filter (fun e => Market.touched low high e.2) ∧
      (sb.take low high).2.Lists (L.filter fun e => !Market.touched low high e.2) := by
  have hside : ∀ side key s, (key, s) ∈ (sb.stopsFor side).entries →
      touched low high side key = Market.touched low high s := fun side key s he => by
    obtain ⟨rfl, hkey, -⟩ := (h.entries side key s).mp he
    cases hs : s.side <;> simp [touched, Market.touched, hs, hkey]
  have hsell : sb.sellStops.entries.filter (fun e => touched low high .sell e.1) =
      sb.sellStops.entries.filter fun e => Market.touched low high e.2 :=
    List.filter_congr fun e he => hside .sell e.1 e.2 he
  have hbuy : sb.buyStops.entries.filter (fun e => touched low high .buy e.1) =
      sb.buyStops.entries.filter fun e => Market.touched low high e.2 :=
    List.filter_congr fun e he => hside .buy e.1 e.2 he
  -- The two maps give the same stops as the list, if in another order.
  have hwoke : (sb.take low high).1.Perm (L.filter fun e => Market.touched low high e.2) := by
    have := h.perm.filter fun e => Market.touched low high e.2
    rw [List.filter_map, List.filter_append] at this
    simp only [take, hsell, hbuy]
    exact this
  constructor
  -- Sorting by distinct priorities has one result.
  · have hanti : ∀ a b : ℤ × StopOrder,
        a ∈ (sb.take low high).1.insertionSort (fun x y => x.1 ≤ y.1) →
        b ∈ L.filter (fun e => Market.touched low high e.2) → a.1 ≤ b.1 → b.1 ≤ a.1 → a = b := by
      intro a b ha hb hab hba
      have ha' := hwoke.mem_iff.mp ((List.perm_insertionSort _ _).mem_iff.mp ha)
      exact h.eq_of_priority (List.mem_of_mem_filter ha') (List.mem_of_mem_filter hb)
        (le_antisymm hab hba)
    exact List.Perm.eq_of_pairwise hanti (List.pairwise_insertionSort _ _)
      ((h.sorted.filter _).imp fun hab => le_of_lt hab) ((List.perm_insertionSort _ _).trans hwoke)
  -- The index forgets the stops that have been taken, and no others.
  · have hindex : ∀ id, (sb.take low high).2.stopIndex id =
        if ∃ e ∈ L, Market.touched low high e.2 ∧ e.2.id = id then none else sb.stopIndex id := by
      intro id
      have hmem : (∃ e ∈ (sb.take low high).1, e.2.id = id) ↔
          ∃ e ∈ L, Market.touched low high e.2 ∧ e.2.id = id := by
        constructor
        · rintro ⟨e, he, hid⟩
          obtain ⟨heL, ht⟩ := List.mem_filter.mp (hwoke.mem_iff.mp he)
          exact ⟨e, heL, ht, hid⟩
        · rintro ⟨e, heL, ht, hid⟩
          exact ⟨e, hwoke.mem_iff.mpr (List.mem_filter.mpr ⟨heL, ht⟩), hid⟩
      have htake : (∃ e ∈ (sb.take low high).1, e.2.id = id) ↔
          ∃ e ∈ (sb.sellStops.entries.filter fun e => touched low high .sell e.1) ++
            sb.buyStops.entries.filter fun e => touched low high .buy e.1, e.2.id = id := by
        constructor
        · rintro ⟨e, he, hid⟩
          obtain ⟨e', he', rfl⟩ := List.mem_map.mp he
          exact ⟨e', he', hid⟩
        · rintro ⟨e, he, hid⟩
          exact ⟨_, List.mem_map_of_mem he, hid⟩
      rw [if_congr (hmem.symm.trans htake) rfl rfl]
      exact foldl_update_none _ _ _
    refine ⟨h.sorted.filter _, fun e he => h.front e (List.mem_of_mem_filter he),
      fun e he => h.back e (List.mem_of_mem_filter he), h.front_lt, h.le_back,
      fun side key s => ?_, fun id loc => ?_⟩
    · have hstops : ((sb.take low high).2.stopsFor side).entries =
          (sb.stopsFor side).entries.filter fun e => !touched low high side e.1 := by
        cases side <;> rfl
      rw [hstops, List.mem_filter, List.mem_filter, h.entries]
      constructor
      · rintro ⟨⟨hs, hkey, hL⟩, ht⟩
        have := hside side key s ((h.entries side key s).mpr ⟨hs, hkey, hL⟩)
        exact ⟨hs, hkey, hL, this ▸ ht⟩
      · rintro ⟨hs, hkey, hL, ht⟩
        have := hside side key s ((h.entries side key s).mpr ⟨hs, hkey, hL⟩)
        exact ⟨⟨hs, hkey, hL⟩, this ▸ ht⟩
    · rw [hindex]
      split_ifs with hex
      · refine iff_of_false (by simp) ?_
        rintro ⟨e, he, hid, -⟩
        obtain ⟨heL, ht⟩ := List.mem_filter.mp he
        obtain ⟨e', heL', ht', hid'⟩ := hex
        rw [h.eq_of_id heL' heL (hid'.trans hid.symm)] at ht'
        simp [ht'] at ht
      · rw [h.index]
        constructor
        · rintro ⟨e, he, hid, rfl⟩
          refine ⟨e, List.mem_filter.mpr ⟨he, ?_⟩, hid, rfl⟩
          rw [Bool.not_eq_true']
          exact Bool.eq_false_iff.mpr fun ht => hex ⟨e, he, ht, hid⟩
        · rintro ⟨e, he, hid, rfl⟩
          exact ⟨e, List.mem_of_mem_filter he, hid, rfl⟩

end StopBook

end OrderBookEngine
