import OrderBookEngine.Refine.Run

/-!
# The stop book is a list in firing order

The two price-keyed maps and the counters that hand out priorities from the middle up and down stand
for one list of dormant stops in firing order, which a market has as its field `stops`. Sorting the
entries of both maps by priority gives that list back (`firingOrder`), and a run of the book emits
the events of the same run of the market (`stops_refine_list`).
-/

namespace OrderBookEngine

/-- The dormant stops by priority. -/
def StopBook.firingOrder (sb : StopBook) : List StopOrder :=
  (((sb.sellStops.entries ++ sb.buyStops.entries).map fun e => (e.1.2, e.2)).insertionSort
    fun x y => x.1 ≤ y.1).map Prod.snd

/-- The stops fire in the order of the list. -/
theorem StopBook.Lists.firingOrder_eq {sb : StopBook} {L : List (ℤ × StopOrder)} (h : sb.Lists L) :
    sb.firingOrder = L.map Prod.snd := by
  set entries := (sb.sellStops.entries ++ sb.buyStops.entries).map fun e => (e.1.2, e.2)
  have hperm : (entries.insertionSort fun x y => x.1 ≤ y.1).Perm L :=
    (List.perm_insertionSort _ _).trans h.perm
  have hanti : ∀ a b : ℤ × StopOrder, a ∈ entries.insertionSort (fun x y => x.1 ≤ y.1) → b ∈ L →
      a.1 ≤ b.1 → b.1 ≤ a.1 → a = b := fun a b ha hb hab hba =>
    h.eq_of_priority (hperm.mem_iff.mp ha) hb (le_antisymm hab hba)
  have hsort : entries.insertionSort (fun x y => x.1 ≤ y.1) = L :=
    List.Perm.eq_of_pairwise hanti (List.pairwise_insertionSort _ _)
      (h.sorted.imp fun hab => le_of_lt hab) hperm
  exact congrArg (List.map Prod.snd) hsort

namespace Book

/-- **The stop book refines a list.** With fewer than `2 ^ 62` priorities handed out in each
direction, a run emits the events of the market's run, and holds the market's dormant stops, in its
order. -/
theorem stops_refine_list (cfg : Config) (calls : List Call)
    (hfits : ((Book.make cfg).run calls).Fits) :
    ((Book.make cfg).run calls).events = ((Market.make cfg).run calls).events ∧
      ((Book.make cfg).run calls).dormant.Perm ((Market.make cfg).run calls).stops ∧
      ((Book.make cfg).run calls).firingOrder = ((Market.make cfg).run calls).stops := by
  obtain ⟨hrep, -, -⟩ := run_refines cfg calls hfits
  obtain ⟨L, free, K, h⟩ := hrep
  refine ⟨congrArg Session.events h.session, ?_, ?_⟩
  · rw [h.stops]
    exact h.lists.dormant_perm
  · rw [h.stops]
    exact h.lists.firingOrder_eq

/-- A trade at 100 wakes one of three stops, which fires; the others stay dormant. The priorities have 64 bits. -/
theorem stops_refine_list_three :
    let cfg : Config := { poolCapacity := 4, priorities := .uint64 }
    let calls : List Call :=
      [.placeStopOrder { id := 1, ownerId := 1, side := .sell, stopPrice := 90, quantity := 5 } 0,
        .placeStopOrder { id := 2, ownerId := 1, side := .sell, stopPrice := 100, quantity := 1 } 0,
        .placeStopOrder { id := 3, ownerId := 1, side := .buy, stopPrice := 110, quantity := 5 } 0,
        .addOrder { id := 4, ownerId := 2, side := .buy, type := .limit, price := some 100, quantity := 5 } 1,
        .addOrder { id := 5, ownerId := 3, side := .sell, type := .limit, price := some 100, quantity := 1 } 2]
    (((Book.make cfg).run calls).events.filter fun e => e.kind = .stopTriggered).map EngineEvent.orderId = [2] ∧
      ((Book.make cfg).run calls).firingOrder.map StopOrder.id = [1, 3] ∧
      ((Book.make cfg).run calls).events = ((Market.make cfg).run calls).events ∧
      ((Book.make cfg).run calls).dormant.Perm ((Market.make cfg).run calls).stops ∧
      ((Book.make cfg).run calls).firingOrder = ((Market.make cfg).run calls).stops := by
  intro cfg calls
  have hwhole := stops_refine_list cfg calls (Or.inr (by decide +kernel))
  exact ⟨by decide +kernel, by decide +kernel, hwhole⟩

end Book

end OrderBookEngine
