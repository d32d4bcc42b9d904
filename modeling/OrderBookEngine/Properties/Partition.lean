import OrderBookEngine.Properties.WorkerContract

/-!
# Symbols are independent

A worker's books share its clock and nothing else. While the timestamps do not fall, the clock is the
timestamp of the item at hand (`callsFrom_of_inOrder`), so the calls on a book are a function of the
items of its symbol. Which other symbols share the worker, and what is sent to them, does not show in
the outputs for a symbol.
-/

namespace OrderBookEngine

/-- The outputs for a symbol, as they were pushed. -/
def outputsFor (symbol : SymbolId) (outbox : List Output) : List Output :=
  outbox.filter fun o => o.symbol? = some symbol

/-- The items of a symbol. -/
def itemsOf (symbol : SymbolId) (inbox : List Stamped) : List Stamped :=
  inbox.filter fun item => item.command.symbol? = some symbol

/-- The timestamps of the commands never fall. -/
def InOrder (inbox : List Stamped) : Prop :=
  ((inbox.filter fun item => !item.command.isSnapshot).map Stamped.ts).Pairwise (· ≤ ·)

/-- Some of the items are in order as well. -/
theorem InOrder.filter {inbox : List Stamped} (h : InOrder inbox) (keep : Stamped → Bool) :
    InOrder (inbox.filter keep) := by
  unfold InOrder at h ⊢
  rw [List.filter_comm]
  exact h.sublist (List.filter_sublist.map _)

/-- The first items are in order as well. -/
theorem InOrder.of_append {inbox rest : List Stamped} (h : InOrder (inbox ++ rest)) : InOrder inbox := by
  unfold InOrder at h
  rw [List.filter_append, List.map_append] at h
  exact (List.pairwise_append.mp h).1

namespace Stamped

variable {item : Stamped} {symbol : SymbolId} {last last' : ℤ}

/-- A command that calls the book does not ask for a snapshot. -/
theorem isSnapshot_of_call? {call : ℤ → Call} (h : item.call? = some call) :
    item.command.isSnapshot = false := by
  unfold call? at h
  unfold Command.isSnapshot
  cases hcommand : item.command <;> simp [hcommand] at h ⊢

/-- The outputs for an item depend on the clock through its call only. -/
theorem outputs_congr (h : item.callOn symbol last = item.callOn symbol last') (b : Book) :
    item.outputs symbol b last = item.outputs symbol b last' := by
  unfold outputs
  rw [h]

end Stamped

namespace Worker

variable {cfgs cfgs' : SymbolId → Option Config} {inbox inbox' before : List Stamped} {item : Stamped}
  {symbol : SymbolId} {cfg : Config} {last : ℤ}

/-- The calls of an inbox on the book of a symbol, each at the timestamp of its own item. -/
def callsOf (symbol : SymbolId) (inbox : List Stamped) : List Call :=
  inbox.filterMap fun item => item.callOn symbol 0

/-- The calls of an inbox are those of its items, in order. -/
theorem callsOf_cons (symbol : SymbolId) (item : Stamped) (inbox : List Stamped) :
    callsOf symbol (item :: inbox) = (item.callOn symbol 0).toList ++ callsOf symbol inbox := by
  unfold callsOf
  rw [List.filterMap_cons]
  cases item.callOn symbol 0 <;> rfl

/-- The calls on a symbol are those of its own items. -/
theorem callsOf_itemsOf (symbol : SymbolId) (inbox : List Stamped) :
    callsOf symbol (itemsOf symbol inbox) = callsOf symbol inbox := by
  unfold callsOf itemsOf
  rw [List.filterMap_filter]
  refine List.filterMap_congr fun item _ => ?_
  unfold Stamped.callOn
  split_ifs <;> simp_all

/-- In order, the calls on a book do not depend on the other items. -/
theorem callsFrom_of_inOrder (symbol : SymbolId) (h : InOrder inbox)
    (hlast : ∀ item ∈ inbox, item.command.isSnapshot = false → max item.ts last = max item.ts 0) :
    callsFrom symbol last inbox = callsOf symbol inbox := by
  induction inbox generalizing last with
  | nil => rfl
  | cons item inbox ih =>
    have hrest : InOrder inbox := h.sublist (((List.sublist_cons_self _ _).filter _).map _)
    have htail : ∀ item ∈ inbox, item.command.isSnapshot = false → max item.ts last = max item.ts 0 :=
      fun later hlater => hlast later (List.mem_cons_of_mem _ hlater)
    rw [callsFrom, callsOf_cons]
    cases hcall : item.call? with
    | none =>
      have hnone : ∀ last, item.callOn symbol last = none := fun last => by
        unfold Stamped.callOn
        rw [hcall]
        split_ifs <;> rfl
      have hclock : item.clock last = last := by simp [Stamped.clock, hcall]
      rw [hnone, hnone, hclock, ih hrest htail]
    | some call =>
      have hcommand := Stamped.isSnapshot_of_call? hcall
      have hnow : ∀ last, item.clock last = max item.ts last := fun last => by
        simp [Stamped.clock, hcall]
      have hsame : item.callOn symbol last = item.callOn symbol 0 := by
        unfold Stamped.callOn
        rw [hnow, hnow, hlast item List.mem_cons_self hcommand]
      -- A later item is not before this one, whose timestamp the clock now has.
      have hlater : ∀ later ∈ inbox, later.command.isSnapshot = false →
          max later.ts (item.clock last) = max later.ts 0 := by
        intro later hmem hkept
        have hle : item.ts ≤ later.ts := by
          unfold InOrder at h
          rw [List.filter_cons_of_pos (by simp [hcommand]), List.map_cons] at h
          refine List.rel_of_pairwise_cons h (List.mem_map_of_mem (List.mem_filter.mpr ⟨hmem, ?_⟩))
          simp [hkept]
        rw [hnow, hlast item List.mem_cons_self hcommand]
        omega
      rw [ih hrest hlater, hsame]

/-- Items in order produce what the book does after the calls before them. -/
theorem outputsAfter_of_inOrder (h : InOrder (before ++ [item])) (cfg : Config) (symbol : SymbolId) :
    outputsAfter cfg before item symbol =
      item.outputs symbol ((Book.make cfg).run (callsOf symbol before)) 0 := by
  have hbefore : callsFrom symbol 0 before = callsOf symbol before :=
    callsFrom_of_inOrder symbol h.of_append fun _ _ _ => rfl
  have hall : callsFrom symbol 0 (before ++ [item]) = callsOf symbol (before ++ [item]) :=
    callsFrom_of_inOrder symbol h fun _ _ _ => rfl
  have hlist : callsOf symbol (before ++ [item]) =
      callsOf symbol before ++ (item.callOn symbol 0).toList := by
    unfold callsOf
    rw [List.filterMap_append]
    cases h0 : item.callOn symbol 0 <;> simp [h0]
  rw [callsFrom_concat, hbefore, hlist] at hall
  have hcall : item.callOn symbol (clockFrom 0 before) = item.callOn symbol 0 := by
    have hhead := congrArg List.head? (List.append_cancel_left hall)
    simpa only [Option.head?_toList] using hhead
  rw [outputsAfter, hbefore, Stamped.outputs_congr hcall]

/-- **One symbol.** Given only the items of a symbol, a worker pushes its outputs. -/
theorem run_itemsOf (howned : Owned cfgs inbox) (horder : InOrder inbox)
    (hsame : cfgs' symbol = cfgs symbol) :
    ∃ w w', (make cfgs).run inbox = some w ∧ (make cfgs').run (itemsOf symbol inbox) = some w' ∧
      w'.outbox = outputsFor symbol w.outbox := by
  refine run_filter howned fun before item after hsplit s cfg hsymbol hcfg => ?_
  have hbefore : InOrder (before ++ [item]) := by
    rw [hsplit, List.append_cons] at horder
    exact horder.of_append
  have hall := symbol_outputs hsymbol ((Book.make cfg).run (callsFrom s 0 before)) (clockFrom 0 before)
  -- An item of the symbol has the same outputs in both runs, another one has none of the symbol.
  by_cases hs : s = symbol
  · subst hs
    have hfiltered : InOrder (itemsOf s before ++ [item]) := by
      have hlast : itemsOf s [item] = [item] := List.filter_cons_of_pos (decide_eq_true hsymbol)
      rw [← hlast, itemsOf, itemsOf, ← List.filter_append]
      exact hbefore.filter _
    have hshown : (outputsAfter cfg before item s).filter (fun o => o.symbol? = some s) =
        outputsAfter cfg before item s :=
      List.filter_eq_self.mpr fun o ho => decide_eq_true (hall o ho)
    rw [if_pos (decide_eq_true hsymbol), hshown, outputsAfter_of_inOrder hbefore, ← callsOf_itemsOf]
    exact ⟨hsame.trans hcfg, outputsAfter_of_inOrder hfiltered cfg s⟩
  · rw [if_neg fun h => hs (Option.some.inj (hsymbol.symm.trans (of_decide_eq_true h)))]
    refine List.filter_eq_nil_iff.mpr fun o ho h => hs ?_
    exact Option.some.inj ((hall o ho).symm.trans (of_decide_eq_true h))

/-- **Independence.** In order, a worker's outputs for a symbol are those of a worker that is given only
the items of that symbol, and those of any other worker that is given the same items of it, whatever
else it is given. So they do not depend on how the symbols are assigned to workers. -/
theorem symbols_independent (cfgs : SymbolId → Option Config) (inbox : List Stamped)
    (howned : Owned cfgs inbox) (horder : InOrder inbox) :
    ∃ w, (make cfgs).run inbox = some w ∧
      (∀ stop rest, stop.command = .shutdown → (make cfgs).run (inbox ++ stop :: rest) = some w) ∧
      (∀ symbol cfgs', cfgs' symbol = cfgs symbol →
        ∃ w', (make cfgs').run (itemsOf symbol inbox) = some w' ∧
          w'.outbox = outputsFor symbol w.outbox) ∧
      (∀ symbol cfgs' inbox', cfgs' symbol = cfgs symbol → Owned cfgs' inbox' → InOrder inbox' →
        itemsOf symbol inbox' = itemsOf symbol inbox →
          ∃ w', (make cfgs').run inbox' = some w' ∧
            outputsFor symbol w'.outbox = outputsFor symbol w.outbox) ∧
      ∀ (ι : Type) [DecidableEq ι] (assign : SymbolId → ι) (i : ι),
        ∃ w', (make fun symbol => if assign symbol = i then cfgs symbol else none).run
            (inbox.filter fun item => item.command.symbol?.map assign = some i) = some w' ∧
          ∀ symbol, assign symbol = i → outputsFor symbol w'.outbox = outputsFor symbol w.outbox := by
  obtain ⟨w, hrun, -⟩ := serves (P := fun _ _ => True) trivial (fun _ _ => trivial) inbox howned
  have hone : ∀ symbol cfgs', cfgs' symbol = cfgs symbol →
      ∃ w', (make cfgs').run (itemsOf symbol inbox) = some w' ∧
        w'.outbox = outputsFor symbol w.outbox := by
    intro symbol cfgs' hsame
    obtain ⟨w₁, w', hrun₁, hrun', hout⟩ := run_itemsOf howned horder hsame
    obtain rfl := Option.some.inj (hrun₁.symm.trans hrun)
    exact ⟨w', hrun', hout⟩
  have hother : ∀ symbol cfgs' inbox', cfgs' symbol = cfgs symbol → Owned cfgs' inbox' →
      InOrder inbox' → itemsOf symbol inbox' = itemsOf symbol inbox →
        ∃ w', (make cfgs').run inbox' = some w' ∧
          outputsFor symbol w'.outbox = outputsFor symbol w.outbox := by
    intro symbol cfgs' inbox' hsame howned' horder' hitems
    -- Both agree with the worker that is given only the items of the symbol.
    obtain ⟨w', w₁, hrun', hrun₁, hout'⟩ := run_itemsOf howned' horder' hsame.symm
    obtain ⟨w₂, hrun₂, hout⟩ := hone symbol cfgs rfl
    rw [hitems, hrun₂] at hrun₁
    obtain rfl := Option.some.inj hrun₁
    exact ⟨w', hrun', hout'.symm.trans hout⟩
  refine ⟨w, hrun, fun stop rest hstop => ?_, hone, hother, fun ι _ assign i => ?_⟩
  · rw [run_shutdown howned.no_shutdown hstop]
    exact hrun
  · set cfgs' : SymbolId → Option Config := fun symbol =>
      if assign symbol = i then cfgs symbol else none
    set inbox' := inbox.filter fun item => item.command.symbol?.map assign = some i with hinbox
    have howned' : Owned cfgs' inbox' := by
      intro item hitem
      obtain ⟨hmem, hassign⟩ := List.mem_filter.mp hitem
      obtain ⟨symbol, cfg, hsymbol, hcfg⟩ := howned item hmem
      have hi : assign symbol = i := by simpa [hsymbol] using hassign
      exact ⟨symbol, cfg, hsymbol, (if_pos hi).trans hcfg⟩
    obtain ⟨w', hrun', -⟩ := serves (P := fun _ _ => True) trivial (fun _ _ => trivial) inbox' howned'
    refine ⟨w', hrun', fun symbol hi => ?_⟩
    have hitems : itemsOf symbol inbox' = itemsOf symbol inbox := by
      rw [itemsOf, itemsOf, hinbox, List.filter_filter]
      refine List.filter_congr fun item _ => ?_
      by_cases hsymbol : item.command.symbol? = some symbol <;> simp [hsymbol, hi]
    obtain ⟨w₁, hrun₁, hout⟩ := hother symbol cfgs' inbox' (if_pos hi) howned' (horder.filter _) hitems
    obtain rfl := Option.some.inj (hrun₁.symm.trans hrun')
    exact hout

/-- Two symbols on one worker, or on two. -/
theorem symbols_independent_two :
    let cfgs : SymbolId → Option Config := fun symbol =>
      if symbol ≤ 2 then some { poolCapacity := 4 } else none
    let inbox : List Stamped :=
      [{ seq := 1, ts := 2,
         command := .newOrder "bid" 1 { id := 0, ownerId := 1, side := .buy, type := .limit,
                                        price := some 100, quantity := 3 } },
       { seq := 2, ts := 5,
         command := .newOrder "ask" 2 { id := 0, ownerId := 2, side := .sell, type := .limit,
                                        price := some 100, quantity := 1 } },
       { command := .takeSnapshot 1 9 },
       { seq := 3, ts := 6, command := .cancelOrder "out" 1 1 1 }]
    ∃ w, (make cfgs).run inbox = some w ∧
      (∀ stop rest, stop.command = .shutdown → (make cfgs).run (inbox ++ stop :: rest) = some w) ∧
      (∀ symbol cfgs', cfgs' symbol = cfgs symbol →
        ∃ w', (make cfgs').run (itemsOf symbol inbox) = some w' ∧
          w'.outbox = outputsFor symbol w.outbox) ∧
      (∀ symbol cfgs' inbox', cfgs' symbol = cfgs symbol → Owned cfgs' inbox' → InOrder inbox' →
        itemsOf symbol inbox' = itemsOf symbol inbox →
          ∃ w', (make cfgs').run inbox' = some w' ∧
            outputsFor symbol w'.outbox = outputsFor symbol w.outbox) ∧
      ∀ (ι : Type) [DecidableEq ι] (assign : SymbolId → ι) (i : ι),
        ∃ w', (make fun symbol => if assign symbol = i then cfgs symbol else none).run
            (inbox.filter fun item => item.command.symbol?.map assign = some i) = some w' ∧
          ∀ symbol, assign symbol = i → outputsFor symbol w'.outbox = outputsFor symbol w.outbox := by
  intro cfgs inbox
  have howned : Owned cfgs inbox := by
    simp [Owned, cfgs, inbox, Command.symbol?]
  have horder : InOrder inbox := by
    unfold InOrder
    decide
  exact symbols_independent cfgs inbox howned horder

end Worker

end OrderBookEngine
