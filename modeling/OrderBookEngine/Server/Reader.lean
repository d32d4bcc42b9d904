import OrderBookEngine.Engine.Replica
import OrderBookEngine.Server.FeedServer
import OrderBookEngine.Server.Feeds

/-!
# The reader of a subscription

`Reader` of `test_publisher.cpp`: what a subscriber makes of the items of its stream. The first snapshot of a
symbol starts a replica, which applies the events of the symbol behind it; a reply is counted. The thread
of the test goes on behind an exception, and keeps the first; here a reader stops there.

A reader that has kept to one symbol makes the same of it (`read_spec`), so that the items of a stream can
be taken a symbol at a time.
-/

namespace OrderBookEngine

/-- What the loop of a reader throws. -/
inductive ReaderError where
  /-- What the reader itself throws. -/
  | runtimeError (what : String)
  /-- What a replica throws. -/
  | replica (error : ReplicaError)
deriving DecidableEq, Repr

/-- The reader of a stream, with a replica for each symbol. -/
structure Reader where
  /-- The replicas, by symbol. -/
  books : SymbolId → Option BookReplica := fun _ => none
  /-- `as_of_sequence` of the snapshot of a symbol. -/
  startedAt : SymbolId → Option Seq := fun _ => none
  /-- The replies that it has seen. -/
  replies : ℕ := 0

namespace Reader

/-- One item. -/
def read (r : Reader) : FeedItem → Except ReaderError Reader
  | .snapshotReady ready =>
    if (r.books ready.symbol).isSome then .error (.runtimeError "second snapshot for a symbol")
    else
      match BookReplica.load ready.snapshot with
      | .error error => .error (.replica error)
      | .ok book =>
        .ok { r with
          books := Function.update r.books ready.symbol (some book)
          startedAt := Function.update r.startedAt ready.symbol (some ready.snapshot.asOfSequence) }
  | .marketEvent m =>
    match r.books m.symbol with
    | none => .error (.runtimeError "event before its snapshot")
    | some book =>
      match book.apply m.event with
      | .error error => .error (.replica error)
      | .ok book => .ok { r with books := Function.update r.books m.symbol (some book) }
  | .reply _ => .ok { r with replies := r.replies + 1 }

/-- Item after item, until one fails. -/
def readAll (r : Reader) (items : List FeedItem) : Except ReaderError Reader := items.foldlM read r

end Reader

/-- What a client reads in a message. A snapshot does not say whose it is: it is on the stream of the
subscriber. -/
def Message.read (fp : FeedProtobuf) (id : SubscriberId) : Message → Option FeedItem
  | .feed (.snapshot message) =>
    let message := fp.bookSnapshot message
    message.read.map fun snapshot => .snapshotReady { symbol := message.symbol, subscriber := id, snapshot }
  | .feed (.event message) => (fp.marketEvent message).read.map .marketEvent
  | .reply message => (fp.reply message).read.map .reply

/-! ## One symbol at a time -/

/-- What a reader makes of the items of one symbol. -/
inductive Builds : List FeedItem → Option BookReplica → Prop
  /-- Nothing has been read. -/
  | nothing : Builds [] none
  /-- The snapshot has been loaded, and the events applied. -/
  | book (ready : SnapshotReady) (events : List MarketEvent) (r₀ r : BookReplica)
      (load : BookReplica.load ready.snapshot = .ok r₀)
      (apply : r₀.applyAll (events.map MarketEvent.event) = .ok r) :
      Builds (.snapshotReady ready :: events.map .marketEvent) (some r)

namespace Builds

variable {items : List FeedItem} {item : FeedItem} {b b' : Option BookReplica}

/-- An item holds one event. -/
theorem marketEvent_injective : Function.Injective FeedItem.marketEvent := fun _ _ => FeedItem.marketEvent.inj

/-- The items build one replica at most. -/
theorem unique (h : Builds items b) (h' : Builds items b') : b = b' := by
  cases h with
  | nothing =>
    cases h'
    rfl
  | book ready events r₀ r load apply =>
    generalize hitems : FeedItem.snapshotReady ready :: events.map .marketEvent = items at h'
    cases h' with
    | nothing => cases hitems
    | book ready' events' r₀' r' load' apply' =>
      obtain ⟨hready, hevents⟩ := List.cons.inj hitems
      obtain rfl := FeedItem.snapshotReady.inj hready
      obtain rfl := List.map_injective_iff.mpr marketEvent_injective hevents
      obtain rfl := Except.ok.inj (load.symm.trans load')
      obtain rfl := Except.ok.inj (apply.symm.trans apply')
      rfl

/-- Items of a symbol build a replica. -/
theorem exists_of_ne_nil (h : Builds items b) (hne : items ≠ []) : ∃ r, b = some r := by
  cases h with
  | nothing => exact absurd rfl hne
  | book ready events r₀ r load apply => exact ⟨r, rfl⟩

/-- The last item starts the replica, or is applied to it. -/
theorem of_concat (h : Builds (items ++ [item]) b) :
    (∃ ready r, item = .snapshotReady ready ∧ items = [] ∧ BookReplica.load ready.snapshot = .ok r ∧ b = some r) ∨
      ∃ event r₁ r, item = .marketEvent event ∧ Builds items (some r₁) ∧ r₁.apply event.event = .ok r ∧
        b = some r := by
  generalize hall : items ++ [item] = all at h
  cases h with
  | nothing => exact absurd hall (by simp)
  | book ready events r₀ r load apply =>
    rcases List.eq_nil_or_concat events with rfl | ⟨front, event, rfl⟩
    · have hone : items ++ [item] = [] ++ [.snapshotReady ready] := hall
      obtain ⟨rfl, hitem⟩ := List.append_inj' hone rfl
      obtain rfl := Except.ok.inj apply
      exact Or.inl ⟨ready, r₀, List.singleton_inj.mp hitem, rfl, load, rfl⟩
    · rw [List.concat_eq_append, List.map_append, ← List.cons_append] at hall
      obtain ⟨rfl, hitem⟩ := List.append_inj' hall rfl
      rw [List.concat_eq_append, List.map_append] at apply
      obtain ⟨r₁, hfront, hlast⟩ := BookReplica.applyAll_of_concat apply
      exact Or.inr ⟨event, r₁, r, List.singleton_inj.mp hitem, .book ready front r₀ r₁ load hfront, hlast, rfl⟩

end Builds

namespace Reader

/-- **A reader.** When a replica can be made from the items of each symbol alone, the reader makes it. -/
theorem read_spec (items : List FeedItem) (hbuilds : ∀ symbol, ∃ b, Builds (itemsOn symbol items) b) :
    ∃ r, ({} : Reader).readAll items = .ok r ∧ r.replies = 0 ∧
      ∀ symbol, Builds (itemsOn symbol items) (r.books symbol) := by
  induction items using List.reverseRecOn with
  | nil => exact ⟨{}, rfl, rfl, fun _ => .nothing⟩
  | append_singleton items item ih =>
    have hmine : itemsOn item.symbol (items ++ [item]) = itemsOn item.symbol items ++ [item] := by
      rw [itemsOn_append, itemsOn_singleton_self]
    have hother : ∀ symbol, symbol ≠ item.symbol → itemsOn symbol (items ++ [item]) = itemsOn symbol items :=
      fun symbol hne => by rw [itemsOn_append, itemsOn_singleton_of_ne (Ne.symm hne), List.append_nil]
    obtain ⟨b, hb⟩ := hbuilds item.symbol
    have hlast := (hmine ▸ hb).of_concat
    obtain ⟨r, hread, hreplies, hbooks⟩ := ih fun symbol => by
      by_cases hsymbol : symbol = item.symbol
      · rw [hsymbol]
        rcases hlast with ⟨_, _, -, hnone, -⟩ | ⟨_, r₁, _, -, hr₁, -⟩
        · exact ⟨none, hnone ▸ .nothing⟩
        · exact ⟨some r₁, hr₁⟩
      · rw [← hother symbol hsymbol]
        exact hbuilds symbol
    have hall : ∀ {r'}, r.read item = .ok r' → ({} : Reader).readAll (items ++ [item]) = .ok r' := by
      intro r' hitem
      unfold readAll at hread ⊢
      rw [List.foldlM_append, hread]
      show (r.read item).bind _ = _
      rw [hitem]
      rfl
    -- The item changes the replica of its symbol, and no other.
    have hupdate : ∀ {book symbol}, b = some book → item.symbol = symbol → ∀ other,
        Builds (itemsOn other (items ++ [item])) (Function.update r.books symbol (some book) other) := by
      rintro book symbol rfl rfl other
      by_cases hsymbol : other = item.symbol
      · rw [hsymbol, Function.update_self]
        exact hb
      · rw [Function.update_of_ne hsymbol, hother other hsymbol]
        exact hbooks other
    rcases hlast with ⟨ready, book, rfl, hnone, hload, hb'⟩ | ⟨event, r₁, book, rfl, hr₁, happly, hb'⟩
    · have hbook : r.books ready.symbol = none := (hnone ▸ hbooks ready.symbol).unique .nothing
      refine ⟨{ r with
        books := Function.update r.books ready.symbol (some book)
        startedAt := Function.update r.startedAt ready.symbol (some ready.snapshot.asOfSequence) },
        hall ?_, hreplies, hupdate hb' rfl⟩
      unfold read
      simp only [hbook, hload, Option.isSome_none, Bool.false_eq_true, if_false]
    · have hbook : r.books event.symbol = some r₁ := (hbooks event.symbol).unique hr₁
      refine ⟨{ r with books := Function.update r.books event.symbol (some book) }, hall ?_, hreplies,
        hupdate hb' rfl⟩
      unfold read
      simp only [hbook, happly]

end Reader

end OrderBookEngine
