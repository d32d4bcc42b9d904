import OrderBookEngine.Properties.Replay

/-!
# Replicas agree at every event

Two replicas that mirror the same stage show the same (`Mirrors.shows`), though the one may have been loaded
from a snapshot and the other have read every event: what they differ in are orders that are gone. Each step
moves both, so they agree at every event behind the snapshot, and not only where a call ends.
-/

namespace OrderBookEngine

/-- A replica shows what one shows that has read every event from the first, as far as this one has read. -/
structure BookReplica.Reads (r : BookReplica) (events : List EngineEvent) : Prop where
  /-- The replica is behind the stream. -/
  behind : r.lastSeq ≤ events.length
  /-- It is as if it had applied the stream up to its last event. -/
  agrees : ∃ r' snap, ({} : BookReplica).applyAll (events.take r.lastSeq) = .ok r' ∧
    r.toSnapshot = .ok snap ∧ r'.toSnapshot = .ok snap

/-- Two replicas of a book show the same whenever they have read as far. -/
theorem BookReplica.Reads.agree {r r' : BookReplica} {events : List EngineEvent} (h : r.Reads events)
    (h' : r'.Reads events) (hseq : r.lastSeq = r'.lastSeq) :
    ∃ snap, r.toSnapshot = .ok snap ∧ r'.toSnapshot = .ok snap := by
  obtain ⟨r₁, snap, hread, hsnap, hfull⟩ := h.agrees
  obtain ⟨r₂, snap', hread', hsnap', hfull'⟩ := h'.agrees
  rw [hseq] at hread
  obtain rfl := Except.ok.inj (hread.symm.trans hread')
  obtain rfl := Except.ok.inj (hfull.symm.trans hfull')
  exact ⟨snap, hsnap, hsnap'⟩

namespace Market

open BookReplica

variable {s s' : Stage} {m : Market} {r r' r₀ : BookReplica} {cut es : List EngineEvent}

/-- The stage determines what a replica shows. -/
theorem Mirrors.shows (h : Mirrors r s) (h' : Mirrors r' s) :
    ∃ snap, r.toSnapshot = .ok snap ∧ r'.toSnapshot = .ok snap := by
  have hcollect : ∀ {r}, Mirrors r s → r.toSnapshot = .ok {
      asOfSequence := r.lastSeq, bids := s.market.bids, asks := s.market.asks
      stops := sortStops (r.stops.entries.map Prod.snd), lastTradePrice := r.lastTrade, halted := r.halted } := by
    intro r hr
    have hbuy : r.collect (r.sideMap .buy).flat = .ok s.market.bids := hr.holds.collect_eq .buy
    have hsell : r.collect (r.sideMap .sell).flat = .ok s.market.asks := hr.holds.collect_eq .sell
    unfold BookReplica.toSnapshot
    rw [hbuy, hsell]
  -- The stops are listed under the same keys, and both lists are sorted.
  have hstops : r.stops.entries = r'.stops.entries := by
    have hnodup : ∀ {stops : SortedMap OrderId DormantStop (· < ·)}, stops.entries.Nodup := fun {stops} =>
      stops.sorted.imp fun hlt heq => absurd hlt (by rw [heq]; exact lt_irrefl _)
    have hperm : r.stops.entries.Perm r'.stops.entries :=
      (List.perm_ext_iff_of_nodup hnodup hnodup).mpr fun entry =>
        (h.stops entry.1 entry.2).trans (h'.stops entry.1 entry.2).symm
    refine hperm.eq_of_pairwise (fun a b _ _ hab hba => ?_) r.stops.sorted r'.stops.sorted
    exact absurd hab (lt_asymm hba)
  have hseq : r.lastSeq = r'.lastSeq := Nat.succ_injective (h.seq.trans h'.seq.symm)
  refine ⟨_, hcollect h, ?_⟩
  rw [hcollect h', hstops, hseq, h.halted, h'.halted, h.lastTrade, h'.lastTrade]

/-- A replica that started at a cut and one that started at the first event have read the events up to a
stage, and have shown the same at each event behind the cut. -/
structure Alike (cut : List EngineEvent) (r₀ : BookReplica) (es : List EngineEvent) (s : Stage) : Prop where
  /-- The stream has grown by these events since the cut. -/
  events : s.market.events = cut ++ es
  /-- The next event number is one more than the length of the stream. -/
  nextSeq : s.market.nextSeq = s.market.events.length + 1
  /-- The replica that was loaded applies them, and mirrors the book. -/
  loaded : ∃ r, r₀.applyAll es = .ok r ∧ Mirrors r s
  /-- A replica that applies the whole stream mirrors it as well. -/
  whole : ∃ r, ({} : BookReplica).applyAll (cut ++ es) = .ok r ∧ Mirrors r s
  /-- In between, the two show the same book. -/
  shown : ∀ front, front <+: es → ∃ r r' snap, r₀.applyAll front = .ok r ∧ r.lastSeq = (cut ++ front).length ∧
    ({} : BookReplica).applyAll (cut ++ front) = .ok r' ∧ r.toSnapshot = .ok snap ∧ r'.toSnapshot = .ok snap

/-- An emission counts on. -/
theorem Emits.nextSeq {a b : Session} (h : Emits a b) (ha : a.nextSeq = a.events.length + 1) :
    b.nextSeq = b.events.length + 1 := by
  obtain ⟨es, hlog⟩ := h
  rw [hlog.nextSeq, hlog.events]
  clear hlog
  induction es generalizing a with
  | nil => exact ha
  | cons e es ih =>
    apply ih
    show a.nextSeq + 1 = (a.events ++ [_]).length + 1
    rw [ha, List.length_append]
    rfl

/-- Both replicas read the event of a step, if there is one. -/
theorem Alike.next (h : Alike cut r₀ es s) (hemits : Emits s.market.toSession s'.market.toSession)
    (hnext : ∀ r, Mirrors r s → Replays r s s') : ∃ es', Alike cut r₀ es' s' := by
  obtain ⟨r, hloaded, hr⟩ := h.loaded
  obtain ⟨r', hwhole, hr'⟩ := h.whole
  have hnextSeq := hemits.nextSeq h.nextSeq
  have hnot : ∀ e : EngineEvent, s.market.events ≠ s.market.events ++ [e] := fun e heq =>
    absurd (List.self_eq_append_right.mp heq) (List.cons_ne_nil e [])
  -- The replica that was loaded and the one that read it all take the same step.
  rcases hnext r hr with ⟨hsame, hstays⟩ | ⟨e, r₁, hone, he, hmoves⟩
  · rcases hnext r' hr' with ⟨-, hstays'⟩ | ⟨e, -, hone, -, -⟩
    · exact ⟨es, hsame.trans h.events, hnextSeq, ⟨r, hloaded, hstays⟩, ⟨r', hwhole, hstays'⟩, h.shown⟩
    · exact absurd (hsame.symm.trans hone) (hnot e)
  · rcases hnext r' hr' with ⟨hsame, -⟩ | ⟨e', r₁', hone', he', hmoves'⟩
    · exact absurd (hsame.symm.trans hone) (hnot e)
    · obtain rfl : e = e' := List.singleton_inj.mp (List.append_cancel_left (hone.symm.trans hone'))
      have hloaded₁ := applyAll_concat hloaded he
      have hwhole₁ := applyAll_concat hwhole he'
      rw [List.append_assoc] at hwhole₁
      have hevents : s'.market.events = cut ++ (es ++ [e]) := by rw [hone, h.events, List.append_assoc]
      refine ⟨es ++ [e], hevents, hnextSeq, ⟨r₁, hloaded₁, hmoves⟩, ⟨r₁', hwhole₁, hmoves'⟩, fun front hfront => ?_⟩
      rcases List.prefix_concat_iff.mp hfront with rfl | hfront
      · obtain ⟨snap, hsnap, hsnap'⟩ := hmoves.shows hmoves'
        have hseq : r₁.lastSeq + 1 = (cut ++ (es ++ [e])).length + 1 := by
          rw [hmoves.seq, hnextSeq, hevents]
        exact ⟨r₁, r₁', snap, hloaded₁, Nat.succ_injective hseq, hwhole₁, hsnap, hsnap'⟩
      · exact h.shown front hfront

/-- In every run the replica that was loaded stays alike. -/
theorem alike_invariant (cut : List EngineEvent) (r₀ : BookReplica) :
    CallInvariant Unfilled fun s => ∃ es, Alike cut r₀ es s where
  resume _ _ _ h := by
    obtain ⟨es, h⟩ := h
    exact h.next (emits_one ⟨rfl, rfl, rfl⟩) fun r hr => hr.resume
  act hc hwf hfifo hact h := by
    obtain ⟨es, h⟩ := h
    exact h.next hact.emits fun r hr => hact.replays hc hwf hfifo hr
  step hwf hstep h := by
    obtain ⟨es, h⟩ := h
    exact h.next hstep.emits fun r hr => hstep.replays hwf hr

end Market

namespace Book

open BookReplica Market

/-- A replica of a fresh book, which has nothing to load. -/
theorem empty_mirrors (cfg : Config) : Mirrors {} (.idle (Market.make cfg)) := by
  obtain ⟨r, hload, hmirrors⟩ := load_mirrors (refines_make cfg) (reachable_run cfg []).wf Nat.one_pos
  obtain rfl : r = {} := Except.ok.inj (hload.symm.trans rfl)
  exact hmirrors

/-- A replica that loads the snapshot at a cut applies any of the events behind it. -/
theorem replica_reads (cfg : Config) (before after : List Call)
    (hfits : ((Book.make cfg).run (before ++ after)).Fits)
    (hunfilled : ∀ c ∈ before ++ after, Unfilled c) :
    let cut := (Book.make cfg).run before
    let book := (Book.make cfg).run (before ++ after)
    ∃ r₀, BookReplica.load cut.snapshot = .ok r₀ ∧ ∀ es, cut.events ++ es <+: book.events →
      ∃ r, r₀.applyAll es = .ok r ∧ r.lastSeq = (cut.events ++ es).length ∧ r.Reads book.events ∧
        (r.lastSeq = book.events.length → ∃ snap, r.toSnapshot = .ok snap ∧ snap.Same book.snapshot) := by
  intro cut book
  have hrun : book = cut.run after := run_append _ before after
  rw [run_append] at hfits
  have hcut := run_refines cfg before ((grows_run _ after).fits hfits)
  have hbook : book.Refines (((Market.make cfg).run before).run after) := by
    rw [hrun]
    exact hcut.run after hfits
  have hreach := reachable_run cfg before
  have hnext : ((Market.make cfg).run before).nextSeq = ((Market.make cfg).run before).events.length + 1 :=
    hreach.numbered.2
  obtain ⟨r₀, hload, hmirrors⟩ := load_mirrors hcut hreach.wf (hnext ▸ Nat.succ_pos _)
  -- The other replica reads the events up to the cut.
  obtain ⟨es, r, hevents, happly, hr⟩ := ((rebuilt_invariant [] {}).run before
    (fun c hc => hunfilled c (List.mem_append_left _ hc)) (reachable_run cfg []).wf rfl
    ⟨[], {}, rfl, rfl, empty_mirrors cfg⟩).1
  have hevents : ((Market.make cfg).run before).events = es := hevents
  subst hevents
  have hstart : Alike ((Market.make cfg).run before).events r₀ [] (.idle ((Market.make cfg).run before)) := by
    refine ⟨(List.append_nil _).symm, hnext, ⟨r₀, rfl, hmirrors⟩, ⟨r, ?_, hr⟩, fun front hfront => ?_⟩
    · rwa [List.append_nil]
    · obtain rfl := List.prefix_nil.mp hfront
      obtain ⟨snap, hsnap, hsnap'⟩ := hmirrors.shows hr
      rw [List.append_nil]
      exact ⟨r₀, r, snap, rfl, Nat.succ_injective (hmirrors.seq.trans hnext), happly, hsnap, hsnap'⟩
  obtain ⟨es, halike⟩ := ((alike_invariant _ r₀).run after
    (fun c hc => hunfilled c (List.mem_append_right _ hc)) hreach.wf hcut.fifo ⟨[], hstart⟩).1
  have hcutEvents : cut.events = ((Market.make cfg).run before).events := by
    rw [hcut.represents.session]
  have hbookEvents : book.events = cut.events ++ es := by
    rw [hcutEvents, hbook.represents.session]
    exact halike.events
  refine ⟨r₀, hload, fun front hfront => ?_⟩
  rw [hbookEvents] at hfront
  have hprefix : front <+: es := (List.prefix_append_right_inj _).mp hfront
  obtain ⟨r, r', snap, happly, hseq, happly', hsnap, hsnap'⟩ := halike.shown front hprefix
  rw [← hcutEvents] at hseq happly'
  refine ⟨r, happly, hseq, ?_, fun hall => ?_⟩
  · have htake : book.events.take r.lastSeq = cut.events ++ front := by
      rw [hbookEvents, hseq]
      exact (List.prefix_iff_eq_take.mp hfront).symm
    exact ⟨hseq ▸ hbookEvents ▸ hfront.length_le, r', snap, htake ▸ happly', hsnap, hsnap'⟩
  · have hfull : front = es := hprefix.eq_of_length <| by
      have hlengths := hseq.symm.trans hall
      rw [hbookEvents, List.length_append, List.length_append] at hlengths
      exact Nat.add_left_cancel hlengths
    obtain ⟨last, hlast, hmirrors'⟩ := halike.loaded
    rw [hfull] at happly
    obtain rfl := Except.ok.inj (happly.symm.trans hlast)
    exact shows_mirrored hbook (wf_run after hreach.wf hcut.fifo).1 hmirrors'

/-- A replica has been loaded at a cut between two calls of a run, and has applied some events behind it. -/
def Joins (cfg : Config) (calls : List Call) (r : BookReplica) : Prop :=
  ∃ before after es r₀, calls = before ++ after ∧
    ((Book.make cfg).run before).events ++ es <+: ((Book.make cfg).run calls).events ∧
    BookReplica.load ((Book.make cfg).run before).snapshot = .ok r₀ ∧ r₀.applyAll es = .ok r

/-- **Replicas agree.** In every run, wherever replicas have joined: none of them fails on a next event, two of
them that have read as far show the same, also between two events of one call, and one that has read all events
shows the book. -/
theorem replicas_agree (cfg : Config) (calls : List Call) (hfits : ((Book.make cfg).run calls).Fits)
    (hunfilled : ∀ c ∈ calls, Unfilled c) :
    let book := (Book.make cfg).run calls
    (∀ r, Joins cfg calls r → (∃ e, book.events[r.lastSeq]? = some e ∧ ∃ r', r.apply e = .ok r') ∨
      ∃ snap, r.toSnapshot = .ok snap ∧ snap.Same book.snapshot) ∧
    ∀ r r', Joins cfg calls r → Joins cfg calls r' → r.lastSeq = r'.lastSeq →
      ∃ snap, r.toSnapshot = .ok snap ∧ r'.toSnapshot = .ok snap := by
  intro book
  -- A replica that joined has read the log up to its number, so the log says what it shows.
  have hjoined : ∀ {r}, Joins cfg calls r → r.Reads book.events ∧
      ((∃ e, book.events[r.lastSeq]? = some e ∧ ∃ r', r.apply e = .ok r') ∨
        ∃ snap, r.toSnapshot = .ok snap ∧ snap.Same book.snapshot) := by
    rintro r ⟨before, after, es, r₀, rfl, hprefix, hload, happly⟩
    obtain ⟨r₁, hload₁, hreads⟩ := replica_reads cfg before after hfits hunfilled
    obtain rfl := Except.ok.inj (hload₁.symm.trans hload)
    obtain ⟨r', happly', hseq, hr, hall⟩ := hreads es hprefix
    obtain rfl := Except.ok.inj (happly'.symm.trans happly)
    refine ⟨hr, ?_⟩
    by_cases hlast : r'.lastSeq = book.events.length
    · exact Or.inr (hall hlast)
    · -- With the next event it has read a longer part of the log.
      have hlt : r'.lastSeq < book.events.length := lt_of_le_of_ne hr.behind hlast
      have hnext : ((Book.make cfg).run before).events ++ (es ++ [book.events[r'.lastSeq]]) <+: book.events := by
        have htake : book.events.take r'.lastSeq = ((Book.make cfg).run before).events ++ es := by
          rw [hseq]
          exact (List.prefix_iff_eq_take.mp hprefix).symm
        rw [← List.append_assoc, ← htake, List.take_append_getElem hlt]
        exact List.take_prefix _ _
      obtain ⟨r'', happly'', -⟩ := hreads _ hnext
      obtain ⟨r₂, hes, he⟩ := applyAll_of_concat happly''
      obtain rfl := Except.ok.inj (hes.symm.trans happly)
      exact Or.inl ⟨_, List.getElem?_eq_getElem hlt, r'', he⟩
  refine ⟨fun r hr => (hjoined hr).2, fun r r' hr hr' hseq => ?_⟩
  exact (hjoined hr).1.agree (hjoined hr').1 hseq

/-- The one has loaded the fresh book, and has read up to the last event of the second call. The other has
loaded the book between the calls. -/
theorem replicas_agree_within_call :
    let cfg : Config := { poolCapacity := 4 }
    let calls := [Call.addOrder (meeting .buy) 0, .addOrder (meeting .sell) 1]
    ∃ r r' snap, Joins cfg calls r ∧ Joins cfg calls r' ∧ r.lastSeq = 3 ∧ r'.lastSeq = 3 ∧
      ((Book.make cfg).run calls).events.length = 4 ∧ r.toSnapshot = .ok snap ∧ r'.toSnapshot = .ok snap := by
  intro cfg calls
  have hunfilled : ∀ c ∈ calls, Unfilled c := by
    intro c hc order now horder
    rcases List.mem_cons.mp hc with rfl | hc
    · obtain ⟨rfl, -⟩ := Call.addOrder.inj horder
      rfl
    · rw [List.mem_singleton.mp hc] at horder
      obtain ⟨rfl, -⟩ := Call.addOrder.inj horder
      rfl
  obtain ⟨-, hagree⟩ := replicas_agree cfg calls (fits_run rfl _) hunfilled
  -- Both replicas are found by running the loads.
  have hjoins : ∀ (before after : List Call) (es : List EngineEvent), calls = before ++ after →
      ((Book.make cfg).run before).events ++ es <+: ((Book.make cfg).run calls).events →
      (((BookReplica.load ((Book.make cfg).run before).snapshot).bind
        fun r₀ => r₀.applyAll es).map BookReplica.lastSeq) = .ok 3 → ∃ r, Joins cfg calls r ∧ r.lastSeq = 3 := by
    intro before after es hcalls hprefix hrun
    cases hload : BookReplica.load ((Book.make cfg).run before).snapshot with
    | error error =>
      rw [hload] at hrun
      cases hrun
    | ok r₀ =>
      rw [hload] at hrun
      cases happly : r₀.applyAll es with
      | error error =>
        change (r₀.applyAll es).map _ = _ at hrun
        rw [happly] at hrun
        cases hrun
      | ok r =>
        change (r₀.applyAll es).map _ = _ at hrun
        rw [happly] at hrun
        exact ⟨r, ⟨before, after, es, r₀, hcalls, hprefix, hload, happly⟩, Except.ok.inj hrun⟩
  obtain ⟨r, hr, hseq⟩ := hjoins [] calls (((Book.make cfg).run calls).events.take 3) rfl
    (by decide +kernel) (by decide +kernel)
  obtain ⟨r', hr', hseq'⟩ := hjoins [.addOrder (meeting .buy) 0] [.addOrder (meeting .sell) 1]
    ((((Book.make cfg).run calls).events.take 3).drop 2) rfl (by decide +kernel) (by decide +kernel)
  obtain ⟨snap, hsnap, hsnap'⟩ := hagree r r' hr hr' (hseq.trans hseq'.symm)
  exact ⟨r, r', snap, hr, hr', hseq, hseq', by decide +kernel, hsnap, hsnap'⟩

end Book

end OrderBookEngine
