import FeedIntake.Proofs.Showing

/-! # How members go on

A member of a collecting round that moves does in the intake what the steps of the hall say. It ends
its move at rest: it waits in a line, it is due again, or it has ended.
-/

namespace FeedIntake

open Intake

namespace Hall

section

variable {c : Crew} {h h' : Hall} {w w' : Intake} {a b m : ActivityId} {spec : JobSpec}

/-! ## The queue -/

theorem Shows.fill (shows : h.Shows c w) (record : Record) :
    ({ h with records := h.records + 1, taker := h.taker.rouse } : Hall).Shows c
      (w.withQueue (w.queue.push record)) := by
  have stocks := shows.stocks
  obtain ⟨p, calls, fits, hstation⟩ := shows.taker
  have hgetters := stocks.getters
  have hfilled : (w.queue.records ++ [record]).length = h.records + 1 := by
    rw [List.length_append, stocks.records]
    rfl
  have hcounted : w.queue.unfinished + 1 = h.records + 1 := by rw [stocks.unfinished]
  by_cases hwaits : h.taker = .waits
  · rw [if_pos hwaits] at hgetters
    have hpushed : w.withQueue (w.queue.push record) =
        ({ w with queue := (w.queue.push record).1 } : Intake).wake c.taker := by
      unfold withQueue RecordQueue.push
      rw [hgetters]
      rfl
    have carries := Carries.withQueue w (w.queue.push record)
    rw [hpushed] at carries ⊢
    refine shows.turn carries (a := c.taker) (fun b hb => ?_) ?_ ?_ shows.counts (fun r => ?_)
      fun _ _ => .inl
    · rw [station_wake_of_ne _ hb]
      exact (shows.stands b).congr ⟨rfl, fun _ => rfl, fun heq => absurd heq hb⟩
    · rw [hwaits] at fits
      cases fits
      have hputting : (w.queue.push record).1.putters.count c.taker = 0 :=
        (congrArg Station.putting hstation :)
      rw [station_wake_self, station_withQueue, hstation, hputting]
      refine Stands.taker rfl ?_
      dsimp only
      rw [hwaits]
      exact .due (.inr rfl)
    · refine ⟨stocks.capacity, stocks.refusal, hfilled, hcounted, ?_⟩
      show w.queue.getters.tail = _
      rw [hgetters, hwaits]
      rfl
    · rw [count_note_wake]
      exact shows.notes r
  · rw [if_neg hwaits] at hgetters
    have hpushed : w.withQueue (w.queue.push record) =
        { w with queue := (w.queue.push record).1 } := by
      unfold withQueue RecordQueue.push
      rw [hgetters]
      rfl
    have hrouse : h.taker.rouse = h.taker := by
      cases htaker : h.taker <;> first | rfl | exact absurd htaker hwaits
    have carries := Carries.queue w (w.queue.push record).1
    rw [hpushed, hrouse]
    refine shows.turn carries (a := c.taker) (fun b hb => ?_) ?_ ?_ shows.counts shows.notes
      fun _ _ => .inl
    · exact (shows.stands b).congr ⟨rfl, fun _ => rfl, fun _ => rfl⟩
    · exact (shows.stands c.taker).congr ⟨rfl, fun _ => rfl, fun _ => rfl⟩
    · refine ⟨stocks.capacity, stocks.refusal, hfilled, hcounted, ?_⟩
      show w.queue.getters.tail = _
      rw [hgetters, if_neg hwaits]
      rfl

/-- A member has a record to put. -/
theorem Shows.put (shows : h.Shows c w) (hm : m ∈ c.members) {n : Nat}
    (hspot : h.spot m = ⟨.work (n + 1), .free⟩ ∨ h.spot m = ⟨.queue n, .free⟩) (record : Record) :
    ({ h with records := h.records + 1, taker := h.taker.rouse }.set m ⟨.work n, .free⟩ :
      Hall).Shows c (w.withQueue (w.queue.push record)) := by
  have filled := shows.fill record
  rcases hspot with hspot | hspot
  · have hr := filled.results m hm (by dsimp only; rw [hspot]; rfl)
    exact filled.turnTo hm hspot (by simp) (by simp) rfl fun _ => hr
  · have hr := filled.results m hm (by dsimp only; rw [hspot]; rfl)
    exact filled.turnTo hm hspot (by simp) (by simp) rfl fun _ => hr

/-- There is room for something, so a full queue is not empty. -/
theorem Stocks.pos_of_isFull {s : TakerSpot} {n : Nat} {q : RecordQueue} (stocks : Stocks c s n q)
    (hfull : q.isFull = true) : 0 < n := by
  have hcapacity := stocks.capacity
  rw [← stocks.records]
  simp only [RecordQueue.isFull, Bool.and_eq_true, decide_eq_true_eq] at hfull
  omega

theorem Shows.stall (shows : h.Shows c w) (hm : m ∈ c.members) {e : Errand}
    (hspot : h.spot m = ⟨e, .free⟩) (he : e ≠ .gone) (hline : e ≠ .line)
    (hbegun : e.hasBegun = true) (record : Record) (rest : List Entry) :
    (h.set m ⟨.queue rest.length, .waits⟩).Shows c (w.awaitRoom m record rest) := by
  obtain ⟨j, stage, hstation⟩ := shows.moving hm he hspot
  have hr := shows.results m hm (by rw [hspot]; exact hbegun)
  have carries : Carries w (w.awaitRoom m record rest) :=
    (Carries.queue w (w.queue.awaitRoom m)).trans
      (.onActivity _ m (by exact fun _ => rfl) (by exact fun _ => rfl))
  have hplaces : (Spot.mk e .free).places = [] := by
    cases e <;> first | rfl | exact absurd rfl hline
  have stocks := shows.stocks
  refine shows.memberTo carries rfl rfl rfl (fun b hb => ?_) ?_ ⟨stocks.capacity, stocks.refusal,
    stocks.records, stocks.unfinished, stocks.getters⟩ shows.counts shows.notes
    fun _ => .inr (carries.results m hr)
  · rw [awaitRoom, suspend, station_onActivity_of_ne _ hb, station_withQueue]
    simp [RecordQueue.awaitRoom, Ne.symm hb]
    rfl
  · have hputting : w.queue.putters.count m = 0 := (congrArg Station.putting hstation :)
    rw [awaitRoom, suspend, station_onActivity_self _ m
      (g := fun p => { p with stage := .atQueue record rest, waiting := true })
      (by exact fun _ => rfl), station_withQueue, hstation, hplaces]
    dsimp only
    rw [RecordQueue.awaitRoom, List.count_append, hputting, List.count_singleton_self]
    exact stands_set hm (.queues j record rfl)

theorem Shows.send (shows : h.Shows c w) (hm : m ∈ c.members) (hspot : h.spot m = ⟨.ask, .free⟩)
    {url : String} {response : Response} (promise : (c.spec m).conclusion url response = c.answer m)
    (hr : (w.result? m).isSome = true) : (h.set m ⟨.afar, .due⟩).Shows c
      ((w.enter m (.onNetwork url response)).call (.move m false)) := by
  obtain ⟨j, stage, hstation⟩ := shows.moving hm (by simp) hspot
  have carries : Carries w ((w.enter m (.onNetwork url response)).call (.move m false)) :=
    (Carries.onActivity w m (by exact fun _ => rfl) (by exact fun _ => rfl)).trans (.call _ _)
  refine shows.memberTo carries rfl rfl rfl (fun b hb => ?_) ?_ shows.stocks shows.counts
    (fun r => ?_) fun _ => .inr (carries.results m hr)
  · rw [station_call_of_ne _ hb, enter, station_onActivity_of_ne w hb]
  · rw [station_call, enter, station_onActivity_self w m
      (g := fun p => { p with stage := .onNetwork url response }) (by exact fun _ => rfl), hstation,
      Call.calledOff?, if_pos rfl]
    exact stands_set hm (.afar j promise)
  · show (w.ready ++ [Call.move m false]).count _ = _
    rw [List.count_append, shows.notes r]
    rfl

/-! ## The books -/

theorem Shows.log (shows : h.Shows c w) (entries : List LogEntry) : h.Shows c (w.log entries) :=
  shows.aside rfl (.of_scene rfl (fun _ => id) rfl rfl)

theorem Shows.tell (shows : h.Shows c w) (a : ActivityId) (spec : JobSpec) (deed : Deed) :
    h.Shows c (w.tell (.did a spec deed)) := by
  refine shows.aside rfl (.of_scene rfl (fun _ => id) rfl ?_)
  show History.recordsTaken (_ :: _) = _
  rw [History.recordsTaken_cons]
  exact List.append_nil _

theorem Shows.role? (shows : h.Shows c w) (hm : m ∈ c.members) :
    ∃ j, w.role? m = some (.member 0 j) := by
  obtain ⟨j, id, supplier, hrole, -⟩ := shows.cast m hm
  exact ⟨j, hrole⟩

theorem Shows.jobOf? (shows : h.Shows c w) (hm : m ∈ c.members) : ∃ j, w.jobOf? m = some j := by
  obtain ⟨j, hrole⟩ := shows.role? hm
  exact ⟨j, by rw [Intake.jobOf?, hrole]; rfl⟩

theorem Shows.advance (shows : h.Shows c w) (hm : m ∈ c.members) (r : RunResult) :
    h.Shows c (w.advance m r) ∧ ((w.advance m r).result? m).isSome = true := by
  obtain ⟨j, hj⟩ := shows.jobOf? hm
  have hresult : (w.advance m r).result? = _ := congrArg Ledger.result (ledger_advance hj r)
  have htaken : (w.advance m r).taken = w.taken := by
    unfold Intake.advance
    dsimp only
    split <;> rfl
  have hhistory : (w.advance m r).history = w.history := by
    unfold Intake.advance
    dsimp only
    split <;> rfl
  refine ⟨shows.aside (scene_advance w m r) (.of_scene (scene_advance w m r)
    (fun b hb => (entries_advance hj r).result_mono hb) htaken (by rw [hhistory])), ?_⟩
  rw [hresult]
  simp [Ledger.write, Ledger.revise]

theorem Shows.keep (shows : h.Shows c w) (hm : m ∈ c.members) (r : RunResult) :
    h.Shows c (w.keep m r) := by
  obtain ⟨j, hj⟩ := shows.jobOf? hm
  have hresult : (w.keep m r).result? = _ := congrArg Ledger.result (ledger_keep hj r)
  refine shows.aside (scene_keep w m r) (.of_scene (scene_keep w m r) (fun b hb => ?_) rfl rfl)
  rw [hresult]
  by_cases hbm : b = m
  · subst hbm
    simp [Ledger.revise]
  · rw [Ledger.revise]
    dsimp only
    rw [Function.update_of_ne hbm]
    exact hb

/-! ## Moves of members -/

/-- By some steps of the hall a member comes to rest, and this is what the intake then shows. -/
def Lands (c : Crew) (m : ActivityId) (h : Hall) (w : Intake) : Prop :=
  ∃ h', Steps c h h' ∧ (h'.spot m).moves = false ∧ h'.Shows c w

theorem Lands.after (steps : Steps c h h') (lands : Lands c m h' w) : Lands c m h w := by
  obtain ⟨u, more, hrest, shows⟩ := lands
  exact ⟨u, steps.trans more, hrest, shows⟩

theorem Shows.ends (shows : h.Shows c w) (within : h.Within c) (hm : m ∈ c.members) {n : Nat}
    (hspot : h.spot m = ⟨.work n, .free⟩) (r : RunResult) (entries : List LogEntry)
    {outcome : RunOutcome} (houtcome : outcome ≠ .cancelled) :
    Lands c m h (((w.advance m r).log entries).endRun m outcome) := by
  obtain ⟨h', steps, hgone, ended⟩ :=
    ((shows.advance hm r).1.log entries).endRun within hm hspot houtcome
  exact ⟨h', steps, by rw [hgone]; rfl, ended⟩

/-- The induction is on the entries that are still to be examined. -/
theorem Shows.process (shows : h.Shows c w) (within : h.Within c) (hm : m ∈ c.members) {n : Nat}
    (hspot : h.spot m = ⟨.work n, .free⟩) (spec : JobSpec) (r : RunResult) {entries : List Entry}
    (hlen : entries.length ≤ n) : Lands c m h (w.process m spec r entries) := by
  induction entries generalizing w h n r with
  | nil =>
      have committed : h.Shows c (if spec.perpetual then
          (w.commit spec.source r.seen).tell (.did m spec (.committed r.seen)) else w) := by
        split
        · have aside : h.Shows c (w.commit spec.source r.seen) :=
            shows.aside rfl (.of_scene rfl (fun _ => id) rfl rfl)
          exact aside.tell m spec _
        · exact shows
      exact committed.ends within hm hspot _ _ (by simp)
  | cons e rest ih =>
      rw [List.length_cons] at hlen
      unfold Intake.process
      split
      · rename_i fault he
        unfold breakOff
        rw [if_neg (by rw [Entry.toRecord_not_cancellation he]; simp)]
        exact shows.ends within hm hspot _ _ (by simp)
      · rename_i record _
        dsimp only
        have told := (shows.log (spec.examineEntries record)).tell m spec
          (.judged record (spec.judge w.store record))
        generalize (w.log _).tell _ = v at told
        split
        · exact ih told within hspot _ (by omega)
        · rw [RecordQueue.accept_of_refusal told.stocks.refusal]
          dsimp only
          obtain ⟨k, rfl⟩ : ∃ k, n = k + 1 := ⟨n - 1, by omega⟩
          split
          · rename_i hfull
            have stalled := (told.keep hm (r.examine record (spec.judge w.store record))).stall hm
              hspot (by simp) (by simp) rfl record rest
            exact ⟨_, .single (.stall hm (.inl hspot) (by omega) (told.stocks.pos_of_isFull hfull)),
              by rw [set_spot_self]; rfl, stalled⟩
          · have next := ((told.put hm (.inl hspot) record).log [spec.publishEntry record]).tell m
              spec (.put record)
            exact .after (.single (.put hm (.inl hspot))) (ih next
              (Within.set (h := { h with records := _, taker := _ }) within hm _) (set_spot_self ..)
              _ (by omega))

theorem Shows.resumePut (shows : h.Shows c w) (within : h.Within c) (hm : m ∈ c.members)
    {rest : List Entry} (hspot : h.spot m = ⟨.queue rest.length, .free⟩) (spec : JobSpec)
    (r : RunResult) (record : Record) : Lands c m h (w.resumePut m spec r record rest) := by
  unfold Intake.resumePut
  split
  · rename_i hfull
    have hrecords := shows.stocks.pos_of_isFull hfull
    exact ⟨_, .single (.stall hm (.inr hspot) (Nat.le_refl _) hrecords),
      by rw [set_spot_self]; rfl, shows.stall hm hspot (by simp) (by simp) rfl record rest⟩
  · have next := ((shows.put hm (.inr hspot) record).log [spec.publishEntry record]).tell m spec
      (.put record)
    exact .after (.single (.put hm (.inr hspot))) (next.process
      (Within.set (h := { h with records := _, taker := _ }) within hm _) hm (set_spot_self ..) spec
      _ (Nat.le_refl _))

theorem Shows.deliver (shows : h.Shows c w) (within : h.Within c) (hm : m ∈ c.members)
    (hspot : h.spot m = ⟨.ask, .free⟩ ∨ h.spot m = ⟨.afar, .free⟩)
    (hr : (w.result? m).isSome = true) (spec : JobSpec) (r : RunResult) :
    Lands c m h (w.deliver m spec r (c.answer m)) := by
  have hturned (n : Nat) : (h.set m ⟨.work n, .free⟩).Shows c w := by
    rcases hspot with hspot | hspot
    · exact shows.turnTo hm hspot (by simp) (by simp) rfl fun _ => hr
    · exact shows.turnTo hm hspot (by simp) (by simp) rfl fun _ => hr
  have hload : c.load m = (c.answer m).toOption.elim 0 List.length := rfl
  cases hanswer : c.answer m with
  | ok entries =>
      rw [hanswer] at hload
      refine .after (.single (.answered hm hspot (Nat.le_of_eq hload.symm))) ?_
      exact (((hturned entries.length).advance hm (r.takeUp entries.length)).1.tell m spec
        (.fetched entries)).process (within.set hm _) hm (set_spot_self ..) spec _ (Nat.le_refl _)
  | error fault =>
      have huncancelled := c.uncancelled m hm fault hanswer
      refine .after (.single (.answered hm hspot (Nat.zero_le _))) ?_
      have hwithin := within.set hm ⟨.work 0, .free⟩
      have foreign : Lands c m (h.set m ⟨.work 0, .free⟩) (w.endRun m (.failed fault)) := by
        have houtcome : RunOutcome.failed fault ≠ .cancelled := by simp
        obtain ⟨h', steps, hgone, ended⟩ :=
          (hturned 0).endRun hwithin hm (set_spot_self ..) houtcome
        exact ⟨h', steps, by rw [hgone]; rfl, ended⟩
      unfold Intake.deliver
      cases fault with
      | failure f =>
          dsimp only
          split
          · exact (hturned 0).ends hwithin hm (set_spot_self ..) _ _ (by simp)
          · exact foreign
      | outside kind text =>
          dsimp only
          rw [huncancelled, if_neg (by simp)]
          exact foreign

theorem Shows.receive (shows : h.Shows c w) (within : h.Within c) (hm : m ∈ c.members)
    (hspot : h.spot m = ⟨.afar, .free⟩) {url : String} {response : Response}
    (promise : (c.spec m).conclusion url response = c.answer m) (r : RunResult) :
    Lands c m h (w.receive m (c.spec m) r url response) := by
  have hr := shows.results m hm (by rw [hspot]; rfl)
  have delivered := (shows.log (Fetcher.conclude (.text (c.spec m).source) url
    (c.spec m).timeoutMs 0 response).logs).deliver within hm (.inr hspot) hr (c.spec m) r
  rw [← promise] at delivered
  exact delivered

theorem Shows.beginRun (shows : h.Shows c w) (within : h.Within c) (hm : m ∈ c.members)
    (hspot : h.spot m = ⟨.ask, .free⟩) {j : JobId} (hrole : w.role? m = some (.member 0 j)) :
    Lands c m h (w.beginRun m j) := by
  obtain ⟨j', id, supplier, hrole', hspecs, hsupplier, hanswer, hprompt⟩ := shows.cast m hm
  cases hrole'.symm.trans hrole
  obtain ⟨job, hjob, heq⟩ := Option.map_eq_some_iff.mp ((List.getElem?_map ..).symm.trans hspecs)
  obtain ⟨hspec, rfl⟩ := Prod.mk.inj heq
  unfold Intake.beginRun
  rw [hjob]
  dsimp only
  rw [hsupplier]
  dsimp only
  unfold Intake.fetch
  dsimp only
  rw [hspec]
  have hbooked : h.Shows c (w.onJob j fun job => { job with latest := some m }) := by
    have hscene := scene_onJob w (f := fun job => { job with latest := some m })
      (by exact fun _ => rfl) (by exact fun _ => rfl) j
    exact shows.aside hscene (.of_scene hscene (fun _ => id) rfl rfl)
  obtain ⟨begun, hr⟩ := hbooked.advance hm ((c.spec m).begun w.now)
  have hweb : ((w.onJob j fun job => { job with latest := some m }).advance m
      ((c.spec m).begun w.now)).web = w.web :=
    congrArg Scene.web ((scene_advance _ m _).trans
      (scene_onJob w (by exact fun _ => rfl) (by exact fun _ => rfl) j))
  generalize (w.onJob j _).advance m _ = v at begun hr hweb
  cases supplier with
  | prepared answers =>
      have hungated := hprompt answers rfl
      dsimp only
      unfold Intake.ask
      dsimp only
      rw [hungated, Bool.false_and, if_neg (by simp)]
      have asked : h.Shows c { v with fetches := v.fetches ++
          [(job.supplier, (c.spec m).source, (c.spec m).timeoutMs)] } :=
        begun.aside rfl (.of_scene rfl (fun _ => id) rfl rfl)
      have delivered := asked.deliver within hm (.inl hspot) hr (c.spec m)
        ((c.spec m).begun w.now)
      rw [← hanswer] at delivered
      exact delivered
  | network fetcher =>
      dsimp only
      unfold Intake.request
      rw [Supplier.answerFor] at hanswer
      split
      · rename_i failure htarget
        rw [htarget] at hanswer
        have delivered := begun.deliver within hm (.inl hspot) hr (c.spec m)
          ((c.spec m).begun w.now)
        rw [← hanswer] at delivered
        exact delivered
      · rename_i url htarget
        rw [htarget] at hanswer
        dsimp only at hanswer ⊢
        have sent : h.Shows c { v.log [Fetcher.announcement url] with
            requests := v.requests ++ [fetcher.request url (c.spec m).timeoutMs] } :=
          begun.aside rfl (.of_scene rfl (fun _ => id) rfl rfl)
        rw [hweb]
        exact ⟨_, .single (.send hm hspot), by rw [set_spot_self]; rfl,
          sent.send hm hspot hanswer hr⟩

theorem Shows.beginMember (shows : h.Shows c w) (within : h.Within c) (hm : m ∈ c.members)
    (hspot : h.spot m = ⟨.start, .free⟩) {j : JobId} (hrole : w.role? m = some (.member 0 j)) :
    Lands c m h (w.beginMember m 0 j) := by
  obtain ⟨x, hx, counts⟩ := shows.counts
  unfold Intake.beginMember
  rw [hx]
  dsimp only [List.getElem?_cons_zero]
  split
  · rename_i htaken
    refine ⟨_, .single (.join hm hspot ?_), by rw [set_spot_self]; rfl, shows.join hm hspot⟩
    simp only [Permits.isTaken, Bool.or_eq_true, beq_iff_eq, Bool.not_eq_true',
      List.isEmpty_eq_false_iff_exists_mem] at htaken
    rcases htaken with hnone | ⟨⟨b, given⟩, hb⟩
    · exact .inl (counts.free.symm.trans hnone)
    · have hplace : given ∈ (w.station b).places := by
        rw [places_station hx]
        exact List.mem_map.mpr ⟨(b, given), List.mem_filter.mpr ⟨hb, by simp⟩, rfl⟩
      exact .inr ⟨b, shows.line_of_mem_places hplace⟩
  · exact .after (.single (.take hm hspot)) ((shows.take hm hspot).beginRun
      (Within.set (h := { h with permits := _ }) within hm _) hm (set_spot_self ..) hrole)

theorem Shows.leaveLine (shows : h.Shows c w) (within : h.Within c) (hm : m ∈ c.members)
    (hspot : h.spot m = ⟨.line, .free⟩) {j : JobId} (hrole : w.role? m = some (.member 0 j)) :
    Lands c m h (w.leaveLine m 0 j false false) := by
  obtain ⟨x, hx, -⟩ := shows.counts
  obtain ⟨h', steps, hasks, proceeds⟩ := shows.moveOn within hm hspot hx
  unfold Intake.leaveLine
  rw [hx]
  dsimp only [List.getElem?_cons_zero]
  rw [if_neg (by simp), if_neg (by simp)]
  refine .after steps (proceeds.beginRun (Steps.within steps within) hm hasks ?_)
  rw [(Carries.withPermits w 0 _).roles, hrole]

section

variable {before after : List Call} {calledOff : Bool}

theorem Shows.attend (shows : h.Shows c w) (hm : m ∈ c.members)
    (hready : w.ready = before ++ .move m calledOff :: after) : ∃ e p, h.spot m = ⟨e, .due⟩ ∧
      Spot.Fits c m ⟨e, .due⟩ p ∧ w.post? m = some p ∧ calledOff = false ∧
      (h.set m ⟨e, .free⟩).Shows c (w.attend m (before ++ after)) := by
  obtain ⟨p, fits, hstation⟩ := shows.member hm
  have hdue := calls_of_ready w hready
  rw [show w.calls m = _ from (congrArg Station.calls hstation :)] at hdue
  have hspot : ∃ e, h.spot m = ⟨e, .due⟩ := by
    generalize h.spot m = s at hdue
    obtain ⟨e, pace⟩ := s
    cases pace with
    | due => exact ⟨e, rfl⟩
    | waits | free => simp [Pace.calls] at hdue
  obtain ⟨e, hspot⟩ := hspot
  rw [hspot] at fits hstation
  have hcalls : (w.station m).calls = [false] := by
    rw [hstation]
    rfl
  obtain ⟨rfl, hself⟩ := station_attend_self w hready hcalls
  refine ⟨e, p, hspot, fits, (congrArg Station.post hstation :), rfl, ?_⟩
  refine shows.memberTo (.attend w m _) rfl rfl rfl
    (fun b hb => station_attend_of_ne w hready hb) ?_ shows.stocks shows.counts (fun r => ?_)
    fun hbegun => .inl (by rw [hspot]; exact hbegun)
  · rw [hself, hstation]
    have hmoves (j : JobId) (stage : Stage) (he : e ≠ .gone) := stands_set (h := h) hm
      (.moves (c := c) (m := m) j stage he)
    cases fits with
    | start j => exact hmoves j _ (by simp)
    | served j => exact hmoves j _ (by simp)
    | afar j promise => exact hmoves j _ (by simp)
    | woken j record hn => exact hmoves j _ (by simp)
  · rw [count_note_attend w hready]
    exact shows.notes r

theorem Shows.specOf? (shows : h.Shows c w) (hm : m ∈ c.members) :
    w.specOf? m = some (c.spec m) := by
  obtain ⟨j, id, supplier, hrole, hjob, -⟩ := shows.cast m hm
  rw [specOf?_eq_of_role, hrole, Option.bind_some, Role.job?, Option.bind_some, hjob,
    Option.map_some]

theorem Shows.goOn (shows : h.Shows c w) (hm : m ∈ c.members)
    (hbegun : (h.spot m).errand.hasBegun = true) (f : JobSpec → RunResult → Intake) :
    ∃ r, w.goOn m f = f (c.spec m) r := by
  obtain ⟨r, hr⟩ := Option.isSome_iff_exists.mp (shows.results m hm hbegun)
  exact ⟨r, goOn_eq (shows.specOf? hm) hr f⟩

/-- **A member that is called moves until it rests again.** -/
theorem Shows.move_member (shows : h.Shows c w) (within : h.Within c) (hm : m ∈ c.members)
    (hready : w.ready = before ++ .move m calledOff :: after) : ∃ h₁, Attends c m h h₁ ∧
      Lands c m h₁ (({ w with ready := before ++ after } : Intake).move m calledOff) := by
  obtain ⟨e, p, hspot, fits, hpost, rfl, attended⟩ := shows.attend hm hready
  refine ⟨_, .member hm hspot, ?_⟩
  rw [post?_eq, Option.map_eq_some_iff] at hpost
  obtain ⟨x, hx, rfl⟩ := hpost
  obtain ⟨role, stage, waiting, stopping, result⟩ := x
  rw [move_eq_act hx]
  have within' := within.set hm ⟨e, .free⟩
  have hmoves : (h.set m ⟨e, .free⟩).spot m = ⟨e, .free⟩ := set_spot_self ..
  have hrole : (w.attend m (before ++ after)).role? m = some role := by
    rw [(Carries.attend w m _).roles, Intake.role?, hx]
    rfl
  generalize w.attend m (before ++ after) = v at attended hrole
  cases fits with
  | start j => exact attended.beginMember within' hm hmoves hrole
  | served j => exact attended.leaveLine within' hm hmoves hrole
  | afar j promise =>
      unfold Intake.act
      dsimp only
      obtain ⟨r, hgoes⟩ := attended.goOn hm (by rw [hmoves]; rfl) _
      rw [hgoes]
      exact attended.receive within' hm hmoves promise r
  | woken j record hn =>
      subst hn
      unfold Intake.act
      dsimp only
      obtain ⟨r, hgoes⟩ := attended.goOn hm (by rw [hmoves]; rfl) _
      rw [hgoes]
      exact attended.resumePut within' hm hmoves (c.spec m) r record

end

end

end Hall

end FeedIntake
