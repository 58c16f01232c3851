import FeedIntake.Proofs.Lifecycle
import FeedIntake.Proofs.Members

/-! # How the owner and the taker go on

The taker takes all records there are and waits for more. The owner notes every member that ends,
gathers the results when all have, waits until the last record is taken, and sends the taker away.
-/

namespace FeedIntake

open Intake

namespace Hall

section

variable {c : Crew} {h h' : Hall} {w w' : Intake} {a b m : ActivityId}
  {before after : List Call} {calledOff : Bool}

/-! ## Taking records -/

def Joins (w : Intake) (a : ActivityId) : Prop :=
  ∃ p, w.post? a = some p ∧ p.stage = .joining ∧ p.waiting = true

def rouse (w : Intake) (a : ActivityId) : Intake :=
  match w.activity? a with
  | some ⟨_, .joining, true, _, _⟩ => w.wake a
  | _ => w

theorem wakeJoining_eq_foldl (w : Intake) :
    w.wakeJoining = (List.range w.activities.length).foldl rouse w := rfl

theorem rouse_of_not_joins (h : ¬Joins w a) : rouse w a = w := by
  unfold rouse
  split
  · rename_i hx
    exact absurd ⟨_, by rw [post?_eq, hx, Option.map_some], rfl, rfl⟩ h
  · rfl

theorem rouse_of_joins (h : Joins w a) : rouse w a = w.wake a := by
  obtain ⟨p, hp, hstage, hwaiting⟩ := h
  rw [post?_eq, Option.map_eq_some_iff] at hp
  obtain ⟨⟨role, stage, waiting, stopping, result⟩, hx, rfl⟩ := hp
  cases hstage
  cases hwaiting
  rw [rouse, hx]

theorem foldl_rouse_of_none (hnone : ∀ a, ¬Joins w a) (everyone : List ActivityId) :
    everyone.foldl rouse w = w := by
  induction everyone with
  | nil => rfl
  | cons b rest ih => rw [List.foldl_cons, rouse_of_not_joins (hnone b), ih]

/-- If one waits until all records are taken, it is woken. -/
theorem wakeJoining_of_joins (hjoins : Joins w a) (honly : ∀ b, Joins w b → b = a) :
    w.wakeJoining = w.wake a := by
  have hmem : a ∈ List.range w.activities.length := by
    obtain ⟨p, hp, -⟩ := hjoins
    rw [post?_eq, Option.map_eq_some_iff] at hp
    obtain ⟨x, hx, -⟩ := hp
    exact List.mem_range.mpr (List.getElem?_eq_some_iff.mp hx).choose
  have hwoken : ∀ b, ¬Joins (w.wake a) b := by
    rintro b ⟨p, hp, hstage, hwaiting⟩
    have hpost : (w.wake a).post? b = if a = b then (w.post? b).map Post.awake else w.post? b :=
      post?_onActivity w a b fun _ => rfl
    rw [hpost] at hp
    split at hp
    · obtain ⟨q, -, rfl⟩ := Option.map_eq_some_iff.mp hp
      cases hwaiting
    · rename_i hab
      exact hab (honly b ⟨p, hp, hstage, hwaiting⟩).symm
  rw [wakeJoining_eq_foldl]
  generalize List.range w.activities.length = everyone at hmem
  induction everyone with
  | nil => cases hmem
  | cons b rest ih =>
      rw [List.foldl_cons]
      by_cases hba : b = a
      · rw [hba, rouse_of_joins hjoins, foldl_rouse_of_none hwoken]
      · rw [rouse_of_not_joins fun hb => hba (honly b hb)]
        exact ih ((List.mem_cons.mp hmem).resolve_left (Ne.symm hba))

theorem Shows.owner_of_joins (shows : h.Shows c w) (hjoins : Joins w a) :
    a = c.owner ∧ h.owner = .joining := by
  obtain ⟨p, hp, hstage, hwaiting⟩ := hjoins
  have hstands := shows.stands a
  have hstation : (w.station a).post = some p := hp
  generalize w.station a = s at hstands hstation
  cases hstands with
  | member hb fits =>
      cases hstation
      generalize h.spot a = s at fits
      cases fits <;> simp at hstage hwaiting
  | owner hb fits =>
      cases hstation
      refine ⟨hb, ?_⟩
      generalize h.owner = s at fits
      cases fits <;> simp at hstage hwaiting ⊢
  | taker hb fits =>
      cases hstation
      generalize h.taker = s at fits
      cases fits <;> simp at hstage hwaiting
  | nobody hb => cases hstation

theorem Shows.wakeJoining (shows : h.Shows c w) :
    ({ h with owner := h.owner.rouse 0 } : Hall).Shows c w.wakeJoining := by
  by_cases hjoining : h.owner = .joining
  · obtain ⟨p, fits, hstation⟩ := shows.owner
    rw [hjoining] at fits hstation
    cases fits
    have hjoins : Joins w c.owner := ⟨_, (congrArg Station.post hstation :), rfl, rfl⟩
    rw [wakeJoining_of_joins hjoins fun b hb => (shows.owner_of_joins hb).1]
    refine shows.turn (.wake w _) (a := c.owner) (fun b hb => ?_) ?_ shows.stocks shows.counts
      (fun r => ?_) fun _ _ => .inl
    · rw [station_wake_of_ne w hb]
      exact (shows.stands b).congr ⟨rfl, fun heq => absurd heq hb, fun _ => rfl⟩
    · rw [station_wake_self, hstation]
      have stands := Stands.owner (c := c) (h := { h with owner := h.owner.rouse 0 }) rfl
        (by rw [hjoining]; exact .roused)
      rw [hjoining] at stands ⊢
      exact stands
    · rw [count_note_wake]
      exact shows.notes r
  · have hsame : h.owner.rouse 0 = h.owner := by
      cases howner : h.owner <;> first | rfl | exact absurd howner hjoining
    rw [wakeJoining_eq_foldl,
      foldl_rouse_of_none fun b hb => hjoining (shows.owner_of_joins hb).2, hsame]
    exact shows

theorem Shows.queue_of_mem_putters (shows : h.Shows c w) (hb : b ∈ w.queue.putters) :
    b ∈ c.members ∧ ∃ k, h.spot b = ⟨.queue k, .waits⟩ := by
  have hcount : (w.station b).putting ≠ 0 := Nat.pos_iff_ne_zero.mp (List.count_pos_iff.mpr hb)
  have hstands := shows.stands b
  generalize w.station b = s at hstands hcount
  cases hstands with
  | member hmem fits =>
      refine ⟨hmem, ?_⟩
      dsimp only at hcount
      generalize h.spot b = s at hcount
      obtain ⟨errand, pace⟩ := s
      cases errand <;> cases pace <;> first | exact ⟨_, rfl⟩ | exact absurd rfl hcount
  | _ => exact absurd rfl hcount

theorem Shows.count_putters (shows : h.Shows c w) (hm : m ∈ c.members) :
    w.queue.putters.count m = (h.spot m).putting := by
  obtain ⟨p, -, hstation⟩ := shows.member hm
  exact (congrArg Station.putting hstation :)

/-- The queue is left without its first record, and the place is offered to the first in line. -/
theorem Shows.unload (shows : h.Shows c w) (within : h.Within c) {n : Nat} {q : RecordQueue}
    (stocks : Stocks c h.taker n q) (hq : q.putters = w.queue.putters.tail) :
    ((∀ b k, h.spot b ≠ ⟨.queue k, .waits⟩) ∧ ({ h with records := n } : Hall).Shows c
      (w.withQueue (q, w.queue.putters.head?))) ∨
    ∃ b ∈ c.members, ∃ k, h.spot b = ⟨.queue k, .waits⟩ ∧
      ({ h with records := n }.set b ⟨.queue k, .due⟩ : Hall).Shows c
        (w.withQueue (q, w.queue.putters.head?)) := by
  cases hputters : w.queue.putters with
  | nil =>
      rw [hputters] at hq
      refine .inl ⟨fun b k hb => ?_, ?_⟩
      · by_cases hmem : b ∈ c.members
        · have hcount := shows.count_putters hmem
          rw [hputters, hb] at hcount
          cases hcount
        · rw [within b hmem] at hb
          cases hb
      · have hsame (b : ActivityId) : ({ w with queue := q } : Intake).station b = w.station b := by
          rw [station_withQueue, hq, station, hputters]
          rfl
        have hstays (b : ActivityId) : ({ h with records := n } : Hall).Stands c b
            (({ w with queue := q } : Intake).station b) := by
          rw [hsame]
          exact (shows.stands b).congr ⟨rfl, fun _ => rfl, fun _ => rfl⟩
        exact shows.turn (.queue w q) (fun b _ => hstays b) (hstays c.owner) stocks shows.counts
          shows.notes fun _ _ => .inl
  | cons b others =>
      rw [hputters] at hq
      obtain ⟨hmem, k, hspot⟩ := shows.queue_of_mem_putters (b := b) (by simp [hputters])
      obtain ⟨p, fits, hstation⟩ := shows.member hmem
      have hcount := shows.count_putters hmem
      rw [hspot] at fits hstation hcount
      have hothers : others.count b = 0 := by
        rw [hputters, List.count_cons_self] at hcount
        exact Nat.succ.inj hcount
      refine .inr ⟨b, hmem, k, hspot, ?_⟩
      refine shows.memberTo (.withQueue w (q, some b)) rfl rfl rfl (fun b' hb' => ?_) ?_ stocks
        shows.counts (fun r => (count_note_wake _ b r).trans (shows.notes r))
        fun _ => .inl (by rw [hspot]; rfl)
      · refine (station_wake_of_ne _ hb').trans ?_
        rw [station_withQueue, hq, station, hputters, List.count_cons_of_ne (Ne.symm hb')]
        rfl
      · have hself := station_wake_self ({ w with queue := q } : Intake) b
        rw [station_withQueue w q b, hstation, hq] at hself
        dsimp only [List.tail_cons] at hself
        rw [hothers] at hself
        refine hself ▸ ?_
        cases fits with
        | queues j record hn => exact stands_set hmem (.woken j record hn)

theorem OwnerSpot.rouse_of_ne_zero {n : Nat} (hn : n ≠ 0) (s : OwnerSpot) : s.rouse n = s := by
  cases s <;> simp [OwnerSpot.rouse, hn]

/-- The taker takes a record. If it was the last one, the owner is woken if it waits for that. -/
theorem Shows.takeRecord (shows : h.Shows c w) (within : h.Within c) (ht : h.taker = .taking)
    {n : Nat} (hn : h.records = n + 1) : ∃ h', Step c h h' ∧ h'.taker = .taking ∧
      h'.records = n ∧ h'.Shows c w.takeRecord := by
  have stocks := shows.stocks
  obtain ⟨record, rest, hrecords⟩ : ∃ record rest, w.queue.records = record :: rest :=
    List.exists_cons_of_length_eq_add_one (stocks.records.trans hn)
  have told : h.Shows c (({ w with taken := w.taken ++ [record] } : Intake).tell
      (.taken record)) := by
    refine shows.aside rfl ⟨rfl, rfl, rfl, fun _ => rfl, fun _ => id, fun htoll => ?_⟩
    show w.taken ++ [record] = History.recordsTaken (_ :: _)
    rw [History.recordsTaken_cons, htoll]
    rfl
  generalize hu : (({ w with taken := w.taken ++ [record] } : Intake).tell
    (.taken record)) = u at told
  have hqueue : u.queue = w.queue := by rw [← hu]; rfl
  obtain ⟨q, hq⟩ : ∃ q : RecordQueue, q = ({ w.queue with
    records := rest, putters := w.queue.putters.tail } : RecordQueue).settleOne := ⟨_, rfl⟩
  have hstocks : Stocks c h.taker n q := by
    rw [hq]
    refine ⟨stocks.capacity, stocks.refusal, ?_, ?_, stocks.getters⟩
    · have hlength := stocks.records
      rw [hrecords, List.length_cons, hn] at hlength
      exact Nat.succ.inj hlength
    · show w.queue.unfinished - 1 = n
      rw [stocks.unfinished, hn]
      rfl
  have htake : w.takeRecord = if n = 0 then (u.withQueue (q, u.queue.putters.head?)).wakeJoining
      else u.withQueue (q, u.queue.putters.head?) := by
    have hleft (someone : Option ActivityId) :
        (u.withQueue (q, someone)).queue.unfinished = n := by
      rw [← hstocks.unfinished]
      cases someone <;> rfl
    unfold Intake.takeRecord RecordQueue.pop
    rw [hrecords]
    dsimp only
    rw [hu, ← hq, ← hqueue, hleft]
  have hunloaded := told.unload within hstocks (by rw [hqueue, hq]; rfl)
  rw [htake]
  generalize u.withQueue (q, u.queue.putters.head?) = v at hunloaded
  have hroused {h' : Hall} (shows : h'.Shows c v) (howner : h'.owner = h.owner) :
      ({ h' with owner := h.owner.rouse n } : Hall).Shows c
        (if n = 0 then v.wakeJoining else v) := by
    rw [← howner]
    split
    · rename_i hzero
      rw [hzero]
      exact shows.wakeJoining
    · rename_i hpos
      rw [OwnerSpot.rouse_of_ne_zero hpos]
      exact shows
  rcases hunloaded with ⟨hnone, shown⟩ | ⟨b, hmem, k, hb, shown⟩
  · exact ⟨_, .pop ht hn hnone, ht, rfl, hroused shown rfl⟩
  · exact ⟨_, .offer ht hn hmem hb, ht, rfl, hroused shown rfl⟩

/-- The taker takes as many records as there are. -/
theorem Shows.repeat_takeRecord (shows : h.Shows c w) (within : h.Within c) (ht : h.taker = .taking)
    {n : Nat} (hn : n ≤ h.records) : ∃ h', Steps c h h' ∧ h'.taker = .taking ∧
      h'.records + n = h.records ∧ h'.Shows c (Nat.repeat Intake.takeRecord n w) := by
  induction n with
  | zero => exact ⟨h, .refl, ht, rfl, shows⟩
  | succ n ih =>
      obtain ⟨h₁, steps, ht₁, hn₁, taken⟩ := ih (Nat.le_of_succ_le hn)
      obtain ⟨h₂, step, ht₂, hn₂, taken'⟩ := taken.takeRecord (Steps.within steps within) ht₁
        (n := h.records - n - 1) (by omega)
      exact ⟨h₂, steps.tail step, ht₂, by omega, taken'⟩

theorem Shows.awaitRecord (shows : h.Shows c w) (ht : h.taker = .taking) :
    ({ h with taker := .waits } : Hall).Shows c
      (({ w with queue := w.queue.awaitRecord c.taker } : Intake).suspend c.taker
        .awaitingRecord) := by
  obtain ⟨p, calls, fits, hstation⟩ := shows.taker
  rw [ht] at fits
  have stocks := shows.stocks
  have hgetters := stocks.getters
  rw [ht, if_neg (by simp)] at hgetters
  have carries : Carries w (({ w with queue := w.queue.awaitRecord c.taker } : Intake).suspend
      c.taker .awaitingRecord) :=
    (Carries.queue w _).trans (.onActivity _ _ (by exact fun _ => rfl) (by exact fun _ => rfl))
  refine shows.turn carries (a := c.taker) (fun b hb => ?_) ?_ ⟨stocks.capacity, stocks.refusal,
    stocks.records, stocks.unfinished, ?_⟩ shows.counts shows.notes fun _ _ => .inl
  · have hsame : (({ w with queue := w.queue.awaitRecord c.taker } : Intake).suspend c.taker
        .awaitingRecord).station b = w.station b := by
      rw [suspend, station_onActivity_of_ne _ hb]
      rfl
    rw [hsame]
    exact (shows.stands b).congr ⟨rfl, fun _ => rfl, fun heq => absurd heq hb⟩
  · have hself := station_onActivity_self ({ w with queue := w.queue.awaitRecord c.taker } : Intake)
      c.taker (f := fun x => { x with stage := .awaitingRecord, waiting := true })
      (g := fun p => { p with stage := .awaitingRecord, waiting := true }) (by exact fun _ => rfl)
    have hqueue : ({ w with queue := w.queue.awaitRecord c.taker } : Intake).station c.taker =
        w.station c.taker := rfl
    rw [hqueue, hstation] at hself
    refine hself ▸ ?_
    cases fits
    exact .taker rfl .waits
  · show w.queue.getters ++ [c.taker] = _
    rw [hgetters]
    rfl

/-- The taker takes all records there are, and then waits for the next one. -/
theorem Shows.takeRecords (shows : h.Shows c w) (within : h.Within c) (ht : h.taker = .taking) :
    ∃ h', Steps c h h' ∧ h'.taker = .waits ∧ h'.Shows c (w.takeRecords c.taker) := by
  obtain ⟨h', steps, ht', hn', taken⟩ := shows.repeat_takeRecord within ht (Nat.le_refl _)
  have hnone : h'.records = 0 := by omega
  unfold Intake.takeRecords
  rw [shows.stocks.records]
  exact ⟨_, steps.tail (.await ht' hnone), rfl, taken.awaitRecord ht'⟩

/-! ## The taker is called -/

theorem Shows.takerTo (shows : h.Shows c w) (carries : Carries w w') {s : TakerSpot} {p : Post}
    {calls : List Bool} (fits : s.Fits p calls)
    (hothers : ∀ b, b ≠ c.taker → w'.station b = w.station b)
    (hself : w'.station c.taker = ⟨some p, calls, 0, []⟩) (stocks : Stocks c s h.records w'.queue)
    (hrounds : w'.rounds = w.rounds)
    (hnotes : ∀ r, w'.ready.count (.note r) = w.ready.count (.note r)) :
    ({ h with taker := s } : Hall).Shows c w' := by
  refine shows.turn carries (a := c.taker) (fun b hb => ?_) ?_ stocks ?_ (fun r => ?_)
    fun _ _ => .inl
  · rw [hothers b hb]
    exact (shows.stands b).congr ⟨rfl, fun _ => rfl, fun heq => absurd heq hb⟩
  · rw [hself]
    exact .taker rfl fits
  · rw [hrounds]
    exact shows.counts
  · rw [hnotes]
    exact shows.notes r

theorem Stocks.leave {n : Nat} {q : RecordQueue} {s s' : TakerSpot} (stocks : Stocks c s n q)
    (hs : s ≠ .waits) (hs' : s' ≠ .waits) : Stocks c s' n q := by
  refine ⟨stocks.capacity, stocks.refusal, stocks.records, stocks.unfinished, ?_⟩
  rw [stocks.getters, if_neg hs, if_neg hs']

theorem Shows.role_taker (shows : h.Shows c w) : w.role? c.taker = some .taker := by
  obtain ⟨p, _, fits, hstation⟩ := shows.taker
  rw [role?_eq, show w.post? c.taker = some p from (congrArg Station.post hstation :)]
  generalize h.taker = s at fits
  cases fits <;> rfl

theorem Shows.role_owner (shows : h.Shows c w) :
    w.role? c.owner = some (.collector 0 c.taker) := by
  obtain ⟨p, fits, hstation⟩ := shows.owner
  rw [role?_eq, show w.post? c.owner = some p from (congrArg Station.post hstation :)]
  generalize h.owner = s at fits
  cases fits <;> rfl

theorem Shows.closeTaker (shows : h.Shows c w) (ht : h.taker = .leaving) :
    ({ h with taker := .gone } : Hall).Shows c (w.close c.taker .cancelled) := by
  obtain ⟨p, calls, fits, hstation⟩ := shows.taker
  have stocks := shows.stocks
  rw [ht] at fits stocks
  cases fits with
  | leaving stage =>
      have hclose : w.close c.taker .cancelled = w.enter c.taker (.finished .cancelled) := by
        unfold Intake.close
        dsimp only
        rw [enter, role?_onActivity w _ _ (by exact fun _ => rfl), shows.role_taker]
      rw [hclose]
      refine shows.takerTo (.onActivity w _ (by exact fun _ => rfl) (by exact fun _ => rfl)) .gone
        (fun b hb => station_onActivity_of_ne w hb _) ?_ (stocks.leave (by simp) (by simp)) rfl
        fun _ => rfl
      rw [station_onActivity_self w _ (g := fun p => { p with stage := .finished .cancelled })
        (by exact fun _ => rfl), hstation]
      rfl

theorem Shows.attend_taker (shows : h.Shows c w)
    (hready : w.ready = before ++ .move c.taker calledOff :: after) {p : Post} {due : Bool}
    (hstation : w.station c.taker = ⟨some p, [due], 0, []⟩) (ht : h.taker ≠ .waits)
    {s : TakerSpot} (hs : s ≠ .waits) (fits : s.Fits { p with stopping := false } []) :
    calledOff = due ∧
      ({ h with taker := s } : Hall).Shows c (w.attend c.taker (before ++ after)) := by
  obtain ⟨heq, hself⟩ := station_attend_self w hready (congrArg Station.calls hstation :)
  refine ⟨heq, shows.takerTo (.attend w _ _) fits
    (fun b hb => station_attend_of_ne w hready hb) ?_ (shows.stocks.leave ht hs) rfl
    (count_note_attend w hready)⟩
  rw [hself, hstation]
  rfl

/-- A taker that is told to stop when all records are taken ends. -/
theorem Shows.act_taker_stopping (shows : h.Shows c w) (hnone : h.records = 0) (calledOff : Bool)
    {stage : Stage} (hstage : stage = .fresh ∨ stage = .awaitingRecord) :
    w.act c.taker .taker calledOff true stage = w.close c.taker .cancelled := by
  have hempty : w.queue.isEmpty = true :=
    List.isEmpty_iff_length_eq_zero.mpr (shows.stocks.records.trans hnone)
  rcases hstage with rfl | rfl
  · unfold Intake.act Intake.endOwner
    dsimp only
    rw [if_pos rfl, shows.role_taker]
  · unfold Intake.act Intake.stopTaking
    dsimp only
    rw [if_pos rfl, hempty, Bool.not_true, Bool.and_false, if_neg (by simp)]

/-- **The taker takes what there is when it is called**, and leaves when it was sent away. -/
theorem Shows.move_taker (shows : h.Shows c w) (sane : h.Sane c)
    (hready : w.ready = before ++ .move c.taker calledOff :: after) :
    ∃ h₁ h', Attends c c.taker h h₁ ∧ Steps c h₁ h' ∧ h'.taker.moves = false ∧
      h'.Shows c (({ w with ready := before ++ after } : Intake).move c.taker calledOff) ∧
      (({ w with ready := before ++ after } : Intake).move c.taker calledOff).reported =
        w.reported := by
  obtain ⟨p, calls, fits, hstation⟩ := shows.taker
  have hpost : w.post? c.taker = some p := (congrArg Station.post hstation :)
  have hdue := calls_of_ready w hready
  rw [show w.calls c.taker = calls from (congrArg Station.calls hstation :)] at hdue
  rw [post?_eq, Option.map_eq_some_iff] at hpost
  obtain ⟨x, hx, rfl⟩ := hpost
  obtain ⟨role, stage, waiting, stopping, result⟩ := x
  rw [move_eq_act hx]
  have hreported : (w.attend c.taker (before ++ after)).reported = w.reported := rfl
  cases htaker : h.taker
  all_goals rw [htaker] at fits
  case waits | taking | leaving | gone =>
    cases fits
    simp at hdue
  case due =>
    obtain ⟨rfl, rfl, rfl, rfl, hstage⟩ : role = .taker ∧ waiting = false ∧ stopping = false ∧
        calls = [false] ∧ (stage = .fresh ∨ stage = .awaitingRecord) := by
      cases fits with
      | due h => exact ⟨rfl, rfl, rfl, rfl, h⟩
    obtain ⟨rfl, attended⟩ := shows.attend_taker hready hstation (by simp [htaker]) (by simp)
      (.taking stage)
    generalize w.attend c.taker (before ++ after) = v at attended hreported
    have attends : Attends c c.taker h { h with taker := .taking } := .takes htaker
    obtain ⟨h', steps, hwaits, shown⟩ := attended.takeRecords sane.within rfl
    have htaken := (reported_takeRecords v c.taker).trans hreported
    refine ⟨_, h', attends, steps, by rw [hwaits]; rfl, ?_⟩
    rcases hstage with rfl | rfl <;> exact ⟨shown, htaken⟩
  case dismissed =>
    obtain ⟨rfl, rfl, due, rfl, hstops, hstage⟩ : role = .taker ∧ waiting = false ∧ ∃ due,
        calls = [due] ∧ (due || stopping) = true ∧ (stage = .fresh ∨ stage = .awaitingRecord) := by
      cases fits with
      | dismissed h stops => exact ⟨rfl, rfl, _, rfl, stops, h⟩
    obtain ⟨rfl, attended⟩ := shows.attend_taker hready hstation (by simp [htaker]) (by simp)
      (.leaving stage)
    generalize w.attend c.taker (before ++ after) = v at attended hreported
    have hspent := sane.inTurn.spent (.inr (.inr (sane.inTurn.staff.mpr (.inl htaker))))
    refine ⟨_, _, .leaves htaker, .single (.leave rfl), rfl, ?_⟩
    rw [hstops, attended.act_taker_stopping hspent calledOff hstage]
    exact ⟨attended.closeTaker rfl, (reported_close v c.taker .cancelled).trans hreported⟩

/-! ## The owner is called -/

theorem Shows.ownerTo (shows : h.Shows c w) (carries : Carries w w') {s : OwnerSpot} {p : Post}
    (fits : s.Fits c p) (hothers : ∀ b, b ≠ c.owner → w'.station b = w.station b)
    (hself : w'.station c.owner = ⟨some p, s.calls, 0, []⟩) (hqueue : w'.queue = w.queue)
    (counts : ∃ x, w'.rounds = [x] ∧ Counts c h.ended h.permits x)
    (hnotes : ∀ r, w'.ready.count (.note r) = w.ready.count (.note r)) :
    ({ h with owner := s } : Hall).Shows c w' := by
  refine shows.turn carries (a := c.owner) (fun b hb => ?_) ?_ ?_ counts (fun r => ?_)
    fun _ _ => .inl
  · rw [hothers b hb]
    exact (shows.stands b).congr ⟨rfl, fun heq => absurd heq hb, fun _ => rfl⟩
  · rw [hself]
    exact .owner rfl fits
  · rw [hqueue]
    exact shows.stocks
  · rw [hnotes]
    exact shows.notes r

theorem Shows.attend_owner (shows : h.Shows c w)
    (hready : w.ready = before ++ .move c.owner calledOff :: after) {p : Post}
    (hstation : w.station c.owner = ⟨some p, [false], 0, []⟩) {s : OwnerSpot} (hs : s.calls = [])
    (fits : s.Fits c { p with stopping := false }) : calledOff = false ∧
      ({ h with owner := s } : Hall).Shows c (w.attend c.owner (before ++ after)) := by
  obtain ⟨heq, hself⟩ := station_attend_self w hready (congrArg Station.calls hstation :)
  refine ⟨heq, shows.ownerTo (.attend w _ _) fits
    (fun b hb => station_attend_of_ne w hready hb) ?_ rfl shows.counts
    (count_note_attend w hready)⟩
  rw [hself, hstation, hs]
  rfl

/-- What runs came to is the same once somebody is called. -/
theorem endedWith_of_attend {ready : List Call} {r : RunResult}
    (hm : (w.attend a ready).EndedWith m r) : w.EndedWith m r := by
  obtain ⟨spec, outcome, hphase⟩ := hm
  refine ⟨spec, outcome, ?_⟩
  rw [← hphase, affairs, affairs, Intake.attend,
    view_onActivity_of_unseen _ _ (by exact fun _ => rfl)]
  rfl

theorem leaveLines_of_taker (hrole : w.role? a = some .taker) : w.leaveLines a =
    { w with queue := w.queue.leave a, gateLine := w.gateLine.filter fun e => e.2 != a } := by
  unfold Intake.leaveLines
  dsimp only
  rw [show ({ w with
    queue := w.queue.leave a
    gateLine := w.gateLine.filter fun e => e.2 != a } : Intake).role? a = some .taker from hrole]

/-- The taker has a place in the line of those who wait for records alone. -/
theorem Shows.station_leaveLines_taker (shows : h.Shows c w) (b : ActivityId) :
    (w.leaveLines c.taker).station b = w.station b := by
  obtain ⟨p, calls, -, hstation⟩ := shows.taker
  have hputters : (w.queue.putters.erase c.taker).count b = w.queue.putters.count b := by
    by_cases hb : b = c.taker
    · rw [hb, List.count_erase_self,
        show w.queue.putters.count c.taker = 0 from (congrArg Station.putting hstation :)]
    · exact List.count_erase_of_ne hb
  rw [leaveLines_of_taker shows.role_taker, station, station]
  dsimp only [RecordQueue.leave]
  rw [hputters]
  rfl

theorem Shows.callOffTaker_of_waits (shows : h.Shows c w) (ht : h.taker = .waits) :
    ({ h with taker := .dismissed } : Hall).Shows c (w.callOff c.taker).1 := by
  obtain ⟨p, calls, fits, hstation⟩ := shows.taker
  have stocks := shows.stocks
  have hpost : w.post? c.taker = some p := (congrArg Station.post hstation :)
  rw [post?_eq, Option.map_eq_some_iff] at hpost
  obtain ⟨⟨role, stage, waiting, stopping, result⟩, hx, rfl⟩ := hpost
  rw [ht] at fits stocks
  obtain ⟨rfl, rfl, rfl, rfl, rfl⟩ : role = .taker ∧ stage = .awaitingRecord ∧ waiting = true ∧
      stopping = false ∧ calls = [] := by
    cases fits
    exact ⟨rfl, rfl, rfl, rfl, rfl⟩
  have hleave := leaveLines_of_taker shows.role_taker
  have carries : Carries w (w.leaveLines c.taker) := by
    rw [hleave]
    exact ⟨rfl, rfl, rfl, fun _ => rfl, fun _ => id, id⟩
  unfold Intake.callOff
  rw [hx]
  dsimp only
  rw [if_pos rfl]
  have fits' : TakerSpot.Fits .dismissed ⟨.taker, .awaitingRecord, false, false⟩ [true] :=
    .dismissed (.inr rfl) rfl
  refine shows.takerTo ((carries.trans (.onActivity _ _ (by exact fun _ => rfl)
    (by exact fun _ => rfl))).trans (.call _ _)) fits' (fun b hb => ?_) ?_ ?_ ?_ fun r => ?_
  · rw [station_call_of_ne _ hb, station_onActivity_of_ne _ hb, shows.station_leaveLines_taker]
  · rw [station_call, station_onActivity_self _ _ (g := Post.awake) (by exact fun _ => rfl),
      shows.station_leaveLines_taker, hstation, Call.calledOff?, if_pos rfl]
    rfl
  · rw [hleave]
    refine ⟨stocks.capacity, stocks.refusal, stocks.records, stocks.unfinished, ?_⟩
    show w.queue.getters.erase c.taker = []
    rw [stocks.getters, if_pos rfl, List.erase_cons_head]
  · rw [hleave]
    rfl
  · rw [hleave]
    show (w.ready ++ [Call.move c.taker true]).count _ = _
    simp

theorem Shows.callOffTaker_of_due (shows : h.Shows c w) (ht : h.taker = .due) :
    ({ h with taker := .dismissed } : Hall).Shows c (w.callOff c.taker).1 := by
  obtain ⟨p, calls, fits, hstation⟩ := shows.taker
  have stocks := shows.stocks
  have hpost : w.post? c.taker = some p := (congrArg Station.post hstation :)
  rw [post?_eq, Option.map_eq_some_iff] at hpost
  obtain ⟨⟨role, stage, waiting, stopping, result⟩, hx, rfl⟩ := hpost
  rw [ht] at fits stocks
  obtain ⟨rfl, rfl, rfl, rfl, hstage⟩ : role = .taker ∧ waiting = false ∧ stopping = false ∧
      calls = [false] ∧ (stage = .fresh ∨ stage = .awaitingRecord) := by
    cases fits with
    | due h => exact ⟨rfl, rfl, rfl, rfl, h⟩
  have fits' : TakerSpot.Fits .dismissed ⟨.taker, stage, false, true⟩ [false] :=
    .dismissed hstage rfl
  have told : ({ h with taker := .dismissed } : Hall).Shows c
      (w.onActivity c.taker fun x => { x with stopping := true }) := by
    refine shows.takerTo (.onActivity _ _ (by exact fun _ => rfl) (by exact fun _ => rfl)) fits'
      (fun b hb => station_onActivity_of_ne w hb _) ?_ (stocks.leave (by simp) (by simp)) rfl
      fun _ => rfl
    rw [station_onActivity_self w _ (g := fun p => { p with stopping := true })
      (by exact fun _ => rfl), hstation]
    rfl
  unfold Intake.callOff
  rw [hx]
  rcases hstage with rfl | rfl <;> exact told

/-- The taker is sent away. -/
theorem Shows.callOffTaker (shows : h.Shows c w) (ht : h.taker = .waits ∨ h.taker = .due) :
    ({ h with taker := .dismissed } : Hall).Shows c (w.callOff c.taker).1 :=
  ht.elim shows.callOffTaker_of_waits shows.callOffTaker_of_due

theorem Shows.closeOwner (shows : h.Shows c w) (ho : h.owner.moves = true) :
    ({ h with owner := .gone } : Hall).Shows c (w.close c.owner .done) := by
  obtain ⟨p, fits, hstation⟩ := shows.owner
  have hclose : w.close c.owner .done = w.enter c.owner (.finished .done) := by
    unfold Intake.close
    dsimp only
    rw [enter, role?_onActivity w _ _ (by exact fun _ => rfl), shows.role_owner]
  rw [hclose]
  refine shows.ownerTo (.onActivity w _ (by exact fun _ => rfl) (by exact fun _ => rfl)) .gone
    (fun b hb => station_onActivity_of_ne w hb _) ?_ rfl shows.counts fun _ => rfl
  rw [station_onActivity_self w _ (g := fun p => { p with stage := .finished .done })
    (by exact fun _ => rfl), hstation]
  generalize h.owner = s at ho fits
  cases fits <;> first | rfl | cases ho

theorem Shows.endOwner (shows : h.Shows c w) (ho : h.owner.moves = true)
    (ht : h.taker = .waits ∨ h.taker = .due) :
    ({ h with owner := .gone, taker := .dismissed } : Hall).Shows c (w.endOwner c.owner .done) := by
  have closed := (shows.callOffTaker ht).closeOwner ho
  unfold Intake.endOwner
  rw [shows.role_owner]
  exact closed

theorem Shows.account (shows : h.Shows c w) (hm : m ∈ c.members)
    (hgone : (h.spot m).isGone = true) : (w.account m).isSome = true := by
  obtain ⟨p, fits, hstation⟩ := shows.member hm
  have hpost : w.post? m = some p := (congrArg Station.post hstation :)
  have hresult : (w.result? m).isSome = true := by
    refine shows.results m hm ?_
    generalize h.spot m = s at hgone
    obtain ⟨errand, pace⟩ := s
    cases errand <;> first | rfl | cases hgone
  have hstage : ∃ outcome, p.stage = .finished outcome ∧ outcome ≠ .cancelled := by
    generalize h.spot m = s at hgone fits
    cases fits with
    | moves j stage he => exact absurd (beq_iff_eq.mp hgone) he
    | gone j houtcome => exact ⟨_, rfl, houtcome⟩
    | _ => cases hgone
  obtain ⟨outcome, hstage, houtcome⟩ := hstage
  rw [post?_eq, Option.map_eq_some_iff] at hpost
  obtain ⟨⟨role, stage, waiting, stopping, result⟩, hx, rfl⟩ := hpost
  cases hstage
  rw [result?, hx, Option.bind_some] at hresult
  obtain ⟨r, rfl⟩ := Option.isSome_iff_exists.mp hresult
  rw [Intake.account, hx, Option.bind_some]
  cases outcome <;> first | rfl | exact absurd rfl houtcome

theorem Shows.accounts (shows : h.Shows c w) (hgone : ∀ m, (h.spot m).isGone = true)
    {members : List ActivityId} (hmembers : ∀ m ∈ members, m ∈ c.members) :
    ∃ results, (w.accounts members).2 = some results := by
  induction members with
  | nil => exact ⟨[], rfl⟩
  | cons m rest ih =>
      obtain ⟨results, hresults⟩ := ih fun b hb => hmembers b (List.mem_cons_of_mem _ hb)
      obtain ⟨account, haccount⟩ := Option.isSome_iff_exists.mp
        (shows.account (hmembers m List.mem_cons_self) (hgone m))
      refine ⟨account.1 :: results, ?_⟩
      rw [Intake.accounts, haccount]
      dsimp only
      rw [hresults]
      rfl

theorem Shows.join_owner (shows : h.Shows c w) (ho : h.owner = .counting) :
    ({ h with owner := .joining } : Hall).Shows c (w.suspend c.owner .joining) := by
  obtain ⟨p, fits, hstation⟩ := shows.owner
  rw [ho] at fits hstation
  refine shows.ownerTo (.onActivity _ _ (by exact fun _ => rfl) (by exact fun _ => rfl)) .joining
    (fun b hb => station_onActivity_of_ne _ hb _) ?_ rfl shows.counts fun _ => rfl
  rw [station_onActivity_self _ _ (g := fun p => { p with stage := .joining, waiting := true })
    (by exact fun _ => rfl), hstation]
  cases fits
  rfl

/-- The owner gathers the results when all have ended. It ends if all records are taken already. -/
theorem Shows.gather (shows : h.Shows c w) (hgone : ∀ m, (h.spot m).isGone = true)
    (ho : h.owner = .counting) (ht : h.taker = .waits ∨ h.taker = .due) :
    ∃ h' results, Steps c h h' ∧ (h'.owner = .joining ∨ h'.owner = .gone) ∧
      (w.accounts c.members).2 = some results ∧ (w.gather c.owner 0).reported = [results] ∧
      h'.Shows c (w.gather c.owner 0) := by
  obtain ⟨x, hx, counts⟩ := shows.counts
  obtain ⟨results, hresults⟩ := shows.accounts hgone (fun _ hm => hm)
  have hgather : w.gather c.owner 0 = ((w.log (w.accounts c.members).1).log
      [Round.summaryEntry results]).endRound c.owner 0 results := by
    unfold Intake.gather
    rw [hx]
    dsimp only [List.getElem?_cons_zero]
    rw [counts.members, hresults]
  rw [hgather]
  have logged := (shows.log (w.accounts c.members).1).log [Round.summaryEntry results]
  have hrounds : ((w.log (w.accounts c.members).1).log [Round.summaryEntry results]).rounds = [x] :=
    hx
  generalize (w.log _).log _ = v at logged hrounds
  have hreported : (v.endRound c.owner 0 results).reported = [results] := by
    rw [reported_endRound, Intake.reported, Intake.onRound, hrounds]
    rfl
  have filed : h.Shows c (v.onRound 0 fun x => { x with results := results }) :=
    logged.recount hrounds (fun _ => rfl)
      ⟨counts.owner, counts.members, counts.stopping, counts.ended, counts.free⟩
  have hcollects : v.endRound c.owner 0 results =
      if h.records = 0 then
        (v.onRound 0 fun x => { x with results := results }).endOwner c.owner .done
      else (v.onRound 0 fun x => { x with results := results }).suspend c.owner .joining := by
    unfold Intake.endRound
    dsimp only
    rw [filed.role_owner]
    dsimp only
    rw [filed.stocks.unfinished]
  by_cases hnone : h.records = 0
  · rw [if_pos hnone] at hcollects
    refine ⟨_, results, .single (.dismiss (.inl ⟨ho, hnone⟩) ht), .inr rfl, hresults, hreported, ?_⟩
    rw [hcollects]
    exact filed.endOwner (by rw [ho]; rfl) ht
  · rw [if_neg hnone] at hcollects
    refine ⟨_, results, .single (.joinTaker ho (by omega)), .inl rfl, hresults, hreported, ?_⟩
    rw [hcollects]
    exact filed.join_owner ho

def Files (c : Crew) (w w' : Intake) : Prop :=
  ∃ results, w'.reported = [results] ∧ List.Forall₂ w.EndedWith c.members results

/-- **The owner goes on when it is called**, with the results of all members or to its end. -/
theorem Shows.move_owner (shows : h.Shows c w) (sane : h.Sane c) (hstill : h.taker.moves = false)
    (hready : w.ready = before ++ .move c.owner calledOff :: after) :
    ∃ h₁ h', Attends c c.owner h h₁ ∧ Steps c h₁ h' ∧ h'.owner.moves = false ∧
      h'.Shows c (({ w with ready := before ++ after } : Intake).move c.owner calledOff) ∧
      (Files c w (({ w with ready := before ++ after } : Intake).move c.owner calledOff) ∨
        h.owner = .roused ∧
          (({ w with ready := before ++ after } : Intake).move c.owner calledOff).reported =
            w.reported) := by
  obtain ⟨p, fits, hstation⟩ := shows.owner
  have hpost : w.post? c.owner = some p := (congrArg Station.post hstation :)
  have hdue := calls_of_ready w hready
  rw [show w.calls c.owner = h.owner.calls from (congrArg Station.calls hstation :)] at hdue
  have hstaff := sane.inTurn.staff
  have htaker (ho : h.owner ≠ .gone) : h.taker = .waits ∨ h.taker = .due := by
    cases htaker : h.taker <;> rw [htaker] at hstaff hstill
    · exact .inl rfl
    · exact .inr rfl
    · cases hstill
    all_goals exact absurd (hstaff.mpr (by simp)) ho
  rw [post?_eq, Option.map_eq_some_iff] at hpost
  obtain ⟨x, hx, rfl⟩ := hpost
  obtain ⟨role, stage, waiting, stopping, result⟩ := x
  rw [move_eq_act hx]
  cases howner : h.owner
  all_goals rw [howner] at fits hdue hstation
  case gathering | counting | joining | ending | gone => simp [OwnerSpot.calls] at hdue
  case called =>
    obtain ⟨rfl, rfl, rfl, rfl⟩ : role = .collector 0 c.taker ∧ stage = .gathering ∧
        waiting = false ∧ stopping = false := by
      cases fits
      exact ⟨rfl, rfl, rfl, rfl⟩
    obtain ⟨rfl, attended⟩ := shows.attend_owner hready hstation rfl (.counting _)
    have hall : ∀ m, (h.spot m).isGone = true := by
      have hgathering := sane.gathering
      have hended := sane.ended
      have hle := finished_le c h
      rw [howner] at hgathering
      refine sane.isGone_of_ended ?_
      have hnot : ¬h.ended < c.members.length := fun hlt => by
        cases hgathering.mpr hlt
      omega
    obtain ⟨h', results, steps, hgone, hresults, hfiled, shown⟩ := attended.gather hall rfl
      (htaker (by rw [howner]; simp))
    have hends := ended_of_accounts hresults fun m hm => ⟨_, attended.specOf? hm⟩
    exact ⟨_, h', .gathers howner, steps, by rcases hgone with hgone | hgone <;> rw [hgone] <;> rfl,
      shown, .inl ⟨results, hfiled, List.Forall₂.imp (fun _ _ => endedWith_of_attend) hends⟩⟩
  case roused =>
    obtain ⟨rfl, rfl, rfl, rfl⟩ : role = .collector 0 c.taker ∧ stage = .joining ∧
        waiting = false ∧ stopping = false := by
      cases fits
      exact ⟨rfl, rfl, rfl, rfl⟩
    obtain ⟨rfl, attended⟩ := shows.attend_owner hready hstation rfl (.ending _)
    have ht := htaker (by rw [howner]; simp)
    exact ⟨_, _, .ends howner, .single (.dismiss (.inr rfl) ht), rfl, attended.endOwner rfl ht,
      .inr ⟨rfl, reported_endOwner (w.attend c.owner (before ++ after)) _ _⟩⟩

/-! ## Ends are noted -/

/-- A note in line tells of a member that has ended. -/
theorem Shows.note_in_line (shows : h.Shows c w) {r : RoundId}
    (hready : w.ready = before ++ .note r :: after) : r = 0 ∧ ∃ n, h.notes = n + 1 ∧
      ∀ s, (before ++ after).count (.note s) = if s = 0 then n else 0 := by
  have hcount (s : RoundId) := shows.notes s
  simp only [hready, List.count_append, List.count_cons, beq_iff_eq, Call.note.injEq] at hcount
  obtain rfl : r = 0 := by
    by_contra hr
    have hnone := hcount r
    rw [if_pos rfl, if_neg hr] at hnone
    omega
  have hzero := hcount 0
  rw [if_pos rfl, if_pos rfl] at hzero
  refine ⟨rfl, (before ++ after).count (.note 0), ?_, fun s => ?_⟩
  · rw [List.count_append]
    omega
  · split
    · rename_i hs
      rw [hs]
    · rename_i hs
      have hother := hcount s
      rw [if_neg hs, if_neg (Ne.symm hs)] at hother
      rw [List.count_append]
      exact hother

theorem Shows.tally (shows : h.Shows c w) (hready : w.ready = before ++ .note 0 :: after) {n : Nat}
    (hleft : ∀ s, (before ++ after).count (.note s) = if s = 0 then n else 0) :
    ({ h with notes := n, ended := h.ended + 1 } : Hall).Shows c
      (({ w with ready := before ++ after } : Intake).onRound 0 fun x =>
        { x with ended := x.ended + 1 }) := by
  obtain ⟨x, hx, counts⟩ := shows.counts
  have hsame (b : ActivityId) : ({ h with notes := n, ended := h.ended + 1 } : Hall).Stands c b
      ((({ w with ready := before ++ after } : Intake).onRound 0 fun x =>
        { x with ended := x.ended + 1 }).station b) := by
    have hcalls : calls { w with ready := before ++ after } b = w.calls b := by
      rw [calls, calls, hready, List.filterMap_append, List.filterMap_append, List.filterMap_cons]
      rfl
    have hstays : (({ w with ready := before ++ after } : Intake).onRound 0 fun x =>
        { x with ended := x.ended + 1 }).station b = w.station b := by
      rw [station_onRound (w := { w with ready := before ++ after }) hx, ← places_station hx b,
        station, station, hcalls]
      rfl
    rw [hstays]
    exact (shows.stands b).congr ⟨rfl, fun _ => rfl, fun _ => rfl⟩
  exact shows.turn ⟨rfl, rfl, rfl, fun _ => rfl, fun _ => id, id⟩ (a := c.owner)
    (fun b _ => hsame b) (hsame _) shows.stocks
    ⟨{ x with ended := x.ended + 1 }, by simp [onRound, hx], counts.owner, counts.members,
      counts.stopping, congrArg (· + 1) counts.ended, counts.free⟩ hleft fun _ _ => .inl

theorem Shows.callOwner (shows : h.Shows c w) (ho : h.owner = .gathering) :
    ({ h with owner := .called } : Hall).Shows c (w.wake c.owner) := by
  obtain ⟨p, fits, hstation⟩ := shows.owner
  rw [ho] at fits hstation
  refine shows.ownerTo (.wake w _) .called (fun b hb => station_wake_of_ne w hb) ?_ rfl
    shows.counts fun r => count_note_wake w _ r
  rw [station_wake_self, hstation]
  cases fits
  rfl

/-- **The owner takes note of a member that has ended**, and is called after the last one. -/
theorem Shows.note (shows : h.Shows c w) (sane : h.Sane c) {r : RoundId}
    (hready : w.ready = before ++ .note r :: after) :
    ∃ h', Notes c h h' ∧ h'.Shows c (({ w with ready := before ++ after } : Intake).note r) := by
  obtain ⟨rfl, n, hn, hleft⟩ := shows.note_in_line hready
  have howner : h.owner = .gathering := by
    have hended := sane.ended
    have hle := finished_le c h
    exact sane.gathering.mpr (by omega)
  have tallied := shows.tally hready hleft
  obtain ⟨x, hx, counts⟩ := tallied.counts
  refine ⟨_, .note hn, ?_⟩
  unfold Intake.note
  dsimp only
  rw [hx]
  dsimp only [List.getElem?_cons_zero]
  rw [counts.ended, counts.members, counts.owner, counts.stopping]
  by_cases hlast : h.ended + 1 = c.members.length
  · rw [if_pos hlast, if_pos hlast]
    exact tallied.callOwner howner
  · rw [if_neg hlast, if_neg hlast]
    exact tallied

end

end Hall

end FeedIntake
