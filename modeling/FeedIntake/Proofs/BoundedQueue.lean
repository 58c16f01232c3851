import FeedIntake.Proofs.Endings
import FeedIntake.Proofs.Order

/-! # The queue of many runs

Any number of runs put their records into one queue with room for so many, and wait when it is full.
Records are taken one by one or all at once, and runs are cancelled at any moment. Through all of
this the queue holds what every run says that it has put, less what was taken, in the order of the
puts, and never more than there is room for.
-/

namespace FeedIntake

open Intake

/-! ## Room -/

namespace RecordQueue

/-- There is room for so many records, no more are there, and none of them is done with. -/
structure Within (c : Nat) (q : RecordQueue) : Prop where
  capacity : q.capacity = c
  length_le : q.records.length ≤ c
  unfinished : q.unfinished = q.records.length

def stock (q : RecordQueue) : Nat × List Record × Nat := (q.capacity, q.records, q.unfinished)

theorem Within.congr {c : Nat} {q q' : RecordQueue} (h : q.Within c) (hstock : q'.stock = q.stock) :
    q'.Within c := by
  obtain ⟨hcapacity, hrest⟩ := Prod.mk.inj hstock
  obtain ⟨hrecords, hunfinished⟩ := Prod.mk.inj hrest
  exact ⟨hcapacity.trans h.capacity, hrecords ▸ h.length_le,
    by rw [hunfinished, hrecords, h.unfinished]⟩

theorem Within.push {c : Nat} (hc : 1 ≤ c) {q : RecordQueue} (h : q.Within c)
    (room : q.isFull = false) (record : Record) : (q.push record).1.Within c where
  capacity := h.capacity
  length_le := by
    have hcapacity : q.capacity ≠ 0 := by
      rw [h.capacity]
      omega
    have hroom : q.records.length < c := by
      simpa [isFull, hcapacity, ← h.capacity] using room
    rw [push_records, List.length_append, List.length_singleton]
    omega
  unfinished := by
    show q.unfinished + 1 = (q.records ++ [record]).length
    rw [h.unfinished, List.length_append, List.length_singleton]

theorem Within.pop {c : Nat} {q q' : RecordQueue} (h : q.Within c) {record : Record}
    {putter : Option ActivityId} (hpop : q.pop = some (record, q', putter)) :
    q'.settleOne.Within c := by
  have hrecords := pop_records hpop
  have hlength := h.length_le
  have hunfinished := h.unfinished
  have hcapacity := h.capacity
  rw [hrecords, List.length_cons] at hlength hunfinished
  unfold RecordQueue.pop at hpop
  split at hpop
  · cases hpop
  · cases hpop
    refine ⟨hcapacity, by dsimp only [settleOne] at *; omega, ?_⟩
    dsimp only [settleOne] at *
    omega

end RecordQueue

namespace Intake

section

variable (w : Intake) (a : ActivityId)

theorem queue_close (outcome : RunOutcome) : (w.close a outcome).queue = w.queue := by
  unfold close
  dsimp only
  split <;> rfl

theorem stock_callOff : (w.callOff a).1.queue.stock = w.queue.stock := by
  rcases callOff_cases w a with ⟨heq, -⟩ | ⟨p, -, -, ⟨-, heq⟩ | ⟨-, heq⟩⟩ <;> rw [heq]
  · show (w.leaveLines a).queue.stock = _
    rw [leaveLines_queue]
    rfl
  · rfl

theorem stock_cancel : (w.cancel a).1.queue.stock = w.queue.stock :=
  cancel_induction (P := fun v => v.queue.stock = w.queue.stock) rfl
    (fun v m hv => (stock_callOff v m).trans hv) (fun _ _ hv => hv) fun _ hv => hv

theorem stock_endOwner (outcome : RunOutcome) :
    (w.endOwner a outcome).queue.stock = w.queue.stock := by
  unfold endOwner
  split
  · rw [queue_close, stock_callOff]
  · rw [queue_close]

theorem stock_endRound (r : RoundId) (results : List RunResult) :
    (w.endRound a r results).queue.stock = w.queue.stock := by
  unfold endRound
  dsimp only
  split
  · split
    · exact stock_endOwner _ a .done
    · rfl
  · exact stock_endOwner _ a .done

theorem stock_gather (r : RoundId) : (w.gather a r).queue.stock = w.queue.stock := by
  unfold gather
  split
  · rfl
  · dsimp only
    split
    · exact stock_endOwner _ a .cancelled
    · exact stock_endRound _ a r _

theorem queue_note (r : RoundId) : (w.note r).queue = w.queue := by
  unfold note
  dsimp only
  split
  · rfl
  · split <;> rfl

theorem stock_beginRound (r : RoundId) : (w.beginRound a r).queue.stock = w.queue.stock :=
  beginRound_induction (P := fun v => v.queue.stock = w.queue.stock)
    (Q := fun v => v.queue.stock = w.queue.stock) rfl (stock_endRound w a r [])
    (fun _ _ => stock_endOwner _ a _) (fun _ _ => rfl) (fun _ _ _ hv => hv) fun _ hv => hv

theorem stock_stopTaking (woken : Bool) : (w.stopTaking a woken).queue.stock = w.queue.stock := by
  unfold stopTaking
  dsimp only
  split
  · rw [queue_close, withQueue, queue_wakeAny]
    rfl
  · rw [queue_close]

variable {w a} {c : Nat}

theorem takeRecord_within (h : w.queue.Within c) : w.takeRecord.queue.Within c := by
  refine takeRecord_induction (P := fun v => v.queue.Within c) h (fun hpop => ?_) fun _ _ _ hv => hv
  rw [withQueue, queue_wakeAny]
  exact RecordQueue.Within.pop h hpop

theorem takeRecords_within (h : w.queue.Within c) : (w.takeRecords a).queue.Within c :=
  RecordQueue.Within.congr (repeat_takeRecord_induction (P := fun v => v.queue.Within c) _ h
    fun _ => takeRecord_within) rfl

theorem takeOne_within {w' : Intake} {record : Record} (h : w.queue.Within c)
    (htake : w.takeOne = some (record, w')) : w'.queue.Within c := by
  obtain ⟨⟨first, queue, putter⟩, hpop, heq⟩ := Option.map_eq_some_iff.mp htake
  cases heq
  rw [withQueue, queue_wakeAny]
  exact RecordQueue.Within.pop h hpop

end

end Intake

theorem Motion.within {c : Nat} (hc : 1 ≤ c) {a : ActivityId} {w w' : Intake}
    (motion : Motion a w w') (h : w.queue.Within c) : w'.queue.Within c := by
  cases motion with
  | aside hscene =>
      have hqueue := congrArg (fun s => s.queue.stock) hscene
      exact h.congr hqueue
  | push record room =>
      rw [withQueue, queue_wakeAny]
      exact h.push hc room record
  | passOn =>
      rw [withQueue, queue_wakeAny]
      exact h.congr rfl
  | take hr free => exact h
  | moveOn hr | giveUp hr | release hr =>
      rw [withPermits, queue_wakeAny]
      exact h

theorem Halt.within {c : Nat} {a : ActivityId} {w w' : Intake} (halt : Halt a w w')
    (h : w.queue.Within c) : w'.queue.Within c := by
  cases halt with
  | finish outcome =>
      rw [queue_close]
      exact h
  | _ => exact h.congr rfl

theorem Pursuit.within {c : Nat} (hc : 1 ≤ c) {a : ActivityId} {w w' : Intake}
    (pursuit : Pursuit a w w') (h : w.queue.Within c) : w'.queue.Within c := by
  obtain ⟨u, motions, halt⟩ := pursuit
  refine halt.within ?_
  clear halt
  induction motions with
  | refl => exact h
  | tail _ motion ih => exact motion.within hc ih

namespace Intake

section

variable {c : Nat} {w w' : Intake} {a : ActivityId}

theorem act_within (h : w.queue.Within c) {role : Role} (hidle : role.job? = none)
    (hrole : w.role? a = some role) (calledOff stop : Bool) (stage : Stage) :
    (w.act a role calledOff stop stage).queue.Within c := by
  have move := act_idleMove hrole (.inl hidle : _ ∨ stage = .awaitingRecord) calledOff stop
  generalize w.act a role calledOff stop stage = v at move ⊢
  cases move with
  | rest => exact h
  | ends outcome => exact h.congr (stock_endOwner w a outcome)
  | begins r => exact h.congr (stock_beginRound w a r)
  | gathers r => exact h.congr (stock_gather w a r)
  | takes => exact takeRecords_within h
  | stops woken => exact h.congr (stock_stopTaking w a woken)

theorem happen_within {S : ActivityId → Prop} (hc : 1 ≤ c) (horder : Orderly S w)
    {before after : List Call} {call : Call} (hready : w.ready = before ++ call :: after)
    (h : w.queue.Within c) :
    (({ w with ready := before ++ after } : Intake).happen call).queue.Within c := by
  cases call with
  | note r =>
      show (note _ r).queue.Within c
      rw [queue_note]
      exact h
  | move a calledOff =>
      show (Intake.move _ a calledOff).queue.Within c
      cases hx : w.activity? a with
      | none =>
          rw [move_of_nobody hx]
          exact h
      | some x =>
          have hp : w.post? a = some x.post := by rw [post?_eq, hx, Option.map_some]
          cases hjob : x.role.job? with
          | none =>
              rw [move_eq_act hx]
              refine act_within (w := w.attend a (before ++ after)) h hjob ?_ _ _ _
              rw [role?_eq, post?_attend hp, Option.map_some]
              rfl
          | some j =>
              have hrun : x.post.role.job?.isSome = true := by
                rw [show x.post.role = x.role from rfl, hjob]
                rfl
              exact (horder.move_pursuit hready hp hrun).2.2.within hc h

theorem queue_openGate (w : Intake) (source : String) : (w.openGate source).queue = w.queue :=
  openGate_induction (P := fun v => v.queue = w.queue) source (fun _ _ => rfl) fun _ _ hv => hv

theorem Step.within {S : ActivityId → Prop} (hc : 1 ≤ c) (step : Step w w')
    (horder : Orderly S w) (h : w.queue.Within c) : w'.queue.Within c := by
  cases step with
  | happen before call after hready => exact happen_within hc horder hready h
  | openGate source =>
      rw [queue_openGate]
      exact h
  | cancel a => exact h.congr (stock_cancel w a)
  | takeOne htake => exact takeOne_within h htake
  | _ => exact h.congr rfl

theorem Reaches.within {S : ActivityId → Prop} (hc : 1 ≤ c) (reach : Reaches w w')
    (horder : Orderly S w) (h : w.queue.Within c) : w'.queue.Within c := by
  induction reach with
  | refl => exact h
  | tail steps step ih => exact step.within hc (Reaches.orderly steps horder) ih

end

end Intake

/-! ## What a cancelled run does no more -/

namespace Affairs

variable {a b : ActivityId} {spec : JobSpec} {s t : Affairs}

theorem Turns.deedsOf_of_ne (turns : Turns b spec s t) (h : a ≠ b) :
    t.history.deedsOf a = s.history.deedsOf a := by
  induction turns with
  | refl => rfl
  | tail _ turn ih =>
      rcases turn.effect with ⟨hhistory, -⟩ | ⟨deed, hhistory, -⟩
      · rw [hhistory, ih]
      · rw [hhistory, History.deedsOf_did_of_ne (Ne.symm h), ih]

theorem Takes.deedsOf (takes : Takes s t) (a : ActivityId) :
    t.history.deedsOf a = s.history.deedsOf a := by
  induction takes with
  | refl => rfl
  | tail _ take ih =>
      rw [← ih]
      cases take
      exact History.deedsOf_taken

end Affairs

namespace Intake

/-- Whatever happens, records are taken, or a run moves that takes turns. -/
theorem Step.takes_or_moves {w w' : Intake} (step : Step w w') (htidy : w.affairs.Tidy) :
    Affairs.Takes w.affairs w'.affairs ∨ ∃ before a calledOff after spec,
      w.ready = before ++ .move a calledOff :: after ∧
      w' = ({ w with ready := before ++ after } : Intake).move a calledOff ∧
      w.specOf? a = some spec ∧ Affairs.Turns a spec w.affairs w'.affairs := by
  have hstays {v : Intake} (h : v.affairs = w.affairs) : Affairs.Takes w.affairs v.affairs :=
    h ▸ .refl
  cases step with
  | happen before c after hready =>
      cases c with
      | note r => exact .inl (hstays (affairs_note { w with ready := _ } r))
      | move a calledOff =>
          rcases move_runsOn_or_takes (w := { w with ready := before ++ after }) htidy a
            calledOff with (hsame | ⟨spec, hs, turns⟩) | takes
          · exact .inl (hstays hsame)
          · rw [view_spec?] at hs
            exact .inr ⟨before, a, calledOff, after, spec, hready, rfl, hs, turns⟩
          · exact .inl takes
  | addJob spec supplier => exact .inl (hstays (affairs_addJob htidy spec supplier))
  | startRun j => exact .inl (hstays (affairs_add w (.run j)))
  | startRound spec => exact .inl (hstays (affairs_add w (.round w.rounds.length)))
  | startCollecting spec =>
      have hboth := (affairs_add (w.add (.collector w.rounds.length (w.activities.length + 1))).1
        .taker).trans (affairs_add w _)
      exact .inl (hstays hboth)
  | openGate source => exact .inl (hstays (affairs_openGate w source))
  | cancel a => exact .inl (hstays (by rw [affairs, view_cancel, affairs]))
  | takeOne htake => exact .inl (.single (takeOne_take htake))
  | _ => exact .inl .refl

theorem Reaches.deedsOf_of_quiet {S : ActivityId → Prop} {w w' : Intake} (reach : Reaches w w')
    (htidy : w.affairs.Tidy) (horder : Orderly S w) {a : ActivityId} (ha : S a) :
    w'.history.deedsOf a = w.history.deedsOf a := by
  induction reach with
  | refl => rfl
  | tail steps step ih =>
      rw [← ih]
      rcases step.takes_or_moves ((Reaches.course steps htidy).tidy htidy) with takes |
        ⟨before, b, calledOff, after, spec, hready, rfl, hs, turns⟩
      · exact takes.deedsOf a
      · by_cases hb : a = b
        · subst hb
          have horder' := Reaches.orderly steps horder
          rw [(horder'.quiet_move hready (horder'.quiet ha)).2]
        · exact turns.deedsOf_of_ne hb

end Intake

/-! ## Cancellation of those who wait -/

/-- A run has a record that is not yet in the queue. -/
def Intake.AwaitsRoom (w : Intake) (a : ActivityId) : Prop :=
  ∃ p record rest, w.post? a = some p ∧ p.role.job?.isSome = true ∧ p.stage = .atQueue record rest

/-- Cancelling somebody cancels a run: its own activity, or the owner that gathers its round. -/
def Intake.Cancels (w : Intake) (b a : ActivityId) : Prop :=
  b = a ∨ ∃ r round, w.gathered? b = some r ∧ w.rounds[r]? = some round ∧ a ∈ round.members

theorem Beside.awaitsRoom {w w' : Intake} {a : ActivityId} (h : Beside a w w')
    (ha : w.AwaitsRoom a) : w'.AwaitsRoom a := by
  obtain ⟨p, record, rest, hp, hrun, hstage⟩ := ha
  obtain ⟨k, -, -, hpost⟩ := h
  rw [hp] at hpost
  by_cases hk : k = 0
  · exact ⟨p, record, rest, by rw [hpost, if_pos hk], hrun, hstage⟩
  · exact ⟨p.awake, record, rest, by rw [hpost, if_neg hk, Option.map_some], hrun, hstage⟩

namespace Orderly

variable {S : ActivityId → Prop} {w : Intake} {a b : ActivityId}

theorem callOff_quiets (h : Orderly S w) (ha : w.AwaitsRoom a) :
    Orderly (fun b => S b ∨ b = a) (w.callOff a).1 := by
  obtain ⟨p, record, rest, hp, hrun, hstage⟩ := ha
  obtain ⟨p', off, hrole, hsame⟩ := h.calledOff hp hrun fun outcome heq => by
    rw [hstage] at heq
    cases heq
  refine insert ((h.callOff a).mono fun b hb => hb.1.resolve_right hb.2) fun _ => ?_
  exact .calledOff off (by rw [hrole]; exact hrun) (hsame.trans hstage)

theorem callOffAll_quiets (h : Orderly S w) (ha : w.AwaitsRoom a) {members : List ActivityId}
    (hmem : a ∈ members) : Orderly (fun b => S b ∨ b = a) (w.callOffAll members).1 := by
  induction members generalizing w with
  | nil => cases hmem
  | cons m rest ih =>
      rw [callOffAll_cons]
      by_cases hm : a = m
      · subst hm
        exact (h.callOff_quiets ha).callOffAll rest
      · exact ih (h.callOff m) ((callOff_beside w hm).awaitsRoom ha)
          ((List.mem_cons.mp hmem).resolve_left hm)

/-- Whoever is cancelled as it waits for room is quiet from then on. -/
theorem cancel_quiets (h : Orderly S w) (ha : w.AwaitsRoom a) (hcancels : w.Cancels b a) :
    Orderly (fun b => S b ∨ b = a) (w.cancel b).1 := by
  unfold Intake.cancel
  split
  · rename_i hnone
    rcases hcancels with rfl | ⟨r, round, hr, hround, -⟩
    · exact h.callOff_quiets ha
    · rw [hr, Option.bind_some, hround] at hnone
      cases hnone
  · rename_i r round hgathered
    obtain ⟨r', hr', hround'⟩ := Option.bind_eq_some_iff.mp hgathered
    obtain ⟨round', hround', heq⟩ := Option.map_eq_some_iff.mp hround'
    cases heq
    have hmem : a ∈ round.members := by
      rcases hcancels with rfl | ⟨r'', round'', hr'', hround'', hmem⟩
      · -- Who gathers a round makes no run, so this is not the one that waits for room.
        obtain ⟨role, hrole, hidle⟩ := idles_of_gathered? hr'
        obtain ⟨p, record, rest, hp, hrun, -⟩ := ha
        rw [role?_eq, hp, Option.map_some] at hrole
        cases hrole
        rw [hidle] at hrun
        cases hrun
      · rw [hr'] at hr''
        cases hr''
        rw [hround'] at hround''
        cases hround''
        exact hmem
    have hall := h.callOffAll_quiets ha hmem
    have hidle : (w.callOffAll round.members).1.Idles b := by
      rw [Idles, (callOffAll_keeps w round.members).role?]
      exact idles_of_gathered? hr'
    dsimp only
    split
    · exact hall.onRound r (by exact fun _ => rfl) fun _ => .refl _
    · exact hall.onActivity hidle fun _ => rfl

end Orderly

/-! ## Whose records they are -/

def Event.put? : Event → Option (ActivityId × Record)
  | .did run _ (.put record) => some (run, record)
  | _ => none

namespace History

/-- The records put by anyone, the first one first, each with the run that put it. -/
def puts (h : History) : List (ActivityId × Record) := h.reverse.filterMap Event.put?

theorem puts_cons (e : Event) (h : History) : puts (e :: h) = h.puts ++ e.put?.toList := by
  unfold puts
  cases he : e.put? <;> simp [List.filterMap_append, he]

theorem map_puts (h : History) : h.puts.map (·.2) = h.recordsPut := by
  induction h with
  | nil => rfl
  | cons e h ih =>
      rw [puts_cons, recordsPut_cons, List.map_append, ih]
      cases e with
      | taken record => rfl
      | did b spec deed => cases deed <;> rfl

theorem filter_puts (h : History) (a : ActivityId) :
    h.puts.filter (·.1 = a) = (h.recordsPutBy a).map fun record => (a, record) := by
  induction h with
  | nil => rfl
  | cons e h ih =>
      rw [puts_cons, List.filter_append, ih, recordsPutBy, recordsPutBy, deedsOf_cons,
        List.filterMap_append, List.map_append]
      congr 1
      cases e with
      | taken record => rfl
      | did b spec deed =>
          by_cases hb : b = a <;> cases deed <;>
            simp [Event.put?, Event.deedBy?, Deed.recordPut?, hb]

end History

/-- A run that has a result has dealt with its entries as the result says. Those it has met and is
not through with are pending. -/
theorem Phase.Explained.handling {p : Phase} {h : History} {a : ActivityId} {spec : JobSpec}
    {r : RunResult} (hp : p.Explained (h.deedsOf a)) (hs : p.spec? = some spec)
    (hr : p.result? = some r) :
    ∃ settled pending, Handling h a spec r settled (settled + pending) := by
  generalize hdeeds : h.deedsOf a = deeds at hp
  cases hp with
  | idle => cases hs
  | asking _ now =>
      cases hs
      cases hr
      exact ⟨0, 0, .of_asking hdeeds now⟩
  | working progress =>
      rename_i entries rest trail
      cases hs
      cases hr
      have hmore : h.deedsOf a = .fetched entries :: trail.deeds ++ [] := by
        rw [hdeeds, List.append_nil]
      exact ⟨_, 0, .of_working progress hmore rfl rfl⟩
  | offering progress he =>
      cases hs
      cases hr
      exact ⟨_, 1, .of_offering progress he hdeeds⟩
  | through progress now =>
      cases hs
      cases hr
      have hend := Phase.Explained.through progress now
      rw [← hdeeds] at hend
      obtain ⟨ending, explains, -⟩ := hend.exists_ending
      obtain ⟨pending, hmet⟩ := ending.exists_met_eq (h.entriesOf a).length
      exact ⟨_, pending, hmet ▸ explains.handling⟩
  | stopped hbefore stop =>
      cases hs
      cases hr
      rw [← hdeeds] at hbefore
      obtain ⟨ending, -, explains, -⟩ := stop.exists_ending hbefore
      obtain ⟨pending, hmet⟩ := ending.exists_met_eq (h.entriesOf a).length
      exact ⟨_, pending, hmet ▸ explains.handling⟩

namespace Intake

section

variable {store : Snapshots} {records : List Record} {w : Intake} {a : ActivityId}

theorem exists_handling (h : w.affairs.Sound store records) (htidy : w.affairs.Tidy)
    {r : RunResult} (hr : w.result? a = some r) : ∃ spec settled pending,
      w.specOf? a = some spec ∧ Handling w.history a spec r settled (settled + pending) := by
  have hidle : w.view.phase a ≠ .idle := fun hidle => by
    rw [(phase_idle_iff w a).mp hidle] at hr
    cases hr
  obtain ⟨spec, hs⟩ := Option.isSome_iff_exists.mp (View.spec?_isSome_of_phase hidle (htidy a))
  obtain ⟨hspec, hres⟩ := View.phase_spec?_result? hs (by rw [view_result?]; exact hr) (htidy a)
  obtain ⟨settled, pending, handling⟩ :=
    Phase.Explained.handling (h := w.history) (h.explained a) hspec hres
  exact ⟨spec, settled, pending, by rw [← view_spec?]; exact hs, handling⟩

theorem deedsOf_of_no_result (h : w.affairs.Sound store records) (hnone : w.result? a = none) :
    w.history.deedsOf a = [] := by
  have hidle : w.view.phase a = .idle := (phase_idle_iff w a).mpr hnone
  have hexplained : (w.view.phase a).Explained (w.history.deedsOf a) := h.explained a
  rw [hidle] at hexplained
  generalize w.history.deedsOf a = deeds at hexplained
  cases hexplained
  rfl

end

end Intake

namespace Handling

variable {h : History} {a : ActivityId} {spec : JobSpec} {r : RunResult} {settled met : Nat}

/-- What a run put are records of its entries, each put once and in the order of the feed. -/
theorem inFeedOrder (handling : Handling h a spec r settled met) :
    ((h.recordsPutBy a).map .ok).Sublist ((h.entriesOf a).map (·.toRecord spec.source)) := by
  have hsettled : (Trail.admitted ((h.judgementsBy a).take settled)).Sublist
      ((h.judgementsBy a).map (·.1)) :=
    (List.filter_sublist.trans (List.take_sublist settled _)).map _
  have hmet := ((h.entriesOf a).take_sublist met).map (·.toRecord spec.source)
  rw [handling.judged] at hmet
  rw [handling.put]
  refine List.Sublist.trans ?_ hmet
  have hread := hsettled.map (Except.ok (ε := Fault))
  rwa [List.map_map] at hread

end Handling

/-! ## Taking all there is -/

/-- Counts a record as done with. It is a fault to do so more often than there were puts. -/
def RecordQueue.taskDone (q : RecordQueue) : Except Fault RecordQueue :=
  if q.unfinished = 0 then .error (.outside .value "task_done() called too many times")
  else .ok q.settleOne

namespace Intake

/-- Takes up to so many records, up to the first time that there is none. -/
def takeAll : Nat → Intake → Except Fault (List Record × Intake)
  | 0, w => .ok ([], w)
  | n + 1, w =>
      match w.queue.pop with
      | none => .ok ([], w)
      | some (record, queue, putter) => do
          let queue ← queue.taskDone
          let (records, w) ← takeAll n ((w.tell (.taken record)).withQueue (queue, putter))
          return (record :: records, w)

section

variable {w w' : Intake} {record : Record}

theorem records_of_takeOne (h : w.takeOne = some (record, w')) :
    w.queue.records = record :: w'.queue.records := by
  obtain ⟨⟨first, queue, putter⟩, hpop, heq⟩ := Option.map_eq_some_iff.mp h
  cases heq
  have hrecords := RecordQueue.pop_records hpop
  rw [withQueue, queue_wakeAny]
  exact hrecords

theorem drain_of_empty (h : w.queue.records = []) : w.drain = ([], w) := by
  unfold drain
  rw [h]
  rfl

theorem drain_of_takeOne (h : w.takeOne = some (record, w')) :
    w.drain = (record :: w'.drain.1, w'.drain.2) := by
  have hshift (f : Intake → Intake) (n : Nat) (v : Intake) :
      Nat.repeat f (n + 1) v = Nat.repeat f n (f v) := by
    induction n with
    | zero => rfl
    | succ n ih => exact congrArg f ih
  unfold drain
  rw [records_of_takeOne h, List.length_cons, hshift, h]

theorem records_drain (w : Intake) : w.drain.2.queue.records = [] := by
  generalize hlength : w.queue.records.length = n
  induction n generalizing w with
  | zero =>
      have hempty := List.eq_nil_of_length_eq_zero hlength
      rw [drain_of_empty hempty]
      exact hempty
  | succ n ih =>
      cases htake : w.takeOne with
      | none =>
          have hempty := (RecordQueue.pop_eq_none_iff w.queue).mp (Option.map_eq_none_iff.mp htake)
          rw [hempty] at hlength
          cases hlength
      | some taken =>
          obtain ⟨record, w'⟩ := taken
          rw [drain_of_takeOne htake]
          refine ih w' ?_
          rw [records_of_takeOne htake, List.length_cons] at hlength
          omega

/-- Nothing is counted as done with that was not put, however long one goes on. -/
theorem takeAll_eq_drain {c n : Nat} (h : w.queue.Within c) (hn : w.queue.records.length ≤ n) :
    takeAll n w = .ok w.drain := by
  induction n generalizing w with
  | zero =>
      rw [drain_of_empty (List.eq_nil_of_length_eq_zero (by omega))]
      rfl
  | succ n ih =>
      unfold takeAll
      cases hpop : w.queue.pop with
      | none =>
          rw [drain_of_empty ((RecordQueue.pop_eq_none_iff w.queue).mp hpop)]
      | some popped =>
          obtain ⟨record, queue, putter⟩ := popped
          have htake : w.takeOne = some (record,
              (w.tell (.taken record)).withQueue (queue.settleOne, putter)) := by
            rw [takeOne, hpop, Option.map_some]
          have hdone : queue.taskDone = .ok queue.settleOne := by
            have hunfinished : queue.unfinished = w.queue.unfinished := by
              unfold RecordQueue.pop at hpop
              split at hpop <;> cases hpop
              rfl
            unfold RecordQueue.taskDone
            rw [hunfinished, h.unfinished, RecordQueue.pop_records hpop, List.length_cons,
              if_neg (by omega)]
          have hlength : w.queue.records.length = _ + 1 :=
            congrArg List.length (records_of_takeOne htake)
          have hrest := ih (takeOne_within h htake) (by omega)
          dsimp only
          rw [hdone, drain_of_takeOne htake]
          dsimp only [bind, Except.bind]
          rw [hrest]
          rfl

end

end Intake

/-! ## The account of the queue -/

/-- What is true of a queue with room for `c` records, whatever has been done. -/
structure QueueAccount (c : Nat) (w : Intake) : Prop where
  bounded : w.queue.records.length ≤ c
  /-- The records taken and those still there are those put, in the order of the puts. -/
  content : w.history.recordsTaken ++ w.queue.records = w.history.puts.map (·.2)
  /-- A run has put as many as it counted, and each is that of another of its entries, in the order
  of the feed. -/
  byRun : ∀ a r, w.result? a = some r → ∃ spec, w.specOf? a = some spec ∧
    r.published = (w.history.puts.filter (·.1 = a)).length ∧
    ((w.history.puts.filter (·.1 = a)).map fun put => .ok put.2).Sublist
      ((w.history.entriesOf a).map (·.toRecord spec.source))
  /-- Nobody else has put anything. -/
  byNobody : ∀ a, w.result? a = none → w.history.puts.filter (·.1 = a) = []
  /-- Who is cancelled as it waits for room puts nothing more. -/
  cancelled : ∀ a b, w.AwaitsRoom a → w.Cancels b a → ∀ w', Intake.Reaches (w.cancel b).1 w' →
    w'.history.puts.filter (·.1 = a) = w.history.puts.filter (·.1 = a)
  /-- Taking all gives what is there and leaves nothing, and nothing is done with too often. -/
  drained : w.drain.1 = w.queue.records ∧ w.drain.2.queue.records = [] ∧
    ∀ n, w.queue.records.length ≤ n → Intake.takeAll n w = .ok w.drain

namespace Intake

section

variable {now : Time.DateTime} {store : Snapshots} {web : List (String × Response)} {c : Nat}
  {w : Intake}

theorem orderly_of_start (reach : Reaches (start now (.ofCapacity c) store web) w) :
    Orderly (fun _ => False) w :=
  Reaches.orderly reach (orderly_start now store web rfl rfl)

theorem within_of_start (hc : 1 ≤ c) (reach : Reaches (start now (.ofCapacity c) store web) w) :
    w.queue.Within c :=
  Reaches.within hc reach (orderly_start now store web rfl rfl) ⟨rfl, Nat.zero_le c, rfl⟩

/-- Whatever is done, the queue loses nothing, doubles nothing and keeps the order. -/
theorem bounded_queue (hc : 1 ≤ c) (reach : Reaches (start now (.ofCapacity c) store web) w) :
    QueueAccount c w := by
  have h := reach.sound
  have horder := orderly_of_start reach
  have hwithin := within_of_start hc reach
  have htidy : w.affairs.Tidy := reach.course_of_start.tidy fun a => by simp
  refine ⟨hwithin.length_le, ?_, ?_, ?_, ?_, rfl, records_drain w, fun n hn => ?_⟩
  · rw [History.map_puts]
    exact h.conserved.symm
  · intro a r hr
    obtain ⟨spec, settled, met, hspec, handling⟩ := exists_handling h htidy hr
    refine ⟨spec, hspec, ?_, ?_⟩
    · rw [History.filter_puts, List.length_map]
      exact handling.published
    · rw [History.filter_puts, List.map_map]
      exact handling.inFeedOrder
  · intro a hnone
    rw [History.filter_puts, History.recordsPutBy, deedsOf_of_no_result h hnone]
    rfl
  · intro a b ha hcancels w' reach'
    have hquiet := horder.cancel_quiets ha hcancels
    have hview := view_cancel w b
    have hdeeds := Reaches.deedsOf_of_quiet reach' (a := a) (by rw [affairs, hview]; exact htidy)
      hquiet (.inr rfl)
    rw [show (w.cancel b).1.history = w.history from congrArg View.history hview] at hdeeds
    rw [History.filter_puts, History.filter_puts, History.recordsPutBy, hdeeds]
    rfl
  · exact takeAll_eq_drain hwithin hn

/-- There is room for one record, and a run with two waits to put the second. -/
theorem bounded_queue_waiting : ∃ w : Intake,
    Reaches (start Time.Instant.first.toDateTime (.ofCapacity 1) .unbounded []) w ∧
      w.AwaitsRoom 0 ∧ w.queue.records.length = 1 ∧ QueueAccount 1 w := by
  have reach := ((reaches_ofFeed (.ofCapacity 1) (.ofSource "a")
    [.bare "x", .bare "y"]).tail (.startRun _ 0)).trans (ticks_reaches 1 _)
  exact ⟨_, reach, ⟨_, _, _, rfl, rfl, rfl⟩, rfl, bounded_queue (Nat.le_refl 1) reach⟩

end

end Intake

end FeedIntake
