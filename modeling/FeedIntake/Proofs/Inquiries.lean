import FeedIntake.Proofs.Requests
import FeedIntake.Proofs.Starts

/-! # Whose requests they are

A request is made where a run begins, and nowhere else. So whatever happens, every request that was
made belongs to a run that has begun, and no run has two.
-/

namespace FeedIntake

open Affairs
open Time (DateTime)

namespace Intake

/-! ## Where nobody is asked -/

section

variable (w : Intake) (a : ActivityId)

theorem asked_callOff : (w.callOff a).1.asked = w.asked := by
  have hlines : (w.leaveLines a).asked = w.asked := by
    unfold leaveLines
    dsimp only
    split <;> rfl
  unfold callOff
  split
  · rfl
  · split
    · rfl
    · split
      · exact hlines
      · rfl

theorem asked_cancel : (w.cancel a).1.asked = w.asked :=
  cancel_induction (P := fun v => v.asked = w.asked) rfl
    (fun v m hv => (asked_callOff v m).trans hv) (fun _ _ hv => hv) fun _ hv => hv

theorem asked_endOwner (outcome : RunOutcome) : (w.endOwner a outcome).asked = w.asked := by
  unfold endOwner
  split
  · rw [asked_close, asked_callOff]
  · exact asked_close w a outcome

theorem asked_endRound (r : RoundId) (results : List RunResult) :
    (w.endRound a r results).asked = w.asked := by
  unfold endRound
  dsimp only
  split
  · split
    · exact asked_endOwner _ a .done
    · rfl
  · exact asked_endOwner _ a .done

theorem asked_beginRound (r : RoundId) : (w.beginRound a r).asked = w.asked :=
  beginRound_induction (P := fun v => v.asked = w.asked) (Q := fun v => v.asked = w.asked) rfl
    (asked_endRound w a r []) (fun _ _ => asked_endOwner _ a _) (fun _ _ => rfl)
    (fun _ _ _ hv => hv) fun _ hv => hv

theorem asked_gather (r : RoundId) : (w.gather a r).asked = w.asked := by
  unfold gather
  split
  · rfl
  · dsimp only
    split
    · exact asked_endOwner _ a _
    · exact asked_endRound _ a r _

theorem asked_takeRecord : w.takeRecord.asked = w.asked :=
  takeRecord_induction (P := fun v => v.asked = w.asked) rfl (fun _ => asked_withQueue _ _)
    fun _ _ _ hv => hv

theorem asked_takeRecords : (w.takeRecords a).asked = w.asked :=
  repeat_takeRecord_induction (P := fun v => v.asked = w.asked) w.queue.records.length rfl
    fun v hv => (asked_takeRecord v).trans hv

theorem asked_stopTaking (woken : Bool) : (w.stopTaking a woken).asked = w.asked := by
  unfold stopTaking
  dsimp only
  split
  · exact (asked_close _ a .cancelled).trans (asked_withQueue w _)
  · exact asked_close w a .cancelled

theorem asked_abandonPut (spec : JobSpec) (r : RunResult) (woken : Bool) :
    (w.abandonPut a spec r woken).asked = w.asked := by
  unfold abandonPut
  dsimp only
  split
  · exact (asked_cancelRun _ a spec r).trans (asked_withQueue w _)
  · exact asked_cancelRun w a spec r

theorem asked_goOn {f : JobSpec → RunResult → Intake} (h : ∀ spec r, (f spec r).asked = w.asked) :
    (w.goOn a f).asked = w.asked := by
  rcases goOn_cases w a f with heq | ⟨spec, r, -, -, heq⟩
  · rw [heq]
  · rw [heq, h]

end

/-! ## Where somebody is -/

section

variable {w w' : Intake} {a : ActivityId} {j : JobId}

/-- Nobody has been asked, or a run of this job has begun in just this way. -/
def AsksIfBegun (w : Intake) (a : ActivityId) (j : JobId) (w' : Intake) : Prop :=
  w'.asked = w.asked ∨ ∃ u, Alike w u ∧ w' = u.beginRun a j

theorem beginMember_asks (w : Intake) (a : ActivityId) (r : RoundId) (j : JobId) :
    AsksIfBegun w a j (w.beginMember a r j) := by
  unfold beginMember
  split
  · exact .inl rfl
  · split
    · exact .inl rfl
    · exact .inr ⟨_, .onRound w r _, rfl⟩

theorem leaveLine_asks (w : Intake) (a : ActivityId) (r : RoundId) (j : JobId)
    (calledOff stop : Bool) : AsksIfBegun w a j (w.leaveLine a r j calledOff stop) := by
  unfold leaveLine
  split
  · exact .inl rfl
  · split
    · exact .inl (asked_close w a .cancelled)
    · split
      · exact .inl ((asked_close _ a .cancelled).trans (asked_withPermits w r _))
      · exact .inr ⟨_, .withPermits w r _, rfl⟩

theorem act_asks (w : Intake) (a : ActivityId) (role : Role) (calledOff stop : Bool)
    (stage : Stage) : (w.act a role calledOff stop stage).asked = w.asked ∨
      stage.hasBegun = false ∧ ∃ j, role.job? = some j ∧
        AsksIfBegun w a j (w.act a role calledOff stop stage) := by
  unfold act
  cases stage with
  | fresh =>
      dsimp only
      by_cases hstop : stop = true
      · rw [if_pos hstop]
        exact .inl (asked_endOwner w a .cancelled)
      · rw [if_neg hstop]
        cases role with
        | run j => exact .inr ⟨rfl, j, rfl, .inr ⟨w, .refl w, rfl⟩⟩
        | member r j => exact .inr ⟨rfl, j, rfl, beginMember_asks w a r j⟩
        | round r | collector r => exact .inl (asked_beginRound w a r)
        | taker => exact .inl (asked_takeRecords w a)
  | inLine =>
      cases role with
      | member r j => exact .inr ⟨rfl, j, rfl, leaveLine_asks w a r j calledOff stop⟩
      | _ => exact .inl rfl
  | atGate answer =>
      refine .inl (asked_goOn w a fun spec r => ?_)
      split <;> simp
  | onNetwork url response =>
      exact .inl (asked_goOn w a fun spec r => asked_receive w a spec r url _)
  | atQueue record rest =>
      refine .inl (asked_goOn w a fun spec r => ?_)
      split
      · exact asked_abandonPut w a spec r _
      · exact asked_resumePut w a spec r record rest
  | gathering =>
      dsimp only
      split
      · exact .inl (asked_endOwner w a .cancelled)
      · split
        · exact .inl (asked_gather w a _)
        · exact .inl rfl
  | awaitingRecord =>
      dsimp only
      split
      · exact .inl (asked_stopTaking w a _)
      · exact .inl (asked_takeRecords w a)
  | joining => exact .inl (asked_endOwner w a _)
  | finished => exact .inl rfl

theorem Alike.networkRun {u : Intake} {spec : JobSpec} {fetcher : Fetcher} (alike : Alike w u)
    (run : u.NetworkRun a spec fetcher) : w.NetworkRun a spec fetcher := by
  obtain ⟨j, s, hj, hjob, hsupplier⟩ := run
  refine ⟨j, s, ?_, alike.jobs ▸ hjob, alike.suppliers ▸ hsupplier⟩
  rw [← view_jobOf?, ← alike.view, view_jobOf?, hj]

/-- A run of a network supplier asks for its feed as it begins, and no other run asks for any. -/
theorem beginRun_requests (hj : w.jobOf? a = some j) :
    (w.beginRun a j).requests = w.requests ∨ ∃ spec fetcher, w.NetworkRun a spec fetcher ∧
      ((w.beginRun a j).result? a).isSome = true ∧
      (w.beginRun a j).requests =
        w.requests ++ (Supplier.network fetcher).requestFor spec := by
  cases hjob : w.jobs[j]? with
  | none => exact .inl (by rw [beginRun, hjob])
  | some job =>
      cases hsupplier : w.suppliers[job.supplier]? with
      | none =>
          left
          rw [beginRun, hjob]
          dsimp only
          rw [hsupplier]
      | some supplier =>
          have hbegun : w.beginRun a j = w.fetch a j job supplier := by
            rw [beginRun, hjob]
            dsimp only
            rw [hsupplier]
          have hrequests : (w.fetch a j job supplier).requests =
              w.requests ++ supplier.requestFor job.spec :=
            congrArg Prod.snd (asked_fetch w a j job supplier)
          cases supplier with
          | prepared answers =>
              left
              rw [hbegun, hrequests]
              exact List.append_nil _
          | network fetcher =>
              have hspecs : w.jobSpecs[j]? = some (job.spec, job.supplier) := by
                rw [jobSpecs, List.getElem?_map, hjob, Option.map_some]
              have hanswers : (w.answer? a).isSome = true := by
                rw [answer?, ← jobOf?_eq, hj, Option.bind_some, hspecs, Option.bind_some,
                  hsupplier]
                rfl
              exact .inr ⟨job.spec, fetcher, ⟨j, job.supplier, hj, hspecs, hsupplier⟩,
                result?_beginRun hj hanswers, by rw [hbegun, hrequests]⟩

/-- **Whatever happens, nobody asks for a feed but a run that begins.** -/
theorem Step.requests (step : Step w w') (htidy : w.affairs.Tidy) : w'.requests = w.requests ∨
    ∃ a spec fetcher, Begins w w' a ∧ w.NetworkRun a spec fetcher ∧
      w'.requests = w.requests ++ (Supplier.network fetcher).requestFor spec := by
  have of_asked {v v' : Intake} (h : v'.asked = v.asked) : v'.requests = v.requests :=
    congrArg Prod.snd h
  cases step with
  | happen before c after hready =>
      cases c with
      | note r => exact .inl (of_asked (asked_note _ r))
      | move a calledOff =>
          cases hx : w.activity? a with
          | none =>
              left
              rw [Intake.happen, move_of_nobody hx]
          | some x =>
              have hmove : ({ w with ready := before ++ after } : Intake).happen
                  (.move a calledOff) = _ := move_eq_act hx (before ++ after) calledOff
              -- Of all that can happen only this may make a request.
              rcases act_asks (w.attend a (before ++ after)) a x.role calledOff
                (calledOff || x.stopping) x.stage with
                hsame | ⟨hstage, j, hj, hsame | ⟨u, alike, hbegun⟩⟩
              · exact .inl (by rw [hmove, of_asked hsame]; rfl)
              · exact .inl (by rw [hmove, of_asked hsame]; rfl)
              · have alike := (Alike.attend w a (before ++ after)).trans alike
                have hjob : u.jobOf? a = some j := by
                  rw [← view_jobOf?, alike.view, view_jobOf?, Intake.jobOf?, Intake.role?, hx]
                  exact hj
                have hend : ({ w with ready := before ++ after } : Intake).happen
                    (.move a calledOff) = u.beginRun a j := hmove.trans hbegun
                rcases beginRun_requests hjob with hsame | ⟨spec, fetcher, run, hafter, hmade⟩
                · exact .inl (by rw [hend, hsame, alike.requests])
                · have hbefore : w.result? a = none := result?_of_not_begun htidy
                    (by rw [post?_eq, hx, Option.map_some]) hstage
                  refine .inr ⟨a, spec, fetcher, ⟨.happen before (.move a calledOff) after hready,
                    hbefore, hend ▸ hafter⟩, alike.networkRun run, ?_⟩
                  rw [hend, hmade, alike.requests]
  | openGate source => exact .inl (of_asked (asked_openGate w source))
  | cancel a => exact .inl (of_asked (asked_cancel w a))
  | takeOne htake =>
      obtain ⟨⟨first, queue, putter⟩, -, heq⟩ := Option.map_eq_some_iff.mp htake
      cases heq
      exact .inl (of_asked (asked_withQueue _ _))
  | clock | web | refusal | addSupplier | prepare | addJob | startRun | startRound
  | startCollecting => exact .inl rfl

end

/-! ## All requests -/

theorem Grows.networkRun {w w' : Intake} {a : ActivityId} {spec : JobSpec} {fetcher : Fetcher}
    (grows : Grows w w') (run : w.NetworkRun a spec fetcher) : w'.NetworkRun a spec fetcher := by
  obtain ⟨j, s, hj, hjob, hsupplier⟩ := run
  obtain ⟨role, hrole, hrun⟩ := Option.bind_eq_some_iff.mp hj
  have hfetcher : w.fetchers[s]? = some (some fetcher) := by
    rw [Intake.fetchers, List.getElem?_map, hsupplier]
    rfl
  have hsame := getElem?_of_prefix grows.fetchers hfetcher
  rw [Intake.fetchers, List.getElem?_map, Option.map_eq_some_iff] at hsame
  obtain ⟨supplier, hsupplier', hnetwork⟩ := hsame
  refine ⟨j, s, ?_, getElem?_of_prefix grows.jobs hjob, ?_⟩
  · rw [Intake.jobOf?, grows.role hrole]
    exact hrun
  · rw [hsupplier']
    cases supplier with
    | prepared answers => cases hnetwork
    | network known =>
        cases hnetwork
        rfl

theorem requestFor_of_target {spec : JobSpec} {url : String}
    (h : Fetcher.target (.text spec.source) = .ok url) (fetcher : Fetcher) :
    (Supplier.network fetcher).requestFor spec = [fetcher.request url spec.timeoutMs] := by
  unfold Supplier.requestFor
  rw [h]

/-- All requests that were made, with the runs that they belong to. -/
structure Attributes (w : Intake) (made : List (ActivityId × WebRequest)) : Prop where
  all : w.requests = made.map (·.2)
  nodup : (made.map (·.1)).Nodup
  begun : ∀ e ∈ made, (w.result? e.1).isSome = true
  asked : ∀ e ∈ made, ∃ spec fetcher, w.NetworkRun e.1 spec fetcher ∧
    (Supplier.network fetcher).requestFor spec = [e.2]

namespace Attributes

variable {w w' : Intake} {made : List (ActivityId × WebRequest)} (attributes : w.Attributes made)

include attributes

theorem keep (step : Step w w') (hsame : w'.requests = w.requests) : w'.Attributes made where
  all := hsame.trans attributes.all
  nodup := attributes.nodup
  begun := fun e he => step.result?_mono (attributes.begun e he)
  asked := by
    intro e he
    obtain ⟨spec, fetcher, run, hrequest⟩ := attributes.asked e he
    exact ⟨spec, fetcher, step.grows.networkRun run, hrequest⟩

theorem begin {a : ActivityId} {spec : JobSpec} {fetcher : Fetcher} {request : WebRequest}
    (begins : Begins w w' a) (run : w.NetworkRun a spec fetcher)
    (hrequest : (Supplier.network fetcher).requestFor spec = [request])
    (hnew : w'.requests = w.requests ++ [request]) : w'.Attributes (made ++ [(a, request)]) := by
  -- Who begins has no result yet, and all those that have asked have one.
  have hfresh : a ∉ made.map (·.1) := by
    intro hmem
    obtain ⟨e, he, rfl⟩ := List.mem_map.mp hmem
    have hsome := attributes.begun e he
    rw [begins.before] at hsome
    cases hsome
  refine ⟨?_, ?_, ?_, ?_⟩
  · rw [hnew, attributes.all, List.map_append]
    rfl
  · rw [List.map_append, List.nodup_append]
    refine ⟨attributes.nodup, List.pairwise_singleton _ a, ?_⟩
    intro b hb c hc
    obtain rfl := List.mem_singleton.mp hc
    exact ne_of_mem_of_not_mem hb hfresh
  · intro e he
    rcases List.mem_append.mp he with hold | hlast
    · exact begins.step.result?_mono (attributes.begun e hold)
    · obtain rfl := List.mem_singleton.mp hlast
      exact begins.after
  · intro e he
    rcases List.mem_append.mp he with hold | hlast
    · obtain ⟨spec, fetcher, run, hrequest⟩ := attributes.asked e hold
      exact ⟨spec, fetcher, begins.step.grows.networkRun run, hrequest⟩
    · obtain rfl := List.mem_singleton.mp hlast
      exact ⟨spec, fetcher, begins.step.grows.networkRun run, hrequest⟩

theorem step (step : Step w w') (htidy : w.affairs.Tidy) :
    ∃ more, w'.Attributes (made ++ more) := by
  rcases step.requests htidy with hsame | ⟨a, spec, fetcher, begins, run, hnew⟩
  · exact ⟨[], by rw [List.append_nil]; exact attributes.keep step hsame⟩
  · cases htarget : Fetcher.target (.text spec.source) with
    | error f =>
        have hnone : (Supplier.network fetcher).requestFor spec = [] := by
          unfold Supplier.requestFor
          rw [htarget]
        rw [hnone, List.append_nil] at hnew
        exact ⟨[], by rw [List.append_nil]; exact attributes.keep step hnew⟩
    | ok url =>
        have hone := requestFor_of_target htarget fetcher
        rw [hone] at hnew
        exact ⟨_, attributes.begin begins run hone hnew⟩

/-- The induction over steps: no run makes two requests, and nobody else makes any. -/
theorem reaches (reach : Reaches w w') (htidy : w.affairs.Tidy) :
    ∃ more, w'.Attributes (made ++ more) := by
  induction reach with
  | refl => exact ⟨[], by rw [List.append_nil]; exact attributes⟩
  | tail before step ih =>
      obtain ⟨more, earlier⟩ := ih
      obtain ⟨last, later⟩ := earlier.step step ((Reaches.course before htidy).tidy htidy)
      exact ⟨more ++ last, by rw [← List.append_assoc]; exact later⟩

end Attributes

theorem attributes_start (now : DateTime) (queue : RecordQueue) (store : Snapshots)
    (web : List (String × Response)) : (start now queue store web).Attributes [] :=
  ⟨rfl, .nil, by simp, by simp⟩

end Intake

end FeedIntake
