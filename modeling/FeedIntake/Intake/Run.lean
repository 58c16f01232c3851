import FeedIntake.Intake.State

/-! # Runs within an intake

A run asks for its entries, examines them one by one and puts those admitted into the queue. It
waits at a closed gate, for the network, and whenever the queue is full; otherwise it goes on
without letting anybody else move. It commits what it met when all entries are through, and only
then.
-/

namespace FeedIntake

/-- What a request meets if nobody is listening. -/
def Response.unreachable : Response :=
  { (default : Response) with
    connectFault := some (.outside .clientConnection "no such host") }

namespace Intake

/-! ## The end of a run -/

def close (w : Intake) (a : ActivityId) (outcome : RunOutcome) : Intake :=
  let w := w.enter a (.finished outcome)
  match w.role? a with
  | some (.member r _) => w.call (.note r)
  | _ => w

def release (w : Intake) (r : RoundId) : Intake :=
  match w.rounds[r]? with
  | some round => w.withPermits r round.permits.release
  | none => w

/-- Ends an activity that has run its job. A member gives its permit back first. -/
def endRun (w : Intake) (a : ActivityId) (outcome : RunOutcome) : Intake :=
  match w.role? a with
  | some (.member r _) => (w.release r).close a outcome
  | _ => w.close a outcome

def cancelRun (w : Intake) (a : ActivityId) (spec : JobSpec) (r : RunResult) : Intake :=
  let r := r.cancel w.now
  ((w.advance a r).log [spec.cancellationEntry r w.now]).endRun a .cancelled

def failFetch (w : Intake) (a : ActivityId) (spec : JobSpec) (r : RunResult) (f : Failure) :
    Intake :=
  let r := r.refuse f w.now
  ((w.advance a r).log [spec.fetchFailureEntry f]).endRun a .done

def breakOff (w : Intake) (a : ActivityId) (spec : JobSpec) (r : RunResult) (fault : Fault) :
    Intake :=
  if fault.isCancellation then w.cancelRun a spec r
  else
    let r := r.fail (JobSpec.processingError fault) w.now
    ((w.advance a r).log [spec.processingFailureEntry r fault w.now]).endRun a
      (.failed (.failure (spec.processingFailure fault)))

def complete (w : Intake) (a : ActivityId) (spec : JobSpec) (r : RunResult) : Intake :=
  let w :=
    if spec.perpetual then
      (w.commit spec.source r.seen).tell (.did a spec (.committed r.seen))
    else w
  let r := r.conclude spec.perpetual w.now
  ((w.advance a r).log [spec.completionEntry r w.now]).endRun a .done

/-! ## Entries on their way into the queue -/

/-- Stands in line until there is room for a record. -/
def awaitRoom (w : Intake) (a : ActivityId) (record : Record) (rest : List Entry) : Intake :=
  ({ w with queue := w.queue.awaitRoom a } : Intake).suspend a (.atQueue record rest)

def put (w : Intake) (a : ActivityId) (spec : JobSpec) (record : Record) : Intake :=
  ((w.withQueue (w.queue.push record)).log [spec.publishEntry record]).tell
    (.did a spec (.put record))

/-- Puts entry after entry, up to the first one that there is no room for. -/
def process (w : Intake) (a : ActivityId) (spec : JobSpec) (r : RunResult) : List Entry → Intake
  | [] => w.complete a spec r
  | e :: rest =>
      match e.toRecord spec.source with
      | .error fault => w.breakOff a spec r fault
      | .ok record =>
          let verdict := spec.judge w.store record
          let r := r.examine record verdict
          let w := (w.log (spec.examineEntries record)).tell (.did a spec (.judged record verdict))
          if verdict ≠ .admitted then w.process a spec r rest
          else
            match w.queue.accept with
            | .error fault => w.breakOff a spec r fault
            | .ok queue =>
                let w := { w with queue := queue }
                if queue.isFull then (w.keep a r).awaitRoom a record rest
                else (w.put a spec record).process a spec r.publish rest

/-- Goes on when a place in the queue was free. Another may have taken it since. -/
def resumePut (w : Intake) (a : ActivityId) (spec : JobSpec) (r : RunResult) (record : Record)
    (rest : List Entry) : Intake :=
  if w.queue.isFull then w.awaitRoom a record rest
  else (w.put a spec record).process a spec r.publish rest

/-- Gives up a record that waits for room. A place that this run was woken for is offered to the
next in line. -/
def abandonPut (w : Intake) (a : ActivityId) (spec : JobSpec) (r : RunResult) (woken : Bool) :
    Intake :=
  let w := if woken && !w.queue.isFull then w.withQueue w.queue.nextPutter else w
  w.cancelRun a spec r

/-! ## The beginning of a run -/

/-- Goes on with what a fetch gave. Faults that are not about feeds are none that a run accounts
for: it is left as it stands. -/
def deliver (w : Intake) (a : ActivityId) (spec : JobSpec) (r : RunResult) :
    Except Fault (List Entry) → Intake
  | .ok entries =>
      let r := r.takeUp entries.length
      ((w.advance a r).tell (.did a spec (.fetched entries))).process a spec r entries
  | .error fault =>
      match fault with
      | .failure f => if f.kind.isFeed then w.failFetch a spec r f else w.endRun a (.failed fault)
      | .outside _ _ =>
          if fault.isCancellation then w.cancelRun a spec r else w.endRun a (.failed fault)

def ask (w : Intake) (a : ActivityId) (spec : JobSpec) (r : RunResult)
    (answers : List (String × Answer)) : Intake :=
  let answer := (answers.lookup spec.source).getD ⟨.error (.missingKey spec.source), false⟩
  if answer.gated && !w.openGates.contains spec.source then
    ({ w with gateLine := w.gateLine ++ [(spec.source, a)] } : Intake).suspend a (.atGate answer)
  else w.deliver a spec r answer.outcome

/-- Makes the request for a feed. The response comes when everyone else ready has moved. -/
def request (w : Intake) (a : ActivityId) (spec : JobSpec) (r : RunResult) (fetcher : Fetcher) :
    Intake :=
  match Fetcher.target (.text spec.source) with
  | .error failure => w.deliver a spec r (.error (.failure failure))
  | .ok url =>
      let made := fetcher.request url spec.timeoutMs
      let response := (w.web.lookup url).getD .unreachable
      let w := { w.log [Fetcher.announcement url] with requests := w.requests ++ [made] }
      (w.enter a (.onNetwork url response)).call (.move a false)

def receive (w : Intake) (a : ActivityId) (spec : JobSpec) (r : RunResult) (url : String)
    (response : Response) : Intake :=
  let outcome := Fetcher.conclude (.text spec.source) url spec.timeoutMs 0 response
  (w.log outcome.logs).deliver a spec r
    (outcome.result.map fun entries => entries.map fun v => ⟨.derived, v⟩)

/-- A response whose connection was broken off on request. -/
def interrupted (response : Response) : Response :=
  { response with connectFault := some (.outside .cancelled "") }

def fetch (w : Intake) (a : ActivityId) (j : JobId) (job : Job) (supplier : Supplier) : Intake :=
  let spec := job.spec
  let r := spec.begun w.now
  let w := (w.onJob j fun job => { job with latest := some a }).advance a r
  match supplier with
  | .prepared answers =>
      let made := (job.supplier, spec.source, spec.timeoutMs)
      ({ w with fetches := w.fetches ++ [made] } : Intake).ask a spec r answers
  | .network fetcher => w.request a spec r fetcher

def beginRun (w : Intake) (a : ActivityId) (j : JobId) : Intake :=
  match w.jobs[j]? with
  | none => w
  | some job =>
      match w.suppliers[job.supplier]? with
      | none => w
      | some supplier => w.fetch a j job supplier

end Intake

end FeedIntake
