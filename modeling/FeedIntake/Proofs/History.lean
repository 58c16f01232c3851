import FeedIntake.Intake.History
import FeedIntake.Proofs.Entries
import FeedIntake.Proofs.Snapshots

/-! # Reading a history

The deeds of one run in their order, the records that went through the queue, and the store that the
commits of a history make of the one it began with. The last of these is what a store is compared
with: a store is right if it is the replay of what was committed.
-/

namespace FeedIntake

def Deed.recordPut? : Deed → Option Record
  | put record => some record
  | _ => none

def Deed.identitiesCommitted? : Deed → Option (List String)
  | committed identities => some identities
  | _ => none

def Deed.entriesFetched? : Deed → Option (List Entry)
  | fetched entries => some entries
  | _ => none

def Deed.judgement? : Deed → Option (Record × Verdict)
  | judged record verdict => some (record, verdict)
  | _ => none

namespace Event

def deedBy? (a : ActivityId) : Event → Option Deed
  | did run _ deed => if run = a then some deed else none
  | taken _ => none

def recordPut? : Event → Option Record
  | did _ _ deed => deed.recordPut?
  | taken _ => none

def recordTaken? : Event → Option Record
  | did _ _ _ => none
  | taken record => some record

/-- What an event makes of the store. -/
def apply (e : Event) (s : Snapshots) : Snapshots :=
  match e with
  | did _ spec (.committed identities) => s.commit spec.source identities
  | _ => s

def commitOf? (source : String) : Event → Option (ActivityId × List String)
  | did a spec (.committed identities) =>
      if spec.source = source then some (a, identities) else none
  | _ => none

def isBy (a : ActivityId) (e : Event) : Bool := (e.deedBy? a).isSome

/-- An event is a commit, or the store does not feel it. -/
theorem committed_or_unfelt (e : Event) :
    (∃ a spec identities, e = .did a spec (.committed identities)) ∨
      (∀ s, e.apply s = s) ∧ ∀ source, e.commitOf? source = none := by
  cases e with
  | taken record => exact .inr ⟨fun _ => rfl, fun _ => rfl⟩
  | did a spec deed =>
      cases deed with
      | committed identities => exact .inl ⟨a, spec, identities, rfl⟩
      | fetched entries => exact .inr ⟨fun _ => rfl, fun _ => rfl⟩
      | judged record verdict => exact .inr ⟨fun _ => rfl, fun _ => rfl⟩
      | put record => exact .inr ⟨fun _ => rfl, fun _ => rfl⟩

end Event

namespace History

def deedsOf (h : History) (a : ActivityId) : List Deed := h.reverse.filterMap (Event.deedBy? a)

def entriesOf (h : History) (a : ActivityId) : List Entry :=
  ((h.deedsOf a).findSome? Deed.entriesFetched?).getD []

def HasFetched (h : History) (a : ActivityId) (entries : List Entry) : Prop :=
  ∃ deeds, h.deedsOf a = .fetched entries :: deeds

def recordsPutBy (h : History) (a : ActivityId) : List Record :=
  (h.deedsOf a).filterMap Deed.recordPut?

def judgementsBy (h : History) (a : ActivityId) : List (Record × Verdict) :=
  (h.deedsOf a).filterMap Deed.judgement?

def recordsPut (h : History) : List Record := h.reverse.filterMap Event.recordPut?

def recordsTaken (h : History) : List Record := h.reverse.filterMap Event.recordTaken?

def commitsOf (h : History) (a : ActivityId) : List (List String) :=
  (h.deedsOf a).filterMap Deed.identitiesCommitted?

/-- What the commits of a history make of a store. -/
def replay (start : Snapshots) (h : History) : Snapshots := h.foldr Event.apply start

def lastCommit? (h : History) (source : String) : Option (ActivityId × List String) :=
  h.findSome? (Event.commitOf? source)

/-- The set of the identities of all entries fetched by the run that committed last for a source. -/
def lastMet? (h : History) (source : String) : Option Snapshot :=
  (h.lastCommit? source).map fun c =>
    Snapshots.setOf ((h.entriesOf c.1).map (·.identity source))

/-- The history as it would be without one run. -/
def without (h : History) (a : ActivityId) : History := h.filter fun e => !e.isBy a

/-! ## Deeds of one run -/

section

variable {a b : ActivityId} {spec : JobSpec} {deed : Deed} {record : Record} {e : Event}
  {h : History}

theorem deedsOf_cons (e : Event) (h : History) (a : ActivityId) :
    deedsOf (e :: h) a = h.deedsOf a ++ (e.deedBy? a).toList := by
  unfold deedsOf
  cases he : e.deedBy? a <;> simp [List.filterMap_append, he]

@[simp] theorem deedsOf_did_self :
    deedsOf (.did a spec deed :: h) a = h.deedsOf a ++ [deed] := by
  simp [deedsOf_cons, Event.deedBy?]

theorem deedsOf_did_of_ne (hab : b ≠ a) : deedsOf (.did b spec deed :: h) a = h.deedsOf a := by
  simp [deedsOf_cons, Event.deedBy?, hab]

@[simp] theorem deedsOf_taken : deedsOf (.taken record :: h) a = h.deedsOf a := by
  simp [deedsOf_cons, Event.deedBy?]

theorem deedsOf_append (later past : History) (a : ActivityId) :
    deedsOf (later ++ past) a = past.deedsOf a ++ later.deedsOf a := by
  simp [deedsOf, List.filterMap_append]

theorem mem_deedsOf : deed ∈ h.deedsOf a ↔ ∃ spec, Event.did a spec deed ∈ h := by
  unfold deedsOf
  rw [List.mem_filterMap]
  constructor
  · rintro ⟨e, he, hd⟩
    cases e with
    | did run spec d =>
        by_cases hrun : run = a
        · simp only [Event.deedBy?, hrun, if_true, Option.some.injEq] at hd
          exact ⟨spec, by simpa [hrun, hd] using he⟩
        · simp [Event.deedBy?, hrun] at hd
    | taken record => simp [Event.deedBy?] at hd
  · rintro ⟨spec, hmem⟩
    exact ⟨_, List.mem_reverse.mpr hmem, by simp [Event.deedBy?]⟩

theorem entriesOf_eq {entries : List Entry} {deeds : List Deed}
    (hdeeds : h.deedsOf a = .fetched entries :: deeds) : h.entriesOf a = entries := by
  unfold entriesOf
  rw [hdeeds]
  rfl

theorem HasFetched.cons {entries : List Entry} (hfetched : h.HasFetched a entries) (e : Event) :
    HasFetched (e :: h) a entries := by
  obtain ⟨deeds, hdeeds⟩ := hfetched
  exact ⟨deeds ++ (e.deedBy? a).toList, by rw [deedsOf_cons, hdeeds, List.cons_append]⟩

theorem recordsPut_cons (e : Event) (h : History) :
    recordsPut (e :: h) = h.recordsPut ++ e.recordPut?.toList := by
  unfold recordsPut
  cases he : e.recordPut? <;> simp [List.filterMap_append, he]

theorem recordsTaken_cons (e : Event) (h : History) :
    recordsTaken (e :: h) = h.recordsTaken ++ e.recordTaken?.toList := by
  unfold recordsTaken
  cases he : e.recordTaken? <;> simp [List.filterMap_append, he]

end

/-! ## Replaying commits -/

@[simp] theorem replay_cons (start : Snapshots) (e : Event) (h : History) :
    replay start (e :: h) = e.apply (replay start h) := rfl

/-- What is held was there at the beginning or was committed at some moment. -/
theorem mem_held_replay {start : Snapshots} {h : History} {entry : String × Snapshot}
    (hmem : entry ∈ (replay start h).held) :
    entry ∈ start.held ∨ ∃ later a spec identities past,
      h = later ++ .did a spec (.committed identities) :: past ∧
        entry = (spec.source, Snapshots.setOf identities) := by
  induction h with
  | nil => exact .inl hmem
  | cons e h ih =>
      have hold : entry ∈ (replay start h).held → entry ∈ start.held ∨
          ∃ later a spec identities past,
            e :: h = later ++ .did a spec (.committed identities) :: past ∧
              entry = (spec.source, Snapshots.setOf identities) := by
        intro hentry
        rcases ih hentry with hstart | ⟨later, a, spec, identities, past, rfl, heq⟩
        · exact .inl hstart
        · exact .inr ⟨e :: later, a, spec, identities, past, rfl, heq⟩
      rw [replay_cons] at hmem
      rcases e.committed_or_unfelt with ⟨a, spec, identities, rfl⟩ | ⟨happly, -⟩
      · rcases Snapshots.mem_held_commit hmem with hentry | hnew
        · exact hold hentry
        · exact .inr ⟨[], a, spec, identities, h, rfl, hnew⟩
      · rw [happly] at hmem
        exact hold hmem

theorem replay_capacity (start : Snapshots) (h : History) :
    (replay start h).capacity = start.capacity := by
  induction h with
  | nil => rfl
  | cons e h ih =>
      rw [replay_cons, ← ih]
      unfold Event.apply
      split <;> rfl

theorem exists_of_lastCommit? {h : History} {source : String} {a : ActivityId}
    {identities : List String} (hlast : h.lastCommit? source = some (a, identities)) :
    ∃ later spec past, h = later ++ .did a spec (.committed identities) :: past ∧
      spec.source = source := by
  obtain ⟨later, e, past, rfl, he, -⟩ := List.findSome?_eq_some_iff.mp hlast
  rcases e.committed_or_unfelt with ⟨b, spec, ids, rfl⟩ | ⟨-, hnone⟩
  · by_cases hsource : spec.source = source
    · rw [Event.commitOf?, if_pos hsource] at he
      cases he
      exact ⟨later, spec, past, rfl, hsource⟩
    · rw [Event.commitOf?, if_neg hsource] at he
      cases he
  · rw [hnone] at he
    cases he

theorem lastCommit?_isSome {h : History} {a : ActivityId} {spec : JobSpec}
    {identities : List String} (hmem : Event.did a spec (.committed identities) ∈ h) :
    (h.lastCommit? spec.source).isSome = true :=
  List.findSome?_isSome_iff.mpr ⟨_, hmem, by simp [Event.commitOf?]⟩

/-- A store that remembers all sources holds the last commit of each. -/
theorem snapshot?_replay_of_unbounded {start : Snapshots} (hcap : start.capacity = none)
    (h : History) (source : String) :
    (replay start h).snapshot? source =
      match h.lastCommit? source with
      | some (_, identities) => some (Snapshots.setOf identities)
      | none => start.snapshot? source := by
  induction h with
  | nil => rfl
  | cons e h ih =>
      have hcap' : (replay start h).capacity = none := by rw [replay_capacity, hcap]
      rw [replay_cons, lastCommit?, List.findSome?_cons]
      rcases e.committed_or_unfelt with ⟨a, spec, identities, rfl⟩ | ⟨happly, hnone⟩
      · rw [Event.apply, Snapshots.snapshot?_commit_of_unbounded hcap', Event.commitOf?]
        by_cases hs : spec.source = source
        · simp [hs]
        · rw [if_neg hs, if_neg (Ne.symm hs), ih]
          rfl
      · rw [happly, hnone, ih]
        rfl

/-- A run that commits nothing leaves no trace in the store. -/
theorem replay_without {h : History} {a : ActivityId} (hnone : h.commitsOf a = [])
    (start : Snapshots) : replay start (h.without a) = replay start h := by
  induction h with
  | nil => rfl
  | cons e h ih =>
      rw [commitsOf, deedsOf_cons, List.filterMap_append, List.append_eq_nil_iff] at hnone
      have hpast := ih hnone.1
      rw [replay_cons, ← hpast]
      by_cases he : e.isBy a
      · have happly : ∀ s, e.apply s = s := by
          rcases e.committed_or_unfelt with ⟨b, spec, identities, rfl⟩ | ⟨happly, -⟩
          · -- A commit that is a deed of the run is among those said not to be.
            have hb : b = a := by
              by_contra hb
              simp [Event.isBy, Event.deedBy?, hb] at he
            simp [Event.deedBy?, hb, Deed.identitiesCommitted?] at hnone
          · exact happly
        rw [happly]
        simp [without, he]
      · simp [without, he]

end History

end FeedIntake
