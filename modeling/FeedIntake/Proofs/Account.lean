import FeedIntake.Proofs.Interleaving
import FeedIntake.Proofs.Trail

/-! # Accounts

The account of an intake says of every run how its deeds explain where it stands, and of the whole
how the history explains the store and the queue. It is true at the beginning, and every turn and
take keeps it true.
-/

namespace FeedIntake

open Affairs

/-- How far a run has come with the entries that it fetched. -/
structure Progress (spec : JobSpec) (r : RunResult) (entries rest : List Entry) (trail : Trail) :
    Prop where
  split : ∃ done, entries = done ++ rest ∧
    done.map (·.toRecord spec.source) = trail.records.map .ok
  tally : Tally r entries.length trail trail.records

namespace Progress

variable {spec : JobSpec} {r : RunResult} {entries rest : List Entry} {trail : Trail} {e : Entry}
  {record : Record}

theorem split_concat (h : Progress spec r entries (e :: rest) trail)
    (he : e.toRecord spec.source = .ok record) (verdict : Verdict) :
    ∃ done, entries = done ++ rest ∧ done.map (·.toRecord spec.source) =
      (Trail.records (trail ++ [(record, verdict)])).map .ok := by
  obtain ⟨done, hsplit, hread⟩ := h.split
  refine ⟨done ++ [e], by rw [hsplit, List.append_assoc, List.singleton_append], ?_⟩
  rw [Trail.records_concat, List.map_append, List.map_append, hread]
  simp [he]

theorem begun (spec : JobSpec) (now : Time.DateTime) (entries : List Entry) :
    Progress spec ((spec.begun now).takeUp entries.length) entries entries [] :=
  ⟨⟨[], rfl, rfl⟩, Tally.begun spec now entries.length⟩

theorem reject (h : Progress spec r entries (e :: rest) trail)
    (he : e.toRecord spec.source = .ok record) {verdict : Verdict} (hv : verdict ≠ .admitted) :
    Progress spec (r.examine record verdict) entries rest (trail ++ [(record, verdict)]) where
  split := h.split_concat he verdict
  tally := by
    rw [Trail.records_concat]
    exact h.tally.reject record hv

theorem publish (h : Progress spec r entries (e :: rest) trail)
    (he : e.toRecord spec.source = .ok record) :
    Progress spec (r.examine record .admitted).publish entries rest
      (trail ++ [(record, .admitted)]) where
  split := h.split_concat he .admitted
  tally := by
    rw [Trail.records_concat]
    exact (h.tally.offer record).publish record

end Progress

namespace Phase

/-- The deeds of a run that stands in a phase. -/
inductive Explained : Phase → List Deed → Prop where
  | idle : Explained idle []
  | asking (spec : JobSpec) (now : Time.DateTime) : Explained (asking spec (spec.begun now)) []
  | working {spec : JobSpec} {r : RunResult} {entries rest : List Entry} {trail : Trail}
      (h : Progress spec r entries rest trail) :
      Explained (working spec r rest) (.fetched entries :: trail.deeds)
  | offering {spec : JobSpec} {r : RunResult} {entries rest : List Entry} {trail : Trail}
      {e : Entry} {record : Record} (h : Progress spec r entries (e :: rest) trail)
      (he : e.toRecord spec.source = .ok record) :
      Explained (offering spec (r.examine record .admitted) record rest)
        (.fetched entries :: trail.deeds ++ [.judged record .admitted])
  | through {spec : JobSpec} {r : RunResult} {entries : List Entry} {trail : Trail}
      (h : Progress spec r entries [] trail) (now : Time.DateTime) :
      Explained (ended spec (r.conclude spec.perpetual now) .done)
        (.fetched entries :: trail.deeds ++ if spec.perpetual then [.committed r.seen] else [])
  | stopped {p : Phase} {deeds : List Deed} {spec : JobSpec} {r : RunResult}
      {outcome : RunOutcome} (h : Explained p deeds) (stop : Stop spec p r outcome) :
      Explained (ended spec r outcome) deeds

end Phase

namespace Affairs

/-- What the history of the affairs says of them, given what there was before it. -/
structure Sound (store : Snapshots) (records : List Record) (s : Affairs) : Prop where
  replayed : s.store = s.history.replay store
  /-- What was put was taken or is still there, in the order in which it came. -/
  conserved : records ++ s.history.recordsPut = s.history.recordsTaken ++ s.records
  /-- A record is judged against what the store holds at that moment. -/
  judged : ∀ {later past : History} {a : ActivityId} {spec : JobSpec} {record : Record}
    {verdict : Verdict}, s.history = later ++ .did a spec (.judged record verdict) :: past →
      verdict = spec.judge (past.replay store) record
  owned : ∀ {a : ActivityId} {spec : JobSpec} {deed : Deed},
    Event.did a spec deed ∈ s.history → (s.phase a).spec? = some spec
  explained : ∀ a, (s.phase a).Explained (s.history.deedsOf a)

variable {a : ActivityId} {spec : JobSpec} {s t : Affairs}

theorem Turn.explained (turn : Turn a spec s t) (h : (s.phase a).Explained (s.history.deedsOf a)) :
    (t.phase a).Explained (t.history.deedsOf a) := by
  generalize hdeeds : s.history.deedsOf a = deeds at h
  cases turn with
  | begin now hp =>
      rw [hp] at h
      cases h
      rw [set_phase_self, set_history, hdeeds]
      exact .asking spec now
  | fetch entries hp =>
      rw [hp] at h
      cases h with
      | asking _ now =>
          rw [set_phase_self, set_history, tell, History.deedsOf_did_self, hdeeds]
          exact .working (.begun _ now entries)
  | reject hp he hv =>
      rw [hp] at h
      cases h with
      | working progress =>
          have hnext := Phase.Explained.working (progress.reject he hv)
          rw [Trail.deeds_concat, Trail.deedsAbout, if_neg hv] at hnext
          rw [set_phase_self, set_history, tell, History.deedsOf_did_self, hdeeds]
          exact hnext
  | offer hp he hv =>
      rw [hp] at h
      cases h with
      | working progress =>
          rw [set_phase_self, set_history, tell, History.deedsOf_did_self, hdeeds]
          exact .offering progress he
  | put hp =>
      rw [hp] at h
      cases h with
      | offering progress he =>
          have hnext := Phase.Explained.working (progress.publish he)
          rw [Trail.deeds_concat, Trail.deedsAbout, if_pos rfl] at hnext
          rw [set_phase_self, set_history, tell, History.deedsOf_did_self]
          show Phase.Explained _ (s.history.deedsOf a ++ _)
          rw [hdeeds, List.append_assoc]
          exact hnext
  | conclude now hp =>
      rw [hp] at h
      cases h with
      | working progress =>
          have hnext := Phase.Explained.through progress now
          rw [set_phase_self, set_history, commit]
          cases hperp : spec.perpetual with
          | false =>
              simp only [hperp, Bool.false_eq_true, if_false, List.append_nil] at hnext ⊢
              rw [hdeeds]
              exact hnext
          | true =>
              simp only [hperp, if_true] at hnext ⊢
              rw [tell, History.deedsOf_did_self, hdeeds]
              exact hnext
  | stop stop =>
      rw [set_phase_self, set_history, hdeeds]
      exact .stopped h stop

theorem Turn.spec? (turn : Turn a spec s t) {b : ActivityId} {job : JobSpec}
    (h : (s.phase b).spec? = some job) : (t.phase b).spec? = some job := by
  by_cases hb : b = a
  · subst hb
    cases turn with
    | begin _ hp =>
        rw [hp] at h
        cases h
    | stop stop =>
        rw [set_phase_self]
        generalize s.phase b = p at h stop
        cases stop <;> exact h
    | fetch _ hp | conclude _ hp | reject hp | offer hp | put hp =>
        rw [hp] at h
        rw [set_phase_self]
        exact h
  · rw [turn.phase_of_ne hb]
    exact h

/-- A turn tells nothing and changes nothing that is shared, or it tells one deed and changes what
the deed says. -/
theorem Turn.effect (turn : Turn a spec s t) :
    (t.history = s.history ∧ t.store = s.store ∧ t.records = s.records) ∨
      ∃ deed, t.history = .did a spec deed :: s.history ∧
        t.store = (Event.did a spec deed).apply s.store ∧
        t.records = s.records ++ deed.recordPut?.toList ∧
        (t.phase a).spec? = some spec ∧
        ∀ record verdict, deed = .judged record verdict →
          verdict = spec.judge s.store record := by
  cases turn with
  | begin now hp => exact .inl ⟨rfl, rfl, rfl⟩
  | fetch entries hp =>
      refine .inr ⟨_, rfl, rfl, (List.append_nil _).symm, by rw [set_phase_self]; rfl, ?_⟩
      exact fun _ _ h => by cases h
  | reject hp he hv =>
      refine .inr ⟨_, rfl, rfl, (List.append_nil _).symm, by rw [set_phase_self]; rfl, ?_⟩
      rintro _ _ ⟨⟩
      rfl
  | offer hp he hv =>
      refine .inr ⟨_, rfl, rfl, (List.append_nil _).symm, by rw [set_phase_self]; rfl, ?_⟩
      rintro _ _ ⟨⟩
      exact hv.symm
  | put hp =>
      refine .inr ⟨_, rfl, rfl, rfl, by rw [set_phase_self]; rfl, ?_⟩
      exact fun _ _ h => by cases h
  | conclude now hp =>
      rename_i r
      cases hperp : spec.perpetual with
      | false =>
          left
          simp [commit, hperp]
      | true =>
          refine .inr ⟨.committed r.seen, ?_, ?_, ?_, by rw [set_phase_self]; rfl, ?_⟩
          · simp [commit, hperp, tell]
          · simp [commit, hperp, tell, Event.apply]
          · simp [commit, hperp, tell, Deed.recordPut?]
          · exact fun _ _ h => by cases h
  | stop stop => exact .inl ⟨rfl, rfl, rfl⟩

theorem Turn.sound {store : Snapshots} {records : List Record} (turn : Turn a spec s t)
    (h : s.Sound store records) : t.Sound store records := by
  have hexplained (b : ActivityId)
      (hother : b ≠ a → t.history.deedsOf b = s.history.deedsOf b) :
      (t.phase b).Explained (t.history.deedsOf b) := by
    by_cases hb : b = a
    · subst hb
      exact turn.explained (h.explained b)
    · rw [turn.phase_of_ne hb, hother hb]
      exact h.explained b
  rcases turn.effect with ⟨hhistory, hstore, hrecords⟩ |
    ⟨deed, hhistory, hstore, hrecords, hspec, hverdict⟩
  · exact {
      replayed := by rw [hstore, hhistory]; exact h.replayed
      conserved := by rw [hrecords, hhistory]; exact h.conserved
      judged := fun hsplit => h.judged (hhistory ▸ hsplit)
      owned := fun hmem => turn.spec? (h.owned (hhistory ▸ hmem))
      explained := fun b => hexplained b fun _ => by rw [hhistory] }
  · exact {
      replayed := by rw [hstore, hhistory, History.replay_cons, ← h.replayed]
      conserved := by
        rw [hrecords, hhistory, History.recordsPut_cons, History.recordsTaken_cons]
        simp [← List.append_assoc, h.conserved, Event.recordPut?, Event.recordTaken?]
      judged := by
        intro later past b spec' record verdict hsplit
        rw [hhistory] at hsplit
        rcases List.cons_eq_append_iff.mp hsplit with ⟨rfl, heq⟩ | ⟨later', rfl, heq⟩
        · -- The record judged in this very turn.
          cases heq
          rw [← h.replayed]
          exact hverdict record verdict rfl
        · exact h.judged heq
      owned := by
        intro b spec' deed' hmem
        rw [hhistory] at hmem
        rcases List.mem_cons.mp hmem with heq | hold
        · cases heq
          exact hspec
        · exact turn.spec? (h.owned hold)
      explained := fun b => hexplained b fun hb => by
        rw [hhistory, History.deedsOf_did_of_ne (Ne.symm hb)] }

theorem Take.sound {store : Snapshots} {records : List Record} (take : Take s t)
    (h : s.Sound store records) : t.Sound store records := by
  cases take with
  | take hfirst => exact {
      replayed := h.replayed
      conserved := by
        rw [tell, History.recordsPut_cons, History.recordsTaken_cons]
        simp [Event.recordPut?, Event.recordTaken?, h.conserved, hfirst]
      judged := by
        intro later past a spec record verdict hsplit
        rcases List.cons_eq_append_iff.mp hsplit with ⟨-, heq⟩ | ⟨later', rfl, heq⟩
        · cases heq
        · exact h.judged heq
      owned := by
        intro a spec deed hmem
        rcases List.mem_cons.mp hmem with heq | hold
        · cases heq
        · exact h.owned hold
      explained := by
        intro a
        rw [tell, History.deedsOf_taken]
        exact h.explained a }

theorem Course.sound {store : Snapshots} {records : List Record} (course : Course s t)
    (h : s.Sound store records) : t.Sound store records := by
  induction course with
  | refl => exact h
  | tail _ step ih =>
      rcases step with ⟨a, spec, turn⟩ | take
      · exact turn.sound ih
      · exact take.sound ih

theorem sound_start (store : Snapshots) (records : List Record) :
    Sound store records ⟨store, records, [], fun _ => .idle⟩ where
  replayed := rfl
  conserved := List.append_nil _
  judged := fun hsplit => by simp at hsplit
  owned := fun hmem => by cases hmem
  explained := fun _ => .idle

end Affairs

/-- The account of every state that an intake can reach is true. -/
theorem Intake.Reaches.sound {now : Time.DateTime} {queue : RecordQueue} {store : Snapshots}
    {web : List (String × Response)} {w : Intake}
    (reach : Intake.Reaches (.start now queue store web) w) :
    w.affairs.Sound store queue.records :=
  reach.course_of_start.sound (Affairs.sound_start store queue.records)

end FeedIntake
