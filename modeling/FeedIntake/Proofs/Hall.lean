import FeedIntake.Intake.State
import FeedIntake.Total
import Mathlib.Logic.Function.Basic
import Mathlib.Logic.Relation

/-! # A collecting round as a hall

A round whose records are taken as they come, with all left out that does not decide who can go on.
What remains is where everyone stands, how many records and permits there are, and how many members
have ended. Everyone who is called goes on by small steps. The hall cannot come to rest before all
have ended, and every call brings it nearer to its end.
-/

namespace FeedIntake

/-- What a member of a round does next. -/
inductive Errand where
  | start
  /-- It came when no permit was free. -/
  | line
  /-- It has a permit and is about to fetch. -/
  | ask
  /-- Its request is on the network. -/
  | afar
  /-- It has a record to put, and so many entries to examine after it. -/
  | queue (rest : Nat)
  /-- It has at most so many entries to examine. -/
  | work (rest : Nat)
  | gone
  deriving DecidableEq

/-- Whether somebody waits for something that has not come, is due to move, or neither. -/
inductive Pace where
  | waits
  | due
  | free
  deriving DecidableEq

structure Spot where
  errand : Errand
  pace : Pace
  deriving DecidableEq

inductive OwnerSpot where
  | gathering
  /-- All members have ended, and the owner is due to gather their results. -/
  | called
  | counting
  /-- It waits until all records are taken. -/
  | joining
  | roused
  | ending
  | gone
  deriving DecidableEq

inductive TakerSpot where
  | waits
  | due
  | taking
  /-- It was called off and is due to leave. -/
  | dismissed
  | leaving
  | gone
  deriving DecidableEq

/-- Who works at a collecting round, and what comes of the fetches of its members. -/
structure Crew where
  owner : ActivityId
  taker : ActivityId
  members : List ActivityId
  spec : ActivityId → JobSpec
  answer : ActivityId → Except Fault (List Entry)
  apart : (owner :: taker :: members).Nodup
  /-- No fetch is called off. -/
  uncancelled : ∀ m ∈ members, ∀ fault, answer m = .error fault → fault.isCancellation = false

def Crew.load (c : Crew) (m : ActivityId) : Nat := (c.answer m).toOption.elim 0 List.length

structure Hall where
  spot : ActivityId → Spot
  owner : OwnerSpot
  taker : TakerSpot
  records : Nat
  /-- How many permits are free. -/
  permits : Nat
  /-- Members that have ended and that the owner has not noted yet. -/
  notes : Nat
  /-- Members that the owner has noted. -/
  ended : Nat

namespace Spot

/-- Whether a member has a permit. Whoever was given one in the line has it. -/
def holds : Spot → Bool
  | ⟨.start, _⟩ | ⟨.gone, _⟩ | ⟨.line, .waits⟩ => false
  | _ => true

def isGone (s : Spot) : Bool := s.errand == .gone

def moves (s : Spot) : Bool := s.pace == .free && !s.isGone

def putting : Spot → Nat
  | ⟨.queue _, .waits⟩ => 1
  | _ => 0

def waitsInLine (s : Spot) : Prop :=
  s.pace = .waits → s.errand = .line ∨ ∃ k, s.errand = .queue k

/-- The places in the line for permits, each with whether a permit was given. -/
def places : Spot → List Bool
  | ⟨.line, .waits⟩ => [false]
  | ⟨.line, _⟩ => [true]
  | _ => []

end Spot

def Pace.calls : Pace → List Bool
  | due => [false]
  | _ => []

def OwnerSpot.calls : OwnerSpot → List Bool
  | called | roused => [false]
  | _ => []

def OwnerSpot.moves : OwnerSpot → Bool
  | counting | ending => true
  | _ => false

def TakerSpot.moves : TakerSpot → Bool
  | taking | leaving => true
  | _ => false

def OwnerSpot.hasGathered : OwnerSpot → Bool
  | gathering | called | counting => false
  | _ => true

def TakerSpot.rouse : TakerSpot → TakerSpot
  | waits => due
  | s => s

def OwnerSpot.rouse (left : Nat) : OwnerSpot → OwnerSpot
  | joining => if left = 0 then roused else joining
  | s => s

namespace Hall

def set (h : Hall) (m : ActivityId) (s : Spot) : Hall :=
  { h with spot := Function.update h.spot m s }

@[simp] theorem set_spot_self (h : Hall) (m : ActivityId) (s : Spot) : (h.set m s).spot m = s :=
  Function.update_self ..

theorem set_spot_of_ne (h : Hall) {m b : ActivityId} (hb : b ≠ m) (s : Spot) :
    (h.set m s).spot b = h.spot b :=
  Function.update_of_ne hb ..

theorem ne_of_spot_ne {h : Hall} {m b : ActivityId} {s s' : Spot} (hm : h.spot m = s)
    (hb : h.spot b = s') (hs : s ≠ s') : m ≠ b := by
  rintro rfl
  exact hs (hm.symm.trans hb)

/-- Somebody is called and moves. -/
inductive Attends (c : Crew) : ActivityId → Hall → Hall → Prop where
  | member {h : Hall} {m : ActivityId} {e : Errand} (hmem : m ∈ c.members)
      (hm : h.spot m = ⟨e, .due⟩) : Attends c m h (h.set m ⟨e, .free⟩)
  | gathers {h : Hall} (ho : h.owner = .called) : Attends c c.owner h { h with owner := .counting }
  | ends {h : Hall} (ho : h.owner = .roused) : Attends c c.owner h { h with owner := .ending }
  | takes {h : Hall} (ht : h.taker = .due) : Attends c c.taker h { h with taker := .taking }
  | leaves {h : Hall} (ht : h.taker = .dismissed) :
      Attends c c.taker h { h with taker := .leaving }

/-- The owner takes note of a member that has ended, and is called after the last one. -/
inductive Notes (c : Crew) : Hall → Hall → Prop where
  | note {h : Hall} {n : Nat} (hn : h.notes = n + 1) : Notes c h { h with
      notes := n
      ended := h.ended + 1
      owner := if h.ended + 1 = c.members.length then .called else h.owner }

/-- What whoever moves does on its way. -/
inductive Step (c : Crew) : Hall → Hall → Prop where
  /-- A member finds no free permit, or others in line. -/
  | join {h : Hall} {m : ActivityId} (hmem : m ∈ c.members) (hm : h.spot m = ⟨.start, .free⟩)
      (taken : h.permits = 0 ∨ ∃ b, (h.spot b).errand = .line) :
      Step c h (h.set m ⟨.line, .waits⟩)
  | take {h : Hall} {m : ActivityId} (hmem : m ∈ c.members) (hm : h.spot m = ⟨.start, .free⟩) :
      Step c h ({ h with permits := h.permits - 1 }.set m ⟨.ask, .free⟩)
  | proceed {h : Hall} {m : ActivityId} (hmem : m ∈ c.members) (hm : h.spot m = ⟨.line, .free⟩) :
      Step c h (h.set m ⟨.ask, .free⟩)
  /-- If there is another free permit, the next in line is served. -/
  | grant {h : Hall} {b : ActivityId} (hmem : b ∈ c.members) (hb : h.spot b = ⟨.line, .waits⟩) :
      Step c h ({ h with permits := h.permits - 1 }.set b ⟨.line, .due⟩)
  | send {h : Hall} {m : ActivityId} (hmem : m ∈ c.members) (hm : h.spot m = ⟨.ask, .free⟩) :
      Step c h (h.set m ⟨.afar, .due⟩)
  | answered {h : Hall} {m : ActivityId} {n : Nat} (hmem : m ∈ c.members)
      (hm : h.spot m = ⟨.ask, .free⟩ ∨ h.spot m = ⟨.afar, .free⟩)
      (hn : n ≤ c.load m) : Step c h (h.set m ⟨.work n, .free⟩)
  | put {h : Hall} {m : ActivityId} {n : Nat} (hmem : m ∈ c.members)
      (hm : h.spot m = ⟨.work (n + 1), .free⟩ ∨ h.spot m = ⟨.queue n, .free⟩) :
      Step c h ({ h with records := h.records + 1, taker := h.taker.rouse }.set m ⟨.work n, .free⟩)
  /-- The queue is full. -/
  | stall {h : Hall} {m : ActivityId} {n k : Nat} (hmem : m ∈ c.members)
      (hm : h.spot m = ⟨.work (n + 1), .free⟩ ∨ h.spot m = ⟨.queue n, .free⟩) (hk : k ≤ n)
      (full : 0 < h.records) : Step c h (h.set m ⟨.queue k, .waits⟩)
  | finish {h : Hall} {m : ActivityId} {n : Nat} (hmem : m ∈ c.members)
      (hm : h.spot m = ⟨.work n, .free⟩) (hnone : ∀ b, h.spot b ≠ ⟨.line, .waits⟩) :
      Step c h ({ h with permits := h.permits + 1, notes := h.notes + 1 }.set m ⟨.gone, .free⟩)
  /-- The permit of a member that ends goes to one in line. -/
  | handOn {h : Hall} {m b : ActivityId} {n : Nat} (hmem : m ∈ c.members)
      (hm : h.spot m = ⟨.work n, .free⟩) (hmem' : b ∈ c.members)
      (hb : h.spot b = ⟨.line, .waits⟩) :
      Step c h (({ h with notes := h.notes + 1 }.set b ⟨.line, .due⟩).set m ⟨.gone, .free⟩)
  | pop {h : Hall} {n : Nat} (ht : h.taker = .taking) (hn : h.records = n + 1)
      (hnone : ∀ b k, h.spot b ≠ ⟨.queue k, .waits⟩) :
      Step c h { h with records := n, owner := h.owner.rouse n }
  /-- A place that comes free is offered to one in line. -/
  | offer {h : Hall} {b : ActivityId} {n k : Nat} (ht : h.taker = .taking) (hn : h.records = n + 1)
      (hmem : b ∈ c.members) (hb : h.spot b = ⟨.queue k, .waits⟩) :
      Step c h ({ h with records := n, owner := h.owner.rouse n }.set b ⟨.queue k, .due⟩)
  | await {h : Hall} (ht : h.taker = .taking) (hn : h.records = 0) :
      Step c h { h with taker := .waits }
  | leave {h : Hall} (ht : h.taker = .leaving) : Step c h { h with taker := .gone }
  | joinTaker {h : Hall} (ho : h.owner = .counting) (hn : 0 < h.records) :
      Step c h { h with owner := .joining }
  | dismiss {h : Hall} (ho : h.owner = .counting ∧ h.records = 0 ∨ h.owner = .ending)
      (ht : h.taker = .waits ∨ h.taker = .due) :
      Step c h { h with owner := .gone, taker := .dismissed }

abbrev Steps (c : Crew) : Hall → Hall → Prop := Relation.ReflTransGen (Step c)

/-! ## Counting members -/

end Hall

/-- What is counted changes by what it is for one member. -/
theorem Crew.total_set (c : Crew) {m : ActivityId} (hmem : m ∈ c.members)
    (f : ActivityId → Spot → Nat) (h : Hall) (s : Spot) :
    total (c.members.map fun b => f b ((h.set m s).spot b)) + f m (h.spot m) =
      total (c.members.map fun b => f b (h.spot b)) + f m s := by
  have hnodup : c.members.Nodup := (List.nodup_cons.mp (List.nodup_cons.mp c.apart).2).2
  generalize c.members = members at hmem hnodup
  induction members with
  | nil => cases hmem
  | cons b rest ih =>
      obtain ⟨hb, hnodup⟩ := List.nodup_cons.mp hnodup
      rw [List.map_cons, List.map_cons, total_cons, total_cons]
      by_cases hbm : b = m
      · subst hbm
        have hrest : (rest.map fun b' => f b' ((h.set b s).spot b')) =
            rest.map fun b' => f b' (h.spot b') :=
          List.map_congr_left fun b' hb' => by
            rw [Hall.set_spot_of_ne h (ne_of_mem_of_not_mem hb' hb)]
        rw [Hall.set_spot_self, hrest]
        omega
      · have hmem' : m ∈ rest := (List.mem_cons.mp hmem).resolve_left (Ne.symm hbm)
        have hlater := ih hmem' hnodup
        rw [Hall.set_spot_of_ne h hbm]
        omega

namespace Hall

def finished (c : Crew) (h : Hall) : Nat :=
  total (c.members.map fun m => (h.spot m).isGone.toNat)

theorem finished_set {c : Crew} {m : ActivityId} (hmem : m ∈ c.members) (h : Hall) (s : Spot) :
    (h.set m s).finished c + (h.spot m).isGone.toNat = h.finished c + s.isGone.toNat :=
  c.total_set hmem (fun _ s => s.isGone.toNat) h s

theorem finished_le (c : Crew) (h : Hall) : h.finished c ≤ c.members.length := by
  unfold finished
  induction c.members with
  | nil => exact Nat.le_refl _
  | cons m rest ih =>
      have hone := Bool.toNat_le (h.spot m).isGone
      rw [List.map_cons, total_cons, List.length_cons]
      omega

theorem finished_lt {c : Crew} {h : Hall} {m : ActivityId} (hmem : m ∈ c.members)
    (hm : (h.spot m).isGone = false) : h.finished c < c.members.length := by
  have hgone := finished_set hmem h ⟨.gone, .free⟩
  have hle := finished_le c (h.set m ⟨.gone, .free⟩)
  rw [hm] at hgone
  simp only [Spot.isGone, beq_self_eq_true, Bool.toNat_true, Bool.toNat_false] at hgone
  omega

/-! ## What always holds -/

/-- Whoever waits for room can count on a record that is still to be taken, or on somebody who was
woken for room and has not put its record yet. -/
def Moving (h : Hall) : Prop :=
  ∀ b k, h.spot b = ⟨.queue k, .waits⟩ →
    0 < h.records ∨ ∃ b k p, h.spot b = ⟨.queue k, p⟩ ∧ p ≠ .waits

/-- If no permit is free, or somebody waits for one, there is somebody who has one. -/
def Permitting (h : Hall) : Prop :=
  (h.permits = 0 ∨ ∃ b, h.spot b = ⟨.line, .waits⟩) → ∃ b, (h.spot b).holds = true

/-- Who ends when: first the members, then the owner and then the taker. -/
structure InTurn (h : Hall) : Prop where
  /-- There is nothing to take when the taker waits. -/
  idle : h.taker = .waits → h.records = 0
  joining : h.owner = .joining → 0 < h.records
  spent : h.owner = .roused ∨ h.owner = .ending ∨ h.owner = .gone → h.records = 0
  /-- The taker is sent away by the owner, when it ends. -/
  staff : h.owner = .gone ↔ h.taker = .dismissed ∨ h.taker = .leaving ∨ h.taker = .gone

/-- Only members are anywhere. -/
def Within (c : Crew) (h : Hall) : Prop := ∀ b, b ∉ c.members → h.spot b = ⟨.gone, .free⟩

structure Sane (c : Crew) (h : Hall) : Prop where
  within : h.Within c
  waits : ∀ b, (h.spot b).waitsInLine
  moving : h.Moving
  permitting : h.Permitting
  ended : h.ended + h.notes = h.finished c
  gathering : h.owner = .gathering ↔ h.ended < c.members.length
  inTurn : h.InTurn

section

variable {c : Crew} {h h' : Hall} {m : ActivityId}

theorem Sane.gathering_of_going (sane : h.Sane c) (hmem : m ∈ c.members)
    (hm : (h.spot m).isGone = false) : h.owner = .gathering := by
  have hlt := finished_lt hmem hm
  have hended := sane.ended
  exact sane.gathering.mpr (by omega)

theorem Moving.set_of_pos (hpos : 0 < h.records) (m : ActivityId) (s : Spot) :
    (h.set m s).Moving := fun _ _ _ => .inl hpos

/-- Whoever goes to another place than the queue and comes from one leaves the others what they can
count on. -/
theorem Moving.set (moving : h.Moving) (hm : ∀ k p, h.spot m ≠ ⟨.queue k, p⟩) {s : Spot}
    (hs : ∀ k, s ≠ ⟨.queue k, .waits⟩) : (h.set m s).Moving := by
  intro b k hb
  by_cases hbm : b = m
  · subst hbm
    rw [set_spot_self] at hb
    exact absurd hb (hs k)
  · rw [set_spot_of_ne h hbm] at hb
    rcases moving b k hb with hpos | ⟨b', k', p, hb', hp⟩
    · exact .inl hpos
    · refine .inr ⟨b', k', p, ?_, hp⟩
      have hbm' : b' ≠ m := by
        rintro rfl
        exact hm k' p hb'
      rw [set_spot_of_ne h hbm']
      exact hb'

theorem Permitting.of_holds {b : ActivityId} (hb : (h.spot b).holds = true) : h.Permitting :=
  fun _ => ⟨b, hb⟩

theorem Step.moving (step : Step c h h') (moving : h.Moving) : h'.Moving := by
  cases step with
  | join hmem hm taken => exact moving.set (by simp [hm]) (by simp)
  | take hmem hm => exact Moving.set (h := { h with permits := _ }) moving (by simp [hm]) (by simp)
  | proceed hmem hm => exact moving.set (by simp [hm]) (by simp)
  | grant hmem hb => exact Moving.set (h := { h with permits := _ }) moving (by simp [hb]) (by simp)
  | send hmem hm => exact moving.set (by simp [hm]) (by simp)
  | answered hmem hm hn =>
      refine moving.set (fun k p => ?_) (by simp)
      rcases hm with hm | hm <;> simp [hm]
  | put hmem hm => exact .set_of_pos (Nat.succ_pos _) _ _
  | stall hmem hm hk full => exact .set_of_pos full _ _
  | finish hmem hm hnone =>
      exact Moving.set (h := { h with permits := _, notes := _ }) moving (by simp [hm]) (by simp)
  | handOn hmem hm hmem' hb =>
      rename_i m b n
      have hserved : ({ h with notes := h.notes + 1 }.set b ⟨.line, .due⟩ : Hall).Moving :=
        Moving.set (h := { h with notes := _ }) moving (by simp [hb]) (by simp)
      refine hserved.set (fun k p => ?_) (by simp)
      rw [set_spot_of_ne _ (ne_of_spot_ne hm hb (by simp))]
      simp [hm]
  | pop ht hn hnone => exact fun b k hb => absurd hb (hnone b k)
  | offer ht hn hmem hb => exact fun _ _ _ => .inr ⟨_, _, .due, set_spot_self .., by simp⟩
  | await | leave | joinTaker | dismiss => exact moving

theorem Step.permitting (step : Step c h h') (permitting : h.Permitting) : h'.Permitting := by
  cases step with
  | join hmem hm taken =>
      rename_i m
      -- Whoever has a permit does not come just now.
      have hholder : ∃ b, (h.spot b).holds = true := by
        rcases taken with hnone | ⟨b, hb⟩
        · exact permitting (.inl hnone)
        · by_cases hwaits : (h.spot b).pace = .waits
          · refine permitting (.inr ⟨b, ?_⟩)
            rw [← hb, ← hwaits]
          · refine ⟨b, ?_⟩
            generalize h.spot b = s at hb hwaits
            obtain ⟨errand, pace⟩ := s
            cases hb
            cases pace <;> first | rfl | exact absurd rfl hwaits
      obtain ⟨b, hb⟩ := hholder
      have hbm : b ≠ m := ne_of_spot_ne rfl hm fun heq => by
        rw [heq] at hb
        cases hb
      refine .of_holds (b := b) ?_
      rw [set_spot_of_ne h hbm]
      exact hb
  | take | proceed | grant | send | answered | put | stall | offer =>
      exact .of_holds (by rw [set_spot_self]; rfl)
  | finish hmem hm hnone =>
      rintro (hzero | ⟨b, hb⟩)
      · cases hzero
      · rename_i m n
        by_cases hbm : b = m
        · subst hbm
          simp at hb
        · rw [set_spot_of_ne _ hbm] at hb
          exact absurd hb (hnone b)
  | handOn hmem hm hmem' hb =>
      rename_i m b n
      refine .of_holds (b := b) ?_
      rw [set_spot_of_ne _ (ne_of_spot_ne hb hm (by simp)), set_spot_self]
      rfl
  | pop | await | leave | joinTaker | dismiss => exact permitting

theorem Within.set (within : h.Within c) (hmem : m ∈ c.members) (s : Spot) :
    (h.set m s).Within c := by
  intro b hb
  rw [set_spot_of_ne h (ne_of_mem_of_not_mem hmem hb).symm]
  exact within b hb

theorem Step.within (step : Step c h h') (within : h.Within c) : h'.Within c := by
  cases step with
  | handOn hmem _ hmem' _ =>
      exact (Within.set (h := { h with notes := _ }) within hmem' _).set hmem _
  | pop | await | leave | joinTaker | dismiss => exact within
  | take | grant => exact Within.set (h := { h with permits := _ }) within (by assumption) _
  | put => exact Within.set (h := { h with records := _, taker := _ }) within (by assumption) _
  | finish => exact Within.set (h := { h with permits := _, notes := _ }) within (by assumption) _
  | offer => exact Within.set (h := { h with records := _, owner := _ }) within (by assumption) _
  | _ => exact within.set (by assumption) _

theorem Steps.within (steps : Steps c h h') (within : h.Within c) : h'.Within c := by
  induction steps with
  | refl => exact within
  | tail _ step ih => exact step.within ih

theorem waits_set {b : ActivityId} {s : Spot} (hwaits : (h.spot b).waitsInLine)
    (hs : s.waitsInLine) : ((h.set m s).spot b).waitsInLine := by
  by_cases hbm : b = m
  · subst hbm
    rw [set_spot_self]
    exact hs
  · rw [set_spot_of_ne h hbm]
    exact hwaits

theorem Step.waits (step : Step c h h') {b : ActivityId} (waits : (h.spot b).waitsInLine) :
    (h'.spot b).waitsInLine := by
  cases step with
  | handOn hmem hm hmem' hb =>
      exact waits_set (waits_set (h := { h with notes := _ }) waits (by simp [Spot.waitsInLine]))
        (by simp [Spot.waitsInLine])
  | pop | await | leave | joinTaker | dismiss => exact waits
  | _ => exact waits_set waits (by simp [Spot.waitsInLine])

/-- As many have ended as before if a member has ended that had, or has not that had not. -/
theorem finished_set_of_same {u : Hall} (hspot : u.spot = h.spot) (hmem : m ∈ c.members) {s : Spot}
    (hs : s.isGone = (h.spot m).isGone) : (u.set m s).finished c = h.finished c := by
  have hsame : u.finished c = h.finished c := by rw [finished, hspot, finished]
  have hcount := finished_set hmem u s
  rw [hspot, hs, hsame] at hcount
  exact Nat.add_right_cancel hcount

theorem finished_set_gone {u : Hall} (hspot : u.finished c = h.finished c) (hmem : m ∈ c.members)
    (hm : (u.spot m).isGone = false) :
    (u.set m ⟨.gone, .free⟩).finished c = h.finished c + 1 := by
  have hcount := finished_set hmem u ⟨.gone, .free⟩
  rw [hm, hspot] at hcount
  exact hcount

/-- Members end one by one, and everyone that has ended is to be noted. -/
theorem Step.tally (step : Step c h h') :
    h'.ended = h.ended ∧ h'.notes + h.finished c = h.notes + h'.finished c := by
  have hsame {u : Hall} (hnotes : u.notes = h.notes) (hfinished : u.finished c = h.finished c) :
      u.notes + h.finished c = h.notes + u.finished c := by rw [hnotes, hfinished]
  have hone {u : Hall} (hnotes : u.notes = h.notes + 1)
      (hfinished : u.finished c = h.finished c + 1) :
      u.notes + h.finished c = h.notes + u.finished c := by omega
  cases step with
  | join hmem hm | proceed hmem hm | send hmem hm | take hmem hm | grant hmem hm =>
      exact ⟨rfl, hsame rfl (finished_set_of_same rfl hmem (by rw [hm]; rfl))⟩
  | offer ht hn hmem hb =>
      exact ⟨rfl, hsame rfl (finished_set_of_same rfl hmem (by rw [hb]; rfl))⟩
  | answered hmem hm | put hmem hm | stall hmem hm =>
      refine ⟨rfl, hsame rfl (finished_set_of_same rfl hmem ?_)⟩
      rcases hm with hm | hm <;> rw [hm] <;> rfl
  | finish hmem hm hnone =>
      exact ⟨rfl, hone rfl (finished_set_gone (h := h) rfl hmem (by rw [hm]; rfl))⟩
  | handOn hmem hm hmem' hb =>
      rename_i m b n
      have hserved : ({ h with notes := h.notes + 1 }.set b ⟨.line, .due⟩ : Hall).finished c =
          h.finished c := finished_set_of_same rfl hmem' (by rw [hb]; rfl)
      refine ⟨rfl, hone rfl (finished_set_gone hserved hmem ?_)⟩
      rw [set_spot_of_ne _ (ne_of_spot_ne hm hb (by simp))]
      exact hm ▸ rfl
  | pop | await | leave | joinTaker | dismiss => exact ⟨rfl, rfl⟩

theorem Step.gathering (step : Step c h h') :
    h'.owner = .gathering ↔ h.owner = .gathering := by
  have hrouse (n : Nat) : h.owner.rouse n = .gathering ↔ h.owner = .gathering := by
    cases h.owner <;> simp [OwnerSpot.rouse]
    split <;> simp
  cases step with
  | pop ht hn hnone => exact hrouse _
  | offer ht hn hmem hb => exact hrouse _
  | joinTaker ho hn => simp [ho]
  | dismiss ho ht => rcases ho with ⟨ho, -⟩ | ho <;> simp [ho]
  | _ => exact Iff.rfl

theorem InTurn.pop (inTurn : h.InTurn) (ht : h.taker = .taking) {n : Nat}
    (hn : h.records = n + 1) :
    ({ h with records := n, owner := h.owner.rouse n } : Hall).InTurn := by
  have hfull : h.records ≠ 0 := by omega
  have hnever (ho : h.owner = .roused ∨ h.owner = .ending ∨ h.owner = .gone) : False :=
    hfull (inTurn.spent ho)
  constructor <;> dsimp only
  · rw [ht]
    simp
  · intro ho
    cases howner : h.owner <;> rw [howner] at ho <;> simp [OwnerSpot.rouse] at ho
    omega
  · intro ho
    cases howner : h.owner <;> rw [howner] at ho <;> simp [OwnerSpot.rouse] at ho
    · by_cases hzero : n = 0
      · exact hzero
      · simp [hzero] at ho
    all_goals exact (hnever (by simp [howner])).elim
  · rw [ht]
    cases howner : h.owner <;> simp [OwnerSpot.rouse]
    · split <;> simp
    · exact hnever (by simp [howner])

theorem Step.inTurn (step : Step c h h') (sane : h.Sane c) : h'.InTurn := by
  have inTurn := sane.inTurn
  cases step with
  | put hmem hm =>
      -- As long as a member goes on, the owner gathers.
      have howner := sane.gathering_of_going hmem (by rcases hm with hm | hm <;> rw [hm] <;> rfl)
      have hstaff := inTurn.staff
      constructor <;> simp only [set, howner] at hstaff ⊢
      · cases h.taker <;> simp [TakerSpot.rouse]
      · simp
      · simp
      · rw [hstaff]
        cases h.taker <;> simp [TakerSpot.rouse]
  | pop ht hn hnone => exact inTurn.pop ht hn
  | offer ht hn hmem hb =>
      have hpop := inTurn.pop ht hn
      exact ⟨hpop.idle, hpop.joining, hpop.spent, hpop.staff⟩
  | await ht hn =>
      have hstaff := inTurn.staff
      rw [ht] at hstaff
      exact ⟨fun _ => hn, inTurn.joining, inTurn.spent, by simpa using hstaff⟩
  | leave ht =>
      have hstaff := inTurn.staff
      rw [ht] at hstaff
      exact ⟨by simp, inTurn.joining, inTurn.spent, by simpa using hstaff⟩
  | joinTaker ho hn =>
      have hstaff := inTurn.staff
      rw [ho] at hstaff
      exact ⟨inTurn.idle, fun _ => hn, by simp, by simpa using hstaff⟩
  | dismiss ho ht =>
      have hnone : h.records = 0 := by
        rcases ho with ⟨-, hn⟩ | ho
        · exact hn
        · exact inTurn.spent (by simp [ho])
      exact ⟨by simp, by simp, fun _ => hnone, by simp⟩
  | _ => exact ⟨inTurn.idle, inTurn.joining, inTurn.spent, inTurn.staff⟩

theorem Step.sane (step : Step c h h') (sane : h.Sane c) : h'.Sane c where
  within := step.within sane.within
  waits := fun b => step.waits (sane.waits b)
  moving := step.moving sane.moving
  permitting := step.permitting sane.permitting
  ended := by
    have htally := step.tally
    have hended := sane.ended
    omega
  gathering := by rw [step.gathering, step.tally.1, sane.gathering]
  inTurn := step.inTurn sane

theorem Steps.sane (steps : Steps c h h') (sane : h.Sane c) : h'.Sane c := by
  induction steps with
  | refl => exact sane
  | tail _ step ih => exact step.sane ih

theorem Moving.attend (moving : h.Moving) {e : Errand} (hm : h.spot m = ⟨e, .due⟩) :
    (h.set m ⟨e, .free⟩).Moving := by
  intro b k hb
  have hbm : b ≠ m := by
    rintro rfl
    rw [set_spot_self] at hb
    cases hb
  rw [set_spot_of_ne h hbm] at hb
  rcases moving b k hb with hpos | ⟨b', k', p, hb', hp⟩
  · exact .inl hpos
  · right
    by_cases hbm' : b' = m
    · subst hbm'
      rw [hm] at hb'
      cases hb'
      exact ⟨b', k', .free, set_spot_self .., by simp⟩
    · exact ⟨b', k', p, by rw [set_spot_of_ne h hbm', hb'], hp⟩

theorem Permitting.attend (permitting : h.Permitting) {e : Errand} (hm : h.spot m = ⟨e, .due⟩) :
    (h.set m ⟨e, .free⟩).Permitting := by
  intro hnone
  have hwants : h.permits = 0 ∨ ∃ b, h.spot b = ⟨.line, .waits⟩ := by
    refine hnone.imp id fun ⟨b, hb⟩ => ⟨b, ?_⟩
    have hbm : b ≠ m := by
      rintro rfl
      rw [set_spot_self] at hb
      cases hb
    rw [← hb, set_spot_of_ne h hbm]
  obtain ⟨b, hb⟩ := permitting hwants
  refine ⟨b, ?_⟩
  by_cases hbm : b = m
  · subst hbm
    rw [hm] at hb
    rw [set_spot_self]
    cases e <;> first | rfl | cases hb
  · rw [set_spot_of_ne h hbm, hb]

theorem Attends.sane {a : ActivityId} (attends : Attends c a h h') (sane : h.Sane c) :
    h'.Sane c := by
  have inTurn := sane.inTurn
  cases attends with
  | member hmem hm =>
      rename_i e
      have hsame : (h.set a ⟨e, .free⟩).finished c = h.finished c :=
        finished_set_of_same rfl hmem (by rw [hm]; rfl)
      have hended : h.ended + h.notes = (h.set a ⟨e, .free⟩).finished c := by
        rw [hsame, sane.ended]
      exact ⟨sane.within.set hmem _, fun b => waits_set (sane.waits b) (by simp [Spot.waitsInLine]),
        sane.moving.attend hm, sane.permitting.attend hm, hended, sane.gathering,
        ⟨inTurn.idle, inTurn.joining, inTurn.spent, inTurn.staff⟩⟩
  | gathers ho =>
      have hstaff := inTurn.staff
      have hgathering := sane.gathering
      rw [ho] at hstaff hgathering
      exact ⟨sane.within, sane.waits, sane.moving, sane.permitting, sane.ended,
        by simpa using hgathering, ⟨inTurn.idle, by simp, by simp, by simpa using hstaff⟩⟩
  | ends ho =>
      have hstaff := inTurn.staff
      have hgathering := sane.gathering
      have hspent := inTurn.spent
      rw [ho] at hstaff hgathering hspent
      exact ⟨sane.within, sane.waits, sane.moving, sane.permitting, sane.ended,
        by simpa using hgathering, ⟨inTurn.idle, by simp, fun _ => hspent (by simp),
        by simpa using hstaff⟩⟩
  | takes ht =>
      have hstaff := inTurn.staff
      rw [ht] at hstaff
      exact ⟨sane.within, sane.waits, sane.moving, sane.permitting, sane.ended,
        sane.gathering, ⟨by simp, inTurn.joining, inTurn.spent, by simpa using hstaff⟩⟩
  | leaves ht =>
      have hstaff := inTurn.staff
      rw [ht] at hstaff
      exact ⟨sane.within, sane.waits, sane.moving, sane.permitting, sane.ended,
        sane.gathering, ⟨by simp, inTurn.joining, inTurn.spent, by simpa using hstaff⟩⟩

theorem Notes.sane (notes : Notes c h h') (sane : h.Sane c) : h'.Sane c := by
  cases notes with
  | note hn =>
      rename_i n
      have hended := sane.ended
      have hle := finished_le c h
      have howner : h.owner = .gathering := sane.gathering.mpr (by omega)
      have inTurn := sane.inTurn
      have hstaff := inTurn.staff
      rw [howner] at hstaff
      refine ⟨sane.within, sane.waits, sane.moving, sane.permitting, ?_, ?_,
        ⟨inTurn.idle, ?_, ?_, ?_⟩⟩
      · show h.ended + 1 + n = h.finished c
        omega
      · split
        · simp
          omega
        · simp [howner]
          omega
      · split <;> simp [howner]
      · split <;> simp [howner]
      · split <;> simpa [howner] using hstaff

/-! ## Who moves -/

def Moves (c : Crew) (h : Hall) (a : ActivityId) : Prop :=
  (h.spot a).moves = true ∨ a = c.owner ∧ h.owner.moves = true ∨ a = c.taker ∧ h.taker.moves = true

theorem Step.spot_moves (step : Step c h h') {b : ActivityId} (hb : (h'.spot b).moves = true) :
    (h.spot b).moves = true := by
  have hset {u : Hall} {m : ActivityId} {s : Spot} (hrest : (u.spot b).moves = true →
      (h.spot b).moves = true) (hs : s.moves = true → (h.spot m).moves = true)
      (hb : ((u.set m s).spot b).moves = true) : (h.spot b).moves = true := by
    by_cases hbm : b = m
    · subst hbm
      rw [set_spot_self] at hb
      exact hs hb
    · rw [set_spot_of_ne u hbm] at hb
      exact hrest hb
  cases step with
  | take hmem hm | proceed hmem hm =>
      refine hset (by exact id) (fun _ => ?_) hb
      rw [hm]
      rfl
  | answered hmem hm | put hmem hm =>
      refine hset (by exact id) (fun _ => ?_) hb
      rcases hm with hm | hm <;> rw [hm] <;> rfl
  | handOn hmem hm hmem' hb' =>
      exact hset (hset (u := { h with notes := _ }) id (by simp [Spot.moves]))
        (by simp [Spot.moves, Spot.isGone]) hb
  | pop | await | leave | joinTaker | dismiss => exact hb
  | _ => exact hset (by exact id) (by simp [Spot.moves, Spot.isGone]) hb

theorem Step.owner_moves (step : Step c h h') (ho : h'.owner.moves = true) :
    h.owner.moves = true := by
  have hrouse (n : Nat) (ho : (h.owner.rouse n).moves = true) : h.owner.moves = true := by
    cases howner : h.owner <;> rw [howner] at ho <;> simp [OwnerSpot.rouse] at ho ⊢ <;>
      first | exact ho | (split at ho <;> cases ho)
  cases step with
  | pop ht hn hnone => exact hrouse _ ho
  | offer ht hn hmem hb => exact hrouse _ ho
  | joinTaker | dismiss => cases ho
  | _ => exact ho

theorem Step.taker_moves (step : Step c h h') (ht : h'.taker.moves = true) :
    h.taker.moves = true := by
  cases step with
  | put hmem hm =>
      cases htaker : h.taker <;> simp [set, htaker, TakerSpot.rouse] at ht ⊢ <;> exact ht
  | await | leave | dismiss => cases ht
  | _ => exact ht

theorem Step.moves (step : Step c h h') {a : ActivityId} (ha : h'.Moves c a) : h.Moves c a := by
  rcases ha with ha | ⟨ha, ho⟩ | ⟨ha, ht⟩
  · exact .inl (step.spot_moves ha)
  · exact .inr (.inl ⟨ha, step.owner_moves ho⟩)
  · exact .inr (.inr ⟨ha, step.taker_moves ht⟩)

theorem Steps.moves (steps : Steps c h h') {a : ActivityId} (ha : h'.Moves c a) :
    h.Moves c a := by
  induction steps with
  | refl => exact ha
  | tail _ step ih => exact ih (step.moves ha)

theorem Attends.moves {a b : ActivityId} (attends : Attends c a h h') (hba : b ≠ a)
    (hb : h'.Moves c b) : h.Moves c b := by
  cases attends with
  | member hmem hm =>
      rw [Moves, set_spot_of_ne h hba] at hb
      exact hb
  | gathers ho | ends ho =>
      rcases hb with hb | ⟨hb, -⟩ | hb
      · exact .inl hb
      · exact absurd hb hba
      · exact .inr (.inr hb)
  | takes ht | leaves ht =>
      rcases hb with hb | hb | ⟨hb, -⟩
      · exact .inl hb
      · exact .inr (.inl hb)
      · exact absurd hb hba

/-- Where nobody moved, nobody moves when the one that was called has come to rest. -/
theorem Attends.still {u : Hall} {a : ActivityId} (attends : Attends c a h u) (steps : Steps c u h')
    (hstill : ∀ b, ¬h.Moves c b) (ha : ¬h'.Moves c a) (b : ActivityId) : ¬h'.Moves c b := by
  intro hb
  by_cases hba : b = a
  · exact ha (hba ▸ hb)
  · exact hstill b (attends.moves hba (Steps.moves steps hb))

theorem not_moves_of_member (hmem : m ∈ c.members) (hm : (h.spot m).moves = false) :
    ¬h.Moves c m := by
  have hapart := c.apart
  rintro (hmoves | ⟨rfl, -⟩ | ⟨rfl, -⟩)
  · rw [hm] at hmoves
    cases hmoves
  · simp [hmem] at hapart
  · simp [hmem] at hapart

theorem Within.moves_eq_false (within : h.Within c) {a : ActivityId}
    (ha : a ∉ c.members) : (h.spot a).moves = false := by
  rw [within a ha]
  rfl

theorem not_moves_of_owner (within : h.Within c) (ho : h.owner.moves = false) :
    ¬h.Moves c c.owner := by
  have hapart := c.apart
  have hspot := within.moves_eq_false (a := c.owner) fun hmem => by simp [hmem] at hapart
  rintro (hmoves | ⟨-, hmoves⟩ | ⟨heq, -⟩)
  · rw [hspot] at hmoves
    cases hmoves
  · rw [ho] at hmoves
    cases hmoves
  · simp [heq] at hapart

theorem not_moves_of_taker (within : h.Within c) (ht : h.taker.moves = false) :
    ¬h.Moves c c.taker := by
  have hapart := c.apart
  have hspot := within.moves_eq_false (a := c.taker) fun hmem => by simp [hmem] at hapart
  rintro (hmoves | ⟨heq, -⟩ | ⟨-, hmoves⟩)
  · rw [hspot] at hmoves
    cases hmoves
  · simp [heq] at hapart
  · rw [ht] at hmoves
    cases hmoves

theorem Notes.moves {a : ActivityId} (notes : Notes c h h') (ha : h'.Moves c a) :
    h.Moves c a := by
  cases notes with
  | note hn =>
      rcases ha with ha | ⟨ha, ho⟩ | ha
      · exact .inl ha
      · refine .inr (.inl ⟨ha, ?_⟩)
        dsimp only at ho
        split at ho
        · cases ho
        · exact ho
      · exact .inr (.inr ha)

theorem Steps.gathering (steps : Steps c h h') :
    h'.owner = .gathering ↔ h.owner = .gathering := by
  induction steps with
  | refl => exact Iff.rfl
  | tail _ step ih => exact step.gathering.trans ih

theorem Steps.owner_moves (steps : Steps c h h') (ho : h'.owner.moves = true) :
    h.owner.moves = true := by
  induction steps with
  | refl => exact ho
  | tail _ step ih => exact ih (step.owner_moves ho)

theorem Attends.gathering {a : ActivityId} (attends : Attends c a h h')
    (ho : h.owner = .gathering) : h'.owner = .gathering := by
  cases attends with
  | gathers hx | ends hx => simp [ho] at hx
  | _ => exact ho

theorem Attends.hasGathered {a : ActivityId} (attends : Attends c a h h')
    (hgathered : h'.owner.hasGathered = true) : h.owner.hasGathered = true := by
  cases attends with
  | gathers ho => cases hgathered
  | ends ho =>
      rw [ho]
      rfl
  | _ => exact hgathered

theorem owner_ne_taker (c : Crew) : c.owner ≠ c.taker := by
  intro heq
  have hapart := c.apart
  simp [heq] at hapart

/-- As long as the owner does not move, nobody gathers results. -/
theorem Steps.hasGathered (steps : Steps c h h') (ho : h.owner.moves = false)
    (hgathered : h'.owner.hasGathered = true) : h.owner.hasGathered = true := by
  induction steps with
  | refl => exact hgathered
  | tail steps step ih =>
      rename_i u v
      have hu : u.owner.moves ≠ true := fun hu => by
        have hmoves := Steps.owner_moves steps hu
        rw [ho] at hmoves
        cases hmoves
      refine ih ?_
      have hrouse (n : Nat) (h : (u.owner.rouse n).hasGathered = true) :
          u.owner.hasGathered = true := by
        cases howner : u.owner <;> rw [howner] at h <;> first | rfl | exact h
      cases step with
      | pop ht hn hnone => exact hrouse _ hgathered
      | offer ht hn hmem hb => exact hrouse _ hgathered
      | joinTaker hx => simp [hx, OwnerSpot.moves] at hu
      | dismiss hx => rcases hx with ⟨hx, -⟩ | hx <;> simp [hx, OwnerSpot.moves] at hu
      | _ => exact hgathered

/-! ## Rest -/

structure Rests (h : Hall) : Prop where
  spot : ∀ m, (h.spot m).pace = .waits ∨ (h.spot m).errand = .gone
  owner : h.owner = .gathering ∨ h.owner = .joining ∨ h.owner = .gone
  taker : h.taker = .waits ∨ h.taker = .gone
  notes : h.notes = 0

theorem Sane.isGone_of_ended (sane : h.Sane c) (hended : h.ended = c.members.length)
    (m : ActivityId) : (h.spot m).isGone = true := by
  by_cases hmem : m ∈ c.members
  · by_contra hm
    have hlt := finished_lt hmem (Bool.not_eq_true _ ▸ hm)
    have htally := sane.ended
    omega
  · rw [sane.within m hmem]
    rfl

theorem finished_of_isGone (hall : ∀ m, (h.spot m).isGone = true) :
    h.finished c = c.members.length := by
  unfold finished
  induction c.members with
  | nil => rfl
  | cons m rest ih => rw [List.map_cons, total_cons, hall m, ih, List.length_cons, Bool.toNat_true,
      Nat.add_comm]

/-- Where the taker waits and nobody moves, nobody waits either: those who wait for room can count
on nobody, so there are none, and whoever has a permit waits for room. -/
theorem Sane.isGone_of_idle (sane : h.Sane c) (rests : h.Rests) (ht : h.taker = .waits)
    (m : ActivityId) : (h.spot m).isGone = true := by
  have hnone : h.records = 0 := sane.inTurn.idle ht
  have hqueue : ∀ b k, h.spot b ≠ ⟨.queue k, .waits⟩ := by
    intro b k hb
    rcases sane.moving b k hb with hpos | ⟨b', k', p, hb', hp⟩
    · omega
    · rcases rests.spot b' with hwaits | hgone
      · rw [hb'] at hwaits
        exact hp hwaits
      · rw [hb'] at hgone
        cases hgone
  have hplace (b : ActivityId) : (h.spot b).isGone = true ∨ h.spot b = ⟨.line, .waits⟩ := by
    rcases rests.spot b with hwaits | hgone
    · rcases sane.waits b hwaits with hline | ⟨k, hk⟩
      · exact .inr (by rw [← hline, ← hwaits])
      · exact absurd (by rw [← hk, ← hwaits]) (hqueue b k)
    · exact .inl (by rw [Spot.isGone, hgone]; rfl)
  rcases hplace m with hgone | hline
  · exact hgone
  · obtain ⟨b, hb⟩ := sane.permitting (.inr ⟨m, hline⟩)
    rcases hplace b with hgone | hline
    · generalize h.spot b = s at hb hgone
      obtain ⟨errand, pace⟩ := s
      cases errand <;> cases hgone
      cases hb
    · rw [hline] at hb
      cases hb

/-- **The hall rests only when all have ended** and every record is taken. -/
theorem Sane.gone_of_rests (sane : h.Sane c) (rests : h.Rests) :
    (∀ m, (h.spot m).isGone = true) ∧ h.owner = .gone ∧ h.taker = .gone ∧ h.records = 0 ∧
      h.ended = c.members.length := by
  have htally := sane.ended
  have hnotes := rests.notes
  have hle := finished_le c h
  rcases rests.taker with ht | ht
  · have hall := sane.isGone_of_idle rests ht
    have hfinished := finished_of_isGone (c := c) hall
    have hnone := sane.inTurn.idle ht
    -- The owner is through as well, and has sent the taker away.
    rcases rests.owner with ho | ho | ho
    · have hlt := sane.gathering.mp ho
      omega
    · have hpos := sane.inTurn.joining ho
      omega
    · have hgone := sane.inTurn.staff.mp ho
      simp [ht] at hgone
  · have ho : h.owner = .gone := sane.inTurn.staff.mpr (by simp [ht])
    have hended : h.ended = c.members.length := by
      have hnot : ¬h.ended < c.members.length := fun hlt => by
        have howner := sane.gathering.mpr hlt
        rw [ho] at howner
        cases howner
      omega
    exact ⟨sane.isGone_of_ended hended, ho, ht, sane.inTurn.spent (by simp [ho]), hended⟩

end

end Hall

/-! ## Toil -/

/-- How many more calls a member can still give rise to, if its fetch brings so many entries. -/
def Errand.toil (load : Nat) : Errand → Nat
  | start => 2 * load + 3
  | line | ask => 2 * load + 2
  | afar => 2 * load + 1
  | queue rest => 2 * rest + 3
  | work rest => 2 * rest + 1
  | gone => 0

/-- Whoever is woken for room is called for a record that was taken. A permit is given once. -/
def Spot.toil (load : Nat) : Spot → Nat
  | ⟨.line, .waits⟩ => Errand.toil load .line + 1
  | ⟨errand, .due⟩ => errand.toil load + 1
  | ⟨errand, _⟩ => errand.toil load

def OwnerSpot.toil : OwnerSpot → Nat
  | gathering | called => 3
  | counting | joining | roused => 2
  | ending => 1
  | gone => 0

def TakerSpot.toil : TakerSpot → Nat
  | due | dismissed => 1
  | _ => 0

theorem OwnerSpot.toil_rouse (s : OwnerSpot) (left : Nat) : (s.rouse left).toil = s.toil := by
  cases s <;> simp only [rouse]
  split <;> rfl

theorem TakerSpot.toil_rouse (s : TakerSpot) : s.rouse.toil ≤ s.toil + 1 := by
  cases s <;> simp [rouse, toil]

namespace Hall

/-- What is still to be done. Every record is worth a call, for whoever may be woken by its
place. -/
def toil (c : Crew) (h : Hall) : Nat :=
  total (c.members.map fun m => (h.spot m).toil (c.load m)) + h.owner.toil + h.taker.toil +
    h.records + h.notes

section

variable {c : Crew} {h h' : Hall} {m a : ActivityId}

theorem toil_set (hmem : m ∈ c.members) (h : Hall) (s : Spot) :
    (h.set m s).toil c + (h.spot m).toil (c.load m) = h.toil c + s.toil (c.load m) := by
  have hcount := c.total_set hmem (fun m s => s.toil (c.load m)) h s
  unfold toil
  simp only [set] at hcount ⊢
  omega

theorem Step.toil_le (step : Step c h h') : h'.toil c ≤ h.toil c := by
  have hset {u : Hall} {m : ActivityId} (hmem : m ∈ c.members) (s : Spot) :
      u.toil c + s.toil (c.load m) ≤ h.toil c + (u.spot m).toil (c.load m) →
        (u.set m s).toil c ≤ h.toil c := by
    have hcount := toil_set hmem u s
    omega
  cases step with
  | join hmem hm | proceed hmem hm | send hmem hm =>
      refine hset hmem _ ?_
      rw [hm]
      simp only [Spot.toil, Errand.toil]
      omega
  | take hmem hm | grant hmem hm =>
      refine hset hmem _ ?_
      simp only [hm, toil, Spot.toil, Errand.toil]
      omega
  | answered hmem hm hn =>
      refine hset hmem _ ?_
      rcases hm with hm | hm <;> simp only [hm, Spot.toil, Errand.toil] <;> omega
  | put hmem hm =>
      have htaker := TakerSpot.toil_rouse h.taker
      refine hset hmem _ ?_
      rcases hm with hm | hm <;> simp only [hm, toil, Spot.toil, Errand.toil] <;> omega
  | stall hmem hm hk full =>
      refine hset hmem _ ?_
      rcases hm with hm | hm <;> simp only [hm, Spot.toil, Errand.toil] <;> omega
  | finish hmem hm hnone =>
      refine hset hmem _ ?_
      simp only [hm, toil, Spot.toil, Errand.toil]
      omega
  | handOn hmem hm hmem' hb =>
      have hserved := toil_set hmem' { h with notes := h.notes + 1 } ⟨.line, .due⟩
      refine hset hmem _ ?_
      rw [set_spot_of_ne _ (ne_of_spot_ne hm hb (by simp))]
      simp only [hm, hb, toil, Spot.toil, Errand.toil] at hserved ⊢
      omega
  | pop ht hn hnone =>
      simp only [toil, OwnerSpot.toil_rouse, hn]
      omega
  | offer ht hn hmem hb =>
      refine hset hmem _ ?_
      simp only [toil, OwnerSpot.toil_rouse, hn, hb, Spot.toil, Errand.toil]
      omega
  | await ht hn | leave ht =>
      simp only [toil, ht, TakerSpot.toil]
      exact Nat.le_refl _
  | joinTaker ho hn =>
      simp only [toil, ho, OwnerSpot.toil]
      exact Nat.le_refl _
  | dismiss ho ht =>
      rcases ho with ⟨ho, -⟩ | ho <;> rcases ht with ht | ht <;>
        simp only [toil, ho, ht, OwnerSpot.toil, TakerSpot.toil] <;> omega

theorem Steps.toil_le (steps : Steps c h h') : h'.toil c ≤ h.toil c := by
  induction steps with
  | refl => exact Nat.le_refl _
  | tail _ step ih => exact Nat.le_trans step.toil_le ih

theorem Attends.toil_lt (attends : Attends c a h h') : h'.toil c < h.toil c := by
  cases attends with
  | member hmem hm =>
      rename_i e
      have hset := toil_set hmem h ⟨e, .free⟩
      rw [hm] at hset
      cases e <;> simp only [Spot.toil, Errand.toil] at hset <;> omega
  | gathers hx | ends hx | takes hx | leaves hx =>
      simp only [toil, hx, OwnerSpot.toil, TakerSpot.toil]
      omega

theorem Notes.toil_lt (notes : Notes c h h') (sane : h.Sane c) : h'.toil c < h.toil c := by
  cases notes with
  | note hn =>
      have hended := sane.ended
      have hle := finished_le c h
      have howner : h.owner = .gathering := sane.gathering.mpr (by omega)
      simp only [toil, hn, howner]
      split <;> simp only [OwnerSpot.toil] <;> omega

end

end Hall

end FeedIntake
