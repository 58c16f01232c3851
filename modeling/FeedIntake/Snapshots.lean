import FeedIntake.Log.Entry

/-! # Snapshots

For every source the identities that its last completed run met. A commit replaces the snapshot of
its source and makes it the youngest; a store of limited size then forgets its oldest sources.
-/

namespace FeedIntake

abbrev Snapshot := List String

structure Snapshots where
  /-- How many sources are remembered, none for all. -/
  capacity : Option Nat
  /-- The snapshots by source, least recently committed first. -/
  held : List (String × Snapshot)
  capacity_pos : ∀ k, capacity = some k → 0 < k

namespace Snapshots

def unbounded : Snapshots := ⟨none, [], by simp⟩

instance : Inhabited Snapshots := ⟨unbounded⟩

def bounded (k : Nat) (h : 0 < k) : Snapshots := ⟨some k, [], by simpa using h⟩

/-- An empty store; at least one source must have its place in it. -/
def new? (maxSources : Option Int) : Except Fault Snapshots :=
  match maxSources with
  | none => .ok unbounded
  | some n =>
      if h : 0 < n then .ok (bounded n.toNat (by omega))
      else .error (.outside .value "max_sources must be at least 1")

def snapshot? (s : Snapshots) (source : String) : Option Snapshot := s.held.lookup source

def sources (s : Snapshots) : List String := s.held.map (·.1)

def size (s : Snapshots) : Nat := s.held.length

/-- Whether an identity was met by the last completed run of a source. The empty identity tells
nothing. -/
def seenBefore (s : Snapshots) (source identity : String) : Bool :=
  !identity.isEmpty && ((s.snapshot? source).any fun ids => ids.contains identity)

/-- The set of the identities that are not empty. -/
def setOf (identities : List String) : Snapshot := (identities.filter (!·.isEmpty)).eraseDups

def renewed (s : Snapshots) (source : String) (identities : List String) :
    List (String × Snapshot) :=
  (s.held.filter fun h => h.1 != source) ++ [(source, setOf identities)]

/-- How many of `count` sources are too many. -/
def surplus (s : Snapshots) (count : Nat) : Nat :=
  match s.capacity with
  | some k => count - k
  | none => 0

/-- Replaces the snapshot of a source and forgets the sources that are then too many. -/
def commit (s : Snapshots) (source : String) (identities : List String) : Snapshots :=
  let held := s.renewed source identities
  { s with held := held.drop (s.surplus held.length) }

def evicted (s : Snapshots) (source : String) (identities : List String) : List String :=
  let held := s.renewed source identities
  (held.take (s.surplus held.length)).map (·.1)

def clear (s : Snapshots) : Snapshots := { s with held := [] }

def logger : Logger := ⟨"dedup_store", none⟩

def commitEntries (s : Snapshots) (source : String) (identities : List String) : List LogEntry :=
  let count := (setOf identities).length
  logger.entry .debug s!"Committed snapshot of {count} ids for {source}"
      [("source", .text source)] ::
    (s.evicted source identities).map fun key =>
      logger.entry .info s!"Evicted dedup snapshot for {key}" [("source", .text key)]

end Snapshots

end FeedIntake
