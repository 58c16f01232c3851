import FeedIntake.CommandLine.Help
import FeedIntake.Fault

/-! # The console

Calls show texts and tables. What the marks of style in them come to is the affair of the console,
which may refuse to show something that a call gives it.
-/

namespace FeedIntake.CommandLine

structure Table where
  title : String
  columns : List String
  rows : List (List String)
  deriving DecidableEq, Repr

inductive Shown where
  | text (lines : List String)
  | table (t : Table)
  deriving DecidableEq, Repr

/-- A console by what it refuses, and with which fault; the fault is never one of this library. -/
structure Console where
  refusal? : Shown → Option (OutsideKind × String)

namespace Console

/-- The console that takes every text as it is. -/
def plain : Console := ⟨fun _ => none⟩

def display (c : Console) (shown : Shown) : Except Fault Shown :=
  match c.refusal? shown with
  | none => .ok shown
  | some (kind, text) => .error (.outside kind text)

end Console

/-- What comes of one thing after another, up to the first fault. -/
def upToFault {α β : Type} (f : α → Except Fault β) : List α → List β × Option Fault
  | [] => ([], none)
  | first :: rest =>
      match f first with
      | .error fault => ([], some fault)
      | .ok done =>
          let (others, fault) := upToFault f rest
          (done :: others, fault)

/-- Where it is known beforehand what goes wrong, all is done that stands before it. -/
theorem upToFault_eq_takeWhile {α β : Type} {f : α → Except Fault β} {p : α → Bool} {g : α → β}
    {fault : Fault} (h : ∀ a, f a = if p a then .ok (g a) else .error fault) (items : List α) :
    upToFault f items =
      ((items.takeWhile p).map g, if items.all p then none else some fault) := by
  induction items with
  | nil => rfl
  | cons first rest ih =>
      rw [upToFault, h, ih]
      cases hfirst : p first <;> simp [hfirst]

/-- Either all is shown, or something is refused and what stands before it is shown. -/
theorem Console.upToFault_display (console : Console) (items : List Shown) :
    ((∀ shown ∈ items, console.refusal? shown = none) ∧
      upToFault console.display items = (items, none)) ∨
    ∃ before shown after kind text, items = before ++ shown :: after ∧
      (∀ earlier ∈ before, console.refusal? earlier = none) ∧
      console.refusal? shown = some (kind, text) ∧
      upToFault console.display items = (before, some (.outside kind text)) := by
  induction items with
  | nil => exact .inl ⟨fun _ h => absurd h List.not_mem_nil, rfl⟩
  | cons first rest ih =>
      cases hfirst : console.refusal? first with
      | some refusal =>
          obtain ⟨kind, text⟩ := refusal
          refine .inr ⟨[], first, rest, kind, text, rfl, fun _ h => absurd h List.not_mem_nil,
            hfirst, ?_⟩
          simp [upToFault, display, hfirst]
      | none =>
          rcases ih with ⟨hall, heq⟩ | ⟨before, shown, after, kind, text, rfl, hbefore, h, heq⟩
          · refine .inl ⟨List.forall_mem_cons.mpr ⟨hfirst, hall⟩, ?_⟩
            simp [upToFault, display, hfirst, heq]
          · refine .inr ⟨first :: before, shown, after, kind, text, rfl,
              List.forall_mem_cons.mpr ⟨hfirst, hbefore⟩, h, ?_⟩
            simp [upToFault, display, hfirst, heq]

/-! ## Lines -/

namespace Table

def widths (t : Table) : List Nat :=
  t.rows.foldl (fun acc row => List.zipWith max acc (row.map String.length))
    (t.columns.map String.length)

def rowLine (widths : List Nat) (cells : List String) : String :=
  "  ".intercalate (List.zipWith padRight widths cells)

def flatCell (cell : String) : String := cell.replace "\n" ", "

/-- A table as lines of plain characters, its columns padded to one width. -/
def lines (t : Table) : List String :=
  let t : Table := { t with rows := t.rows.map fun cells => cells.map flatCell }
  let rule := t.widths.map fun n => String.ofList (List.replicate n '-')
  [t.title, rowLine t.widths t.columns, rowLine t.widths rule] ++ t.rows.map (rowLine t.widths)

end Table

def Shown.lines : Shown → List String
  | .text lines => lines
  | .table t => t.lines

end FeedIntake.CommandLine
