import Mathlib.Data.List.Basic
import IdtxCore.Lib.Lts

/-!
# A bounded FIFO queue with two-phase enqueue

An entry is first reserved and later published; only a published head can be popped. `pushed`
and `popped` record the values in order of reservation and of removal.
-/

namespace Fifo

structure Queue (α : Type) where
  /-- Reserved and not yet popped values, oldest first, with "published". -/
  entries : List (α × Bool)
  pushed : List α
  popped : List α

variable {α : Type} {capacity : Nat}

inductive Step (capacity : Nat) : Queue α → Queue α → Prop where
  | reserve {q : Queue α} (v : α) (h : q.entries.length < capacity) :
      Step capacity q { q with entries := q.entries ++ [(v, false)], pushed := q.pushed ++ [v] }
  | publish {q : Queue α} (i : Nat) (v : α) (h : q.entries[i]? = some (v, false)) :
      Step capacity q { q with entries := q.entries.set i (v, true) }
  | pop {q : Queue α} (v : α) (rest : List (α × Bool)) (h : q.entries = (v, true) :: rest) :
      Step capacity q { q with entries := rest, popped := q.popped ++ [v] }

def system (α : Type) (capacity : Nat) : Lts.System (Queue α) where
  init q := q = ⟨[], [], []⟩
  step := Step capacity

end Fifo
