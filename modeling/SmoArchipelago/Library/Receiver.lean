import Mathlib

/-! # A receiver and the messages on their way to it

Messages arrive in the order in which they were sent. What the receiver will have become
when all of them have arrived is its view; a send changes the view as the message does, and
an arrival leaves it as it is. -/

namespace SmoArchipelago.Library

/-- The receiver's state and the messages that it has still to process. -/
structure Receiver (σ μ : Type*) where
  state : σ
  inFlight : List μ := []

namespace Receiver

variable {σ μ : Type*} (apply : σ → μ → σ)

def send (r : Receiver σ μ) (msg : μ) : Receiver σ μ := { r with inFlight := r.inFlight ++ [msg] }

/-- The next message arrives. -/
def process (r : Receiver σ μ) : Receiver σ μ :=
  match r.inFlight with
  | [] => r
  | msg :: rest => ⟨apply r.state msg, rest⟩

/-- The connection ends with its messages. -/
def lose (r : Receiver σ μ) : Receiver σ μ := { r with inFlight := [] }

/-- The state after everything has arrived. -/
def view (r : Receiver σ μ) : σ := r.inFlight.foldl apply r.state

theorem view_send (r : Receiver σ μ) (msg : μ) :
    (r.send msg).view apply = apply (r.view apply) msg := by
  rw [view, send, List.foldl_append]
  rfl

theorem view_process (r : Receiver σ μ) : (r.process apply).view apply = r.view apply := by
  rw [process]
  split
  · rfl
  · next inFlight =>
      rw [view, view, inFlight]
      rfl

theorem view_of_arrived {r : Receiver σ μ} (arrived : r.inFlight = []) :
    r.view apply = r.state := by
  rw [view, arrived]
  rfl

theorem lose_of_arrived {r : Receiver σ μ} (arrived : r.inFlight = []) : r.lose = r := by
  cases r
  rw [lose]
  exact congrArg _ arrived.symm

end Receiver

end SmoArchipelago.Library
