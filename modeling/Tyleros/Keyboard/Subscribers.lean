import Tyleros.Adt.Iteration
import Tyleros.Keyboard.Delivery

/-!
# The loop over the subscribers

What `dispatch_key_events` does with one event is a loop over the ring of the subscribers
(`dispatch_forEach`), so an event reaches every subscriber, in the order they have
subscribed, until the ring is full; then it reaches none (`dispatch_reaches`).
-/

namespace Tyleros.Keyboard

open Tyleros.Lib Tyleros.Adt

variable {H T : Type}

/-- `subscriber.handle(*e)` in the loop. -/
def State.call (s : State H T) (e : Event) (calls : List (Call H)) (idx : Nat) : List (Call H) :=
  calls ++ [⟨idx, s.subscribers.storage idx, e⟩]

/-- Left alone, the dispatcher runs the loop over the subscribers to its end. -/
theorem dispatch_forEach {fuel idx : Nat} {e : Event} {calls : List (Call H)} (s : State H T)
    (here : s.dispatcher = .calling e idx)
    (loop : s.subscribers.forEachFrom (s.call e) fuel idx s.calls = some calls) :
    ∃ n, State.dispatchKeyEvents^[n] s = { s with dispatcher := .popping, calls } := by
  induction fuel generalizing s idx with
  | zero => cases loop
  | succ fuel ih =>
      unfold RingBuffer.forEachFrom at loop
      split at loop
      · next atEnd =>
          obtain rfl := Option.some.inj loop
          have last : s.dispatchKeyEvents = { s with dispatcher := .popping } := by
            unfold State.dispatchKeyEvents
            rw [here]
            exact if_neg (not_not_intro atEnd)
          exact ⟨1, last⟩
      · next before =>
          -- one step calls the handler, the next one returns from it
          have called : s.dispatchKeyEvents =
              { s with dispatcher := .handling e idx, calls := s.call e s.calls idx } := by
            unfold State.dispatchKeyEvents
            rw [here]
            exact if_pos before
          obtain ⟨n, run⟩ := ih
            { s with
              dispatcher := .calling e (RingBuffer.forwardWrap CAPACITY idx)
              calls := s.call e s.calls idx } rfl loop
          refine ⟨n + 2, ?_⟩
          rw [Function.iterate_add_apply, Function.iterate_succ_apply, Function.iterate_one, called]
          exact run

/-- What one event brings about, in every state that the keyboard can be in. -/
theorem dispatch_reaches [DecidableEq T] {s : State H T} {e : Event} (inv : Inv s)
    (here : s.dispatcher = .calling e s.subscribers.begin_) :
    ∃ n, (machine H T).run s (List.replicate n .dispatch) =
      .ok { s with
        dispatcher := .popping
        calls := if s.subscribers.size < CAPACITY then s.subscribers.places.foldl (s.call e) s.calls
          else s.calls } := by
  have holds := inv.subscribers
  have size : s.subscribers.size = s.subscribers.contents.length := holds.count
  have bounded := holds.fits
  split
  · next room =>
      rw [size] at room
      obtain ⟨n, steps⟩ := dispatch_forEach s here (holds.forEach room (s.call e) s.calls)
      exact ⟨n, (run_dispatch s n).trans (congrArg Except.ok steps)⟩
  · next noRoom =>
      rw [size] at noRoom
      obtain ⟨n, steps⟩ := dispatch_forEach s here
        (holds.forEach_full (by omega) (s.call e) s.calls)
      exact ⟨n, (run_dispatch s n).trans (congrArg Except.ok steps)⟩

end Tyleros.Keyboard
