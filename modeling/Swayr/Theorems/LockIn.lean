import Mathlib.Data.List.Nodup
import Swayr.Focus.LockIn
import Swayr.Focus.Monitor

/-!
# The lock-in thread keeps the LRU order

Three guarantees of `focus_lock_in_handler` over runs of any length: events
are locked in in order and at most once, so ticks only grow; with `seq_inhibit`
no activate finds the last focus event missing; and between an inhibit and the
next activate the ticks are frozen.
-/

namespace Swayr.Theorems.LockIn

open Kit Swayr.Focus

/-- The operations on the tick map, in the order in which they take its write
lock: a receive of the lock-in thread with the lock-ins it causes, and the
monitor thread's two. -/
inductive TickOp
  | recv (r : Recv)
  | ensureId (id : Int)
  | removeFocusData (id : Int)
deriving DecidableEq, Repr

/-- The lock-in thread and the tick map it writes, interleaved with the
monitor's operations on the map. -/
def lockInWithMap (seqInhibit : Bool) :
    Transducer (LockIn × TickMap) TickOp FocusEvent where
  step s op :=
    match op with
    | .recv r =>
        let fevs := (focusLockInHandler seqInhibit).emit s.1 r
        (((focusLockInHandler seqInhibit).next s.1 r, fevs.foldl TickMap.lockIn s.2), fevs)
    | .ensureId id => ((s.1, s.2.ensureId id), [])
    | .removeFocusData id => ((s.1, s.2.removeFocusData id), [])

/-- The receives among the operations. -/
def recvs (ops : List TickOp) : List Recv :=
  ops.filterMap fun
    | .recv r => some r
    | _ => none

/-- The daemon's start: the handler in its outer loop, no ticks recorded. -/
abbrev begin : LockIn × TickMap := (.start, .empty)

/-- The monitor's operations do not disturb the handler. -/
theorem outputs_lockInWithMap (seqInhibit : Bool) (ops : List TickOp)
    (s : LockIn) (m : TickMap) :
    (lockInWithMap seqInhibit).outputs (s, m) ops =
      (focusLockInHandler seqInhibit).outputs s (recvs ops) := by
  induction ops generalizing s m with
  | nil => rfl
  | cons op rest ih =>
      cases op with
      | recv r =>
          change _ ++ (lockInWithMap seqInhibit).outputs _ rest =
            _ ++ (focusLockInHandler seqInhibit).outputs _ (recvs rest)
          rw [← ih]
          rfl
      | ensureId id => exact ih s _
      | removeFocusData id => exact ih s _

/-! ## Ticks come from the events passed on -/

/-- Every stored tick is the initial 0 or the counter of an event passed on. -/
def TicksFrom (m : TickMap) (passed : List FocusEvent) : Prop :=
  ∀ id t, m id = some t → t = 0 ∨ ∃ fev ∈ passed, fev.evFocusCtr = t

/-- The tick that is stored is the counter of the event. -/
theorem TicksFrom.lockIn {m : TickMap} {passed : List FocusEvent}
    (h : TicksFrom m passed) (fev : FocusEvent) :
    TicksFrom (m.lockIn fev) (passed ++ [fev]) := by
  intro id t ht
  rw [TickMap.lockIn, TickMap.updateLastFocusTick_apply] at ht
  split at ht
  · obtain ⟨_, _, rfl⟩ := Option.map_eq_some_iff.mp ht
    exact .inr ⟨fev, by simp, rfl⟩
  · rcases h id t ht with h0 | ⟨old, hold, hctr⟩
    · exact .inl h0
    · exact .inr ⟨old, List.mem_append_left _ hold, hctr⟩

/-- Locking in a newer event does not lower any tick. -/
theorem lockIn_mono {m : TickMap} {passed : List FocusEvent} {fev : FocusEvent}
    (h : TicksFrom m passed) (hnew : ∀ old ∈ passed, old.evFocusCtr < fev.evFocusCtr)
    (id : Int) : m.lastFocusTick id ≤ (m.lockIn fev).lastFocusTick id := by
  unfold TickMap.lastFocusTick
  rw [TickMap.lockIn, TickMap.updateLastFocusTick_apply]
  split
  · rename_i heq
    subst heq
    cases hm : m fev.nodeId with
    | none => simp
    | some t =>
        rcases h _ t hm with h0 | ⟨old, hold, hctr⟩
        · simp [h0]
        · have := hnew old hold
          simp only [Option.map_some, Option.getD_some]
          omega
  · exact Nat.le_refl _

/-- Locking in several events, each newer than all before it, lowers no tick
and keeps the ticks accounted for. -/
theorem foldl_lockIn {m : TickMap} {passed : List FocusEvent} (fevs : List FocusEvent)
    (h : TicksFrom m passed)
    (hinc : (passed ++ fevs).Pairwise (·.evFocusCtr < ·.evFocusCtr)) :
    TicksFrom (fevs.foldl TickMap.lockIn m) (passed ++ fevs) ∧
      ∀ id, m.lastFocusTick id ≤ (fevs.foldl TickMap.lockIn m).lastFocusTick id := by
  induction fevs generalizing m passed with
  | nil => exact ⟨by simpa using h, fun _ => Nat.le_refl _⟩
  | cons fev rest ih =>
      have hnew : ∀ old ∈ passed, old.evFocusCtr < fev.evFocusCtr :=
        fun old hold => (List.pairwise_append.mp hinc).2.2 old hold fev List.mem_cons_self
      rw [show passed ++ fev :: rest = passed ++ [fev] ++ rest by simp] at hinc ⊢
      obtain ⟨hfrom, hmono⟩ := ih (h.lockIn fev) hinc
      exact ⟨hfrom, fun id => Nat.le_trans (lockIn_mono h hnew id) (hmono id)⟩

variable {seqInhibit : Bool}

/-- Only events that were received are passed on, in their order. -/
theorem outputs_sublist (seqInhibit : Bool) (ops : List TickOp) :
    ((lockInWithMap seqInhibit).outputs begin ops).Sublist (focusEvents (recvs ops)) := by
  rw [outputs_lockInWithMap]
  exact (List.sublist_append_left _ _).trans (handler_sublist _)

/-- The events passed on have strictly increasing counters if the received
ones have. -/
theorem outputs_increasing (seqInhibit : Bool) (ops : List TickOp)
    (hinc : (focusEvents (recvs ops)).Pairwise (·.evFocusCtr < ·.evFocusCtr)) :
    ((lockInWithMap seqInhibit).outputs begin ops).Pairwise
      (·.evFocusCtr < ·.evFocusCtr) :=
  hinc.sublist (outputs_sublist seqInhibit ops)

theorem recvs_append (xs ys : List TickOp) : recvs (xs ++ ys) = recvs xs ++ recvs ys :=
  List.filterMap_append

theorem increasing_of_append {xs ys : List TickOp}
    (hinc : (focusEvents (recvs (xs ++ ys))).Pairwise (·.evFocusCtr < ·.evFocusCtr)) :
    (focusEvents (recvs xs)).Pairwise (·.evFocusCtr < ·.evFocusCtr) := by
  rw [recvs_append, focusEvents, List.filterMap_append] at hinc
  exact (List.pairwise_append.mp hinc).1

/-- After any run the stored ticks are accounted for by the events passed on. -/
theorem ticksFrom_run (seqInhibit : Bool) (ops : List TickOp)
    (hinc : (focusEvents (recvs ops)).Pairwise (·.evFocusCtr < ·.evFocusCtr)) :
    TicksFrom ((lockInWithMap seqInhibit).run begin ops).2
      ((lockInWithMap seqInhibit).outputs begin ops) := by
  induction ops using List.reverseRecOn with
  | nil => intro id t ht; simp [TickMap.empty] at ht
  | append_singleton ops op ih =>
      have hall := outputs_increasing seqInhibit _ hinc
      have hfrom := ih (increasing_of_append hinc)
      rw [Transducer.outputs_append] at hall ⊢
      rw [Transducer.run_append]
      -- What is received may lock events in; the monitor's operations add or remove an entry
      -- without a tick of their own.
      cases op with
      | recv r =>
          simp only [Transducer.outputs_cons, Transducer.outputs_nil,
            List.append_nil] at hall ⊢
          exact (foldl_lockIn _ hfrom hall).1
      | ensureId id =>
          intro j t ht
          change TickMap.ensureId _ id j = some t at ht
          rw [TickMap.ensureId_apply] at ht
          split at ht
          · rename_i heq
            subst heq
            cases hm : ((lockInWithMap seqInhibit).run begin ops).2 j with
            | none =>
                rw [hm] at ht
                exact .inl (by simpa using ht.symm)
            | some t' =>
                rw [hm] at ht
                simp only [Option.getD_some, Option.some.injEq] at ht
                simpa [← ht, Transducer.emit, lockInWithMap] using hfrom j t' hm
          · simpa [Transducer.emit, lockInWithMap] using hfrom j t ht
      | removeFocusData id =>
          intro j t ht
          change TickMap.removeFocusData _ id j = some t at ht
          rw [TickMap.removeFocusData_apply] at ht
          split at ht
          · simp at ht
          · simpa [Transducer.emit, lockInWithMap] using hfrom j t ht

/-- One more operation lowers no tick of an id it leaves in the map. -/
theorem step_tick_mono (ops : List TickOp) (op : TickOp) (id : Int)
    (hinc : (focusEvents (recvs (ops ++ [op]))).Pairwise
      (·.evFocusCtr < ·.evFocusCtr))
    (hstay : (((lockInWithMap seqInhibit).run begin (ops ++ [op])).2 id).isSome) :
    TickMap.lastFocusTick ((lockInWithMap seqInhibit).run begin ops).2 id ≤
      TickMap.lastFocusTick ((lockInWithMap seqInhibit).run begin (ops ++ [op])).2 id := by
  have hall := outputs_increasing seqInhibit _ hinc
  have hfrom := ticksFrom_run seqInhibit ops (increasing_of_append hinc)
  rw [Transducer.outputs_append] at hall
  rw [Transducer.run_append] at hstay ⊢
  -- Ticks are written only from received events, whose counters increase; that the entry
  -- of `id` is removed is excluded by `hstay`.
  cases op with
  | recv r =>
      simp only [Transducer.outputs_cons, Transducer.outputs_nil, List.append_nil] at hall
      exact (foldl_lockIn _ hfrom hall).2 id
  | ensureId j =>
      change _ ≤ TickMap.lastFocusTick (TickMap.ensureId _ j) id
      unfold TickMap.lastFocusTick
      rw [TickMap.ensureId_apply]
      split <;> simp_all
  | removeFocusData j =>
      change (TickMap.removeFocusData _ j id).isSome at hstay
      change _ ≤ TickMap.lastFocusTick (TickMap.removeFocusData _ j) id
      unfold TickMap.lastFocusTick
      rw [TickMap.removeFocusData_apply] at hstay ⊢
      split <;> simp_all

/-- Along a stretch of operations during which an id stays in the map its tick
does not fall. -/
theorem stretch_tick_mono (pre post : List TickOp) (id : Int)
    (hinc : (focusEvents (recvs (pre ++ post))).Pairwise
      (·.evFocusCtr < ·.evFocusCtr))
    (hstay : ∀ mid, mid <+: post →
      (((lockInWithMap seqInhibit).run begin (pre ++ mid)).2 id).isSome) :
    TickMap.lastFocusTick ((lockInWithMap seqInhibit).run begin pre).2 id ≤
      TickMap.lastFocusTick ((lockInWithMap seqInhibit).run begin (pre ++ post)).2 id := by
  induction post using List.reverseRecOn with
  | nil => simp
  | append_singleton post op ih =>
      rw [← List.append_assoc] at hinc ⊢
      refine Nat.le_trans (ih (increasing_of_append hinc) ?_) ?_
      · exact fun mid hmid => hstay mid (hmid.trans (List.prefix_append _ _))
      · refine step_tick_mono (pre ++ post) op id hinc ?_
        rw [List.append_assoc]
        exact hstay _ List.prefix_rfl

/-- **Lock-in order.** If the received focus events carry strictly increasing
counters, then whatever the timeouts, the other messages and the monitor's map
operations in between, the events passed to `update_last_focus_tick` are a
subsequence of the received ones with strictly increasing counters, none
passed twice, and the tick of an id never falls while the id stays in the
map. -/
theorem lock_in_order (seqInhibit : Bool) (ops : List TickOp)
    (hinc : (focusEvents (recvs ops)).Pairwise (·.evFocusCtr < ·.evFocusCtr)) :
    ((lockInWithMap seqInhibit).outputs begin ops).Pairwise
        (·.evFocusCtr < ·.evFocusCtr) ∧
      ((lockInWithMap seqInhibit).outputs begin ops).Sublist (focusEvents (recvs ops)) ∧
      ((lockInWithMap seqInhibit).outputs begin ops).Nodup ∧
      ∀ pre post id, ops = pre ++ post →
        (∀ mid, mid <+: post →
          (((lockInWithMap seqInhibit).run begin (pre ++ mid)).2 id).isSome) →
        TickMap.lastFocusTick ((lockInWithMap seqInhibit).run begin pre).2 id ≤
          TickMap.lastFocusTick ((lockInWithMap seqInhibit).run begin ops).2 id := by
  have hout := outputs_increasing seqInhibit ops hinc
  refine ⟨hout, outputs_sublist seqInhibit ops, ?_, ?_⟩
  · refine hout.imp ?_
    rintro a b hlt rfl
    exact Nat.lt_irrefl _ hlt
  · rintro pre post id rfl hstay
    exact stretch_tick_mono pre post id hinc hstay

/-- The order guarantee at work: window 1 is focused and pends under an
inhibit, window 2 supersedes it, an activate locks window 2 in. -/
theorem lock_in_order_superseded :
    (lockInWithMap true).outputs begin
        [.ensureId 1, .ensureId 2, .recv (.msg (.focusEvent ⟨1, 1⟩)),
          .recv (.msg .tickUpdateInhibit), .recv (.msg (.focusEvent ⟨2, 2⟩)),
          .recv (.msg .tickUpdateActivate)] = [⟨2, 2⟩] ∧
      ((lockInWithMap true).outputs begin
        [.ensureId 1, .ensureId 2, .recv (.msg (.focusEvent ⟨1, 1⟩)),
          .recv (.msg .tickUpdateInhibit), .recv (.msg (.focusEvent ⟨2, 2⟩)),
          .recv (.msg .tickUpdateActivate)]).Nodup :=
  ⟨by decide, (lock_in_order true _ (by decide)).2.2.1⟩

/-- The monitor stamps its focus events with increasing counters, so as far as they
have been received they are locked in in the order in which sway reported them. -/
theorem monitor_events_in_order (seqInhibit : Bool) (evs : List SwayEvent) (n : Nat)
    (ops : List TickOp) (hrecv : focusEvents (recvs ops) <+: sentEvents n evs) :
    ((lockInWithMap seqInhibit).outputs begin ops).Pairwise
        (·.evFocusCtr < ·.evFocusCtr) ∧
      ((lockInWithMap seqInhibit).outputs begin ops).Sublist (sentEvents n evs) := by
  have hinc := (sentEvents_increasing evs n).1.sublist hrecv.sublist
  refine ⟨outputs_increasing seqInhibit ops hinc, ?_⟩
  exact (outputs_sublist seqInhibit ops).trans hrecv.sublist

/-! ## No focus event is lost, and inhibition freezes -/

/-- **No lost focus.** With `seq_inhibit`, take any run that received `fev` as
its latest focus event and then processes an activate: from the arrival of
`fev` on exactly `fev` was passed to `update_last_focus_tick`. -/
theorem activate_locks_in_last_focus (before after : List Recv) (fev : FocusEvent)
    (hbefore : ∀ r ∈ before, r ≠ .disconnected)
    (hlast : ∀ r ∈ after, r.event? = none)
    (hafter : ∀ r ∈ after, r ≠ .disconnected) :
    (focusLockInHandler true).outputs ((focusLockInHandler true).run .start before)
        (.msg (.focusEvent fev) :: after ++ [.msg .tickUpdateActivate]) = [fev] := by
  set s := (focusLockInHandler true).run .start before with hs
  have hinv : s.Inv := inv_run true before
  have hrun : s.loop ≠ .returned := by
    rw [hs]
    exact running_run before hbefore
  obtain ⟨hemit, hflight⟩ := step_focusEvent true hinv hrun fev
  set s₁ := (focusLockInHandler true).next s (.msg (.focusEvent fev)) with hs₁
  have hkept := run_keeps true (s := s₁)
    (after ++ [.msg .tickUpdateActivate]) hinv.next (next_running hrun (by simp))
    (by simpa [or_imp, forall_and, Recv.event?, FocusMessage.event?] using hlast)
    (by simpa [or_imp, forall_and] using hafter)
  -- the final activate empties the flight, so all of it was passed on
  have hempty : ((focusLockInHandler true).run s₁
      (after ++ [.msg .tickUpdateActivate])).inFlight = none := by
    rw [Transducer.run_append]
    exact step_activate ((focusLockInHandler true).invariant
      (fun _ _ h => h.next) hinv.next after)
  rw [hempty, hflight] at hkept
  rw [List.cons_append, Transducer.outputs_cons, hemit, ← hs₁]
  simpa using hkept

/-- Window 7 is focused during an inhibited sequence, time passes, and the nop
that ends the sequence locks it in. -/
theorem activate_locks_in_last_focus_after_timeout :
    (focusLockInHandler true).outputs
        ((focusLockInHandler true).run .start [.msg .tickUpdateInhibit])
        (.msg (.focusEvent ⟨7, 3⟩) :: [.timeout] ++ [.msg .tickUpdateActivate]) =
      [⟨7, 3⟩] :=
  activate_locks_in_last_focus _ _ _ (by decide) (by decide) (by decide)

/-- **LRU freeze.** With `seq_inhibit`, from an inhibit until the next activate
nothing is passed to `update_last_focus_tick`, in whichever loop the inhibit
arrives and whatever else arrives in between. -/
theorem inhibit_freezes (before after : List Recv)
    (hafter : ∀ r ∈ after, r ≠ .msg .tickUpdateActivate) :
    (focusLockInHandler true).outputs ((focusLockInHandler true).run .start before)
        (.msg .tickUpdateInhibit :: after) = [] := by
  have hinv := inv_run true before
  obtain ⟨hemit, hfrozen⟩ :=
    step_inhibit (s := (focusLockInHandler true).run .start before)
  rw [Transducer.outputs_cons, hemit, List.nil_append]
  exact run_frozen after hinv.next hfrozen hafter

/-- The inhibit arrives in the middle of a lock-in wait. -/
theorem inhibit_freezes_lock_in_wait :
    (focusLockInHandler true).outputs
        ((focusLockInHandler true).run .start [.msg (.focusEvent ⟨1, 1⟩)])
        [.msg .tickUpdateInhibit, .timeout, .msg (.focusEvent ⟨2, 2⟩), .timeout] = [] :=
  inhibit_freezes _ _ (by decide)

end Swayr.Theorems.LockIn
