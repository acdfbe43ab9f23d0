import Mathlib.Data.List.DropRight
import Swayr.Daemon.AutoNop

/-!
# When the auto-nop is lost

The auto-nop thread learns of a command only if its notification comes while
the thread waits. Having executed `Nop`, the thread lets go of the mutex before
it waits again, and so does a wait that timed out before it locks the mutex; a
notification issued there is lost.
-/

namespace Swayr.Theorems.AutoNop

open Kit Swayr.Daemon

/-- What has happened since the last executed auto-nop. -/
def sinceNop (as : List Action) : List Action := as.rtakeWhile (· ≠ .execNop)

/-- Since the last executed auto-nop a client's command has completed and its
notification has been issued. -/
def Owed (as : List Action) : Prop := [.complete, .notifyOne].Sublist (sinceNop as)

instance (as : List Action) : Decidable (Owed as) := inferInstanceAs (Decidable (List.Sublist _ _))

/-- Since the last executed auto-nop the thread has been woken from a wait. -/
def Noticed (as : List Action) : Prop :=
  ∃ before a since, as = before ++ a :: since ∧ .execNop ∉ since ∧
    (a = .notifyOne ∨ a = .spurious) ∧
    ∃ t, autoNopSystem.run .start before = some t ∧ t.autoNop = .waiting

/-- The auto-nop thread's own steps along a schedule. -/
def own (as : List Action) : List Action := as.filter (·.thread = .autoNop)

/-- When the wait times out now, the thread goes on to execute `Nop`: it can,
and it does nothing else before. -/
structure ExecutesNop (s : Daemon.AutoNop) : Prop where
  can : ∃ bs s', autoNopSystem.run s (.timeout :: bs) = some s' ∧ own bs = [.relock, .execNop]
  only : ∀ bs s', autoNopSystem.run s (.timeout :: bs) = some s' →
    (own bs).take 2 <+: [.relock, .execNop]

/-! ## What `inhibit` stands for -/

theorem noticed_append_singleton {as : List Action} {s : Daemon.AutoNop} {a : Action}
    (hrun : autoNopSystem.run .start as = some s) :
    Noticed (as ++ [a]) ↔ a ≠ .execNop ∧
      (Noticed as ∨ (a = .notifyOne ∨ a = .spurious) ∧ s.autoNop = .waiting) := by
  constructor
  · rintro ⟨before, b, since, heq, hsince, hb, t, ht, hwaiting⟩
    rcases append_singleton_eq_append_cons heq with ⟨rfl, rfl, rfl⟩ | ⟨front, rfl, rfl⟩
    · obtain rfl : s = t := Option.some.inj (hrun.symm.trans ht)
      refine ⟨?_, .inr ⟨hb, hwaiting⟩⟩
      rintro rfl
      simp at hb
    · simp only [List.mem_append, List.mem_singleton, not_or] at hsince
      exact ⟨Ne.symm hsince.2, .inl ⟨before, b, front, rfl, hsince.1, hb, t, ht, hwaiting⟩⟩
  · rintro ⟨ha, ⟨before, b, since, rfl, hsince, hb, hwaiting⟩ | ⟨hb, hwaiting⟩⟩
    · refine ⟨before, b, since ++ [a], by simp, ?_, hb, hwaiting⟩
      simp [hsince, Ne.symm ha]
    · exact ⟨as, a, [], rfl, by simp, hb, s, hrun, hwaiting⟩

/-- The thread has been woken and will clear `inhibit`. -/
def Woken (p : AutoNopPhase) : Prop := p = .leaving false ∨ p = .returned false

/-- A wake-up takes effect when the thread is through with its iteration. -/
structure InhibitInv (as : List Action) (s : Daemon.AutoNop) : Prop where
  run : autoNopSystem.run .start as = some s
  inhibit : ¬ Woken s.autoNop → (s.inhibit = true ↔ .execNop ∈ as ∧ ¬ Noticed as)
  woken : Woken s.autoNop → Noticed as

/-- A step that neither wakes the thread nor ends an iteration. -/
theorem InhibitInv.frame {as : List Action} {a : Action} {s s' : Daemon.AutoNop}
    (h : InhibitInv as s) (hrun : autoNopSystem.run .start (as ++ [a]) = some s')
    (ha : a ≠ .execNop) (hwake : ¬ ((a = .notifyOne ∨ a = .spurious) ∧ s.autoNop = .waiting))
    (hphase : Woken s'.autoNop ↔ Woken s.autoNop) (hinhibit : s'.inhibit = s.inhibit) :
    InhibitInv (as ++ [a]) s' := by
  have hnoticed : Noticed (as ++ [a]) ↔ Noticed as := by
    simp [noticed_append_singleton h.run, ha, hwake]
  have hmem : .execNop ∈ as ++ [a] ↔ .execNop ∈ as := by simp [Ne.symm ha]
  refine ⟨hrun, fun hw => ?_, fun hw => hnoticed.mpr (h.woken (hphase.mp hw))⟩
  rw [hinhibit, hmem, hnoticed]
  exact h.inhibit fun hs => hw (hphase.mpr hs)

/-- Each step of either thread keeps the record of what is owed. -/
theorem InhibitInv.step {as : List Action} {a : Action} {s s' : Daemon.AutoNop}
    (h : InhibitInv as s) (hstep : autoNopSystem.step s a = some s') :
    InhibitInv (as ++ [a]) s' := by
  have hrun : autoNopSystem.run .start (as ++ [a]) = some s' := by
    rw [Guarded.run_append_singleton, h.run]
    exact hstep
  have hnoticed := noticed_append_singleton (a := a) h.run
  -- Only a wake-up, the nop itself and the clearing of the flag change what the
  -- invariant is about; the other steps are framed.
  cases Daemon.AutoNop.Steps.of_step hstep with
  | notifyOne hphase =>
      by_cases hwaiting : s.autoNop = .waiting
      · have hnew : Noticed (as ++ [.notifyOne]) := hnoticed.mpr ⟨by simp, .inr ⟨by simp, hwaiting⟩⟩
        have hwoken : Woken s.autoNop.notifyOne := by simp [hwaiting, AutoNopPhase.notifyOne, Woken]
        exact ⟨hrun, fun hw => absurd hwoken hw, fun _ => hnew⟩
      · have hsame : s.autoNop.notifyOne = s.autoNop := by
          cases hauto : s.autoNop <;> first | rfl | exact absurd hauto hwaiting
        exact h.frame hrun (by simp) (by simp [hwaiting]) (by simp [hsame]) rfl
  | spurious hphase =>
      have hnew : Noticed (as ++ [.spurious]) := hnoticed.mpr ⟨by simp, .inr ⟨by simp, hphase⟩⟩
      exact ⟨hrun, fun hw => absurd (.inl rfl) hw, fun _ => hnew⟩
  | execNop hphase hinhibit =>
      refine ⟨hrun, fun _ => ?_, by simp [Woken]⟩
      simp [hnoticed]
  | clearInhibit hphase =>
      have hold : Noticed (as ++ [.clearInhibit]) :=
        hnoticed.mpr ⟨by simp, .inl (h.woken (.inr hphase))⟩
      exact ⟨hrun, by simp [hold], by simp [Woken]⟩
  | complete hphase => exact h.frame hrun (by simp) (by simp) .rfl rfl
  | requestLock hphase hmutex => exact h.frame hrun (by simp) (by simp) .rfl rfl
  | requestUnlock hphase => exact h.frame hrun (by simp) (by simp) .rfl rfl
  | lock hphase hmutex =>
      exact h.frame hrun (by simp) (by simp) (by simp [Woken, hphase]) rfl
  | wait hphase => exact h.frame hrun (by simp) (by simp) (by simp [Woken, hphase]) rfl
  | timeout hphase => exact h.frame hrun (by simp) (by simp) (by simp [Woken, hphase]) rfl
  | relock hphase hmutex =>
      exact h.frame hrun (by simp) (by simp) (by simp [Woken, hphase]) rfl
  | skipNop hphase hinhibit =>
      exact h.frame hrun (by simp) (by simp) (by simp [Woken, hphase]) rfl
  | unlock hphase => exact h.frame hrun (by simp) (by simp) (by simp [Woken, hphase]) rfl

theorem inhibitInv_run {as : List Action} {s : Daemon.AutoNop}
    (hrun : autoNopSystem.run .start as = some s) : InhibitInv as s := by
  refine autoNopSystem.history (P := InhibitInv) ⟨rfl, by simp [Daemon.AutoNop.start], ?_⟩
    (fun _ _ _ _ h hstep => h.step hstep) as s hrun
  simp [Woken, Daemon.AutoNop.start]

/-! ## What a timed-out wait leads to -/

/-- The branch the thread takes after a timed-out wait. -/
def answer (inhibit : Bool) : Action := if inhibit then .skipNop else .execNop

/-- Steps of the request thread leave a thread that is past its wait alone. -/
theorem request_step {s s' : Daemon.AutoNop} {a : Action} (ha : a.thread = .request)
    (hstep : s.Steps a s') (hwaiting : s.autoNop ≠ .waiting) :
    s'.autoNop = s.autoNop ∧ s'.inhibit = s.inhibit := by
  cases hstep with
  | notifyOne hphase =>
      refine ⟨?_, rfl⟩
      show s.autoNop.notifyOne = s.autoNop
      cases hauto : s.autoNop <;> first | rfl | exact absurd hauto hwaiting
  | complete _ | requestLock _ _ | requestUnlock _ => exact ⟨rfl, rfl⟩
  | lock _ _ | wait _ | timeout _ | spurious _ | relock _ _ | execNop _ _ | skipNop _ _
  | clearInhibit _ | unlock _ => simp [Action.thread] at ha

theorem own_cons_request {a : Action} (ha : a.thread = .request) (bs : List Action) :
    own (a :: bs) = own bs := by
  simp [own, ha]

theorem own_cons_autoNop {a : Action} (ha : a.thread = .autoNop) (bs : List Action) :
    own (a :: bs) = a :: own bs := by
  simp [own, ha]

/-- With the mutex back, the thread's next step is the branch `inhibit` decides. -/
theorem own_returned {bs : List Action} {s s' : Daemon.AutoNop}
    (hrun : autoNopSystem.run s bs = some s') (hphase : s.autoNop = .returned true) :
    (own bs).take 1 <+: [answer s.inhibit] := by
  induction bs generalizing s with
  | nil => simp [own]
  | cons a rest ih =>
      obtain ⟨s₁, hstep, hrest⟩ := Option.bind_eq_some_iff.mp hrun
      have hsteps := Daemon.AutoNop.Steps.of_step hstep
      cases ha : a.thread with
      | request =>
          obtain ⟨hphase₁, hinhibit⟩ := request_step ha hsteps (by simp [hphase])
          rw [own_cons_request ha, ← hinhibit]
          exact ih hrest (hphase₁.trans hphase)
      | autoNop =>
          rw [own_cons_autoNop ha]
          cases hsteps <;> simp_all [answer, Action.thread]

/-- After the time-out the thread first locks the mutex again. -/
theorem own_leaving {bs : List Action} {s s' : Daemon.AutoNop}
    (hrun : autoNopSystem.run s bs = some s') (hphase : s.autoNop = .leaving true) :
    (own bs).take 2 <+: [.relock, answer s.inhibit] := by
  induction bs generalizing s with
  | nil => simp [own]
  | cons a rest ih =>
      obtain ⟨s₁, hstep, hrest⟩ := Option.bind_eq_some_iff.mp hrun
      have hsteps := Daemon.AutoNop.Steps.of_step hstep
      cases ha : a.thread with
      | request =>
          obtain ⟨hphase₁, hinhibit⟩ := request_step ha hsteps (by simp [hphase])
          rw [own_cons_request ha, ← hinhibit]
          exact ih hrest (hphase₁.trans hphase)
      | autoNop =>
          rw [own_cons_autoNop ha]
          -- A thread that leaves its wait can only take the mutex again.
          cases hsteps with
          | @relock timedOut hleaving hmutex =>
              obtain rfl : timedOut = true := by simpa [hphase] using hleaving.symm
              have hbranch := own_returned hrest rfl
              simpa using hbranch
          | lock _ _ | wait _ | timeout _ | spurious _ | execNop _ _ | skipNop _ _
          | clearInhibit _ | unlock _ => simp_all
          | complete _ | requestLock _ _ | notifyOne _ | requestUnlock _ =>
              simp [Action.thread] at ha

/-- A timed-out wait that is not inhibited can go on to execute `Nop`, once the
request thread has let go of the mutex. -/
theorem exists_execNop {s : Daemon.AutoNop} (hmutex : s.MutexInv) (hwaiting : s.autoNop = .waiting)
    (hinhibit : s.inhibit = false) :
    ∃ bs s', autoNopSystem.run s (.timeout :: bs) = some s' ∧ own bs = [.relock, .execNop] := by
  have hauto : s.mutex ≠ some .autoNop := fun h => by simpa [hwaiting] using hmutex.autoNop.mp h
  -- The request thread gives the mutex back before the other one needs it.
  cases hrequest : s.request with
  | accepting | completed =>
      have hfree : s.mutex = none := by
        cases hm : s.mutex with
        | none => rfl
        | some t =>
            cases t with
            | autoNop => exact absurd hm hauto
            | request => simpa [hrequest] using hmutex.request.mp hm
      exact ⟨[.relock, .execNop],
        { s with autoNop := .done, inhibit := true, mutex := some .autoNop },
        by simp [Guarded.run, autoNopSystem, hwaiting, hinhibit, hfree], rfl⟩
  | locked =>
      exact ⟨[.notifyOne, .requestUnlock, .relock, .execNop],
        ⟨.accepting, .done, true, some .autoNop⟩, by
        simp [Guarded.run, autoNopSystem, hwaiting, hinhibit, hrequest,
          AutoNopPhase.notifyOne], rfl⟩
  | notified =>
      exact ⟨[.requestUnlock, .relock, .execNop],
        ⟨.accepting, .done, true, some .autoNop⟩, by
        simp [Guarded.run, autoNopSystem, hwaiting, hinhibit, hrequest], rfl⟩

/-- A waiting thread that is woken executes the nop unless it is inhibited. -/
theorem executesNop_iff {s : Daemon.AutoNop} (hmutex : s.MutexInv)
    (hwaiting : s.autoNop = .waiting) : ExecutesNop s ↔ s.inhibit = false := by
  have hnext : ∀ bs s', autoNopSystem.run s (.timeout :: bs) = some s' →
      (own bs).take 2 <+: [.relock, answer s.inhibit] := by
    intro bs s' hrun
    obtain ⟨s₁, hstep, hrest⟩ := Option.bind_eq_some_iff.mp hrun
    cases Daemon.AutoNop.Steps.of_step hstep with
    | timeout _ =>
        have hbranch := own_leaving hrest rfl
        exact hbranch
  constructor
  · rintro ⟨⟨bs, s', hrun, hown⟩, -⟩
    have hbranch := hnext bs s' hrun
    rw [hown] at hbranch
    cases hinhibit : s.inhibit with
    | false => rfl
    | true => simp [answer, hinhibit] at hbranch
  · intro hinhibit
    refine ⟨exists_execNop hmutex hwaiting hinhibit, fun bs s' hrun => ?_⟩
    simpa [answer, hinhibit] using hnext bs s' hrun

/-- **When the auto-nop is lost.** Take any interleaving after which the wait of
the auto-nop thread may time out. If a command has completed and notified since
the last executed auto-nop, the thread executes `Nop`: this holds unless an
auto-nop has been executed and no notification since then, nor a wake-up for no
reason, found the thread waiting. -/
theorem executes_owed_nop_iff {as : List Action} {s : Daemon.AutoNop}
    (hrun : autoNopSystem.run .start as = some s) (hwaiting : s.autoNop = .waiting) :
    (Owed as → ExecutesNop s) ↔ ¬ (Owed as ∧ .execNop ∈ as ∧ ¬ Noticed as) := by
  have hinv := (inhibitInv_run hrun).inhibit (by simp [Woken, hwaiting])
  rw [executesNop_iff (Daemon.AutoNop.mutexInv_run hrun) hwaiting, ← hinv]
  cases s.inhibit <;> simp

/-- The thread executes `Nop` at the start, waits again, and is then notified
of a command. -/
def noticedCommand : List Action :=
  [.lock, .wait, .timeout, .relock, .execNop, .unlock, .lock, .wait,
    .complete, .requestLock, .notifyOne, .requestUnlock,
    .relock, .clearInhibit, .unlock, .lock, .wait]

/-- A command, and then the notification for it. -/
theorem executes_owed_nop_iff_noticed :
    ∃ s, autoNopSystem.run .start noticedCommand = some s ∧ Owed noticedCommand ∧
      ExecutesNop s := by
  refine ⟨_, rfl, by decide, ?_⟩
  refine (@executes_owed_nop_iff noticedCommand _ rfl rfl).mpr ?_ (by decide)
  rintro ⟨-, -, hnot⟩
  exact hnot ⟨noticedCommand.take 10, .notifyOne, noticedCommand.drop 11, rfl, by decide,
    .inl rfl, _, rfl, rfl⟩

/-- The command completes while the thread is on its way from the executed
auto-nop to its next wait. -/
def lostCommand : List Action :=
  [.lock, .wait, .timeout, .relock, .execNop, .unlock,
    .complete, .requestLock, .notifyOne, .requestUnlock, .lock, .wait]

/-- The notification finds nobody waiting, and the next time-out finds the
auto-nop still inhibited. -/
theorem notification_lost :
    ∃ s s', autoNopSystem.run .start lostCommand = some s ∧ s.autoNop = .waiting ∧
      Owed lostCommand ∧ autoNopSystem.run s [.timeout, .relock, .skipNop] = some s' ∧
      ¬ ExecutesNop s := by
  refine ⟨_, _, rfl, rfl, by decide, rfl, fun h => ?_⟩
  have hnext := h.only [.relock, .skipNop] _ rfl
  revert hnext
  decide

end Swayr.Theorems.AutoNop
